import XmlTable.Proofs.Phases
import XmlTable.Proofs.Progress
import XmlTable.Proofs.Tandem
import XmlTable.Reader

/-!
# What a reader may rely on

A contract says of two receivers that they answer events that come in order alike, and what is known
of them in between. What a reader does on its own keeps to the contract: its reports go into the
journal, are not fatal, and leave the receivers as they are. A contract of a receiver with itself
says what is true of that receiver; one with another receiver says that readers go the same way with
both.
-/

namespace XmlTable

/-! ### Reports that are not fatal -/

/-- The report is that of the failure that ended the construction. -/
def Report.isFatal : Report → Bool
  | fatal _ => true
  | warning _ | error _ => false

namespace Journal

/-- A journal goes on from another, without a fatal report. -/
structure Continues (journal journal' : Journal) : Prop where
  /-- The handler is the same. -/
  handler : journal'.handler = journal.handler
  /-- The reports go on, and those that were added are not fatal. -/
  reports : ∃ more, journal'.reports.toList = journal.reports.toList ++ more ∧
    ∀ report ∈ more, report.isFatal = false

variable {journal journal' journal'' : Journal}

theorem Continues.refl (journal : Journal) : journal.Continues journal :=
  ⟨rfl, [], (List.append_nil _).symm, nofun⟩

theorem Continues.trans (h : journal.Continues journal') (h' : journal'.Continues journal'') :
    journal.Continues journal'' := by
  obtain ⟨more, hm, plain⟩ := h.reports
  obtain ⟨later, hl, plain'⟩ := h'.reports
  refine ⟨h'.handler.trans h.handler, more ++ later, ?_, fun report hr => ?_⟩
  · rw [hl, hm, List.append_assoc]
  · exact (List.mem_append.1 hr).elim (plain report) (plain' report)

theorem continues_warn (journal : Journal) (message : String) :
    journal.Continues (journal.warn message) :=
  ⟨rfl, [.warning message], Array.toList_push, List.forall_mem_singleton.2 rfl⟩

theorem continues_error (journal : Journal) (cause : Failure) :
    journal.Continues (journal.error cause).2 :=
  ⟨rfl, [.error cause], Array.toList_push, List.forall_mem_singleton.2 rfl⟩

end Journal

namespace Subset

variable {α β : Type}

/-- The work reports nothing fatal. -/
def Tells (work : Scanning α) : Prop :=
  ∀ journal : Journal, journal.Continues (work.run.run journal).2

namespace Tells

theorem pure (a : α) : Tells (pure a) := .refl

theorem throw (stop : Stop) : Tells (MonadExcept.throw stop : Scanning α) := .refl

theorem bind {work : Scanning α} {next : α → Scanning β} (h : Tells work)
    (hn : ∀ a, Tells (next a)) : Tells (work >>= next) := by
  intro journal
  have first := h journal
  rw [Scanning.run_bind]
  split <;> next heq =>
    rw [heq] at first
    first
      | exact first.trans (hn _ _)
      | exact first

theorem warn (message : Option String) : Tells (Subset.warn message) := by
  cases message with
  | none => exact .refl
  | some message => exact fun journal => journal.continues_warn message

theorem report (position : Nat) (fault : Fault) : Tells (Subset.report position fault) := by
  refine bind (fun journal => journal.continues_error _) fun recovery => ?_
  cases recovery with
  | proceed => exact pure _
  | abort => exact throw _

theorem scanItem (position : Unit → Nat) (declarations : Declarations) (cs : List Char) :
    Tells (Subset.scanItem position declarations cs) := by
  rw [scanItem_eq]
  cases readItem declarations cs with
  | ok declared => exact bind (warn _) fun _ => pure _
  | error fault => exact bind (report _ _) fun _ => pure _

/-- A scan of an internal subset reports nothing fatal. -/
theorem scan (patience base : Nat) (subset : String) :
    Tells (Subset.scan patience base subset) := by
  have from' : ∀ (base total fuel : Nat) (declarations : Declarations) (cs : List Char),
      Tells (scanFrom base total fuel declarations cs) := by
    intro base total fuel
    induction fuel with
    | zero => exact fun _ _ => throw _
    | succ fuel ih =>
      intro declarations cs
      unfold scanFrom
      split
      · exact pure _
      · refine bind (scanItem _ _ _) fun found => ?_
        split
        · exact ih _ _
        · exact pure _
  exact from' _ _ _ _ _

end Tells

end Subset

/-! ### Work of readers that goes the same way -/

namespace Delivery

variable {σ σ' α β : Type}

/-- How work of a reader ends: with an answer or early, and with what is left of the reader and of
the receiver. -/
def ending (work : Delivery σ α) (reader : Reader) (s : σ × Journal) :
    (Except Stop α × Reader) × (σ × Journal) :=
  (work.run.run reader).run s

/-- Two pieces of work end alike: with the same answer or the same reason to stop, and with the
same reader. -/
inductive EndAlike (onOk : α → Reader → σ × Journal → σ' × Journal → Prop)
    (onStop : Stop → σ × Journal → σ' × Journal → Prop) :
    (Except Stop α × Reader) × (σ × Journal) → (Except Stop α × Reader) × (σ' × Journal) → Prop
  | ok {a : α} {reader : Reader} {t : σ × Journal} {t' : σ' × Journal} : onOk a reader t t' →
    EndAlike onOk onStop ((.ok a, reader), t) ((.ok a, reader), t')
  | stop {stop : Stop} {reader : Reader} {t : σ × Journal} {t' : σ' × Journal} : onStop stop t t' →
    EndAlike onOk onStop ((.error stop, reader), t) ((.error stop, reader), t')

/-- From one reader and two receivers, two pieces of work end alike. -/
def Alike (work : Delivery σ α) (work' : Delivery σ' α) (reader : Reader) (s : σ × Journal)
    (s' : σ' × Journal) (onOk : α → Reader → σ × Journal → σ' × Journal → Prop)
    (onStop : Stop → σ × Journal → σ' × Journal → Prop) : Prop :=
  EndAlike onOk onStop (work.ending reader s) (work'.ending reader s')

variable {work : Delivery σ α} {work' : Delivery σ' α} {next : α → Delivery σ β}
  {next' : α → Delivery σ' β} {reader : Reader} {s : σ × Journal} {s' : σ' × Journal}
  {onStop : Stop → σ × Journal → σ' × Journal → Prop}

theorem ending_bind (work : Delivery σ α) (next : α → Delivery σ β) :
    (work >>= next).ending reader s =
      match work.ending reader s with
      | ((.ok a, reader), t) => (next a).ending reader t
      | ((.error stop, reader), t) => ((.error stop, reader), t) := by
  change (match work.ending reader s with
    | ((r, reader), t) => ((ExceptT.bindCont next r).run reader).run t) = _
  rcases work.ending reader s with ⟨⟨_ | _, _⟩, _⟩ <;> rfl

theorem ending_tryCatch (work : Delivery σ α) (handle : Stop → Delivery σ α) :
    (tryCatch work handle).ending reader s =
      match work.ending reader s with
      | ((.ok a, reader), t) => ((.ok a, reader), t)
      | ((.error stop, reader), t) => (handle stop).ending reader t := by
  change ending (ExceptT.tryCatch work handle) reader s = _
  unfold ExceptT.tryCatch ending
  simp only [ExceptT.run, ExceptT.mk, StateT.run, bind, StateT.bind]
  rcases work reader s with ⟨⟨_ | _, _⟩, _⟩ <;> rfl

theorem EndAlike.mono {onOk onOk' : α → Reader → σ × Journal → σ' × Journal → Prop}
    {onStop' : Stop → σ × Journal → σ' × Journal → Prop}
    {r : (Except Stop α × Reader) × (σ × Journal)} {r' : (Except Stop α × Reader) × (σ' × Journal)}
    (h : EndAlike onOk onStop r r') (ok : ∀ a reader t t', onOk a reader t t' → onOk' a reader t t')
    (stop : ∀ cause t t', onStop cause t t' → onStop' cause t t') :
    EndAlike onOk' onStop' r r' := by
  cases h with
  | ok h => exact .ok (ok _ _ _ _ h)
  | stop h => exact .stop (stop _ _ _ h)

theorem Alike.bind {onOk : β → Reader → σ × Journal → σ' × Journal → Prop}
    (h : Alike work work' reader s s'
      (fun a reader t t' => Alike (next a) (next' a) reader t t' onOk onStop) onStop) :
    Alike (work >>= next) (work' >>= next') reader s s' onOk onStop := by
  unfold Alike at h ⊢
  rw [ending_bind, ending_bind]
  generalize work.ending reader s = r, work'.ending reader s' = r' at h ⊢
  cases h with
  | ok h => exact h
  | stop h => exact .stop h

theorem Alike.mono {onOk onOk' : α → Reader → σ × Journal → σ' × Journal → Prop}
    {onStop' : Stop → σ × Journal → σ' × Journal → Prop}
    (h : Alike work work' reader s s' onOk onStop)
    (ok : ∀ a reader t t', onOk a reader t t' → onOk' a reader t t')
    (stop : ∀ cause t t', onStop cause t t' → onStop' cause t t') :
    Alike work work' reader s s' onOk' onStop' :=
  EndAlike.mono h ok stop

/-- What follows a look at the reader may use it. -/
theorem Alike.get {next : Reader → Delivery σ β} {next' : Reader → Delivery σ' β}
    {onOk : β → Reader → σ × Journal → σ' × Journal → Prop}
    (h : Alike (next reader) (next' reader) reader s s' onOk onStop) :
    Alike (get >>= next) (get >>= next') reader s s' onOk onStop :=
  h

/-- What follows a change of the reader starts from the new one. -/
theorem Alike.modify {f : Reader → Reader} {next : Unit → Delivery σ β}
    {next' : Unit → Delivery σ' β} {onOk : β → Reader → σ × Journal → σ' × Journal → Prop}
    (h : Alike (next ()) (next' ()) (f reader) s s' onOk onStop) :
    Alike (modify f >>= next) (modify f >>= next') reader s s' onOk onStop :=
  h

end Delivery

/-! ### Contracts -/

/-- The event is part of character data. -/
def Event.isCharacterData : Event → Bool
  | characters .. | entityReference _ => true
  | _ => false

/-- The event is part of character data in which references are expanded. CDATA sections have no
references. -/
def Event.isExpanded : Event → Bool
  | characters _ flags => !flags.cdata
  | entityReference _ => true
  | _ => false

/-- Two receivers answer events that come in order alike, and whatever else is reported meanwhile
does not matter to what is known of them. -/
structure Contract {σ σ' : Type} (sink : Sink σ) (sink' : Sink σ') where
  /-- What is known of the receivers in a phase. -/
  holds : Phase → σ × Journal → σ' × Journal → Prop
  /-- What is known of the receivers after they refused an event in a phase. -/
  refused : Phase → Event → Failure → σ × Journal → σ' × Journal → Prop
  /-- The same was reported. -/
  journal : ∀ {phase : Phase} {s : σ × Journal} {s' : σ' × Journal}, holds phase s s' → s'.2 = s.2
  /-- Further reports do not matter. -/
  tell : ∀ {phase : Phase} {s : σ × Journal} {s' : σ' × Journal} {journal : Journal},
    holds phase s s' → s.2.Continues journal → holds phase (s.1, journal) (s'.1, journal)
  /-- Events that come in order are answered alike. -/
  accept : ∀ {phase next : Phase} {event : Event} {s : σ × Journal} {s' : σ' × Journal},
    holds phase s s' → phase.next? event = some next →
    Reporting.EndAlike (fun _ => False) (fun _ _ t t' => holds next t t')
      (fun cause t t' => refused phase event cause t t') ((sink.accept event).run.run s)
      ((sink'.accept event).run.run s')

namespace Contract

variable {σ σ' α β : Type} {sink : Sink σ} {sink' : Sink σ'} (C : Contract sink sink')

/-- The reader stopped on its own, before the document had ended, or because an event that came in
order was refused. A failure of character data that is not a CDATA section may have been placed at a
position. -/
inductive Stopped : Stop → σ × Journal → σ' × Journal → Prop
  | alone {phase : Phase} {stop : Stop} {s : σ × Journal} {s' : σ' × Journal} :
    C.holds phase s s' → phase ≠ .ended → Stopped stop s s'
  | refused {phase next : Phase} {event : Event} {cause placed : Failure} {s : σ × Journal}
    {s' : σ' × Journal} : phase.next? event = some next → C.refused phase event cause s s' →
    (placed = cause ∨ event.isExpanded = true ∧ ∃ position, placed = cause.locate position) →
    Stopped (.failure placed) s s'

/-- Work that a reader does on its own: it delivers nothing and opens and closes nothing. -/
def Alone (work : Delivery σ α) (work' : Delivery σ' α) : Prop :=
  ∀ (phase : Phase) (reader : Reader) (s : σ × Journal) (s' : σ' × Journal), C.holds phase s s' →
    work.Alike work' reader s s'
      (fun _ reader' t t' => C.holds phase t t' ∧ reader'.openElements = reader.openElements ∧
        reader'.seenRoot = reader.seenRoot)
      fun _ t t' => C.holds phase t t'

variable {C}

namespace Alone

theorem pure (a : α) : C.Alone (pure a) (pure a) :=
  fun _ _ _ _ h => .ok ⟨h, rfl, rfl⟩

theorem throw (stop : Stop) : C.Alone (α := α) (throw stop) (throw stop) :=
  fun _ _ _ _ h => .stop h

theorem get : C.Alone get get :=
  fun _ _ _ _ h => .ok ⟨h, rfl, rfl⟩

theorem modify {f : Reader → Reader} (hf : ∀ reader, (f reader).openElements = reader.openElements ∧
    (f reader).seenRoot = reader.seenRoot) : C.Alone (modify f) (modify f) :=
  fun _ reader _ _ h => .ok ⟨h, (hf reader).1, (hf reader).2⟩

theorem bind {work : Delivery σ α} {work' : Delivery σ' α} {next : α → Delivery σ β}
    {next' : α → Delivery σ' β} (h : C.Alone work work') (hn : ∀ a, C.Alone (next a) (next' a)) :
    C.Alone (work >>= next) (work' >>= next') := by
  intro phase reader s s' hs
  refine Delivery.Alike.bind ((h phase reader s s' hs).mono ?_ fun _ _ _ ht => ht)
  rintro a reader' t t' ⟨ht, opens, seen⟩
  refine (hn a phase reader' t t' ht).mono ?_ fun _ _ _ hu => hu
  rintro b reader'' u u' ⟨hu, opens', seen'⟩
  exact ⟨hu, opens'.trans opens, seen'.trans seen⟩

/-- After work of its own a reader goes on with what is known of the receivers. -/
theorem andThen {work : Delivery σ α} {work' : Delivery σ' α} {next : α → Delivery σ β}
    {next' : α → Delivery σ' β} (h : C.Alone work work') {phase : Phase} {reader : Reader}
    {s : σ × Journal} {s' : σ' × Journal} (hs : C.holds phase s s') (hne : phase ≠ .ended)
    {onOk : β → Reader → σ × Journal → σ' × Journal → Prop}
    (hn : ∀ a reader' t t', reader'.openElements = reader.openElements →
      reader'.seenRoot = reader.seenRoot → C.holds phase t t' →
      Delivery.Alike (next a) (next' a) reader' t t' onOk C.Stopped) :
    Delivery.Alike (work >>= next) (work' >>= next') reader s s' onOk C.Stopped :=
  Delivery.Alike.bind <| (h phase reader s s' hs).mono
    (fun a reader' t t' ⟨ht, opens, seen⟩ => hn a reader' t t' opens seen ht)
    fun _ _ _ ht => .alone ht hne

end Alone

/-! ### Where a reader stands -/

end Contract

/-- A reader stands in a phase: it has as many elements open, and has seen the document element if
it has begun. -/
def Reader.At (reader : Reader) : Phase → Prop
  | .prolog => reader.openElements = [] ∧ reader.seenRoot = false
  | .inside depth => reader.openElements.length = depth + 1 ∧ reader.seenRoot = true
  | .epilog => reader.openElements = [] ∧ reader.seenRoot = true
  | .before | .ended => False

namespace Reader.At

variable {reader reader' : Reader} {phase : Phase}

theorem ne_ended (h : reader.At phase) : phase ≠ .ended := by
  rintro rfl
  exact h

theorem of_eq (h : reader.At phase) (opens : reader'.openElements = reader.openElements)
    (seen : reader'.seenRoot = reader.seenRoot) : reader'.At phase := by
  cases phase <;> simp only [Reader.At, opens, seen] at h ⊢ <;> exact h

/-- Comments and processing instructions may come wherever a reader stands. -/
theorem next?_comment (h : reader.At phase) (text : String) :
    phase.next? (.comment text) = some phase := by
  cases phase <;> first | rfl | exact h.elim

theorem next?_instruction (h : reader.At phase) (target data : String) :
    phase.next? (.instruction target data) = some phase := by
  cases phase <;> first | rfl | exact h.elim

/-- An element may begin wherever a reader stands, but for the end of the document. -/
theorem next?_startElement (h : reader.At phase) (hne : phase ≠ .epilog) (name : String)
    (attributes : List Event.Attribute) : phase.next? (.startElement name attributes) =
      some (.inside reader.openElements.length) := by
  cases phase with
  | prolog =>
    rw [h.1]
    rfl
  | inside depth =>
    rw [h.1]
    rfl
  | epilog => exact absurd rfl hne
  | before => exact h.elim
  | ended => exact h.elim

/-- A reader with an open element stands in the document element. -/
theorem exists_inside (h : reader.At phase) (opens : reader.openElements ≠ []) :
    ∃ depth, phase = .inside depth := by
  cases phase with
  | inside depth => exact ⟨depth, rfl⟩
  | prolog => exact absurd h.1 opens
  | epilog => exact absurd h.1 opens
  | before => exact h.elim
  | ended => exact h.elim

/-- A reader that has not seen the document element stands before it. -/
theorem eq_prolog (h : reader.At phase) (unseen : reader.seenRoot = false) : phase = .prolog := by
  cases phase with
  | prolog => rfl
  | inside depth => cases unseen.symm.trans h.2
  | epilog => cases unseen.symm.trans h.2
  | before => exact h.elim
  | ended => exact h.elim

end Reader.At

namespace Contract

variable {σ σ' α β : Type} {sink : Sink σ} {sink' : Sink σ'} {C : Contract sink sink'}
  {phase : Phase}

variable (C) in
/-- Work that a reader does where it stands: it delivers events that may come there and lead nowhere
else, and opens and closes nothing. -/
def Within (phase : Phase) (work : Delivery σ α) (work' : Delivery σ' α) : Prop :=
  ∀ (reader : Reader) (s : σ × Journal) (s' : σ' × Journal), reader.At phase → C.holds phase s s' →
    Delivery.Alike work work' reader s s'
      (fun _ reader' t t' => C.holds phase t t' ∧ reader'.openElements = reader.openElements ∧
        reader'.seenRoot = reader.seenRoot)
      C.Stopped

theorem Alone.within {work : Delivery σ α} {work' : Delivery σ' α} (h : C.Alone work work') :
    C.Within phase work work' := fun reader s s' hr hs =>
  (h phase reader s s' hs).mono (fun _ _ _ _ ht => ht) fun _ _ _ ht => .alone ht hr.ne_ended

namespace Within

theorem pure (a : α) : C.Within phase (pure a) (pure a) :=
  (Alone.pure a).within

theorem bind {work : Delivery σ α} {work' : Delivery σ' α} {next : α → Delivery σ β}
    {next' : α → Delivery σ' β} (h : C.Within phase work work')
    (hn : ∀ a, C.Within phase (next a) (next' a)) :
    C.Within phase (work >>= next) (work' >>= next') := by
  intro reader s s' hr hs
  refine Delivery.Alike.bind ((h reader s s' hr hs).mono ?_ fun _ _ _ ht => ht)
  rintro a reader' t t' ⟨ht, opens, seen⟩
  refine (hn a reader' t t' (hr.of_eq opens seen) ht).mono ?_ fun _ _ _ hu => hu
  rintro b reader'' u u' ⟨hu, opens', seen'⟩
  exact ⟨hu, opens'.trans opens, seen'.trans seen⟩

end Within

end Contract

end XmlTable
