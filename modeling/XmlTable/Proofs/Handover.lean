import XmlTable.Proofs.Contracts
import XmlTable.Proofs.Nesting

/-!
# What a reader hands over

A reader delivers events in order, as long as the tokens close what they opened. With receivers that
have a contract it goes the same way: it delivers the same events, and it ends the same way, at the
end of the document, on its own, or because an event was refused.
-/

namespace XmlTable.Reader

variable {σ : Type}

/-- Do work that reports; if it fails the reading ends with what is made of the failure. -/
def perform (placed : Failure → Failure) (work : Reporting σ Unit) : Delivery σ Unit := do
  match ← attempt work with
  | .ok () => pure ()
  | .error cause => abandon (placed cause)

theorem report_eq (cause : Failure) :
    (report cause : Delivery σ Unit) = perform id (Reporting.report cause) :=
  rfl

theorem deliver_eq (sink : Sink σ) (event : Event) :
    deliver sink event = perform id (sink.accept event) :=
  rfl

theorem deliverAt_eq (sink : Sink σ) (position : Nat) (event : Event) :
    deliverAt sink position event = perform (·.locate position) (sink.accept event) :=
  rfl

theorem ending_perform (placed : Failure → Failure) (work : Reporting σ Unit) (reader : Reader)
    (s : σ × Journal) : (perform placed work).ending reader s =
      match work.run.run s with
      | (.ok (), t) => ((.ok (), reader), t)
      | (.error cause, t) => ((.error (.failure (placed cause)), reader), t) := by
  show (match work.run.run s with
    | (r, t) => Delivery.ending (match r with
      | .ok () => pure ()
      | .error cause => abandon (placed cause)) reader t) = _
  rcases work.run.run s with ⟨_ | _, _⟩ <;> rfl

/-- What is done for the start of an element that may begin. -/
def beginElement (sink : Sink σ) (position : Nat) (tag : Tag) : Delivery σ String := do
  let name ← decodeBytes "element name" tag.name
  let found := tag.attributes
  let written ← writtenAttributes position name found.list []
  match found.fault with
  | some fault => abandonAt position fault.message
  | none => pure ()
  let defaults := (← get).declarations.defaults name
  let attributes ← withDefaults position defaults written
  deliver sink (.startElement name attributes)
  return name

/-- An element may begin in another, or as the first document element. -/
theorem startElement_eq (sink : Sink σ) (position : Nat) (tag : Tag) :
    startElement sink position tag = (do
      let reader ← get
      if reader.openElements.isEmpty then
        if reader.seenRoot then abandonAt position "more than one document element"
        modify fun reader => { reader with seenRoot := true }
      beginElement sink position tag) :=
  rfl

end XmlTable.Reader

namespace XmlTable.Contract

open Reader Reference

variable {σ σ' α β : Type} {sink : Sink σ} {sink' : Sink σ'} {C : Contract sink sink'}
  {phase next : Phase} {reader : Reader} {s : σ × Journal} {s' : σ' × Journal}

/-! ### What a reader does on its own -/

theorem alone_report (cause : Failure) :
    C.Alone (Reader.report cause) (Reader.report cause) := by
  intro phase reader s s' hs
  have told := C.tell hs (s.2.continues_error cause)
  unfold Delivery.Alike
  rw [report_eq, report_eq, ending_perform, ending_perform, Reporting.run_report,
    Reporting.run_report, C.journal hs]
  cases (s.2.error cause).1 with
  | proceed => exact .ok ⟨told, rfl, rfl⟩
  | abort => exact .stop told

theorem alone_scanSubset (patience base : Nat) (subset : String) :
    C.Alone (scanSubset patience base subset) (scanSubset patience base subset) := by
  -- What a scan comes to depends on what was reported before, and that is the same.
  refine .bind (fun phase reader s s' hs => ?_) fun scanned => ?_
  · obtain ⟨state, journal⟩ := s
    obtain ⟨state', journal'⟩ := s'
    obtain rfl : journal' = journal := C.journal hs
    exact .ok ⟨C.tell hs (Subset.Tells.scan patience base subset journal'), rfl, rfl⟩
  · cases scanned with
    | ok declarations => exact .pure declarations
    | error stop => exact .throw stop

theorem alone_decodeBytes (part : String) (bytes : Bytes) :
    C.Alone (decodeBytes part bytes) (decodeBytes part bytes) := by
  unfold decodeBytes
  split
  · exact .pure _
  · exact .throw _

theorem alone_setBudget (budget : Budget) : C.Alone (setBudget budget) (setBudget budget) :=
  .modify fun _ => ⟨rfl, rfl⟩

theorem alone_expansionOf (text : String) : C.Alone (expansionOf text) (expansionOf text) :=
  .bind .get fun _ => .pure _

theorem alone_requireFaultless (position : Nat) (expansion : Expansion) :
    C.Alone (requireFaultless position expansion) (requireFaultless position expansion) := by
  unfold requireFaultless
  split
  · exact .throw _
  · exact .pure _

theorem alone_expandText (position : Nat) (text : String) :
    C.Alone (expandText position text) (expandText position text) :=
  .bind (alone_expansionOf _) fun _ => .bind (alone_setBudget _) fun _ =>
    .bind (alone_requireFaultless _ _) fun _ => .pure _

theorem alone_attributeValue (position : Nat) (written : String) :
    C.Alone (attributeValue position written) (attributeValue position written) := by
  refine .bind (alone_expandText _ _) fun expanded => ?_
  dsimp only
  split
  · exact .bind (alone_report _) fun _ => .pure _
  · exact .pure _

theorem alone_writtenAttributes (position : Nat) (element : String)
    (attributes : List Tag.Attribute) (done : List Event.Attribute) :
    C.Alone (writtenAttributes position element attributes done)
      (writtenAttributes position element attributes done) := by
  induction attributes generalizing done with
  | nil => exact .pure _
  | cons attr rest ih =>
    exact .bind (alone_decodeBytes _ _) fun _ => .bind (alone_decodeBytes _ _) fun _ =>
      .bind (alone_attributeValue _ _) fun _ => .bind .get fun _ => ih _

theorem alone_withDefaults (position : Nat)
    (defaults : List (Subset.AttributeDefinition × String)) (attributes : List Event.Attribute) :
    C.Alone (withDefaults position defaults attributes)
      (withDefaults position defaults attributes) := by
  induction defaults generalizing attributes with
  | nil => exact .pure _
  | cons default rest ih =>
    obtain ⟨definition, literal⟩ := default
    rw [withDefaults, withDefaults]
    split
    · exact ih _
    · exact .bind (alone_expandText _ _) fun _ => ih _

/-! ### Delivering -/

/-- An event that may come next is delivered alike, whatever is made of a failure. -/
private theorem alike_perform {event : Event} {placed : Failure → Failure}
    (hs : C.holds phase s s') (hn : phase.next? event = some next)
    (hp : ∀ cause, placed cause = cause ∨
      event.isExpanded = true ∧ ∃ position, placed cause = cause.locate position) :
    Delivery.Alike (perform placed (sink.accept event)) (perform placed (sink'.accept event))
      reader s s' (fun _ reader' t t' => reader' = reader ∧ C.holds next t t') C.Stopped := by
  have accepted := C.accept hs hn
  unfold Delivery.Alike
  rw [ending_perform, ending_perform]
  generalize (sink.accept event).run.run s = r, (sink'.accept event).run.run s' = r' at accepted ⊢
  cases accepted with
  | ok ht => exact .ok ⟨rfl, ht⟩
  | fail ht => exact .stop (.refused hn ht (hp _))
  | left h => exact h.elim
  | right h => exact h.elim

theorem deliver_alike {event : Event} (hs : C.holds phase s s')
    (hn : phase.next? event = some next) :
    Delivery.Alike (deliver sink event) (deliver sink' event) reader s s'
      (fun _ reader' t t' => reader' = reader ∧ C.holds next t t') C.Stopped :=
  alike_perform hs hn fun _ => .inl rfl

theorem within_deliver {event : Event} (hn : phase.next? event = some phase) :
    C.Within phase (deliver sink event) (deliver sink' event) := fun _ _ _ _ hs =>
  (deliver_alike hs hn).mono (fun _ _ _ _ ⟨same, ht⟩ => ⟨ht, by rw [same], by rw [same]⟩)
    fun _ _ _ ht => ht

theorem within_deliverAt {position : Nat} {event : Event} (hn : phase.next? event = some phase)
    (hc : event.isExpanded = true) :
    C.Within phase (deliverAt sink position event) (deliverAt sink' position event) :=
  fun _ _ _ _ hs => (alike_perform hs hn fun _ => .inr ⟨hc, position, rfl⟩).mono
    (fun _ _ _ _ ⟨same, ht⟩ => ⟨ht, by rw [same], by rw [same]⟩) fun _ _ _ ht => ht

/-! ### Character data and declarations -/

theorem within_deliverPieces (position : Nat) (elementsOnly : Bool) {depth : Nat}
    (pieces : List (Piece × Budget)) :
    C.Within (.inside depth) (deliverPieces sink position elementsOnly pieces)
      (deliverPieces sink' position elementsOnly pieces) := by
  induction pieces with
  | nil => exact .pure _
  | cons piece rest ih =>
    obtain ⟨piece, budget⟩ := piece
    refine .bind (alone_setBudget _).within fun _ => .bind (within_deliverAt ?_ ?_) fun _ => ih
    · cases piece <;> rfl
    · cases piece <;> rfl

theorem within_characters (position : Nat) (written : String) :
    C.Within phase (characters sink position written) (characters sink' position written) := by
  rintro ⟨declarations, openElements, seenRoot, budget⟩ s s' hr hs
  refine Delivery.Alike.get ?_
  cases openElements with
  | nil =>
    have refuses : C.Alone
        (if !Text.isAllSpace written then
          abandonAt position "text outside the document element" else pure ())
        (if !Text.isAllSpace written then
          abandonAt position "text outside the document element" else pure ()) := by
      split
      · exact .throw _
      · exact .pure _
    exact refuses.within _ s s' hr hs
  | cons elementsOnly outer =>
    obtain ⟨depth, rfl⟩ := hr.exists_inside nofun
    exact Within.bind (alone_expansionOf (Text.normalizeLineEnds written)).within (fun expansion =>
      .bind (within_deliverPieces position elementsOnly expansion.pieces) fun _ =>
        .bind (alone_setBudget expansion.budget).within fun _ =>
          (alone_requireFaultless position expansion).within) _ s s' hr hs

theorem within_deliverEntities (position : Nat) (entities : List (String × String)) :
    C.Within .prolog (deliverEntities sink position entities)
      (deliverEntities sink' position entities) := by
  induction entities with
  | nil => exact .pure _
  | cons entity rest ih =>
    obtain ⟨name, literal⟩ := entity
    exact .bind (alone_expandText _ _).within fun _ => .bind (within_deliver rfl) fun _ => ih

theorem within_doctype (patience position : Nat) (content : String) :
    C.Within .prolog (doctype sink patience position content)
      (doctype sink' patience position content) := by
  unfold doctype
  split
  · exact .pure _
  · exact .bind (alone_scanSubset _ _ _).within fun _ =>
      .bind (Alone.within (.modify fun _ => ⟨rfl, rfl⟩)) fun _ => within_deliverEntities _ _

/-! ### Elements -/

/-- The beginning of an element is delivered, unless it is a second document element. -/
theorem startElement_alike (position : Nat) (tag : Tag) (hr : reader.At phase)
    (hs : C.holds phase s s') :
    Delivery.Alike (Reader.startElement sink position tag) (Reader.startElement sink' position tag)
      reader s s'
      (fun _ reader' t t' => C.holds (.inside reader.openElements.length) t t' ∧
        reader'.openElements = reader.openElements ∧ reader'.seenRoot = true)
      C.Stopped := by
  -- The document element has been seen when the rest is done, and it does not begin again.
  have rest : ∀ reader₁ : Reader, reader₁.openElements = reader.openElements →
      reader₁.seenRoot = true → phase ≠ .epilog →
      Delivery.Alike (beginElement sink position tag) (beginElement sink' position tag) reader₁ s s'
        (fun _ reader' t t' => C.holds (.inside reader.openElements.length) t t' ∧
          reader'.openElements = reader.openElements ∧ reader'.seenRoot = true)
        C.Stopped := by
    intro reader₁ opens₁ seen₁ hne
    have last : ∀ name attributes (reader₂ : Reader) t t', reader₂.openElements =
        reader.openElements → reader₂.seenRoot = true → C.holds phase t t' →
        Delivery.Alike (do deliver sink (.startElement name attributes); return name)
          (do deliver sink' (.startElement name attributes); return name) reader₂ t t'
          (fun _ reader' t t' => C.holds (.inside reader.openElements.length) t t' ∧
            reader'.openElements = reader.openElements ∧ reader'.seenRoot = true)
          C.Stopped := by
      intro name attributes reader₂ t t' opens₂ seen₂ ht
      refine Delivery.Alike.bind ((deliver_alike ht (hr.next?_startElement hne _ _)).mono ?_
        fun _ _ _ hu => hu)
      rintro _ _ u u' ⟨rfl, hu⟩
      exact .ok ⟨hu, opens₂, seen₂⟩
    refine (alone_decodeBytes _ _).andThen hs hr.ne_ended
      fun name reader₂ t t' opens₂ seen₂ ht => ?_
    refine (alone_writtenAttributes _ _ _ _).andThen ht hr.ne_ended
      fun written reader₃ u u' opens₃ seen₃ hu => ?_
    have defaults : Delivery.Alike (do
        let defaults := (← get).declarations.defaults name
        let attributes ← withDefaults position defaults written
        deliver sink (.startElement name attributes)
        return name) (do
        let defaults := (← get).declarations.defaults name
        let attributes ← withDefaults position defaults written
        deliver sink' (.startElement name attributes)
        return name) reader₃ u u'
        (fun _ reader' t t' => C.holds (.inside reader.openElements.length) t t' ∧
          reader'.openElements = reader.openElements ∧ reader'.seenRoot = true)
        C.Stopped := by
      refine Delivery.Alike.get ?_
      refine (alone_withDefaults _ _ _).andThen hu hr.ne_ended
        fun attributes reader₄ v v' opens₄ seen₄ hv => ?_
      exact last name attributes reader₄ v v' (opens₄.trans (opens₃.trans (opens₂.trans opens₁)))
        (seen₄.trans (seen₃.trans (seen₂.trans seen₁))) hv
    dsimp only
    split
    · exact .stop (.alone hu hr.ne_ended)
    · exact defaults
  rw [startElement_eq, startElement_eq]
  obtain ⟨declarations, openElements, seenRoot, budget⟩ := reader
  refine Delivery.Alike.get ?_
  cases openElements with
  | nil =>
    cases seenRoot with
    | true => exact .stop (.alone hs hr.ne_ended)
    | false =>
      refine Delivery.Alike.modify (rest _ rfl rfl ?_)
      rintro rfl
      cases hr.2
  | cons elementsOnly outer =>
    obtain ⟨depth, rfl⟩ := hr.exists_inside nofun
    exact rest _ rfl hr.2 nofun

/-! ### Tokens -/

variable (C) in
/-- The reader stands in a phase of the receivers, with so many elements open. -/
def Stands (depth : Nat) (reader : Reader) (s : σ × Journal) (s' : σ' × Journal) : Prop :=
  ∃ phase, C.holds phase s s' ∧ reader.At phase ∧ reader.openElements.length = depth

/-- Where work leaves a reader that does not move it. -/
theorem Within.stands {work : Delivery σ α} {work' : Delivery σ' α} (h : C.Within phase work work')
    (hr : reader.At phase) (hs : C.holds phase s s') :
    Delivery.Alike work work' reader s s'
      (fun _ reader' t t' => C.Stands reader.openElements.length reader' t t') C.Stopped :=
  (h reader s s' hr hs).mono (fun _ _ _ _ ⟨ht, opens, seen⟩ =>
    ⟨phase, ht, hr.of_eq opens seen, congrArg List.length opens⟩) fun _ _ _ ht => ht

/-- The end of an element is delivered, and the reader stands where the element does. -/
theorem endElement_alike (hs : C.holds (.inside reader.openElements.length) s s')
    (seen : reader.seenRoot = true) :
    Delivery.Alike (deliver sink .endElement) (deliver sink' .endElement) reader s s'
      (fun _ reader' t t' => C.Stands reader.openElements.length reader' t t') C.Stopped := by
  refine (deliver_alike hs rfl).mono ?_ fun _ _ _ ht => ht
  rintro _ reader' t t' ⟨same, ht⟩
  refine ⟨_, ht, ?_, by rw [same]⟩
  rw [same]
  cases opens : reader.openElements.length with
  | zero => exact ⟨List.eq_nil_of_length_eq_zero opens, seen⟩
  | succ depth => exact ⟨opens, seen⟩

/-- An end tag closes the innermost element. -/
theorem close_alike (patience position : Nat) (name : Bytes) {depth : Nat}
    (opens : reader.openElements.length = depth + 1) (hr : reader.At phase)
    (hs : C.holds phase s s') :
    Delivery.Alike (readToken sink patience position (.close name))
      (readToken sink' patience position (.close name)) reader s s'
      (fun _ reader' t t' => C.Stands depth reader' t t') C.Stopped := by
  obtain ⟨declarations, openElements, seenRoot, budget⟩ := reader
  obtain ⟨inside, rfl⟩ := hr.exists_inside fun none => by
    rw [none] at opens
    cases opens
  have outer : openElements.tail.length = depth := by
    rw [List.length_tail, opens]
    rfl
  have same : openElements.tail.length = inside := by
    rw [List.length_tail, hr.1]
    rfl
  refine Delivery.Alike.modify ?_
  rw [← outer]
  exact endElement_alike (same ▸ hs) hr.2

/-- A token that nests with what is open is read alike. -/
theorem readToken_alike (patience position : Nat) {token : Token} {openNames inner : List Bytes}
    (nests : token.nest? openNames = some inner) (h : C.Stands openNames.length reader s s') :
    Delivery.Alike (readToken sink patience position token)
      (readToken sink' patience position token) reader s s'
      (fun _ reader' t t' => C.Stands inner.length reader' t t') C.Stopped := by
  obtain ⟨phase, hs, hr, opens⟩ := h
  cases token with
  | start tag =>
    cases nests
    refine Delivery.Alike.bind ((startElement_alike position tag hr hs).mono ?_ fun _ _ _ ht => ht)
    rintro name reader' t t' ⟨ht, same, seen⟩
    have more : reader'.openElements.length + 1 = reader.openElements.length + 1 := by rw [same]
    exact .ok ⟨_, ht, ⟨more, seen⟩, more.trans (congrArg (· + 1) opens)⟩
  | empty tag =>
    cases nests
    refine Delivery.Alike.bind ((startElement_alike position tag hr hs).mono ?_ fun _ _ _ ht => ht)
    rintro name reader' t t' ⟨ht, same, seen⟩
    rw [← opens, ← same]
    exact endElement_alike (by rwa [same]) seen
  | close name =>
    obtain ⟨innermost, rfl⟩ : ∃ innermost, openNames = innermost :: inner := by
      cases openNames with
      | nil => cases nests
      | cons innermost outer =>
        rw [Token.nest?] at nests
        split at nests <;> cases nests
        exact ⟨innermost, rfl⟩
    exact close_alike patience position name opens hr hs
  | text content =>
    cases nests
    rw [← opens]
    exact (Within.bind (alone_decodeBytes _ _).within fun _ => within_characters _ _).stands hr hs
  | cdata content =>
    cases nests
    refine (alone_decodeBytes _ _).andThen hs hr.ne_ended fun text reader' t t' same seen ht => ?_
    refine Delivery.Alike.get ?_
    cases hopen : reader'.openElements with
    | nil =>
      exact .stop (.alone ht hr.ne_ended)
    | cons elementsOnly outer =>
      obtain ⟨depth, rfl⟩ := hr.exists_inside fun none => by
        rw [same, none] at hopen
        cases hopen
      rw [← opens, ← same]
      exact (within_deliver rfl).stands (hr.of_eq same seen) ht
  | comment content =>
    cases nests
    rw [← opens]
    exact (Within.bind (alone_decodeBytes _ _).within fun _ =>
      within_deliver (hr.next?_comment _)).stands hr hs
  | instruction content =>
    cases nests
    rw [← opens]
    exact (Within.bind (alone_decodeBytes _ _).within fun _ =>
      within_deliver (hr.next?_instruction _ _)).stands hr hs
  | doctype content =>
    cases nests
    refine Delivery.Alike.get ?_
    cases seen : reader.seenRoot with
    | true => exact .stop (.alone hs hr.ne_ended)
    | false =>
      obtain rfl := hr.eq_prolog seen
      rw [← opens]
      exact (Within.bind (alone_decodeBytes _ _).within fun _ => within_doctype _ _ _).stands hr hs
  | declaration =>
    cases nests
    exact .ok ⟨phase, hs, hr, opens⟩

/-- Tokens that nest with what is open are read alike. -/
theorem readTokens_alike (patience : Nat) {tokens : List (Nat × Token)} {openNames : List Bytes}
    (nested : Token.Nested openNames tokens) (h : C.Stands openNames.length reader s s') :
    Delivery.Alike (readTokens sink patience tokens) (readTokens sink' patience tokens) reader s s'
      (fun _ reader' t t' => ∃ depth, C.Stands depth reader' t t') C.Stopped := by
  induction tokens generalizing openNames reader s s' with
  | nil => exact .ok ⟨_, h⟩
  | cons token rest ih =>
    obtain ⟨position, token⟩ := token
    obtain ⟨inner, nests, nested⟩ := nested
    exact Delivery.Alike.bind ((readToken_alike patience position nests h).mono
      (fun _ _ _ _ ht => ih nested ht) fun _ _ _ ht => ht)

/-! ### Documents -/

/-- The end of the tokens is read alike: the document ends, unless the reader stops. -/
theorem finish_alike (ending : Token.Ending) (hr : reader.At phase) (hs : C.holds phase s s') :
    Delivery.Alike (finish sink ending) (finish sink' ending) reader s s'
      (fun _ _ t t' => C.holds .ended t t') C.Stopped := by
  cases ending with
  | malformed position fault => exact .stop (.alone hs hr.ne_ended)
  | unreadable message => exact .stop (.alone hs hr.ne_ended)
  | complete position =>
    obtain ⟨declarations, openElements, seenRoot, budget⟩ := reader
    refine Delivery.Alike.get ?_
    cases openElements with
    | cons _ _ => exact .stop (.alone hs hr.ne_ended)
    | nil =>
      cases seenRoot with
      | false => exact .stop (.alone hs hr.ne_ended)
      | true =>
        have ends : phase = .epilog := by
          cases phase with
          | epilog => rfl
          | prolog => exact absurd hr.2 nofun
          | inside depth => exact absurd hr.1 nofun
          | before => exact hr.elim
          | ended => exact hr.elim
        subst ends
        exact (deliver_alike hs rfl).mono (fun _ _ _ _ ht => ht.2) fun _ _ _ ht => ht

/-- A document with nested tokens is read alike by a reader that has not read anything. -/
theorem readDocument_alike (patience limit : Nat) {stream : Token.Stream}
    (nested : Token.Nested [] stream.tokens) (hs : C.holds .before s s') :
    Delivery.Alike (readDocument sink patience stream) (readDocument sink' patience stream)
      (.start limit) s s' (fun _ _ t t' => C.holds .ended t t') C.Stopped := by
  refine Delivery.Alike.bind ((deliver_alike hs rfl).mono ?_ fun _ _ _ ht => ht)
  rintro _ _ t t' ⟨rfl, ht⟩
  refine Delivery.Alike.bind ((readTokens_alike patience nested
    ⟨.prolog, ht, ⟨rfl, rfl⟩, rfl⟩).mono ?_ fun _ _ _ hu => hu)
  rintro _ reader u u' ⟨depth, phase, hu, hr, -⟩
  exact finish_alike stream.ending hr hu

variable (C) in
/-- What is left of the receivers after a reading that stopped: they were told, if the reading
failed. -/
inductive Told : Stop → σ × Journal → σ' × Journal → Prop
  | failure {cause : Failure} {t : σ × Journal} {t' : σ' × Journal} :
    C.Stopped (.failure cause) t t' →
    Told (.failure cause) ((sink.accept (.fatalError cause)).run.run t).2
      ((sink'.accept (.fatalError cause)).run.run t').2
  | unfinished {t : σ × Journal} {t' : σ' × Journal} : C.Stopped .unfinished t t' →
    Told .unfinished t t'

/-- A reading with nested tokens goes alike: it comes to the end of the document, or stops and the
receivers are told. -/
theorem read_alike (patience limit : Nat) {stream : Token.Stream}
    (nested : Token.Nested [] stream.tokens) (hs : C.holds .before s s') :
    Delivery.Alike (read sink patience stream) (read sink' patience stream) (.start limit) s s'
      (fun _ _ t t' => C.holds .ended t t') C.Told := by
  have document := readDocument_alike patience limit nested hs
  unfold Delivery.Alike Reader.read at *
  rw [Delivery.ending_tryCatch, Delivery.ending_tryCatch]
  generalize Delivery.ending (readDocument sink patience stream) (.start limit) s = r,
    Delivery.ending (readDocument sink' patience stream) (.start limit) s' = r' at document ⊢
  cases document with
  | ok ht => exact .ok ht
  | @stop stop reader t t' ht =>
    cases stop with
    | failure cause => exact .stop (.failure ht)
    | unfinished => exact .stop (.unfinished ht)

end XmlTable.Contract

namespace XmlTable.Reader

variable {σ : Type}

/-- Read the tokens of a document and deliver its events to a receiver. -/
def runTokens (sink : Sink σ) (patience limit : Nat) (stream : Token.Stream) (state : σ)
    (journal : Journal) : Result σ :=
  let ((outcome, reader), state, journal) :=
    (read sink patience stream).ending (.start limit) (state, journal)
  ⟨outcome, reader, state, journal⟩

/-- Tokens after others are read after them. -/
theorem readTokens_append (sink : Sink σ) (patience : Nat) (tokens later : List (Nat × Token)) :
    readTokens sink patience (tokens ++ later) =
      readTokens sink patience tokens >>= fun _ => readTokens sink patience later := by
  induction tokens with
  | nil => rw [List.nil_append, readTokens, pure_bind]
  | cons token rest ih =>
    obtain ⟨position, token⟩ := token
    rw [List.cons_append, readTokens, readTokens, ih, bind_assoc]

/-- A source is read by its tokens. -/
theorem run_eq_runTokens (sink : Sink σ) (patience limit : Nat) (source : Source) (state : σ)
    (journal : Journal) : run sink patience limit source state journal =
      runTokens sink patience limit source.tokens state journal :=
  rfl

end XmlTable.Reader
