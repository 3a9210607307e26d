import XmlTable.Proofs.Handover
import XmlTable.Proofs.Service

/-!
# The order of delivery

Whoever watches a receiver sees the events of a document in order: those of some tree from the
start, as far as the reading came, and after them at most one more, which tells the receiver of the
failure that ended the reading. A builder that is read to therefore never finds an event out of
place.
-/

namespace XmlTable

/-! ### Watching a receiver -/

/-- An event that a receiver was given, and its answer. -/
structure Call where
  /-- The event. -/
  event : Event
  /-- The answer. -/
  answer : Except Failure Unit
  deriving DecidableEq

/-- The receiver that does what another does and keeps the calls, in order. -/
def Sink.watched {σ : Type} (sink : Sink σ) : Sink (σ × List Call) where
  accept event := fun ((state, calls), journal) =>
    let (answer, state, journal) := (sink.accept event).run.run (state, journal)
    (answer, (state, calls ++ [⟨event, answer⟩]), journal)

/-- The calls were answered well and lead to a phase. -/
structure Phase.IsReached (phase : Phase) (calls : List Call) : Prop where
  /-- The events come in order. -/
  inOrder : Phase.before.after? (calls.map (·.event)) = some phase
  /-- None was refused. -/
  taken : ∀ call ∈ calls, call.answer = .ok ()

theorem Phase.IsReached.snoc {phase next : Phase} {calls : List Call} {event : Event}
    (h : phase.IsReached calls) (hn : phase.next? event = some next) :
    next.IsReached (calls ++ [⟨event, .ok ()⟩]) where
  inOrder := by
    rw [List.map_append]
    exact after?_snoc h.inOrder hn
  taken call hm := by
    rcases List.mem_append.1 hm with hm | hm
    · exact h.taken call hm
    · rw [List.mem_singleton.1 hm]

/-- Readers go the same way whether or not a receiver is watched. What is known of the receiver is
known of the one that is watched. -/
def Contract.watched {σ : Type} {sink : Sink σ} (C : Contract sink sink) :
    Contract sink.watched sink where
  holds phase s s' := s' = (s.1.1, s.2) ∧ C.holds phase s' s' ∧ phase.IsReached s.1.2
  refused phase event cause s s' := s' = (s.1.1, s.2) ∧ C.refused phase event cause s' s' ∧
    ∃ earlier, s.1.2 = earlier ++ [⟨event, .error cause⟩] ∧ phase.IsReached earlier
  journal h := by rw [h.1]
  tell := by
    rintro phase ⟨⟨state, calls⟩, journal⟩ _ later ⟨rfl, holds, reached⟩ more
    exact ⟨rfl, C.tell holds more, reached⟩
  accept := by
    rintro phase next event ⟨⟨state, calls⟩, journal⟩ _ ⟨rfl, holds, reached⟩ hn
    have answered := C.accept holds hn
    have run : (sink.watched.accept event).run.run ((state, calls), journal) =
        match (sink.accept event).run.run (state, journal) with
        | (answer, t) => (answer, (t.1, calls ++ [⟨event, answer⟩]), t.2) := rfl
    rw [run]
    generalize (sink.accept event).run.run (state, journal) = r at answered ⊢
    cases answered with
    | ok h => exact .ok ⟨rfl, h, reached.snoc hn⟩
    | fail h => exact .fail ⟨rfl, h, calls, rfl, reached⟩
    | left h => exact h.elim
    | right h => exact h.elim

/-- Nothing need be known of a receiver. -/
def Contract.trivial {σ : Type} (sink : Sink σ) : Contract sink sink where
  holds _ s s' := s' = s
  refused _ _ _ s s' := s' = s
  journal h := by rw [h]
  tell h _ := by rw [h]
  accept := by
    rintro _ _ event s s' h -
    subst h
    rcases (sink.accept event).run.run s' with ⟨_ | _, _⟩
    · exact .fail rfl
    · exact .ok rfl

/-! ### What a reading delivers -/

/-- The events come in order: they are the first of those of a document. -/
structure Event.InOrder (events : List Event) : Prop where
  /-- They are the first events of a tree. -/
  tree : ∃ tree : DocumentTree, events <+: tree.events
  /-- Character data come only in an element, of which more have begun than have ended. -/
  characters : ∀ earlier event later, events = earlier ++ event :: later →
    event.isCharacterData = true → earlier.countP (·.isEnd) < earlier.countP (·.isStart)
  /-- Entities are declared only before the first element. -/
  entities : ∀ earlier name value later,
    events = earlier ++ .entityDeclaration name value :: later →
    ∀ event ∈ earlier, event.isStart = false
  /-- None of them tells of a failure. -/
  plain : ∀ event ∈ events, ∀ cause, event ≠ .fatalError cause

theorem Phase.inOrder {phase : Phase} {events : List Event}
    (h : before.after? events = some phase) : Event.InOrder events := by
  -- Each event came in a phase that the events before it had led to.
  have split : ∀ earlier event later, events = earlier ++ event :: later →
      ∃ now next, before.after? earlier = some now ∧ now.next? event = some next := by
    rintro earlier event later rfl
    rw [after?_append] at h
    obtain ⟨now, hnow, hrest⟩ := Option.bind_eq_some_iff.1 h
    obtain ⟨next, hn, -⟩ := Option.bind_eq_some_iff.1 hrest
    exact ⟨now, next, hnow, hn⟩
  refine ⟨exists_tree_of_after? h, fun earlier event later same isData => ?_,
    fun earlier name value later same => ?_, ?_⟩
  · obtain ⟨now, next, hnow, hn⟩ := split _ _ _ same
    obtain ⟨depth, rfl⟩ : ∃ depth, now = inside depth := by
      cases event <;> cases isData <;> cases now <;> cases hn <;> exact ⟨_, rfl⟩
    have balance : earlier.countP (·.isStart) + 0 = earlier.countP (·.isEnd) + (depth + 1) :=
      opens_after? hnow
    omega
  · obtain ⟨now, next, hnow, hn⟩ := split _ _ _ same
    obtain rfl : now = prolog := by cases now <;> cases hn; rfl
    exact (isStart_of_isEarly hnow trivial).2
  · rintro event hm cause rfl
    obtain ⟨earlier, later, same⟩ := List.append_of_mem hm
    obtain ⟨now, next, -, hn⟩ := split _ _ _ same
    cases now <;> cases hn

/-- The last call of a reading, if it failed: the receiver is told why. -/
inductive Farewell : Except Stop Unit → List Call → Prop
  /-- The reading came to the end of the document. -/
  | ok : Farewell (.ok ()) []
  /-- It failed. -/
  | failure (cause : Failure) (answer : Except Failure Unit) :
    Farewell (.error (.failure cause)) [⟨.fatalError cause, answer⟩]
  /-- It was given up. -/
  | unfinished : Farewell (.error .unfinished) []

/-- The calls that a reading made came in order, up to the end of the document or to a last call
that tells of the failure. -/
structure Orderly (outcome : Except Stop Unit) (calls : List Call) : Prop where
  /-- Apart from a last call that tells of the failure the events come in order. -/
  inOrder : ∃ delivered last, calls = delivered ++ last ∧ Farewell outcome last ∧
    Event.InOrder (delivered.map (·.event))
  /-- The reading succeeds if the end of the document was delivered and taken, and only then. -/
  ends : outcome = .ok () ↔ ∃ call ∈ calls, call.event = .endDocument ∧ call.answer = .ok ()
  /-- If it succeeds all events of a document were delivered and taken. -/
  complete : outcome = .ok () → (∃ tree : DocumentTree, calls.map (·.event) = tree.events) ∧
    ∀ call ∈ calls, call.answer = .ok ()

namespace Phase.IsReached

variable {phase next : Phase} {calls : List Call}

/-- The end of the document has not been delivered before it. -/
theorem ne_endDocument (h : phase.IsReached calls) (hne : phase ≠ .ended) :
    ∀ call ∈ calls, call.event ≠ .endDocument := by
  intro call hm he
  obtain ⟨earlier, later, rfl⟩ := List.append_of_mem hm
  have inOrder := h.inOrder
  rw [List.map_append, List.map_cons, he, after?_append] at inOrder
  obtain ⟨now, -, hrest⟩ := Option.bind_eq_some_iff.1 inOrder
  obtain ⟨last, hn, hl⟩ := Option.bind_eq_some_iff.1 hrest
  obtain rfl : last = .ended := by cases now <;> cases hn; rfl
  cases later with
  | nil => cases hl; exact hne rfl
  | cons _ _ => cases hl

theorem ended (h : ended.IsReached calls) : Orderly (.ok ()) calls := by
  obtain ⟨tree, htree⟩ := exists_tree_of_ended h.inOrder
  refine ⟨⟨calls, [], (List.append_nil _).symm, .ok, Phase.inOrder h.inOrder⟩,
    ⟨fun _ => ?_, fun _ => rfl⟩, fun _ => ⟨⟨tree, htree⟩, h.taken⟩⟩
  have last : Event.endDocument ∈ calls.map (·.event) := by
    rw [htree, DocumentTree.events]
    exact .tail _ (List.mem_append_right _ (.head _))
  obtain ⟨call, hm, he⟩ := List.mem_map.1 last
  exact ⟨call, hm, he, h.taken call hm⟩

end Phase.IsReached

/-- Calls that came in order before the end of the document, and were followed by a last call that
tells of a failure. -/
theorem Orderly.of_error {stop : Stop} {delivered last : List Call}
    (inOrder : Event.InOrder (delivered.map (·.event))) (farewell : Farewell (.error stop) last)
    (unended : ∀ call ∈ delivered, call.answer = .ok () → call.event ≠ .endDocument) :
    Orderly (.error stop) (delivered ++ last) := by
  refine ⟨⟨delivered, last, rfl, farewell, inOrder⟩, ⟨nofun, ?_⟩, nofun⟩
  rintro ⟨call, hm, he, taken⟩
  rcases List.mem_append.1 hm with hm | hm
  · exact absurd he (unended call hm taken)
  · cases farewell with
    | failure cause answer =>
      rw [List.mem_singleton.1 hm] at he
      cases he
    | unfinished => cases hm

namespace Contract

variable {σ : Type} {sink : Sink σ} {C : Contract sink sink}

/-- What is known of a watched receiver when the reading has stopped: all calls came in order, and
all but the last were taken. -/
theorem Stopped.delivered {stop : Stop} {s : (σ × List Call) × Journal} {s' : σ × Journal}
    (h : C.watched.Stopped stop s s') : s' = (s.1.1, s.2) ∧
      Event.InOrder (s.1.2.map (·.event)) ∧
      ∀ call ∈ s.1.2, call.answer = .ok () → call.event ≠ .endDocument := by
  cases h with
  | alone holds hne =>
    obtain ⟨same, -, reached⟩ := holds
    exact ⟨same, Phase.inOrder reached.inOrder, fun call hm _ => reached.ne_endDocument hne call hm⟩
  | @refused phase next event _ _ _ _ hn refused _ =>
    obtain ⟨same, -, earlier, calls, reached⟩ := refused
    have hne : phase ≠ .ended := by
      rintro rfl
      cases event <;> cases hn
    rw [calls, List.map_append]
    refine ⟨same, Phase.inOrder (Phase.after?_snoc reached.inOrder hn), fun call hm taken => ?_⟩
    rcases List.mem_append.1 hm with hm | hm
    · exact reached.ne_endDocument hne call hm
    · rw [List.mem_singleton.1 hm] at taken
      cases taken

/-- What is known of a receiver that refused an event is known of it in the end. -/
theorem Stopped.refusal {stop : Stop} {s : (σ × List Call) × Journal} {s' : σ × Journal}
    (h : C.watched.Stopped stop s s') {call : Call} (hm : call ∈ s.1.2) {cause : Failure}
    (answer : call.answer = .error cause) : ∃ phase, C.refused phase call.event cause s' s' := by
  cases h with
  | alone holds _ =>
    obtain ⟨-, -, reached⟩ := holds
    rw [reached.taken call hm] at answer
    cases answer
  | @refused phase next event _ _ _ _ hn refused _ =>
    obtain ⟨-, known, earlier, calls, reached⟩ := refused
    rw [calls] at hm
    rcases List.mem_append.1 hm with hm | hm
    · rw [reached.taken call hm] at answer
      cases answer
    · obtain rfl := List.mem_singleton.1 hm
      cases answer
      exact ⟨phase, known⟩

end Contract

/-! ### Builders that are read to -/

/-- The failure says that an event is out of place. -/
inductive Failure.IsMisplaced : Failure → Prop
  /-- The state does not take the event. -/
  | protocol (state event : String) : IsMisplaced (.protocol state event)
  /-- No element is open that could end. -/
  | unmatched : IsMisplaced (.construction "end_element without a matching start_element")
  /-- An element is open at the end of the document. -/
  | stillOpen (node : NodeId) :
    IsMisplaced (.construction ("document ended with element " ++ toString node ++ " still open"))
  /-- There are characters outside the document element. -/
  | outside : IsMisplaced (.construction "character data outside the document element")

namespace Builder

/-- An event that comes in order is not refused as one out of place. -/
theorem Refusal.not_isMisplaced {event : Event} {cause : Failure} (h : Refusal event cause) :
    ¬ cause.IsMisplaced := by
  cases h with
  | full what => nofun
  | undeclared name attributes lead =>
    generalize hm : ("undeclared namespace prefix '" ++ lead ++ "'" : String) = message
    have first : message.toList.head? = some 'u' := by
      rw [← hm, String.toList_append, String.toList_append]
      rfl
    intro h
    cases h with
    | unmatched => exact absurd first (by decide)
    | stillOpen node =>
      rw [String.toList_append, String.toList_append] at first
      cases first
    | outside => exact absurd first (by decide)

end Builder

namespace Reader

variable {σ : Type}

/-- The reading of nested tokens with a watched receiver is the reading with that receiver, and the
calls that it makes are orderly. -/
structure Watches (watched : Result (σ × List Call)) (plain : Result σ) : Prop where
  /-- The reading is the same. -/
  same : plain = ⟨watched.outcome, watched.reader, watched.state.1, watched.journal⟩
  /-- The calls are orderly. -/
  orderly : Orderly watched.outcome watched.state.2

theorem watches_runTokens (sink : Sink σ) (patience limit : Nat) {stream : Token.Stream}
    (nested : Token.Nested [] stream.tokens) (state : σ) (journal : Journal) :
    Watches (runTokens sink.watched patience limit stream (state, []) journal)
      (runTokens sink patience limit stream state journal) := by
  have start : (Contract.trivial sink).watched.holds .before ((state, []), journal)
      (state, journal) := ⟨rfl, rfl, rfl, nofun⟩
  have alike := Contract.read_alike patience limit nested start
  unfold Delivery.Alike at alike
  unfold runTokens
  generalize (read sink.watched patience stream).ending (.start limit) ((state, []), journal) = r,
    (read sink patience stream).ending (.start limit) (state, journal) = r' at alike ⊢
  cases alike with
  | ok holds =>
    obtain ⟨rfl, -, reached⟩ := holds
    exact ⟨rfl, reached.ended⟩
  | stop told =>
    cases told with
    | failure stopped =>
      obtain ⟨rfl, inOrder, unended⟩ := stopped.delivered
      exact ⟨rfl, .of_error inOrder (.failure _ _) unended⟩
    | @unfinished t t' stopped =>
      obtain ⟨rfl, inOrder, unended⟩ := stopped.delivered
      have orderly := Orderly.of_error inOrder .unfinished unended
      rw [List.append_nil] at orderly
      exact ⟨rfl, orderly⟩

/-- A builder that is read to refuses nothing as out of place. -/
theorem not_isMisplaced_runTokens (patience limit : Nat) {stream : Token.Stream}
    (nested : Token.Nested [] stream.tokens) (config : Config) (journal : Journal) {call : Call}
    (hm : call ∈ (runTokens Builder.sink.watched patience limit stream
      (Builder.start config, []) journal).state.2) {cause : Failure}
    (answer : call.answer = .error cause) : ¬ cause.IsMisplaced := by
  have start : (Builder.service config journal).watched.holds .before
      ((Builder.start config, []), journal) (Builder.start config, journal) :=
    ⟨rfl, ⟨rfl, Builder.serves_start config, .refl _⟩, rfl, nofun⟩
  have alike := Contract.read_alike patience limit nested start
  unfold Delivery.Alike at alike
  unfold runTokens at hm
  generalize (read Builder.sink.watched patience stream).ending (.start limit)
    ((Builder.start config, []), journal) = r, (read Builder.sink patience stream).ending
    (.start limit) (Builder.start config, journal) = r' at alike hm
  cases alike with
  | ok holds =>
    obtain ⟨-, -, reached⟩ := holds
    rw [reached.taken call hm] at answer
    cases answer
  | stop told =>
    cases told with
    | @failure stop t t' stopped =>
      have calls : call ∈ t.1.2 ∨ call.answer = .ok () := by
        rcases List.mem_append.1 hm with hm | hm
        · exact .inl hm
        · rw [List.mem_singleton.1 hm]
          exact .inr (congrArg Prod.fst (Builder.run_accept_fatalError stop (t.1.1, t.2)))
      rcases calls with hm | taken
      · obtain ⟨phase, -, -, refusal⟩ := stopped.refusal hm answer
        exact refusal.not_isMisplaced
      · rw [taken] at answer
        cases answer
    | unfinished stopped =>
      obtain ⟨phase, -, -, refusal⟩ := stopped.refusal hm answer
      exact refusal.not_isMisplaced

/-- Whatever receiver and error handler there are, the reading of tokens whose end tags close the
innermost open element makes calls in the order of a document, up to its end or to a last call that
tells of the failure that is returned. A builder that is read to refuses none of them as out of
place. -/
theorem reading_is_orderly (patience limit : Nat) {stream : Token.Stream}
    (nested : Token.Nested [] stream.tokens) :
    (∀ {σ : Type} (sink : Sink σ) (state : σ) (journal : Journal),
      Watches (runTokens sink.watched patience limit stream (state, []) journal)
        (runTokens sink patience limit stream state journal)) ∧
      ∀ (config : Config) (journal : Journal),
        ∀ call ∈ (runTokens Builder.sink.watched patience limit stream
          (Builder.start config, []) journal).state.2,
        ∀ cause, call.answer = .error cause → ¬ cause.IsMisplaced :=
  ⟨fun sink state journal => watches_runTokens sink patience limit nested state journal,
    fun config journal _ hm _ answer =>
      not_isMisplaced_runTokens patience limit nested config journal hm answer⟩

/-- The tokens of an element with an undeclared prefix are nested; the builder refuses the start of
the element. -/
theorem reading_is_orderly_of_undeclared_prefix :
    let name := Bytes.ascii "p:a"
    let stream : Token.Stream := ⟨[(0, .start ⟨name, 3⟩), (5, .close name)], .complete 11⟩
    let watched := runTokens Builder.sink.watched 0 0 stream (Builder.start .standard, [])
      { handler := .strict }
    Token.Nested [] stream.tokens ∧
      (watched.state.2.map (·.event.label) = ["start_document", "start_element", "fatal_error"] ∧
        Orderly watched.outcome watched.state.2) ∧
      ∀ call ∈ watched.state.2, ∀ cause, call.answer = .error cause → ¬ cause.IsMisplaced := by
  intro name stream watched
  have nested : Token.Nested [] stream.tokens := by decide
  obtain ⟨watches, builder⟩ := reading_is_orderly 0 0 nested
  exact ⟨nested, ⟨by decide +kernel, (watches Builder.sink _ _).orderly⟩, builder _ _⟩

/-- The same is true of every source: its tokens are nested. -/
theorem watches_run (sink : Sink σ) (patience limit : Nat) (source : Source) (state : σ)
    (journal : Journal) : Watches (run sink.watched patience limit source (state, []) journal)
      (run sink patience limit source state journal) :=
  watches_runTokens sink patience limit source.nested_tokens state journal

end Reader

end XmlTable
