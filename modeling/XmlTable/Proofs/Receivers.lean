import XmlTable.Proofs.Order

/-!
# Receivers that refuse

A receiver that refuses an event is called once more at most, to be told of the failure that ends
the reading, and that failure is returned. It is the receiver's own, unless the refused event comes
from character data in which references are expanded: a failure of construction is then placed at a
position, as those of the expansion are.
-/

namespace XmlTable

/-- What becomes of the failure of a receiver that refused an event. -/
inductive Event.Passes (event : Event) : Failure → Failure → Prop
  /-- It stays the same. -/
  | same (cause : Failure) : Passes event cause cause
  /-- A failure of construction is placed, with its message, if the event comes from character
  data. -/
  | placed (position : Nat) (message : String) : event.isExpanded = true →
    Passes event (.construction message) (.parse position message)

theorem Event.passes_locate {event : Event} (expanded : event.isExpanded = true)
    (cause : Failure) (position : Nat) : event.Passes cause (cause.locate position) := by
  cases cause with
  | construction message => exact .placed position message expanded
  | _ => exact .same _

/-- The call tells of a failure that ended the reading. -/
def Call.IsFarewell (call : Call) : Prop :=
  ∃ cause, call.event = .fatalError cause

/-- A reading ends with a refusal: after it there is one more call, which tells of what becomes of
the failure, and that is returned. -/
structure Call.Ends (refused : Call) (cause : Failure) (outcome : Except Stop Unit)
    (earlier later : List Call) : Prop where
  /-- None was refused before. -/
  taken : ∀ call ∈ earlier, call.answer = .ok ()
  /-- The receiver is told what is returned. -/
  told : ∃ passed answer, refused.event.Passes cause passed ∧
    later = [⟨.fatalError passed, answer⟩] ∧ outcome = .error (.failure passed)

/-- The calls were all taken, but for a last one that tells of a failure. -/
def Call.AllTaken (calls : List Call) : Prop :=
  ∃ delivered told, calls = delivered ++ told ∧ (∀ call ∈ delivered, call.answer = .ok ()) ∧
    ∀ call ∈ told, call.IsFarewell

section

variable {calls delivered told earlier later : List Call} {call refused : Call} {cause : Failure}

theorem Call.AllTaken.isFarewell (h : Call.AllTaken calls) (hm : call ∈ calls)
    (answer : call.answer = .error cause) : call.IsFarewell := by
  obtain ⟨delivered, told, rfl, taken, farewells⟩ := h
  rcases List.mem_append.1 hm with hm | hm
  · rw [taken call hm] at answer
    cases answer
  · exact farewells call hm

/-- Where one call was refused, between calls that were taken and those that tell of a failure, it
is the only one. -/
theorem eq_of_refused (taken : ∀ call ∈ delivered, call.answer = .ok ())
    (farewells : ∀ call ∈ told, call.IsFarewell)
    (same : delivered ++ refused :: told = earlier ++ call :: later)
    (answer : call.answer = .error cause) (other : ¬ call.IsFarewell) :
    delivered = earlier ∧ refused = call ∧ told = later := by
  rcases List.append_eq_append_iff.1 same with ⟨more, parts, rest⟩ | ⟨more, parts, rest⟩
  · cases more with
    | nil =>
      rw [List.append_nil] at parts
      obtain ⟨rfl, rfl⟩ := List.cons.inj rest
      exact ⟨parts.symm, rfl, rfl⟩
    | cons first more =>
      obtain ⟨-, rfl⟩ := List.cons.inj rest
      exact absurd (farewells call (List.mem_append_right more List.mem_cons_self)) other
  · cases more with
    | nil =>
      rw [List.append_nil] at parts
      obtain ⟨rfl, rfl⟩ := List.cons.inj rest
      exact ⟨parts, rfl, rfl⟩
    | cons first more =>
      obtain ⟨rfl, -⟩ := List.cons.inj rest
      rw [taken call (parts ▸ List.mem_append_right earlier List.mem_cons_self)] at answer
      cases answer

end

namespace Contract

variable {σ : Type} {sink : Sink σ} {C : Contract sink sink} {s : (σ × List Call) × Journal}
  {s' : σ × Journal}

/-- When the reading stops, all calls were taken, or the last one was refused and what becomes of
its failure is the reason. -/
theorem Stopped.taken_or_refused {stop : Stop} (h : C.watched.Stopped stop s s') :
    (∀ call ∈ s.1.2, call.answer = .ok ()) ∨
      ∃ delivered event cause passed, s.1.2 = delivered ++ [⟨event, .error cause⟩] ∧
        (∀ call ∈ delivered, call.answer = .ok ()) ∧ event.Passes cause passed ∧
        stop = .failure passed := by
  cases h with
  | alone holds _ =>
    obtain ⟨-, -, reached⟩ := holds
    exact .inl reached.taken
  | @refused _ _ event cause placed _ _ _ refused passed =>
    obtain ⟨-, -, delivered, calls, reached⟩ := refused
    refine .inr ⟨delivered, event, cause, placed, calls, reached.taken, ?_, rfl⟩
    rcases passed with rfl | ⟨expanded, position, rfl⟩
    · exact .same _
    · exact event.passes_locate expanded cause position

end Contract

namespace Reader

variable {σ : Type}

/-- The calls of a reading were all taken, or one was refused that ends it. -/
theorem allTaken_or_ends (sink : Sink σ) (patience limit : Nat) {stream : Token.Stream}
    (nested : Token.Nested [] stream.tokens) (state : σ) (journal : Journal) :
    let watched := runTokens sink.watched patience limit stream (state, []) journal
    Call.AllTaken watched.state.2 ∨ ∃ delivered refused cause told,
      watched.state.2 = delivered ++ refused :: told ∧ (∀ call ∈ told, call.IsFarewell) ∧
        refused.answer = .error cause ∧ refused.Ends cause watched.outcome delivered told := by
  have start : (Contract.trivial sink).watched.holds .before ((state, []), journal)
      (state, journal) := ⟨rfl, rfl, rfl, nofun⟩
  have alike := Contract.read_alike patience limit nested start
  unfold Delivery.Alike at alike
  unfold runTokens
  generalize (read sink.watched patience stream).ending (.start limit) ((state, []), journal) = r,
    (read sink patience stream).ending (.start limit) (state, journal) = r' at alike ⊢
  cases alike with
  | ok holds =>
    obtain ⟨-, -, reached⟩ := holds
    exact .inl ⟨_, [], (List.append_nil _).symm, reached.taken, List.forall_mem_nil _⟩
  | stop told =>
    cases told with
    | @failure stop t _ stopped =>
      -- The receiver is told of the failure after the calls that were made before.
      have calls : ∃ answer, ((sink.watched.accept (.fatalError stop)).run.run t).2.1.2 =
          t.1.2 ++ [⟨.fatalError stop, answer⟩] := ⟨_, rfl⟩
      obtain ⟨answer, calls⟩ := calls
      have farewell : ∀ call ∈ [(⟨.fatalError stop, answer⟩ : Call)], call.IsFarewell :=
        List.forall_mem_singleton.2 ⟨stop, rfl⟩
      rcases stopped.taken_or_refused with taken | ⟨delivered, event, cause, passed, parts, taken,
        passes, same⟩
      · exact .inl ⟨_, _, calls, taken, farewell⟩
      · cases same
        refine .inr ⟨delivered, ⟨event, .error cause⟩, cause, _, ?_, farewell, rfl, taken,
          _, answer, passes, rfl, rfl⟩
        rw [parts, List.append_assoc] at calls
        exact calls
    | unfinished stopped =>
      rcases stopped.taken_or_refused with taken | ⟨_, _, _, _, _, _, _, same⟩
      · exact .inl ⟨_, [], (List.append_nil _).symm, taken, List.forall_mem_nil _⟩
      · cases same

end Reader

end XmlTable
