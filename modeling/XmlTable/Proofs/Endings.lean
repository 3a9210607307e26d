import XmlTable.Proofs.Order
import XmlTable.Proofs.Settlement
import XmlTable.Proofs.Storage

/-!
# After the end

A builder that has failed or has seen the end of its document is over. It refuses whatever comes and
changes nothing any more, neither in the document nor of its own. Up to there it fails once at most:
what the document keeps is the first failure of its life, and the error handler hears of that one as
fatal and of no other.
-/

namespace XmlTable

open Node

/-- The builder takes nothing any more. -/
def Stage.isOver : Stage → Bool
  | failed | documentClosed => true
  | idle | documentOpen => false

/-- What a builder that is over answers to an event. -/
def Stage.refusal (stage : Stage) : Event → Except Failure Unit
  | .fatalError _ => .ok ()
  | event => .error (.protocol stage.label event.label)

/-- The failure that a call brings, if it brings one: the one that was told, or the one that was
answered. -/
def Call.failure? (call : Call) : Option Failure :=
  match call.event, call.answer with
  | .fatalError cause, _ => some cause
  | _, .error cause => some cause
  | _, .ok () => none

/-- A document that is complete has not failed. -/
theorem Document.failure?_of_isDone {d : Document} (done : d.isDone = true) :
    d.failure? = none := by
  unfold isDone at done
  unfold failure?
  cases hp : d.progress with
  | failed cause =>
    rw [hp] at done
    cases done
  | _ => rfl

namespace Builder

open Reporting

variable {config : Config} {journal : Journal} {s s' : Builder × Journal} {event : Event}

/-! ### Calls -/

/-- What is left after events, whether or not some are refused. -/
def after : List Event → Builder × Journal → Builder × Journal
  | [], s => s
  | event :: rest, s => after rest ((accept event).run.run s).2

/-- The calls that are made when events come one after the other, whether or not some are
refused. -/
def calls (events : List Event) (s : Builder × Journal) : List Call :=
  List.zipWith (fun event response => ⟨event, response.1⟩) events (responses events s)

/-- The failure that comes first. -/
def firstFailure? (calls : List Call) : Option Failure :=
  calls.findSome? (·.failure?)

/-! ### Builders that are over -/

theorem failed_of_isOver (isOver : s.1.stage.isOver = true) (cause : Failure) :
    failed cause s = s := by
  rcases failed_cases cause s with same | ⟨going | going, -⟩
  · exact same
  · rw [going] at isOver
    cases isOver
  · rw [going] at isOver
    cases isOver

theorem run_requireOpen (shut : s.1.stage ≠ .documentOpen) (event : Event) :
    (requireOpen event).run.run s = (.error (.protocol s.1.stage.label event.label), s) := by
  show (if s.1.stage ≠ .documentOpen then throw _ else pure () : Reporting Builder Unit).run.run s =
    _
  rw [if_pos shut]
  rfl

/-- What comes to a builder that is over changes nothing. -/
theorem run_accept_of_isOver (isOver : s.1.stage.isOver = true) (event : Event) :
    (accept event).run.run s = (s.1.stage.refusal event, s) := by
  have shut : s.1.stage ≠ .documentOpen := fun going => by
    rw [going] at isOver
    cases isOver
  -- What the work fails with is answered; there is nothing left that could fail.
  have refused : ∀ {event : Event}, (perform event).run.run s =
      (.error (.protocol s.1.stage.label event.label), s) →
      (accept event).run.run s = (.error (.protocol s.1.stage.label event.label), s) := by
    intro event run
    rw [accept, guarded, run_tryCatch, run]
    dsimp only
    rw [run_bind, run_fail, failed_of_isOver isOver]
    rfl
  cases event with
  | fatalError cause => rw [run_accept_fatalError, failed_of_isOver isOver, Stage.refusal]
  | startDocument =>
    have begun : s.1.stage ≠ .idle := fun idle => by
      rw [idle] at isOver
      cases isOver
    refine refused ?_
    show (if s.1.stage ≠ .idle then throw _ >>= _ else _ : Reporting Builder Unit).run.run s = _
    rw [if_pos begun]
    rfl
  | _ => exact refused (by rw [perform, run_bind, run_requireOpen shut])

theorem after_of_isOver (isOver : s.1.stage.isOver = true) (events : List Event) :
    after events s = s := by
  induction events with
  | nil => rfl
  | cons event rest ih => rw [after, run_accept_of_isOver isOver, ih]

theorem responses_of_isOver (isOver : s.1.stage.isOver = true) (events : List Event) :
    responses events s = events.map fun event => (s.1.stage.refusal event, s) := by
  induction events with
  | nil => rfl
  | cons event rest ih => rw [responses, run_accept_of_isOver isOver, ih, List.map_cons]

theorem run_drop_of_isOver (isOver : s.1.stage.isOver = true) : drop.run.run s = (.ok (), s) := by
  obtain ⟨⟨_, _, stage, _, _, _, _, _, _⟩, _⟩ := s
  cases stage
  case failed => rfl
  case documentClosed => rfl
  all_goals cases isOver

/-- A builder that refused an event is over. -/
theorem Refused.stage {cause : Failure} (h : Refused config journal cause s) :
    s.1.stage = .failed := by
  obtain ⟨s₁, active, -, rfl⟩ := h
  rw [active.failed_eq]
  rfl

/-! ### Events report nothing fatal -/

section

variable {reasons : Failure → Prop} (any : ∀ cause, reasons cause)
include any

theorem failsOnly_requireOpen (event : Event) : FailsOnly reasons (requireOpen event) := by
  refine .bind (.observe _) fun stage => ?_
  split
  · exact .throw (any _)
  · exact .pure _

theorem failsOnly_startDocument : FailsOnly reasons startDocument := by
  refine .bind (.observe _) fun stage => ?_
  have begins : FailsOnly reasons (do
      let _ ← append [.document]
      update fun builder => { builder with stage := .documentOpen, cursor := documentId }) :=
    .bind (failsOnly_append (fun _ => any _) _) fun _ => .update _
  dsimp only
  split
  · exact .bind (.throw (any _)) fun _ => begins
  · exact begins

theorem failsOnly_endDocument : FailsOnly reasons endDocument := by
  refine .bind (failsOnly_flushText fun _ => any _) fun _ => .bind (.observe _) fun cursor => ?_
  have closes : FailsOnly reasons (do
      closeSiblings
      closeEntities
      update fun builder => { builder with stage := .documentClosed }
      publish .finish) :=
    .bind failsOnly_closeSiblings fun _ => .bind failsOnly_closeEntities fun _ =>
      .bind (.update _) fun _ => .publish _
  dsimp only
  split
  · exact .bind (.throw (any _)) fun _ => closes
  · exact closes

theorem failsOnly_endElement : FailsOnly reasons endElement := by
  refine .bind (failsOnly_flushText fun _ => any _) fun _ => .bind (.observe _) fun closed => ?_
  dsimp only
  split
  · exact .bind (.throw (any _)) fun _ => .bind failsOnly_closeSiblings fun _ => .update _
  · exact .bind failsOnly_closeSiblings fun _ => .update _

theorem failsOnly_characters (text : String) (flags : TextFlags) :
    FailsOnly reasons (characters text flags) := by
  unfold characters
  split
  · exact .pure _
  · refine .bind (.observe _) fun cursor => ?_
    split
    · split
      · exact .throw (any _)
      · exact .pure _
    · exact .update _

theorem failsOnly_entityDeclaration (name value : String) :
    FailsOnly reasons (entityDeclaration name value) := by
  rw [entityDeclaration_eq]
  refine .bind (failsOnly_flushText fun _ => any _) fun _ => .bind (.observe _) fun late => ?_
  have declares : FailsOnly reasons (declareEntity name value) :=
    failsOnly_declareEntity (fun _ => any _) name value
  split
  · exact .bind (.throw (any _)) fun _ => declares
  · exact declares

/-- Only the event that tells of a failure reports one as fatal itself. -/
theorem failsOnly_perform (plain : ∀ cause, event ≠ .fatalError cause) :
    FailsOnly reasons (perform event) := by
  have full : ∀ what, reasons (.capacity what) := fun _ => any _
  cases event with
  | startDocument => exact failsOnly_startDocument any
  | endDocument =>
    exact .bind (failsOnly_requireOpen any _) fun _ => failsOnly_endDocument any
  | startElement name attributes =>
    exact .bind (failsOnly_requireOpen any _) fun _ =>
      failsOnly_startElement full (fun _ => any _) name attributes
  | endElement => exact .bind (failsOnly_requireOpen any _) fun _ => failsOnly_endElement any
  | characters text flags =>
    exact .bind (failsOnly_requireOpen any _) fun _ => failsOnly_characters any text flags
  | comment text =>
    exact .bind (failsOnly_requireOpen any _) fun _ => failsOnly_comment full text
  | instruction target data =>
    exact .bind (failsOnly_requireOpen any _) fun _ => failsOnly_instruction full target data
  | entityDeclaration name value =>
    exact .bind (failsOnly_requireOpen any _) fun _ => failsOnly_entityDeclaration any name value
  | entityReference name =>
    exact .bind (failsOnly_requireOpen any _) fun _ => failsOnly_entityReference full name
  | fatalError cause => exact absurd rfl (plain cause)

end

/-! ### Lives of builders -/

/-- Where a builder stands after calls: it goes on and there was no failure, or it has seen the end
of its document, or it has failed with the first failure that there was. -/
inductive Stands (config : Config) (journal : Journal) (first : Option Failure)
    (s : Builder × Journal) : Prop
  /-- It goes on. -/
  | going : s.1.Consistent config → s.1.stage.isOver = false → journal.Continues s.2 →
    first = none → Stands config journal first s
  /-- It has seen the end. -/
  | closed : s.1.stage = .documentClosed → s.1.document.isDone = true → journal.Continues s.2 →
    Stands config journal first s
  /-- It has failed. -/
  | failed {cause : Failure} : first = some cause → Refused config journal cause s →
    Stands config journal first s

theorem Consistent.active {b : Builder} (h : b.Consistent config)
    (going : b.stage.isOver = false) : b.Active config := by
  cases hs : b.stage with
  | idle => exact (h.idle hs).toActive
  | documentOpen => exact (h.isOpen hs).toActive
  | _ =>
    rw [hs] at going
    cases going

/-- A builder that takes an event has not failed with it, but for the event that says so. -/
theorem Effect.stage_ne_failed (h : Effect config s s' event)
    (plain : ∀ cause, event ≠ .fatalError cause) : s'.1.stage ≠ .failed := by
  have opened : s'.1.stage = .documentOpen → s'.1.stage ≠ .failed := fun stage => by
    rw [stage]
    exact Stage.noConfusion
  cases h with
  | startDocument _ starts => exact opened starts.isOpen.open_stage
  | endDocument _ ends =>
    rw [ends.stage]
    exact Stage.noConfusion
  | startElement _ starts => exact opened starts.adds.isOpen.open_stage
  | endElement _ ends => exact opened ends.adds.isOpen.open_stage
  | content ho contributes quiet =>
    obtain ⟨_, adds, -⟩ := (contributes.addsContent ho quiet).adds
    exact opened adds.isOpen.open_stage
  | fatalError _ => exact absurd rfl (plain _)

/-- Where one call leads. -/
theorem stands_accept (h : s.1.Consistent config) (going : s.1.stage.isOver = false)
    (told : journal.Continues s.2) (event : Event) :
    let response := (accept event).run.run s
    Stands config journal (Call.failure? ⟨event, response.1⟩) response.2 := by
  have active := h.active going
  by_cases plain : ∀ cause, event ≠ .fatalError cause
  · have meets : (accept event).Meets s
        (fun _ s' => Effect config s s' event ∧ journal.Continues s'.2)
        fun cause s' => Refused config journal cause s' := by
      unfold accept guarded
      rw [meets_tryCatch]
      have silent : FailsOnly (fun _ => True) (perform event) :=
        failsOnly_perform (fun _ => trivial) plain
      refine ((perform_meets h event).and (silent s journal told)).mono (fun _ _ hp => hp) ?_
      rintro cause s₁ ⟨refuses, told, -⟩
      rw [meets_bind, fail_meets, meets_throw]
      exact ⟨s₁, refuses.active active, told, rfl⟩
    dsimp only
    rcases run : (accept event).run.run s with ⟨cause | _, s'⟩
    · refine .failed ?_ (meets.of_error run)
      cases event with
      | fatalError cause => exact absurd rfl (plain cause)
      | _ => rfl
    · obtain ⟨effect, told⟩ := meets.of_ok run
      have consistent := effect.consistent h
      have nothing : Call.failure? ⟨event, .ok ()⟩ = none := by
        cases event with
        | fatalError cause => exact absurd rfl (plain cause)
        | _ => rfl
      cases hs : s'.1.stage with
      | documentClosed => exact .closed hs (consistent.closed hs) told
      | failed => exact absurd hs (effect.stage_ne_failed plain)
      | _ => exact .going consistent (by rw [hs]; rfl) told nothing
  · obtain ⟨cause, rfl⟩ : ∃ cause, event = .fatalError cause := by
      simpa only [not_forall, not_not] using plain
    rw [run_accept_fatalError]
    exact .failed rfl ⟨s, active, told, rfl⟩

/-- Where calls lead. -/
theorem stands_after (h : s.1.Consistent config) (going : s.1.stage.isOver = false)
    (told : journal.Continues s.2) (events : List Event) :
    Stands config journal (firstFailure? (calls events s)) (after events s) := by
  induction events generalizing s with
  | nil => exact .going h going told rfl
  | cons event rest ih =>
    have step := stands_accept h going told event
    have split : calls (event :: rest) s =
        ⟨event, ((accept event).run.run s).1⟩ :: calls rest ((accept event).run.run s).2 := rfl
    rw [split, firstFailure?, List.findSome?_cons, after]
    generalize (accept event).run.run s = response at step ⊢
    cases step with
    | going h going told nothing =>
      rw [nothing]
      exact ih h going told
    | closed closed done told =>
      rw [after_of_isOver (by rw [closed]; rfl)]
      exact .closed closed done told
    | failed brought refused =>
      rw [brought, after_of_isOver (by rw [refused.stage]; rfl)]
      exact .failed rfl refused

/-- A builder stays consistent whatever comes. -/
theorem consistent_after (h : s.1.Consistent config) (events : List Event) :
    (after events s).1.Consistent config := by
  induction events generalizing s with
  | nil => exact h
  | cons event rest ih => exact ih ((Reaches.accept .refl event).consistent h)

/-- What is true of a builder that is over, after calls of which some failure came first, if there
was one. -/
structure Ended (first : Option Failure) (s : Builder × Journal) : Prop where
  /-- Whatever comes later is refused with the name of the stage, and nothing changes. -/
  responses : ∀ later, Builder.responses later s =
    later.map fun event => (s.1.stage.refusal event, s)
  /-- Nothing changes either when the builder is given up then. -/
  drop : ∀ later, Builder.drop.run.run (after later s) = (.ok (), s)
  /-- The document is complete if the builder has seen the end, and only then. -/
  isDone : s.1.document.isDone = true ↔ s.1.stage = .documentClosed
  /-- Otherwise there was a failure, -/
  isSome : s.1.stage = .failed → first.isSome = true
  /-- and the document keeps the first one. -/
  failure : s.1.document.failure? = if s.1.stage = .failed then first else none

theorem Stands.ended {first : Option Failure} (h : Stands config journal first s)
    (consistent : s.1.Consistent config) (isOver : s.1.stage.isOver = true) : Ended first s where
  responses := responses_of_isOver isOver
  drop later := by rw [after_of_isOver isOver, run_drop_of_isOver isOver]
  isDone := ⟨consistent.stage_eq, consistent.closed⟩
  isSome failed := by
    cases h with
    | going _ going _ _ => cases going.symm.trans isOver
    | closed closed => cases closed.symm.trans failed
    | failed brought _ => rw [brought]; rfl
  failure := by
    cases h with
    | going _ going _ _ => cases going.symm.trans isOver
    | closed closed done =>
      rw [if_neg (by rw [closed]; exact Stage.noConfusion)]
      exact Document.failure?_of_isDone done
    | failed brought refused =>
      rw [if_pos refused.stage, brought, refused.failure?]

/-- The reports of a builder that was given up: the failure that its document keeps was reported as
fatal, and nothing else was. -/
theorem Stands.filter_isFatal {first : Option Failure} (h : Stands config journal first s) :
    let given := (drop.run.run s).2
    given.2.reports.toList.filter (·.isFatal) = journal.reports.toList.filter (·.isFatal) ++
      given.1.document.failure?.toList.map .fatal := by
  dsimp only
  cases h with
  | going consistent going told _ =>
    have refused : Refused config journal _ (drop.run.run s).2 :=
      ⟨s, consistent.active going, told, drop_run s⟩
    rw [refused.filter_isFatal, refused.failure?]
    rfl
  | closed closed done told =>
    rw [run_drop_of_isOver (by rw [closed]; rfl), told.filter_isFatal,
      Document.failure?_of_isDone done]
    exact (List.append_nil _).symm
  | failed _ refused =>
    rw [run_drop_of_isOver (by rw [refused.stage]; rfl), refused.filter_isFatal, refused.failure?]
    rfl

/-- Whatever came to a builder, once it has failed or has seen the end it is over: it refuses all
that comes and changes nothing, and its document keeps the first failure, if it is not complete. Of
the whole life of a builder one failure at most is reported as fatal. -/
theorem over_is_final (config : Config) (journal : Journal) (events : List Event) :
    let s := after events (start config, journal)
    let given := (drop.run.run s).2
    (s.1.stage.isOver = true → Ended (firstFailure? (calls events (start config, journal))) s) ∧
      given.2.reports.toList.filter (·.isFatal) = journal.reports.toList.filter (·.isFatal) ++
        given.1.document.failure?.toList.map .fatal := by
  dsimp only
  have stands := stands_after (s := (start config, journal)) (consistent_start config) rfl
    (.refl journal) events
  exact ⟨stands.ended (consistent_after (consistent_start config) events), stands.filter_isFatal⟩

/-- An element is ended twice, and more is told after that. -/
theorem over_is_final_of_unmatched_end :
    let events : List Event := [.startDocument, .startElement "a" [], .endElement, .endElement,
      .comment "late", .endDocument]
    let s := after events (start .standard, { handler := .lenient })
    let first := firstFailure? (calls events (start .standard, { handler := .lenient }))
    first = some (.construction "end_element without a matching start_element") ∧
      s.1.stage.isOver = true ∧ Ended first s := by
  intro events s first
  have isOver : s.1.stage.isOver = true := by decide +kernel
  exact ⟨by decide +kernel, isOver,
    (over_is_final .standard { handler := .lenient } events).1 isOver⟩

end Builder

end XmlTable
