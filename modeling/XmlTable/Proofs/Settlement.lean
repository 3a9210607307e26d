import XmlTable.Proofs.Handover
import XmlTable.Proofs.SameAnswers
import XmlTable.Proofs.Service
import XmlTable.Proofs.Twins
import XmlTable.Session

/-!
# How a construction ends

A construction that comes to an end leaves a document that is complete or one that has failed. The
failure that the document keeps is the one that the construction returns, in either mode, that is
reported as fatal, and that readers are told who would have to wait; it is the first one that
happened, wherever it came from.
-/

namespace XmlTable

open Node

/-! ### Readers of a document that failed -/

namespace Document

variable {d : Document} {cause : Failure}

/-- The document as readers saw it before it was known how it would end, and without bounds on their
waits. -/
def unsettled (d : Document) : Document :=
  { d with
    config := { d.config with waitTimeout := none }
    progress := .building
    isCancelled := false }

/-- A document that failed looks as it did before. -/
theorem WellFormed.unsettled_resembles (h : d.WellFormed) (failed : d.failure? = some cause) :
    d.unsettled.Resembles d := by
  have done : d.unsettled.isDone = d.isDone := by
    rw [isDone, isDone]
    unfold failure? at failed
    cases hp : d.progress with
    | done =>
      rw [hp] at failed
      cases failed
    | _ => rfl
  have same : d.Resembles d.unsettled := h.resembles rfl rfl rfl rfl rfl rfl done
  exact same.symm

/-- A reader of a failed document who would have to wait is told the failure. -/
theorem WellFormed.answer_of_blocked (h : d.WellFormed) (failed : d.failure? = some cause)
    {α : Type} (q : Question α) (blocked : q.ask.run d.unsettled = .blocked) :
    ∃ a, q.ask.run d = .answer a ∧ q.IsStopped cause a := by
  have root : ∀ {n : Nat} {r : Record}, d.unsettled.nodes.get? n = some r → r.kind = .document →
      n = 0 := h.root
  have standstill : d.standstill = .stopped cause := by
    unfold failure? at failed
    unfold Document.standstill
    cases hp : d.progress with
    | failed other =>
      rw [hp] at failed
      cases failed
      rfl
    | _ =>
      rw [hp] at failed
      cases failed
  rcases (q.inStep (T := .still (h.unsettled_resembles failed) root) (k := 0)).run_cases with
    ⟨a, a', hr, -⟩ | ⟨misuse, hr, -⟩ | ⟨answerTo, answerTo', same, -, hr'⟩
  · cases hr.symm.trans blocked
  · cases hr.symm.trans blocked
  · change q.ask.run d = d.standstill.outcome _ at hr'
    rw [standstill] at hr'
    obtain ⟨eq, stopped⟩ := same cause
    exact ⟨_, hr', by rwa [eq]⟩

end Document

/-! ### Reports of failures -/

/-- Reports that are not fatal add nothing to those that are. -/
theorem Journal.Continues.filter_isFatal {journal journal' : Journal}
    (h : journal.Continues journal') :
    journal'.reports.toList.filter (·.isFatal) = journal.reports.toList.filter (·.isFatal) := by
  obtain ⟨more, reports, plain⟩ := h.reports
  have none : more.filter (·.isFatal) = [] := List.filter_eq_nil_iff.2 fun report hr => by
    rw [plain report hr]
    exact nofun
  rw [reports, List.filter_append, none, List.append_nil]

namespace Builder

variable {config : Config} {journal : Journal} {cause : Failure} {s : Builder × Journal}

/-- A builder that has not seen the end fails with the first failure. -/
theorem Active.failed_eq (h : s.1.Active config) (cause : Failure) : failed cause s =
    (({ s.1 with stage := .failed } : Builder).record (.fail cause), s.2.fatal cause) := by
  unfold failed
  rcases h.stage with hs | hs <;> rw [hs]

/-- A builder that has failed fails no further. -/
theorem Refused.failed_eq (h : Refused config journal cause s) (later : Failure) :
    failed later s = s := by
  obtain ⟨s₁, active, -, rfl⟩ := h
  rw [active.failed_eq]
  rfl

/-- The document of a builder that refused an event has failed. -/
theorem Refused.failure? (h : Refused config journal cause s) :
    s.1.document.failure? = some cause := by
  obtain ⟨s₁, active, -, rfl⟩ := h
  rw [active.failed_eq]
  show (s₁.1.document.apply (.fail cause)).failure? = _
  rw [Document.apply, active.building]
  rfl

/-- Its failure was reported as fatal, and nothing else was. -/
theorem Refused.filter_isFatal (h : Refused config journal cause s) :
    s.2.reports.toList.filter (·.isFatal) =
      journal.reports.toList.filter (·.isFatal) ++ [.fatal cause] := by
  obtain ⟨s₁, active, told, rfl⟩ := h
  rw [active.failed_eq]
  show (s₁.2.reports.push (.fatal cause)).toList.filter _ = _
  rw [Array.toList_push, List.filter_append, told.filter_isFatal]
  rfl

theorem Refused.wellFormed (h : Refused config journal cause s) : s.1.document.WellFormed := by
  obtain ⟨s₁, active, -, rfl⟩ := h
  rw [active.failed_eq]
  exact (Document.grows_fail active.sound.wellFormed active.building cause).wellFormed

/-- What is left of a builder that was read to: it was told a whole document, or it has failed as
the reading did. -/
inductive WasReadTo (config : Config) (journal : Journal) :
    Except Stop Unit → Builder × Journal → Prop
  /-- It was told a whole document. -/
  | done {s : Builder × Journal} : Serves config .ended s.1 → journal.Continues s.2 →
    WasReadTo config journal (.ok ()) s
  /-- It has failed. -/
  | failed {cause : Failure} {s : Builder × Journal} : Refused config journal cause s →
    WasReadTo config journal (.error (.failure cause)) s
  /-- The reading was given up. -/
  | unfinished {s : Builder × Journal} : WasReadTo config journal (.error .unfinished) s

/-- Placing a failure of character data at a position leaves it as it is: no event that comes in
order fails in construction there. -/
theorem Refusal.locate {event : Event} (h : Refusal event cause)
    (isData : event.isExpanded = true) (position : Nat) : cause.locate position = cause := by
  cases h with
  | full => rfl
  | undeclared => cases isData

/-- When a reading stops, the builder has failed with the failure that is returned once it has been
told. -/
theorem refused_of_stopped {s' : Builder × Journal}
    (h : (service config journal).Stopped (.failure cause) s s') :
    Refused config journal cause (failed cause s) := by
  cases h with
  | @alone phase _ _ _ holds hne =>
    obtain ⟨-, serves, told⟩ := holds
    have active : s.1.Active config := by
      have stage := serves.stage
      cases phase with
      | before => exact (serves.consistent.idle stage).toActive
      | ended => exact absurd rfl hne
      | _ => exact (serves.consistent.isOpen stage).toActive
    exact ⟨s, active, told, rfl⟩
  | @refused _ _ event first _ _ _ _ refused placed =>
    obtain ⟨-, refused, refusal⟩ := refused
    obtain rfl : cause = first := by
      rcases placed with same | ⟨isData, position, same⟩
      · exact same
      · rw [same, refusal.locate isData]
    rwa [refused.failed_eq]

/-- A builder is read to from the start to the end, or it fails as the reading does. -/
theorem wasReadTo_run (config : Config) (journal : Journal) (patience limit : Nat)
    (source : Source) :
    let result := Reader.run sink patience limit source (start config) journal
    WasReadTo config journal result.outcome (result.state, result.journal) := by
  dsimp only
  have begins : (service config journal).holds .before (start config, journal)
      (start config, journal) := ⟨rfl, serves_start config, .refl _⟩
  obtain ⟨r', alike⟩ : ∃ r', Delivery.EndAlike _ _
      ((Reader.read sink patience source.tokens).ending (.start limit) (start config, journal))
      r' :=
    ⟨_, Contract.read_alike patience limit source.nested_tokens begins⟩
  rw [Reader.run_eq_runTokens, Reader.runTokens]
  generalize (Reader.read sink patience source.tokens).ending (.start limit)
    (start config, journal) = r at alike ⊢
  cases alike with
  | ok holds => exact .done holds.2.1 holds.2.2
  | stop told =>
    cases told with
    | @failure cause t t' stopped =>
      have last : ((sink.accept (.fatalError cause)).run.run t).2 = failed cause t :=
        congrArg Prod.snd (run_accept_fatalError cause t)
      rw [last]
      exact .failed (refused_of_stopped stopped)
    | unfinished _ => exact .unfinished

/-! ### Settings that differ in the mode -/

/-- Twins with room for as many nodes are told the same by readers. -/
def Pairing.mirror (P : Pairing) (exact : ¬ P.loose) : Contract sink sink where
  holds _ s s' := ∃ held, P.Twins held s s'
  refused _ _ _ _ _ := True
  journal := fun ⟨_, twins⟩ => twins.journal
  tell := fun ⟨held, twins⟩ _ => ⟨held, twins.tell fun _ => _⟩
  accept := by
    rintro _ _ event s s' ⟨held, twins⟩ -
    have alike := tandem_accept event s s' twins
    show Reporting.EndAlike _ _ _ ((Builder.accept event).run.run s)
      ((Builder.accept event).run.run s')
    generalize (Builder.accept event).run.run s = r, (Builder.accept event).run.run s' = r'
      at alike ⊢
    cases alike with
    | ok h =>
      obtain ⟨held', -, twins', -⟩ := h
      exact .ok ⟨held', twins'⟩
    | fail h => exact .fail trivial
    | left h => exact absurd h.1 exact
    | right h => exact absurd h.1 exact

/-- A source is read the same way in either mode. -/
theorem outcome_run_withMode (config : Config) (mode : BuildMode) (journal : Journal)
    (patience limit : Nat) (source : Source) :
    (Reader.run sink patience limit source (start (config.withMode mode)) journal).outcome =
      (Reader.run sink patience limit source (start config) journal).outcome := by
  let P : Pairing := ⟨config, config.withMode mode, False⟩
  have twins := Pairing.Twins.start P rfl rfl (.inr rfl) journal
  have alike := Contract.read_alike (C := P.mirror id) patience limit source.nested_tokens
    ⟨_, twins⟩
  unfold Delivery.Alike at alike
  rw [Reader.run_eq_runTokens, Reader.run_eq_runTokens, Reader.runTokens, Reader.runTokens]
  generalize (Reader.read sink patience source.tokens).ending (.start limit)
      (start (config.withMode mode), journal) = r',
    (Reader.read sink patience source.tokens).ending (.start limit) (start config, journal) = r
    at alike ⊢
  cases alike <;> rfl

end Builder

namespace Construction

open Builder

variable {config : Config} {handler : Handler} {patience : Nat} {source : Source}

/-- Settling leaves a builder that was read to as it is. -/
theorem run_settle {journal : Journal} {outcome : Except Stop Unit} {s : Builder × Journal}
    (h : WasReadTo config journal outcome s) : (settle outcome).run.run s = (outcome, s) := by
  cases h with
  | @done s serves told =>
    have stage : s.1.stage = .documentClosed := serves.stage
    show (if s.1.stage ≠ .documentClosed then _ else pure () : EventSource).run.run s = _
    rw [if_neg (not_not.2 stage)]
    rfl
  | @failed cause s refused =>
    show (match (Builder.fail cause).run.run s with
      | (_, t) => (.error (.failure cause), t) : Except Stop Unit × (Builder × Journal)) = _
    rw [run_fail, refused.failed_eq]
  | unfinished => rfl

/-- A construction ends as the reading of its source does. -/
theorem ofSource_eq (config : Config) (handler : Handler) (patience : Nat) (source : Source) :
    let result := Reader.run sink patience config.expansionLimit source (start config) { handler }
    ofSource config handler patience source = ⟨result.outcome, result.state, result.journal⟩ := by
  intro result
  have delivers : (EventSource.ofSource patience config.expansionLimit source).run.run
      (start config, { handler }) = (result.outcome, result.state, result.journal) := rfl
  have settled := run_settle
    (wasReadTo_run config { handler } patience config.expansionLimit source)
  rw [ofSource, run, delivers]
  dsimp only
  rw [settled]

/-! ### Results -/

/-- The result that is handed out, if there is one. -/
def Product.result? : Product → Option (Except Failure Unit)
  | refused cause => some (.error cause)
  | document _ joined => some joined
  | unfinished => none

/-- The result of a construction that came to an end, in either mode. -/
theorem result?_product (construction : Construction) (mode : BuildMode) :
    (construction.product mode).result? =
      match construction.outcome with
      | .ok () => some (.ok ())
      | .error (.failure cause) => some (.error cause)
      | .error .unfinished => none := by
  unfold product
  rcases construction.outcome with (cause | -) | -
  · cases mode <;> rfl
  · rfl
  · rfl

/-- What is true of a construction that came to an end with a result. -/
structure Settled (construction : Construction) (result : Except Failure Unit) : Prop where
  /-- The document is complete or has failed, and not both. -/
  ended : construction.builder.document.isDone = !construction.builder.document.isFailed
  /-- The result is good if the document is complete, and only then. -/
  isDone : result = .ok () ↔ construction.builder.document.isDone = true
  /-- Otherwise it is the failure of the document, -/
  failure : ∀ cause, result = .error cause →
    construction.builder.document.failure? = some cause
  /-- and every question is answered with it that would have to wait. -/
  answer : ∀ cause, result = .error cause → ∀ {α : Type} (q : Question α),
    q.ask.run construction.builder.document.unsettled = .blocked →
    ∃ a, q.ask.run construction.builder.document = .answer a ∧ q.IsStopped cause a
  /-- That failure is reported as fatal, once, and nothing else is. -/
  fatal : construction.journal.reports.toList.filter (·.isFatal) =
    match result with
    | .ok () => []
    | .error cause => [.fatal cause]

theorem settled_of_serves {b : Builder} {journal : Journal} (serves : Serves config .ended b)
    (told : Journal.Continues { handler } journal) :
    Settled ⟨.ok (), b, journal⟩ (.ok ()) := by
  have done : b.document.isDone = true := serves.consistent.closed serves.stage
  have running : b.document.isFailed = false := by
    unfold Document.isDone at done
    unfold Document.isFailed
    cases hp : b.document.progress with
    | failed cause =>
      rw [hp] at done
      cases done
    | _ => rfl
  exact
    { ended := by rw [done, running]; rfl
      isDone := ⟨fun _ => done, fun _ => rfl⟩
      failure := nofun
      answer := nofun
      fatal := told.filter_isFatal }

theorem settled_of_refused {b : Builder} {journal : Journal} {cause : Failure}
    (refused : Refused config { handler } cause (b, journal)) :
    Settled ⟨.error (.failure cause), b, journal⟩ (.error cause) := by
  have failure : b.document.failure? = some cause := refused.failure?
  have failed : b.document.isFailed = true ∧ b.document.isDone = false := by
    unfold Document.failure? at failure
    unfold Document.isFailed Document.isDone
    cases hp : b.document.progress with
    | failed other => exact ⟨rfl, rfl⟩
    | _ =>
      rw [hp] at failure
      cases failure
  exact
    { ended := by rw [failed.1, failed.2]; rfl
      isDone := ⟨nofun, fun done => by rw [failed.2] at done; cases done⟩
      failure := by
        rintro _ ⟨⟩
        exact failure
      answer := by
        rintro _ ⟨⟩ _ q blocked
        exact refused.wellFormed.answer_of_blocked failure q blocked
      fatal := refused.filter_isFatal }

end Construction

end XmlTable
