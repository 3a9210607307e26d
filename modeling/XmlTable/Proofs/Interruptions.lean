import XmlTable.Proofs.Finality
import XmlTable.Proofs.Settlement

/-!
# Interruptions and answers

A construction that is not complete may fail, waits may be cancelled, and they may be limited. None
of that changes an answer that is available: a question whose answer is in the tables has it
whatever happened, and a question that would have to wait has none, and is answered with what ended
the wait. A walk comes just as far in all cases.
-/

namespace XmlTable

open Node Timeline

/-- What may befall those who wait for a document that is not complete. -/
inductive Interruption where
  /-- The construction fails. -/
  | fail (cause : Failure)
  /-- Waits are cancelled. -/
  | cancel
  deriving DecidableEq

namespace Interruption

/-- The change that the document sees. -/
def change : Interruption → Change
  | fail cause => .fail cause
  | cancel => .cancel

/-- The failure of the construction. -/
def failure? : Interruption → Option Failure
  | fail cause => some cause
  | cancel => none

end Interruption

/-- What comes of a query whose wait some failure ends, if any does. -/
def Outcome.ofFailure? {α : Type} (answerTo : Failure → α) : Option Failure → Outcome α
  | some failure => .answer (answerTo failure)
  | none => .blocked

namespace Document

/-- What ends a wait, if the document is not complete and stays as it is but for some interruptions:
the first failure of the construction, else the cancellation, else the limit. -/
def waitFailure? (d : Document) (limit : Option Duration) (interruptions : List Interruption) :
    Option Failure :=
  ((d.failure?.or (interruptions.findSome? (·.failure?))).or
    (if d.isCancelled || interruptions.contains .cancel then some .cancelled else none)).or
    (limit.map .timeout)

variable {d d' : Document}

/-! ### Documents after interruptions -/

/-- Two documents differ only in the settings and in how far the construction has come, which is not
to the end. -/
structure SameTables (d d' : Document) : Prop where
  /-- The tables are the same. -/
  same : d' =
    { d with config := d'.config, progress := d'.progress, isCancelled := d'.isCancelled }
  /-- The one is not complete. -/
  left : d.isDone = false
  /-- Nor is the other. -/
  right : d'.isDone = false

namespace SameTables

theorem symm (h : d.SameTables d') : d'.SameTables d :=
  ⟨by rw [h.same], h.right, h.left⟩

theorem trans {d'' : Document} (h : d.SameTables d') (h' : d'.SameTables d'') :
    d.SameTables d'' :=
  ⟨by rw [h'.same, h.same], h.left, h'.right⟩

/-- Documents with the same tables look the same. -/
theorem resembles (h : d.SameTables d') (hd : d.WellFormed) : d.Resembles d' :=
  hd.resembles (by rw [h.same]) (by rw [h.same]) (by rw [h.same]) (by rw [h.same]) (by rw [h.same])
    (by rw [h.same]) (h.right.trans h.left.symm)

theorem wellFormed (h : d.SameTables d') (hd : d.WellFormed) : d'.WellFormed :=
  hd.of_same (by rw [h.same]) (by rw [h.same]) (by rw [h.same]) (by rw [h.same]) fun done =>
    absurd done (by rw [h.right]; exact Bool.false_ne_true)

end SameTables

/-- The document as it would be if nothing ended a wait. -/
theorem sameTables_unsettled (h : d.isDone = false) : d.SameTables d.unsettled :=
  ⟨rfl, h, rfl⟩

theorem sameTables_interruption (h : d.isDone = false) (interruption : Interruption) :
    d.SameTables (d.apply interruption.change) := by
  cases interruption with
  | cancel => exact ⟨rfl, h, h⟩
  | fail cause =>
    unfold isDone at h
    show d.SameTables (d.apply (.fail cause))
    unfold apply
    cases hp : d.progress with
    | failed first => exact ⟨rfl, by rw [isDone, hp], by rw [isDone, hp]⟩
    | building => exact ⟨rfl, by rw [isDone, hp], rfl⟩
    | done =>
      rw [hp] at h
      cases h

theorem sameTables_interruptions (h : d.isDone = false) (interruptions : List Interruption) :
    d.SameTables (d.applyAll (interruptions.map (·.change))) := by
  induction interruptions generalizing d with
  | nil => exact ⟨rfl, h, h⟩
  | cons interruption rest ih =>
    have first := sameTables_interruption h interruption
    exact first.trans (ih first.right)

/-- The settings play no part in any change. -/
theorem applyAll_withConfig (d : Document) (config : Config) (changes : List Change) :
    applyAll { d with config } changes = { d.applyAll changes with config } := by
  induction changes generalizing d with
  | nil => rfl
  | cons change rest ih =>
    have first : apply { d with config } change = { d.apply change with config } := by
      cases change with
      | fail cause =>
        simp only [apply]
        split <;> rfl
      | _ => rfl
    show applyAll (apply { d with config } change) rest = _
    rw [first, ih]
    rfl

theorem initial_withWaitTimeout (config : Config) (limit : Option Duration) :
    initial { config with waitTimeout := limit } =
      { initial config with config := { config with waitTimeout := limit } } := by
  unfold initial
  dsimp only

theorem failure?_interruption (h : d.isDone = false) (interruption : Interruption) :
    (d.apply interruption.change).failure? = d.failure?.or interruption.failure? := by
  cases interruption with
  | cancel => exact (Option.or_none ..).symm
  | fail cause =>
    unfold isDone at h
    show (d.apply (.fail cause)).failure? = d.failure?.or (some cause)
    unfold apply failure?
    cases hp : d.progress with
    | failed first => simp only [hp, Option.some_or]
    | building => rfl
    | done =>
      rw [hp] at h
      cases h

/-- The first failure is the one that is known after interruptions. -/
theorem failure?_interruptions (h : d.isDone = false) (interruptions : List Interruption) :
    (d.applyAll (interruptions.map (·.change))).failure? =
      d.failure?.or (interruptions.findSome? (·.failure?)) := by
  induction interruptions generalizing d with
  | nil => exact (Option.or_none ..).symm
  | cons interruption rest ih =>
    show ((d.apply interruption.change).applyAll (rest.map (·.change))).failure? = _
    rw [ih (sameTables_interruption h interruption).right, failure?_interruption h,
      Option.or_assoc, List.findSome?_cons]
    cases interruption.failure? <;> rfl

theorem isCancelled_interruption (d : Document) (interruption : Interruption) :
    (d.apply interruption.change).isCancelled = (d.isCancelled || interruption == .cancel) := by
  cases interruption with
  | cancel => exact (Bool.or_true _).symm
  | fail cause =>
    show (d.apply (.fail cause)).isCancelled = _
    rw [show (Interruption.fail cause == .cancel) = false from rfl, Bool.or_false]
    unfold apply
    dsimp only
    split <;> rfl

theorem isCancelled_interruptions (d : Document) (interruptions : List Interruption) :
    (d.applyAll (interruptions.map (·.change))).isCancelled =
      (d.isCancelled || interruptions.contains .cancel) := by
  induction interruptions generalizing d with
  | nil => exact (Bool.or_false _).symm
  | cons interruption rest ih =>
    show ((d.apply interruption.change).applyAll (rest.map (·.change))).isCancelled = _
    rw [ih, isCancelled_interruption, Bool.or_assoc, List.contains_cons, Bool.beq_comm]

theorem config_interruptions (d : Document) (interruptions : List Interruption) :
    (d.applyAll (interruptions.map (·.change))).config = d.config := by
  induction interruptions generalizing d with
  | nil => rfl
  | cons interruption rest ih =>
    show ((d.apply interruption.change).applyAll (rest.map (·.change))).config = _
    rw [ih]
    cases interruption with
    | cancel => rfl
    | fail cause =>
      show (d.apply (.fail cause)).config = _
      unfold apply
      dsimp only
      split <;> rfl

/-- How a wait ends that some failure ends, if any does. -/
def standstillOf : Option Failure → Standstill
  | some failure => .stopped failure
  | none => .waiting

theorem outcome_standstillOf {α : Type} (answerTo : Failure → α) (failure? : Option Failure) :
    (standstillOf failure?).outcome answerTo = .ofFailure? answerTo failure? := by
  cases failure? <;> rfl

/-- A wait ends with the first failure, else by the cancellation, else at the limit. -/
theorem standstill_eq (h : d.isDone = false) : d.standstill =
    standstillOf ((d.failure?.or (if d.isCancelled then some .cancelled else none)).or
      (d.config.waitTimeout.map .timeout)) := by
  unfold isDone at h
  unfold standstill failure?
  cases hp : d.progress with
  | failed cause => rfl
  | done =>
    rw [hp] at h
    cases h
  | building =>
    dsimp only
    cases d.isCancelled
    · cases d.config.waitTimeout <;> rfl
    · rfl

/-- How a wait ends after interruptions. -/
theorem standstill_interruptions (h : d.isDone = false) (interruptions : List Interruption) :
    (d.applyAll (interruptions.map (·.change))).standstill =
      standstillOf (d.waitFailure? d.config.waitTimeout interruptions) := by
  rw [standstill_eq (sameTables_interruptions h interruptions).right,
    failure?_interruptions h, isCancelled_interruptions, config_interruptions, waitFailure?]

end Document

/-! ### Questions that wait -/

/-- A reading has an answer at a document whatever ends the waits, or it has none and waits. -/
def Settles {α : Type} (d : Document) (x : Reading α) : Prop :=
  (∃ a, ∀ d', d.SameTables d' → Query.run d' x.run = .answer (.ok a)) ∨
    ∀ d', d.SameTables d' → Query.run d' x.run = d'.standstill.outcome .error

/-- A reading that depends only on the tables settles, unless it is a mistake. -/
theorem settles_of_agrees {α : Type} {d : Document} (hd : d.WellFormed) (going : d.isDone = false)
    {x : Reading α} (agrees : ∀ T : Parallel, T.AgreesOk 0 x x fun _ => Eq)
    (placed : ∀ cause, Query.run d x.run ≠ .misuse cause) : Settles d x := by
  have base := Document.sameTables_unsettled going
  have root : ∀ {n : Nat} {r : Record}, d.unsettled.nodes.get? n = some r → r.kind = .document →
      n = 0 := hd.root
  have waiting : d.unsettled.standstill = .waiting := rfl
  -- Where no wait ends, either there is an answer or there is none.
  have cases_of : ∀ {d' : Document}, d.SameTables d' →
      (∃ a, Query.run d.unsettled x.run = .answer (.ok a) ∧ Query.run d' x.run = .answer (.ok a)) ∨
      (∃ cause, Query.run d.unsettled x.run = .misuse cause ∧
        Query.run d' x.run = .misuse cause) ∨
      Query.run d.unsettled x.run = .blocked ∧
        Query.run d' x.run = d'.standstill.outcome .error := by
    intro d' h
    have resembles : d.unsettled.Resembles d' :=
      (base.symm.trans h).resembles (base.wellFormed hd)
    rcases (agrees (.still resembles root)).run_cases with
      ⟨_, _, hr, hr', a, _, rfl, rfl, rfl⟩ | ⟨cause, hr, hr'⟩ | ⟨answerTo, answerTo', same, hr, hr'⟩
    · exact .inl ⟨a, hr, hr'⟩
    · exact .inr (.inl ⟨cause, hr, hr'⟩)
    · obtain rfl : answerTo' = .error := funext fun failure => (same failure).2
      exact .inr (.inr ⟨hr, hr'⟩)
  have itself : d.SameTables d := ⟨rfl, going, going⟩
  rcases cases_of itself with ⟨a, found, -⟩ | ⟨cause, -, misplaced⟩ | ⟨blocked, -⟩
  · refine .inl ⟨a, fun d' h => ?_⟩
    rcases cases_of h with ⟨a', found', answered⟩ | ⟨cause, misplaced, -⟩ | ⟨blocked, -⟩
    · cases found.symm.trans found'
      exact answered
    · cases found.symm.trans misplaced
    · cases found.symm.trans blocked
  · exact absurd misplaced (placed cause)
  · refine .inr fun d' h => ?_
    rcases cases_of h with ⟨a', found, -⟩ | ⟨cause, misplaced, -⟩ | ⟨-, stopped⟩
    · cases blocked.symm.trans found
    · cases blocked.symm.trans misplaced
    · exact stopped

namespace Document

variable {d : Document} {n : NodeId} {α β : Type}

/-- What waits at once waits whatever it would go on with. -/
theorem run_bind_of_standstill (going : d.isDone = false) {x : Reading α}
    (h : Query.run d x.run = d.standstill.outcome .error) (f : α → Reading β) :
    Query.run d (x >>= f).run = d.standstill.outcome .error := by
  show Query.run d (Query.bind x.run _) = _
  rw [Query.run_bind, h]
  cases hs : d.standstill with
  | overdue => exact absurd hs (standstill_ne_overdue going)
  | _ => rfl

/-- A node that is not there yet is waited for. -/
theorem run_startRecord_of_missing (going : d.isDone = false) (missing : d.nodes.size ≤ n) :
    Query.run d (Query.startRecord n).run = d.standstill.outcome .error := by
  refine run_bind_of_standstill going ?_ _
  have none : d.nodes.get? n = none := by
    rw [← Option.not_isSome_iff_eq_none, Table.isSome_get?_iff]
    exact Nat.not_lt.2 missing
  show Query.run d (.await 2 _ _ _) = _
  rw [Query.run, if_neg (by rw [none, going]; exact Bool.false_ne_true)]
  cases d.standstill <;> rfl

end Document

namespace Question

variable {d : Document} {α : Type}

/-- The node that a question begins with. -/
def Waiting.start? : {α : Type} → Waiting α → Option NodeId
  | _, firstChild node | _, lastChild node | _, nextSibling node | _, previousSibling node
  | _, nextDescendant _ node | _, nextFollowing _ node | _, stringValue node => some node
  | _, elementById _ | _, entity _ | _, entityValue _ | _, firstEntity | _, documentElement
  | _, awaitDone => none

/-- A question that begins with a node that is not there yet waits for it. -/
theorem Waiting.run_of_missing (q : Waiting α) {n : NodeId} (start : q.start? = some n)
    (going : d.isDone = false) (missing : d.nodes.size ≤ n) :
    Query.run d q.ask.run = d.standstill.outcome .error := by
  have first := Document.run_startRecord_of_missing going missing
  have andThen : ∀ {β γ : Type} {x : Reading β} (f : β → Reading γ),
      Query.run d x.run = d.standstill.outcome .error →
      Query.run d (x >>= f).run = d.standstill.outcome .error :=
    fun f h => Document.run_bind_of_standstill going h f
  cases q <;> cases start
  case firstChild => exact andThen _ first
  case lastChild => exact andThen _ (andThen _ first)
  case nextSibling => exact andThen _ first
  case previousSibling => exact andThen _ first
  case nextDescendant => exact andThen _ (andThen _ first)
  case nextFollowing => exact andThen _ (andThen _ first)
  case stringValue => exact andThen _ first

/-- A question that begins with a node that is there is no mistake. -/
theorem Waiting.run_ne_misuse (q : Waiting α) (hd : d.WellFormed)
    (there : ∀ n, q.start? = some n → n < d.nodes.size) (cause : Misuse) :
    Query.run d q.ask.run ≠ .misuse cause := by
  have hf : (still d hd True).Waits fun _ => d.isDone = false := ⟨trivial, id⟩
  have lasts : ∃ R, (still d hd True).LastsOk (fun _ => d.isDone = false) 0 q.ask q.ask R := by
    cases q
    case nextDescendant root node => exact ⟨_, lasts_nextDescendant hf fun _ => there node rfl⟩
    case nextFollowing context node => exact ⟨_, lasts_nextFollowing hf fun _ => there node rfl⟩
    case firstChild node =>
      exact ⟨_, (firstChild node).lasts hf (List.forall_mem_singleton.2 fun _ => there node rfl)⟩
    case lastChild node =>
      exact ⟨_, (lastChild node).lasts hf (List.forall_mem_singleton.2 fun _ => there node rfl)⟩
    case nextSibling node =>
      exact ⟨_, (nextSibling node).lasts hf (List.forall_mem_singleton.2 fun _ => there node rfl)⟩
    case previousSibling node =>
      exact ⟨_, (previousSibling node).lasts hf
        (List.forall_mem_singleton.2 fun _ => there node rfl)⟩
    case stringValue node =>
      exact ⟨_, (stringValue node).lasts hf (List.forall_mem_singleton.2 fun _ => there node rfl)⟩
    all_goals exact ⟨_, Waiting.lasts _ hf (List.forall_mem_nil _)⟩
  obtain ⟨R, lasts⟩ := lasts
  have meets := Fine.run lasts trivial id
  intro misplaced
  rw [show (still d hd True).moment 0 = d from rfl, misplaced] at meets
  exact meets

/-- Every question that may wait settles, whatever it asks about. -/
theorem Waiting.settles (q : Waiting α) (hd : d.WellFormed) (going : d.isDone = false) :
    Settles d q.ask := by
  by_cases there : ∀ n, q.start? = some n → n < d.nodes.size
  · exact settles_of_agrees hd going (fun _ => q.agrees) (q.run_ne_misuse hd there)
  · obtain ⟨n, start, missing⟩ : ∃ n, q.start? = some n ∧ d.nodes.size ≤ n := by
      simpa only [not_forall, Nat.not_lt, exists_prop] using there
    refine .inr fun d' h => q.run_of_missing start h.right ?_
    rw [h.same]
    exact missing

/-! ### Walks -/

/-- A walk comes to the same nodes at a document whatever ends the waits: to the last of them or up
to a wait, and to each of them before that wait. -/
structure ComesTo (d : Document) (first : Reading (Option NodeId))
    (step : NodeId → Reading (Option NodeId)) (fuel : Nat) (done nodes : List NodeId) : Prop where
  /-- The walk is last, or there is a wait after the nodes. -/
  ends : (∀ d', d.SameTables d' →
      Query.run d' (Query.walkFrom step fuel done first) =
        .answer ⟨done.reverse ++ nodes, none⟩) ∨
    ∀ d', d.SameTables d' → Query.run d' (Query.walkFrom step fuel done first) =
      d'.standstill.outcome fun failure => ⟨done.reverse ++ nodes, some failure⟩
  /-- So many steps lead to so many nodes. -/
  steps : ∀ m ≤ nodes.length, ∀ d', d.SameTables d' →
    Query.run d' (Query.walkFrom step m done first) = .answer ⟨done.reverse ++ nodes.take m, none⟩

theorem exists_comesTo {step : NodeId → Reading (Option NodeId)}
    (hstep : ∀ m, Settles d (step m)) (fuel : Nat) (done : List NodeId)
    {first : Reading (Option NodeId)} (hfirst : Settles d first) :
    ∃ nodes, ComesTo d first step fuel done nodes := by
  -- One step of the walk, by what it is answered.
  have run : ∀ {d' : Document} {fuel : Nat} {done : List NodeId}
      {first : Reading (Option NodeId)} {a : Option NodeId},
      Query.run d' first.run = .answer (.ok a) →
      Query.run d' (Query.walkFrom step (fuel + 1) done first) =
        a.elim (.answer ⟨done.reverse, none⟩) fun node =>
          Query.run d' (Query.walkFrom step fuel (node :: done) (step node)) := by
    intro d' fuel done first a h
    show Query.run d' (Query.bind first.run _) = _
    rw [Query.run_bind, h]
    cases a <;> rfl
  induction fuel generalizing done first with
  | zero =>
    refine ⟨[], .inl fun _ _ => by rw [List.append_nil]; rfl, fun m hm _ _ => ?_⟩
    obtain rfl := Nat.le_zero.1 hm
    rw [List.take_nil, List.append_nil]
    rfl
  | succ fuel ih =>
    have nothing : ∀ m ≤ ([] : List NodeId).length, ∀ d', d.SameTables d' →
        Query.run d' (Query.walkFrom step m done first) =
          .answer ⟨done.reverse ++ [].take m, none⟩ := by
      intro m hm _ _
      obtain rfl := Nat.le_zero.1 hm
      rw [List.take_nil, List.append_nil]
      rfl
    rcases hfirst with ⟨_ | node, found⟩ | waits
    · refine ⟨[], .inl fun d' h => ?_, nothing⟩
      rw [run (found d' h), Option.elim_none, List.append_nil]
    · obtain ⟨nodes, comes⟩ := ih (node :: done) (hstep node)
      have ends := comes.ends
      have steps := comes.steps
      rw [List.reverse_cons, List.append_assoc, List.singleton_append] at ends
      refine ⟨node :: nodes, ends.imp (fun last d' h => ?_) (fun waits d' h => ?_),
        fun m hm d' h => ?_⟩
      · rw [run (found d' h)]
        exact last d' h
      · rw [run (found d' h)]
        exact waits d' h
      · cases m with
        | zero =>
          rw [List.take_zero, List.append_nil]
          rfl
        | succ m =>
          rw [run (found d' h), List.take_succ_cons, Option.elim_some,
            steps m (Nat.le_of_succ_le_succ hm) d' h, List.reverse_cons, List.append_assoc,
            List.singleton_append]
    · refine ⟨[], .inr fun d' h => ?_, nothing⟩
      show Query.run d' (Query.bind first.run _) = _
      rw [Query.run_bind, waits d' h, List.append_nil]
      cases d'.standstill <;> rfl

/-- The reading that a walk starts with. -/
def Walking.first : Walking → Reading (Option NodeId)
  | children node => Query.firstChild node
  | descendants node => Query.nextDescendant node node
  | following node => Query.nextFollowing node node

/-- The reading that leads a walk on from a node. -/
def Walking.step : Walking → NodeId → Reading (Option NodeId)
  | children _ => Query.nextSibling
  | descendants node => Query.nextDescendant node
  | following node => Query.nextFollowing node

theorem Walking.exists_comesTo (q : Walking) (hd : d.WellFormed) (going : d.isDone = false) :
    ∃ nodes, ComesTo d q.first q.step indexBound [] nodes ∧
      q.ask = Query.walkFrom q.step indexBound [] q.first := by
  cases q with
  | children node =>
    obtain ⟨nodes, comes⟩ := Question.exists_comesTo
      (fun m => (Waiting.nextSibling m).settles hd going) indexBound []
      ((Waiting.firstChild node).settles hd going)
    exact ⟨nodes, comes, rfl⟩
  | descendants node =>
    obtain ⟨nodes, comes⟩ := Question.exists_comesTo
      (fun m => (Waiting.nextDescendant node m).settles hd going) indexBound []
      ((Waiting.nextDescendant node node).settles hd going)
    exact ⟨nodes, comes, rfl⟩
  | following node =>
    obtain ⟨nodes, comes⟩ := Question.exists_comesTo
      (fun m => (Waiting.nextFollowing node m).settles hd going) indexBound []
      ((Waiting.nextFollowing node node).settles hd going)
    exact ⟨nodes, comes, rfl⟩

end Question

namespace Builder

variable {config : Config} {changes : List Change}

/-- The document at a moment of a run, if waits are limited and some interruptions come then. -/
def interrupted (config : Config) (changes : List Change) (j : Nat) (limit : Option Duration)
    (interruptions : List Interruption) : Document :=
  ((Document.initial { config with waitTimeout := limit }).moment changes j).applyAll
    (interruptions.map (·.change))

/-- Interruptions leave the tables as they are, and say how a wait ends. -/
theorem interrupted_cases {j : Nat}
    (going : ((Document.initial config).moment changes j).isDone = false) (limit : Option Duration)
    (interruptions : List Interruption) :
    ((Document.initial config).moment changes j).SameTables
        (interrupted config changes j limit interruptions) ∧
      (interrupted config changes j limit interruptions).standstill =
        Document.standstillOf
          (((Document.initial config).moment changes j).waitFailure? limit interruptions) := by
  have moment : (Document.initial { config with waitTimeout := limit }).moment changes j =
      { (Document.initial config).moment changes j with
        config := { config with waitTimeout := limit } } := by
    rw [Document.moment, Document.initial_withWaitTimeout config limit]
    exact Document.applyAll_withConfig ..
  rw [interrupted, moment]
  generalize (Document.initial config).moment changes j = d at going ⊢
  generalize limited : ({ config with waitTimeout := limit } : Config) = other
  have start : d.SameTables { d with config := other } := ⟨rfl, going, going⟩
  refine ⟨start.trans (Document.sameTables_interruptions start.right interruptions), ?_⟩
  rw [Document.standstill_interruptions start.right, ← limited]
  rfl

/-- At a moment of a run at which the document is not complete, let the construction fail or not,
waits be cancelled or not, and let them be limited in any way or not at all. A question that may
wait has the same answer in all these cases, or it has one in none of them: then it is answered with
the first failure of the construction, else with the cancellation, else with the limit, and without
any of these it waits. A walk comes to the same nodes in all cases, one after the other, before it
is over or ends with that failure. -/
theorem interruptions_change_no_answer (h : IsRun config changes) (j : Nat)
    (going : ((Document.initial config).moment changes j).isDone = false) :
    let failure? := ((Document.initial config).moment changes j).waitFailure?
    let there := interrupted config changes j
    (∀ {α : Type} (q : Question.Waiting α),
      (∃ a, ∀ limit interruptions,
        Query.run (there limit interruptions) q.ask.run = .answer (.ok a)) ∨
      ∀ limit interruptions, Query.run (there limit interruptions) q.ask.run =
        .ofFailure? .error (failure? limit interruptions)) ∧
    ∀ q : Question.Walking, ∃ nodes,
      ((∀ limit interruptions,
        Query.run (there limit interruptions) q.ask = .answer ⟨nodes, none⟩) ∨
      ∀ limit interruptions, Query.run (there limit interruptions) q.ask =
        .ofFailure? (fun failure => ⟨nodes, some failure⟩) (failure? limit interruptions)) ∧
      ∀ m ≤ nodes.length, ∀ limit interruptions,
        Query.run (there limit interruptions) (Query.walkFrom q.step m [] q.first) =
          .answer ⟨nodes.take m, none⟩ := by
  dsimp only
  have hd : ((Document.initial config).moment changes j).WellFormed :=
    h.grows.wellFormed (Document.wellFormed_initial config) j
  have same : ∀ limit interruptions, ((Document.initial config).moment changes j).SameTables
      (interrupted config changes j limit interruptions) :=
    fun limit interruptions => (interrupted_cases going limit interruptions).1
  have ends : ∀ {α : Type} (answerTo : Failure → α) limit interruptions,
      (interrupted config changes j limit interruptions).standstill.outcome answerTo =
        .ofFailure? answerTo
          (((Document.initial config).moment changes j).waitFailure? limit interruptions) := by
    intro α answerTo limit interruptions
    rw [(interrupted_cases going limit interruptions).2, Document.outcome_standstillOf]
  refine ⟨fun q => (q.settles hd going).imp ?_ ?_, fun q => ?_⟩
  · rintro ⟨a, answered⟩
    exact ⟨a, fun limit interruptions => answered _ (same limit interruptions)⟩
  · intro waits limit interruptions
    rw [waits _ (same limit interruptions), ends]
  · obtain ⟨nodes, comes, ask⟩ := q.exists_comesTo hd going
    rw [ask]
    refine ⟨nodes, comes.ends.imp (fun last limit interruptions => ?_)
      (fun waits limit interruptions => ?_), fun m hm limit interruptions =>
        comes.steps m hm _ (same limit interruptions)⟩
    · exact last _ (same limit interruptions)
    · rw [waits _ (same limit interruptions), ends]
      rfl

/-- The element `b` has ended in an element that is still open. What comes after it is not known,
which no interruption changes. -/
theorem interruptions_change_no_answer_of_open_element :
    let changes := ((acceptAll [.startDocument, .startElement "a" [], .startElement "b" [],
      .endElement]).run.run (start .standard, { handler := .lenient })).2.1.history.toList
    let j := changes.length
    let d := (Document.initial .standard).moment changes j
    d.isDone = false ∧ ∀ limit interruptions,
      Query.run (interrupted .standard changes j limit interruptions)
          (Question.Waiting.nextSibling 2).ask.run =
        .ofFailure? .error (d.waitFailure? limit interruptions) := by
  intro changes j d
  have isRun : IsRun .standard changes :=
    ⟨_, _, reaches_acceptAll _ _, List.filter_eq_self.2 (List.all_eq_true.1 (by decide +kernel))⟩
  have going : d.isDone = false := by decide +kernel
  have blocked : Query.run (interrupted .standard changes j none [])
      (Question.Waiting.nextSibling 2).ask.run = .blocked := by decide +kernel
  refine ⟨going, ?_⟩
  have settled := (interruptions_change_no_answer isRun j going).1 (.nextSibling 2)
  rcases settled with ⟨a, answered⟩ | waits
  · cases blocked.symm.trans (answered none [])
  · exact waits

end Builder

end XmlTable
