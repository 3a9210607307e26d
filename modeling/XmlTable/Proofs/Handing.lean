import XmlTable.Proofs.Course

/-!
# Pieces that are handed over

The pieces of an expansion are for someone who takes them one at a time and may refuse one. A worker
hands over each piece as soon as it is complete: it has the text that it expands open before it and,
on top of it, each replacement text that it is in the middle of. It knows of no end but that it has
nothing open any more, meets a fault, or is refused a piece. That it always comes to an end, and to
the one that the pieces of the expansion say, is what is shown here.
-/

namespace XmlTable.Reference

variable {ε σ : Type} {declared : String → Option String}

/-- Whoever takes the pieces of an expansion, one at a time and with a state of its own. -/
abbrev Taker (ε σ : Type) := Piece → ExceptT ε (StateM σ) Unit

/-- How an expansion ends whose pieces are handed over. -/
inductive Ending (ε : Type) where
  /-- All is handed over. -/
  | complete
  /-- There is a fault. -/
  | faulty (fault : Fault)
  /-- A piece is refused. -/
  | refused (cause : ε)
  deriving DecidableEq, Repr

/-- What was handed over. -/
structure Receipt (σ : Type) where
  /-- The pieces in order, with one that was refused. -/
  pieces : List Piece := []
  /-- What is left of the budget. -/
  budget : Budget
  /-- The state of the taker. -/
  taker : σ
  deriving DecidableEq, Repr

/-- An expansion under way, with the text that is no complete piece yet. -/
structure Emission (σ : Type) extends Receipt σ where
  /-- The text of the piece at hand. -/
  pending : String := ""
  deriving DecidableEq, Repr

/-- Work that goes on or has come to an end. -/
abbrev Ended (ε σ : Type) := Except (Ending ε × Receipt σ)

/-- Hand over a piece. -/
def Receipt.hand (take : Taker ε σ) (receipt : Receipt σ) (piece : Piece) :
    Ended ε σ (Receipt σ) :=
  let (answer, taker) := (take piece).run.run receipt.taker
  let receipt := { receipt with pieces := receipt.pieces ++ [piece], taker }
  match answer with
  | .ok () => .ok receipt
  | .error cause => .error (.refused cause, receipt)

theorem Receipt.hand_of_ok {take : Taker ε σ} {receipt : Receipt σ} {piece : Piece} {taker : σ}
    (h : (take piece).run.run receipt.taker = (.ok (), taker)) :
    receipt.hand take piece = .ok { receipt with pieces := receipt.pieces ++ [piece], taker } := by
  rw [hand, h]

theorem Receipt.hand_of_error {take : Taker ε σ} {receipt : Receipt σ} {piece : Piece} {cause : ε}
    {taker : σ} (h : (take piece).run.run receipt.taker = (.error cause, taker)) :
    receipt.hand take piece =
      .error (.refused cause, { receipt with pieces := receipt.pieces ++ [piece], taker }) := by
  rw [hand, h]

namespace Emission

/-- Put characters to the piece at hand. -/
def addText (emission : Emission σ) (text : String) : Emission σ :=
  { emission with pending := emission.pending ++ text }

/-- Hand over a piece, after which another one begins. -/
def handPiece (take : Taker ε σ) (emission : Emission σ) (piece : Piece) :
    Ended ε σ (Emission σ) := do
  let receipt ← emission.hand take piece
  return { receipt with pending := "" }

/-- Hand over the text at hand, unless it is empty. -/
def flush (take : Taker ε σ) (emission : Emission σ) : Ended ε σ (Emission σ) :=
  if emission.pending.isEmpty then .ok emission
  else emission.handPiece take (.text emission.pending)

/-- Hand over the text at hand and a reference after it. -/
def addReference (take : Taker ε σ) (emission : Emission σ) (name : String) :
    Ended ε σ (Emission σ) := do
  let flushed ← emission.flush take
  flushed.handPiece take (.reference name)

/-- Pay for a replacement text. -/
def pay (emission : Emission σ) (literal : String) : Ended ε σ (Emission σ) :=
  match emission.budget.spend? literal.utf8ByteSize with
  | none => .error (.faulty (.overLimit emission.budget.limit), emission.toReceipt)
  | some left => .ok { emission with budget := left }

end Emission

/-! ### The worker -/

/-- Whoever expands a text and hands over the pieces. -/
structure Worker (σ : Type) where
  /-- What is left of the texts that are open, innermost first. -/
  texts : List (List Segment)
  /-- What was handed over, and the piece at hand. -/
  emission : Emission σ
  deriving DecidableEq, Repr

namespace Worker

/-- Before anything is done. -/
def start (budget : Budget) (text : String) (state : σ) : Worker σ :=
  ⟨[segments text.toList], { budget, taker := state }⟩

/-- Open a replacement text, unless too many texts are open already. -/
def enter (value : String) (texts : List (List Segment)) (emission : Emission σ) :
    Ended ε σ (Worker σ) :=
  if maxDepth < texts.length then .error (.faulty .tooDeep, emission.toReceipt)
  else .ok ⟨segments value.toList :: texts, emission⟩

/-- Put a segment, given what it stands for. The texts that are open after it are given. -/
def put (take : Taker ε σ) (texts : List (List Segment)) (emission : Emission σ) :
    Sense → Ended ε σ (Worker σ)
  | .text content => .ok ⟨texts, emission.addText content⟩
  | .invalid name => .error (.faulty (.invalidCharacter name), emission.toReceipt)
  | .literal value => emission.pay value >>= enter value texts
  | .unknown name => emission.addReference take name >>= fun emission => .ok ⟨texts, emission⟩

/-- Do one thing: put a segment, close a text that is at its end, or come to the end of all. -/
def step (declared : String → Option String) (take : Taker ε σ) (worker : Worker σ) :
    Ended ε σ (Worker σ) :=
  match worker.texts with
  | [] => worker.emission.flush take >>= fun flushed => .error (.complete, flushed.toReceipt)
  | [] :: outer => .ok ⟨outer, worker.emission⟩
  | (segment :: rest) :: outer => put take (rest :: outer) worker.emission (segment.sense declared)

/-- A worker comes to an end after finitely many steps. -/
inductive Runs (declared : String → Option String) (take : Taker ε σ) :
    Worker σ → Ending ε × Receipt σ → Prop
  | stop {worker : Worker σ} {final : Ending ε × Receipt σ} :
    worker.step declared take = .error final → Runs declared take worker final
  | next {worker worker' : Worker σ} {final : Ending ε × Receipt σ} :
    worker.step declared take = .ok worker' → Runs declared take worker' final →
    Runs declared take worker final

/-- A worker gets where another is. -/
inductive Reaches (declared : String → Option String) (take : Taker ε σ) (worker : Worker σ) :
    Worker σ → Prop
  | refl : Reaches declared take worker worker
  | next {worker' worker'' : Worker σ} : Reaches declared take worker worker' →
    worker'.step declared take = .ok worker'' → Reaches declared take worker worker''

variable {take : Taker ε σ} {worker worker' : Worker σ} {final other : Ending ε × Receipt σ}

/-- There is only one end. -/
theorem Runs.unique (h : Runs declared take worker final) (h' : Runs declared take worker other) :
    final = other := by
  induction h with
  | stop stopped =>
    cases h' with
    | stop stopped' => exact Except.error.inj (stopped.symm.trans stopped')
    | next goes _ => cases stopped.symm.trans goes
  | next goes _ ih =>
    cases h' with
    | stop stopped => cases goes.symm.trans stopped
    | next goes' runs =>
      cases goes.symm.trans goes'
      exact ih runs

/-! ### The depth of open texts -/

/-- A replacement text is opened only where it is not nested too deeply. -/
theorem length_put {texts : List (List Segment)} {emission : Emission σ} {sense : Sense}
    (h : put take texts emission sense = .ok worker) (bound : texts.length ≤ maxDepth + 1) :
    worker.texts.length ≤ maxDepth + 1 := by
  cases sense with
  | text content =>
    cases h
    exact bound
  | invalid name => cases h
  | literal value =>
    obtain ⟨left, -, entered⟩ := exists_of_bind_eq_ok h
    unfold enter at entered
    split at entered
    · cases entered
    · next shallow =>
      cases entered
      exact Nat.succ_le_succ (Nat.not_lt.1 shallow)
  | unknown name =>
    obtain ⟨emission', -, same⟩ := exists_of_bind_eq_ok h
    cases same
    exact bound

theorem length_step (h : worker.step declared take = .ok worker')
    (bound : worker.texts.length ≤ maxDepth + 1) : worker'.texts.length ≤ maxDepth + 1 := by
  rcases worker with ⟨_ | ⟨_ | ⟨segment, rest⟩, outer⟩, emission⟩
  · obtain ⟨flushed, -, ended⟩ := exists_of_bind_eq_ok h
    cases ended
  · cases h
    exact Nat.le_of_succ_le bound
  · exact length_put h bound

theorem Reaches.length_le (h : Reaches declared take worker worker')
    (bound : worker.texts.length ≤ maxDepth + 1) : worker'.texts.length ≤ maxDepth + 1 := by
  induction h with
  | refl => exact bound
  | next _ goes ih => exact length_step goes ih

end Worker

/-! ### A worker takes the course of the text -/

/-- Take a step and hand over what is complete. -/
def Step.hand (take : Taker ε σ) (emission : Emission σ) : Step → Ended ε σ (Emission σ)
  | .text content => .ok (emission.addText content)
  | .reference name => emission.addReference take name
  | .payment literal => emission.pay literal

namespace Course

variable {take : Taker ε σ}

/-- Take the steps of a course and end with its fault. -/
def hand (take : Taker ε σ) (course : Course) (emission : Emission σ) :
    Ended ε σ (Emission σ) := do
  let emission ← course.steps.foldlM (Step.hand take) emission
  match course.fault with
  | none => return emission
  | some fault => throw (.faulty fault, emission.toReceipt)

theorem hand_one (step : Step) (emission : Emission σ) :
    (one step).hand take emission = step.hand take emission := by
  simp [hand, one]

theorem hand_andThen (first next : Course) (emission : Emission σ) :
    (first.andThen next).hand take emission = first.hand take emission >>= next.hand take := by
  unfold andThen hand
  cases hf : first.fault with
  | none => simp
  | some fault =>
    simp only [hf, bind_assoc]
    exact bind_congr fun _ => rfl

end Course

namespace Worker

/-- What was done so far comes to an end. -/
def Ends (declared : String → Option String) (take : Taker ε σ) (final : Ending ε × Receipt σ) :
    Ended ε σ (Worker σ) → Prop
  | .error stopped => stopped = final
  | .ok worker => Runs declared take worker final

variable {take : Taker ε σ} {worker : Worker σ} {final : Ending ε × Receipt σ}

theorem Runs.of_ends (h : Ends declared take final (worker.step declared take)) :
    Runs declared take worker final := by
  cases stepped : worker.step declared take with
  | error stopped =>
    rw [stepped] at h
    exact .stop (stepped.trans (congrArg Except.error h))
  | ok worker' =>
    rw [stepped] at h
    exact .next stepped h

/-- What is still to come may be put off. -/
theorem Ends.mono {α : Type} {done : Ended ε σ α} {next next' : α → Ended ε σ (Worker σ)}
    (h : Ends declared take final (done >>= next))
    (hn : ∀ a, Ends declared take final (next a) → Ends declared take final (next' a)) :
    Ends declared take final (done >>= next') := by
  cases done with
  | error stopped => exact h
  | ok a => exact hn a h

/-- A worker takes the courses of segments one after the other, if it takes those of replacement
texts. -/
theorem runs_ofAll {nested : List Segment → Course} {outer : List (List Segment)}
    (hn : ∀ value rest emission,
      Ends declared take final
        ((nested (segments value.toList)).hand take emission >>=
          fun emission => .ok ⟨rest :: outer, emission⟩) →
      Ends declared take final (enter value (rest :: outer) emission))
    {segments : List Segment} {emission : Emission σ}
    (h : Ends declared take final
      ((Course.ofAll (Course.ofSegment declared nested) segments).hand take emission >>=
        fun emission => .ok ⟨outer, emission⟩)) :
    Runs declared take ⟨segments :: outer, emission⟩ final := by
  induction segments generalizing emission with
  | nil => exact .next rfl h
  | cons segment rest ih =>
    refine .of_ends ?_
    show Ends declared take final (put take (rest :: outer) emission (segment.sense declared))
    rw [Course.ofAll, Course.hand_andThen, bind_assoc, Course.ofSegment] at h
    cases hs : segment.sense declared with
    | text content =>
      rw [hs] at h
      exact ih h
    | invalid name =>
      rw [hs] at h
      exact h
    | unknown name =>
      rw [hs] at h
      dsimp only at h
      rw [Course.hand_one, Step.hand] at h
      exact h.mono fun _ later => ih later
    | literal value =>
      rw [hs] at h
      dsimp only at h
      rw [Course.hand_andThen, Course.hand_one, Step.hand, bind_assoc] at h
      -- What is left of this text waits until the replacement text is at its end.
      exact h.mono fun left inside => hn value rest left (inside.mono fun _ later => ih later)

/-- A worker takes the course of the text that is open innermost, and goes on with what is left of
the texts around it. -/
theorem runs_ofSegments {levels : Nat} {segments : List Segment} {outer : List (List Segment)}
    {emission : Emission σ} (depth : outer.length + levels = maxDepth)
    (h : Ends declared take final
      ((Course.ofSegments declared levels segments).hand take emission >>=
        fun emission => .ok ⟨outer, emission⟩)) :
    Runs declared take ⟨segments :: outer, emission⟩ final := by
  induction levels generalizing segments outer emission with
  | zero =>
    refine runs_ofAll (fun value rest emission h => ?_) h
    rw [enter, if_pos (by simp only [List.length_cons]; omega)]
    exact h
  | succ levels ih =>
    refine runs_ofAll (fun value rest emission h => ?_) h
    rw [enter, if_neg (by simp only [List.length_cons]; omega)]
    exact ih (by simp only [List.length_cons]; omega) h

/-- What comes of an expansion when the steps of its course are taken. -/
def finish (take : Taker ε σ) (taken : Ended ε σ (Emission σ)) : Ending ε × Receipt σ :=
  match taken >>= Emission.flush take with
  | .error stopped => stopped
  | .ok flushed => (.complete, flushed.toReceipt)

theorem runs_start (budget : Budget) (text : String) (state : σ) :
    Runs declared take (start budget text state)
      (finish take ((Course.ofText declared text).hand take { budget, taker := state })) := by
  have depth : ([] : List (List Segment)).length + maxDepth = maxDepth := rfl
  refine runs_ofSegments depth ?_
  show Ends declared take _ ((Course.ofText declared text).hand take _ >>= _)
  cases (Course.ofText declared text).hand take { budget, taker := state } with
  | error stopped => rfl
  | ok emission =>
    have flushed : Except.ok emission >>= Emission.flush take = emission.flush take := rfl
    refine .of_ends ?_
    show Ends declared take (finish take (.ok emission)) (emission.flush take >>= _)
    rw [finish, flushed]
    cases emission.flush take <;> rfl

end Worker

/-! ### The pieces of an expansion -/

/-- Hand over some pieces, each with the budget at its moment. -/
def Receipt.handAll (take : Taker ε σ) (receipt : Receipt σ) :
    List (Piece × Budget) → Ended ε σ (Receipt σ)
  | [] => .ok receipt
  | (piece, budget) :: rest => do
    let receipt ← { receipt with budget }.hand take piece
    receipt.handAll take rest

/-- Hand over the pieces of an expansion, and come to its end if none is refused. -/
def Expansion.handOver (take : Taker ε σ) (state : σ) (expansion : Expansion) :
    Ending ε × Receipt σ :=
  match (Receipt.handAll take { budget := expansion.budget, taker := state } expansion.pieces).map
    ({ · with budget := expansion.budget }) with
  | .error stopped => stopped
  | .ok receipt => (expansion.fault.elim .complete .faulty, receipt)

section Receipts

variable {take : Taker ε σ} {receipt : Receipt σ} {piece : Piece} {taker : σ}

theorem Receipt.handAll_cons_of_ok (h : (take piece).run.run receipt.taker = (.ok (), taker))
    (budget : Budget) (rest : List (Piece × Budget)) :
    receipt.handAll take ((piece, budget) :: rest) =
      handAll take ⟨receipt.pieces ++ [piece], budget, taker⟩ rest := by
  have handed : hand take { receipt with budget } piece =
      .ok ⟨receipt.pieces ++ [piece], budget, taker⟩ := hand_of_ok h
  rw [handAll, handed]
  rfl

theorem Receipt.handAll_cons_of_error {cause : ε}
    (h : (take piece).run.run receipt.taker = (.error cause, taker)) (budget : Budget)
    (rest : List (Piece × Budget)) :
    receipt.handAll take ((piece, budget) :: rest) =
      .error (.refused cause, ⟨receipt.pieces ++ [piece], budget, taker⟩) := by
  have handed : hand take { receipt with budget } piece =
      .error (.refused cause, ⟨receipt.pieces ++ [piece], budget, taker⟩) := hand_of_error h
  rw [handAll, handed]
  rfl

/-- Only a refusal keeps pieces from being handed over. -/
theorem Receipt.exists_refused {pieces : List (Piece × Budget)} {stopped : Ending ε × Receipt σ}
    (h : receipt.handAll take pieces = .error stopped) : ∃ cause, stopped.1 = .refused cause := by
  induction pieces generalizing receipt with
  | nil => cases h
  | cons first rest ih =>
    obtain ⟨piece, budget⟩ := first
    rcases answer : (take piece).run.run receipt.taker with ⟨cause | _, taker⟩
    · cases (handAll_cons_of_error answer budget rest).symm.trans h
      exact ⟨cause, rfl⟩
    · exact ih ((handAll_cons_of_ok answer budget rest).symm.trans h)

/-- All is handed over only of an expansion without a fault. -/
theorem Expansion.fault_of_handOver {state : σ} {expansion : Expansion}
    (h : (expansion.handOver take state).1 = .complete) : expansion.fault = none := by
  unfold handOver at h
  cases handed : Receipt.handAll take { budget := expansion.budget, taker := state }
      expansion.pieces with
  | error stopped =>
    obtain ⟨cause, refused⟩ := Receipt.exists_refused handed
    rw [handed] at h
    cases refused.symm.trans h
  | ok receipt =>
    rw [handed] at h
    cases fault : expansion.fault with
    | none => rfl
    | some fault' =>
      rw [fault] at h
      cases h

end Receipts

theorem Receipt.handAll_concat (take : Taker ε σ) (receipt : Receipt σ)
    (pieces : List (Piece × Budget)) (piece : Piece) (budget : Budget) :
    receipt.handAll take (pieces ++ [(piece, budget)]) =
      receipt.handAll take pieces >>= fun receipt => { receipt with budget }.hand take piece := by
  induction pieces generalizing receipt with
  | nil => exact bind_pure _
  | cons first rest ih =>
    rw [List.cons_append, handAll, handAll, bind_assoc]
    exact bind_congr fun receipt => ih receipt

/-- Nothing is spent by handing over a piece. -/
theorem Receipt.budget_of_hand {take : Taker ε σ} {receipt receipt' : Receipt σ} {piece : Piece}
    (h : receipt.hand take piece = .ok receipt') : receipt'.budget = receipt.budget := by
  rcases answer : (take piece).run.run receipt.taker with ⟨cause | _, taker⟩
  · cases (hand_of_error answer).symm.trans h
  · cases (hand_of_ok answer).symm.trans h
    rfl

namespace Progress

variable {take : Taker ε σ} {receipt : Receipt σ} {progress progress' : Progress}

/-- Hand over the pieces that are complete. -/
def handed (take : Taker ε σ) (receipt : Receipt σ) (progress : Progress) :
    Ended ε σ (Emission σ) :=
  (receipt.handAll take progress.pieces.toList).map fun receipt =>
    { receipt with budget := progress.budget, pending := progress.pending }

theorem handed_addText (content : String) :
    (progress.addText content).handed take receipt =
      progress.handed take receipt >>= fun emission => .ok (emission.addText content) := by
  show (receipt.handAll take progress.pieces.toList).map _ = _
  rw [handed]
  cases receipt.handAll take progress.pieces.toList <;> rfl

theorem handed_push (piece : Piece) :
    handed take receipt
        { progress with pieces := progress.pieces.push (piece, progress.budget), pending := "" } =
      progress.handed take receipt >>= fun emission => emission.handPiece take piece := by
  rw [handed, handed, Array.toList_push, Receipt.handAll_concat]
  cases receipt.handAll take progress.pieces.toList with
  | error stopped => rfl
  | ok receipt' =>
    show (Receipt.hand take { receipt' with budget := progress.budget } piece).map _ =
      Receipt.hand take { receipt' with budget := progress.budget } piece >>= _
    cases handed : Receipt.hand take { receipt' with budget := progress.budget } piece with
    | error stopped => rfl
    | ok receipt'' =>
      have budget : progress.budget = receipt''.budget := (Receipt.budget_of_hand handed).symm
      show Except.ok (⟨⟨receipt''.pieces, progress.budget, _⟩, ""⟩ : Emission σ) = _
      rw [budget]
      rfl

theorem handed_flush :
    progress.flush.handed take receipt =
      progress.handed take receipt >>= Emission.flush take := by
  unfold flush
  split
  · next empty =>
    rw [handed]
    cases receipt.handAll take progress.pieces.toList with
    | error stopped => rfl
    | ok receipt' => exact (if_pos empty).symm
  · next text =>
    rw [handed_push, handed]
    cases receipt.handAll take progress.pieces.toList with
    | error stopped => rfl
    | ok receipt' => exact (if_neg text).symm

theorem handed_addReference (name : String) :
    (progress.addReference name).handed take receipt =
      progress.handed take receipt >>= fun emission => emission.addReference take name := by
  have same : progress.addReference name =
      { progress.flush with
        pieces := progress.flush.pieces.push (.reference name, progress.flush.budget)
        pending := "" } := by
    rw [← progress.flush_pending]
    rfl
  rw [same, handed_push, handed_flush, bind_assoc]
  rfl

theorem handed_pay {literal : String} {left : Budget}
    (paid : progress.budget.spend? literal.utf8ByteSize = some left) :
    handed take receipt { progress with budget := left } =
      progress.handed take receipt >>= fun emission => emission.pay literal := by
  rw [handed, handed]
  cases receipt.handAll take progress.pieces.toList with
  | error stopped => rfl
  | ok receipt' =>
    show _ = Emission.pay ⟨⟨receipt'.pieces, progress.budget, receipt'.taker⟩, progress.pending⟩ _
    rw [Emission.pay, paid]
    rfl

theorem handed_overLimit {literal : String}
    (excess : progress.budget.spend? literal.utf8ByteSize = none) :
    (progress.handed take receipt >>= fun emission =>
        .error (.faulty (.overLimit progress.budget.limit), emission.toReceipt)) =
      progress.handed take receipt >>= fun emission => emission.pay literal := by
  rw [handed]
  cases receipt.handAll take progress.pieces.toList with
  | error stopped => rfl
  | ok receipt' =>
    show _ = Emission.pay ⟨⟨receipt'.pieces, progress.budget, receipt'.taker⟩, progress.pending⟩ _
    rw [Emission.pay, excess]
    rfl

end Progress

section Work

variable {take : Taker ε σ} {receipt : Receipt σ}

/-- Hand over what comes of some work, up to the fault that ends it. -/
def Expanding.handed (take : Taker ε σ) (receipt : Receipt σ) :
    Except Fault Unit × Progress → Ended ε σ (Emission σ)
  | (.ok (), progress) => progress.handed take receipt
  | (.error fault, progress) => do
    let emission ← progress.handed take receipt
    throw (.faulty fault, emission.toReceipt)

/-- It makes no difference whether pieces are handed over at once or when all steps are taken. -/
theorem Step.handed_take (steps : List Step) (progress : Progress) :
    Expanding.handed take receipt ((forM steps Step.take : Expanding Unit).run.run progress) =
      progress.handed take receipt >>= steps.foldlM (Step.hand take) := by
  -- Each step is moved from the side of what was done before to that of what is still to do.
  induction steps generalizing progress with
  | nil => exact (bind_pure _).symm
  | cons step rest ih =>
    rw [List.forM_cons, Expanding.run_bind]
    show _ = progress.handed take receipt >>= fun emission =>
      step.hand take emission >>= rest.foldlM (Step.hand take)
    rw [← bind_assoc]
    cases step with
    | text content =>
      refine (ih (progress.addText content)).trans ?_
      rw [Progress.handed_addText]
      rfl
    | reference name =>
      refine (ih (progress.addReference name)).trans ?_
      rw [Progress.handed_addReference]
      rfl
    | payment literal =>
      rw [run_take_payment]
      cases paid : progress.budget.spend? literal.utf8ByteSize with
      | none =>
        show (progress.handed take receipt >>= fun emission => Except.error _) =
          (progress.handed take receipt >>= fun emission => emission.pay literal) >>= _
        rw [← Progress.handed_overLimit paid, bind_assoc]
        rfl
      | some left =>
        refine (ih { progress with budget := left }).trans ?_
        rw [Progress.handed_pay paid]
        rfl

theorem Course.handed_take (course : Course) (progress : Progress) :
    Expanding.handed take receipt (course.take.run.run progress) =
      progress.handed take receipt >>= course.hand take := by
  unfold hand
  rw [← bind_assoc, ← Step.handed_take, Course.take, Expanding.run_bind]
  rcases (forM course.steps Step.take : Expanding Unit).run.run progress with ⟨fault | _, progress'⟩
  · show _ = (progress'.handed take receipt >>= _) >>= _
    rw [bind_assoc]
    rfl
  · cases course.fault with
    | none => exact (bind_pure _).symm
    | some fault => rfl

end Work

/-- The budget at the start is forgotten as soon as a piece is handed over. -/
theorem Receipt.handAll_budget (take : Taker ε σ) (receipt : Receipt σ) (budget left : Budget)
    (pieces : List (Piece × Budget)) :
    (handAll take { receipt with budget } pieces).map ({ · with budget := left }) =
      (receipt.handAll take pieces).map ({ · with budget := left }) := by
  cases pieces <;> rfl

/-- The pieces of an expansion under way are handed over. -/
theorem handOver_eq (take : Taker ε σ) (budget : Budget) (state : σ) (progress : Progress)
    (fault : Option Fault) :
    Expansion.handOver take state ⟨progress.pieces.toList, progress.budget, fault⟩ =
      match progress.handed take { budget, taker := state } with
      | .error stopped => stopped
      | .ok emission => (fault.elim .complete .faulty, emission.toReceipt) := by
  have same := Receipt.handAll_budget take { budget, taker := state } progress.budget
    progress.budget progress.pieces.toList
  dsimp only at same
  rw [Expansion.handOver, same, Progress.handed]
  cases Receipt.handAll take { budget, taker := state } progress.pieces.toList <;> rfl

/-- What the pieces of an expansion come to when they are handed over is what its course comes to
when its steps are taken. -/
theorem handOver_decode (declared : String → Option String) (take : Taker ε σ) (budget : Budget)
    (text : String) (state : σ) :
    (decode declared budget text).handOver take state =
      Worker.finish take ((Course.ofText declared text).hand take { budget, taker := state }) := by
  have taken : Expanding.handed take { budget, taker := state }
      ((Course.ofText declared text).take.run.run { budget }) =
        (Course.ofText declared text).hand take { budget, taker := state } :=
    Course.handed_take _ { budget }
  rw [← taken, Course.ofText, Course.take_ofSegments, decode]
  rcases (expand declared maxDepth (segments text.toList)).run.run { budget } with
    ⟨fault | _, progress⟩
  · dsimp only [Expanding.handed, Worker.finish]
    rw [handOver_eq take budget]
    cases progress.handed take { budget, taker := state } <;> rfl
  · dsimp only [Expanding.handed, Worker.finish]
    rw [← Progress.handed_flush, ← progress.flush_budget, handOver_eq take budget]
    rfl

/-- A worker comes to the same end as whoever is handed the pieces of the expansion. -/
theorem runs_decode (declared : String → Option String) (take : Taker ε σ) (budget : Budget)
    (text : String) (state : σ) :
    Worker.Runs declared take (.start budget text state)
      ((decode declared budget text).handOver take state) := by
  rw [handOver_decode]
  exact Worker.runs_start budget text state

end XmlTable.Reference
