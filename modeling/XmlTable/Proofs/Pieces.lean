import XmlTable.Proofs.Affording
import XmlTable.Proofs.Handing

/-!
# The pieces of an expansion

Text is held back until it is known that no more of it follows, from the text itself or from a
replacement text at any depth. So no piece is empty text, and no text comes right after another.
What the steps of a course make up is in this form, and whatever is handed over is the beginning of
that: a fault, a spent budget or a refusal only cuts it short.
-/

namespace XmlTable.Reference

variable {ε σ : Type} {declared : String → Option String} {budget larger : Budget} {text : String}

/-! ### Pieces in normal form -/

/-- An entity of this name is neither declared nor predefined. -/
def IsUnknown (declared : String → Option String) (name : String) : Prop :=
  declared name = none ∧ Entity.predefined.lookup name = none

/-- Pieces are as few as they can be, and none is a reference that can be expanded. -/
structure IsNormal (declared : String → Option String) (pieces : List Piece) : Prop where
  /-- No piece is empty text. -/
  ne_empty : .text "" ∉ pieces
  /-- No text comes right after another. -/
  separate (first next : String) : ¬ [.text first, .text next] <:+: pieces
  /-- No reference has a known value. -/
  unknown (name : String) : .reference name ∈ pieces → IsUnknown declared name

namespace IsNormal

variable {pieces front : List Piece} {name : String}

theorem nil : IsNormal declared [] where
  ne_empty := List.not_mem_nil
  separate _ _ h := by simp at h
  unknown _ h := by cases h

/-- The beginning of what is in normal form is so, too. -/
theorem of_isPrefix (h : IsNormal declared pieces) (hf : front <+: pieces) :
    IsNormal declared front where
  ne_empty empty := h.ne_empty (hf.subset empty)
  separate first next consecutive := h.separate first next (consecutive.trans hf.isInfix)
  unknown name reference := h.unknown name (hf.subset reference)

theorem cons_reference (h : IsNormal declared pieces) (unknown : IsUnknown declared name) :
    IsNormal declared (.reference name :: pieces) where
  ne_empty empty := h.ne_empty ((List.mem_cons.1 empty).resolve_left Piece.noConfusion)
  separate first next consecutive := by
    obtain before | inside := List.infix_cons_iff.1 consecutive
    · cases (List.cons_prefix_cons.1 before).1
    · exact h.separate first next inside
  unknown other reference := by
    obtain same | inside := List.mem_cons.1 reference
    · cases same
      exact unknown
    · exact h.unknown other inside

/-- Text may come before pieces that do not begin with text. -/
theorem ofText_append (h : IsNormal declared pieces) (ends : ∀ next, .text next ∉ pieces.head?)
    (content : String) : IsNormal declared (Piece.ofText content ++ pieces) := by
  unfold Piece.ofText
  split
  · exact h
  · next nonempty =>
    refine ⟨fun empty => ?_, fun first next consecutive => ?_, fun name reference => ?_⟩
    · obtain same | inside := List.mem_cons.1 empty
      · cases same
        exact nonempty rfl
      · exact h.ne_empty inside
    · obtain before | inside := List.infix_cons_iff.1 consecutive
      · obtain ⟨-, rest, rfl⟩ := List.cons_prefix_cons.1 before
        exact ends next rfl
      · exact h.separate first next inside
    · obtain same | inside := List.mem_cons.1 reference
      · cases same
      · exact h.unknown name inside

end IsNormal

/-! ### What the steps of a course make up -/

/-- Only unknown references are put. -/
def Step.PutsUnknown (declared : String → Option String) (steps : List Step) : Prop :=
  ∀ name, .reference name ∈ steps → IsUnknown declared name

theorem Step.putsUnknown_nil : PutsUnknown declared [] := fun _ none => by cases none

/-- The pieces that some steps make up are in normal form. -/
theorem Step.isNormal_pieces {steps : List Step} (h : PutsUnknown declared steps)
    (pending : String) : IsNormal declared (pieces pending steps) := by
  induction steps generalizing pending with
  | nil =>
    rw [pieces, ← List.append_nil (Piece.ofText pending)]
    exact IsNormal.nil.ofText_append (fun _ => Option.not_mem_none _) pending
  | cons step rest ih =>
    have later := ih fun name reference => h name (List.mem_cons_of_mem _ reference)
    -- Only a reference ends the text that is held back, so what comes after text is a reference.
    cases step with
    | text content => exact later (pending ++ content)
    | payment literal => exact later pending
    | reference name =>
      refine ((later "").cons_reference (h name List.mem_cons_self)).ofText_append ?_ pending
      rintro next ⟨⟩

/-- What a segment stands for is unknown only if it is a reference without a known value. -/
theorem Segment.isUnknown_of_sense {segment : Segment} {name : String}
    (h : segment.sense declared = .unknown name) : IsUnknown declared name := by
  revert h
  fun_cases Segment.sense declared segment with
  | case6 chars name missing unknown =>
    rintro ⟨⟩
    exact ⟨missing, unknown⟩
  | case1 | case2 | case3 | case4 | case5 =>
    intro h
    cases h

namespace Course

variable {first next : Course}

theorem putsUnknown_andThen (hf : Step.PutsUnknown declared first.steps)
    (hn : Step.PutsUnknown declared next.steps) :
    Step.PutsUnknown declared (first.andThen next).steps := by
  intro name reference
  unfold andThen at reference
  split at reference
  · obtain before | after := List.mem_append.1 reference
    · exact hf name before
    · exact hn name after
  · exact hf name reference

theorem putsUnknown_ofSegment {nested : List Segment → Course}
    (h : ∀ segments, Step.PutsUnknown declared (nested segments).steps) (segment : Segment) :
    Step.PutsUnknown declared (ofSegment declared nested segment).steps := by
  rw [ofSegment]
  cases hs : segment.sense declared with
  | text content => simp [Step.PutsUnknown, one]
  | invalid name => exact Step.putsUnknown_nil
  | literal value => exact putsUnknown_andThen (by simp [Step.PutsUnknown, one]) (h _)
  | unknown name =>
    intro other reference
    cases List.mem_singleton.1 reference
    exact Segment.isUnknown_of_sense hs

theorem putsUnknown_ofAll {course : Segment → Course}
    (h : ∀ segment, Step.PutsUnknown declared (course segment).steps) (segments : List Segment) :
    Step.PutsUnknown declared (ofAll course segments).steps := by
  induction segments with
  | nil => exact Step.putsUnknown_nil
  | cons segment rest ih => exact putsUnknown_andThen (h segment) ih

theorem putsUnknown_ofSegments (levels : Nat) (segments : List Segment) :
    Step.PutsUnknown declared (ofSegments declared levels segments).steps := by
  induction levels generalizing segments with
  | zero => exact putsUnknown_ofAll (putsUnknown_ofSegment fun _ => Step.putsUnknown_nil) _
  | succ levels ih => exact putsUnknown_ofAll (putsUnknown_ofSegment ih) _

end Course

/-! ### Where an expansion ends early -/

/-- The pieces that are complete when some steps are taken. Of text before them there is no piece
yet, and text after the last reference is not complete. -/
def Step.complete (pending : String) : List Step → List Piece
  | [] => []
  | .text content :: rest => complete (pending ++ content) rest
  | .reference name :: rest => Piece.ofText pending ++ .reference name :: complete "" rest
  | .payment _ :: rest => complete pending rest

theorem Step.complete_prefix_pieces (steps : List Step) (pending : String) :
    complete pending steps <+: pieces pending steps := by
  induction steps generalizing pending with
  | nil => exact List.nil_prefix
  | cons step rest ih =>
    cases step with
    | text content => exact ih _
    | payment literal => exact ih _
    | reference name =>
      exact (List.prefix_append_right_inj _).2 ((List.prefix_cons_inj _).2 (ih ""))

/-- More steps complete more pieces. -/
theorem Step.complete_mono {steps more : List Step} (h : steps <+: more) (pending : String) :
    complete pending steps <+: complete pending more := by
  induction steps generalizing pending more with
  | nil => exact List.nil_prefix
  | cons step rest ih =>
    obtain ⟨later, rfl⟩ := h
    have later := fun pending => ih (List.prefix_append rest later) pending
    cases step with
    | text content => exact later _
    | payment literal => exact later _
    | reference name =>
      exact (List.prefix_append_right_inj _).2 ((List.prefix_cons_inj _).2 (later ""))

theorem Step.affordable_prefix_self (bytes : Nat) (steps : List Step) :
    affordable bytes steps <+: steps := by
  induction steps generalizing bytes with
  | nil => exact List.nil_prefix
  | cons step rest ih =>
    cases step with
    | text | reference => exact (List.prefix_cons_inj _).2 (ih bytes)
    | payment literal =>
      rw [affordable]
      split
      · exact (List.prefix_cons_inj _).2 (ih _)
      · exact List.nil_prefix

/-- With more bytes, more steps are taken. -/
theorem Step.affordable_mono {bytes more : Nat} (h : bytes ≤ more) (steps : List Step) :
    affordable bytes steps <+: affordable more steps := by
  induction steps generalizing bytes more with
  | nil => exact List.nil_prefix
  | cons step rest ih =>
    cases step with
    | text | reference => exact (List.prefix_cons_inj _).2 (ih h)
    | payment literal =>
      rw [affordable, affordable]
      split
      · next afforded =>
        rw [if_pos (Nat.le_trans afforded h)]
        exact (List.prefix_cons_inj _).2 (ih (Nat.sub_le_sub_right h _))
      · exact List.nil_prefix

/-- As far as steps are affordable, their pieces are completed. -/
theorem Step.map_complete {steps : List Step} {progress progress' : Progress}
    {answer : Except Fault Unit}
    (run : (forM steps Step.take : Expanding Unit).run.run progress = (answer, progress')) :
    progress'.pieces.toList.map (·.1) = progress.pieces.toList.map (·.1) ++
      complete progress.pending (affordable progress.budget.remaining steps) := by
  induction steps generalizing progress with
  | nil =>
    cases run
    exact (List.append_nil _).symm
  | cons step rest ih =>
    rw [List.forM_cons, Expanding.run_bind] at run
    cases step with
    | text content => exact ih run
    | reference name =>
      refine (ih run).trans ?_
      show (progress.flush.pieces.push _).toList.map (·.1) ++
        complete progress.flush.pending (affordable progress.flush.budget.remaining rest) = _
      rw [Array.toList_push, List.map_append, progress.map_flush, progress.flush_pending,
        progress.flush_budget, List.append_assoc, List.append_assoc]
      rfl
    | payment literal =>
      rw [run_take_payment] at run
      by_cases afforded : literal.utf8ByteSize ≤ progress.budget.remaining
      · rw [Budget.spend?_of_le afforded] at run
        rw [affordable, if_pos afforded]
        exact @ih { progress with budget := progress.budget.less literal.utf8ByteSize } run
      · rw [Budget.spend?_of_lt (Nat.not_le.1 afforded)] at run
        cases run
        rw [affordable, if_neg afforded]
        exact (List.append_nil _).symm

theorem Course.map_complete {course : Course} {progress progress' : Progress}
    {answer : Except Fault Unit} (run : course.take.run.run progress = (answer, progress')) :
    progress'.pieces.toList.map (·.1) = progress.pieces.toList.map (·.1) ++
      Step.complete progress.pending (course.taken progress.budget) := by
  rw [Course.take, Expanding.run_bind] at run
  rcases steps : (forM course.steps Step.take : Expanding Unit).run.run progress with
    ⟨fault | _, stopped⟩
  · rw [steps] at run
    cases run
    exact Step.map_complete steps
  · rw [steps] at run
    obtain rfl : stopped = progress' := by
      cases fault : course.fault with
      | none => rw [fault] at run; exact congrArg Prod.snd run
      | some => rw [fault] at run; exact congrArg Prod.snd run
    exact Step.map_complete steps

/-- The pieces of an expansion with a fault are those that were complete before. -/
theorem map_pieces_of_fault (h : (decode declared budget text).fault ≠ none) :
    (decode declared budget text).pieces.map (·.1) =
      Step.complete "" ((Course.ofText declared text).taken budget) := by
  rcases run : (Course.ofText declared text).take.run.run { budget } with ⟨fault | _, progress⟩
  · have complete := Course.map_complete run
    rw [Course.ofText, Course.take_ofSegments] at run
    rw [decode, run]
    exact complete
  · rw [Course.ofText, Course.take_ofSegments] at run
    rw [decode, run] at h
    exact absurd rfl h

/-- A course makes up the pieces of its expansion and those that come after a fault. -/
theorem map_pieces_prefix_course (declared : String → Option String) (budget : Budget)
    (text : String) :
    (decode declared budget text).pieces.map (·.1) <+:
      Step.pieces "" (Course.ofText declared text).steps := by
  by_cases free : (decode declared budget text).fault = none
  · exact map_pieces_decode _ _ _ free ▸ List.prefix_rfl
  · rw [map_pieces_of_fault free]
    exact (Step.complete_mono (Step.affordable_prefix_self ..) "").trans
      (Step.complete_prefix_pieces ..)

/-- With a larger budget there are the same pieces, and maybe others after them. -/
theorem map_pieces_mono (h : budget.remaining ≤ larger.remaining) :
    (decode declared budget text).pieces.map (·.1) <+:
      (decode declared larger text).pieces.map (·.1) := by
  by_cases free' : (decode declared larger text).fault = none
  · rw [map_pieces_decode _ _ _ free']
    exact map_pieces_prefix_course ..
  · have fault : (decode declared budget text).fault ≠ none := fun free => by
      rw [decode_fault, Course.ending_eq_none_iff] at free free'
      exact free' ⟨free.1, Nat.le_trans free.2 h⟩
    rw [map_pieces_of_fault fault, map_pieces_of_fault free']
    exact Step.complete_mono (Step.affordable_mono h _) ""

theorem isNormal_decode (declared : String → Option String) (budget : Budget) (text : String) :
    IsNormal declared ((decode declared budget text).pieces.map (·.1)) :=
  (Step.isNormal_pieces (Course.putsUnknown_ofSegments _ _) "").of_isPrefix
    (map_pieces_prefix_course declared budget text)

/-! ### What is handed over -/

namespace Taker

variable (take : Taker ε σ)

/-- What is handed over of some pieces: all up to the first one that is refused. -/
def handed (state : σ) : List Piece → List Piece
  | [] => []
  | piece :: rest =>
    match (take piece).run.run state with
    | (.ok (), state') => piece :: handed state' rest
    | (.error _, _) => [piece]

/-- The state when some pieces were handed over. -/
def after (state : σ) : List Piece → σ
  | [] => state
  | piece :: rest => after ((take piece).run.run state).2 rest

variable {take}

theorem handed_prefix_self (state : σ) (pieces : List Piece) :
    take.handed state pieces <+: pieces := by
  induction pieces generalizing state with
  | nil => exact List.nil_prefix
  | cons piece rest ih =>
    rw [handed]
    split
    · exact (List.prefix_cons_inj _).2 (ih _)
    · exact (List.prefix_cons_inj _).2 List.nil_prefix

/-- Of more pieces no fewer are handed over. -/
theorem handed_mono {pieces more : List Piece} (h : pieces <+: more) (state : σ) :
    take.handed state pieces <+: take.handed state more := by
  induction pieces generalizing more state with
  | nil => exact List.nil_prefix
  | cons piece rest ih =>
    obtain ⟨later, rfl⟩ := h
    rw [List.cons_append, handed, handed]
    split
    · exact (List.prefix_cons_inj _).2 (ih (List.prefix_append rest later) _)
    · exact List.prefix_rfl

end Taker

section Receipts

variable {take : Taker ε σ}

/-- What was handed over, whether this came to an end or not. -/
def Ended.receipt : Ended ε σ (Receipt σ) → Receipt σ
  | .error stopped => stopped.2
  | .ok receipt => receipt

theorem Receipt.pieces_handAll (take : Taker ε σ) (receipt : Receipt σ)
    (pieces : List (Piece × Budget)) :
    (Ended.receipt (receipt.handAll take pieces)).pieces =
      receipt.pieces ++ take.handed receipt.taker (pieces.map (·.1)) := by
  induction pieces generalizing receipt with
  | nil => exact (List.append_nil _).symm
  | cons first rest ih =>
    obtain ⟨piece, budget⟩ := first
    rw [List.map_cons, Taker.handed]
    rcases answer : (take piece).run.run receipt.taker with ⟨cause | _, taker⟩
    · rw [handAll_cons_of_error answer]
      rfl
    · rw [handAll_cons_of_ok answer, ih, List.append_assoc]
      rfl

theorem Expansion.pieces_handOver (take : Taker ε σ) (state : σ) (expansion : Expansion) :
    (expansion.handOver take state).2.pieces =
      take.handed state (expansion.pieces.map (·.1)) := by
  have handed := Receipt.pieces_handAll take { budget := expansion.budget, taker := state }
    expansion.pieces
  rw [handOver]
  cases all : Receipt.handAll take { budget := expansion.budget, taker := state }
      expansion.pieces <;>
  · rw [all] at handed
    exact handed

/-- A piece that is refused is the last one, and its refusal is what it comes to. -/
theorem Receipt.refused_of_handed (receipt : Receipt σ) {pieces : List (Piece × Budget)}
    {before after : List Piece} {piece : Piece} {cause : ε} {taker : σ}
    (handed : take.handed receipt.taker (pieces.map (·.1)) = before ++ piece :: after)
    (refused : (take piece).run.run (take.after receipt.taker before) = (.error cause, taker)) :
    after = [] ∧ ∃ stopped : Receipt σ, stopped.taker = taker ∧
      receipt.handAll take pieces = .error (.refused cause, stopped) := by
  induction pieces generalizing receipt before with
  | nil => cases List.append_ne_nil_of_right_ne_nil before (List.cons_ne_nil _ _) handed.symm
  | cons first rest ih =>
    obtain ⟨given, budget⟩ := first
    rw [List.map_cons, Taker.handed] at handed
    rcases answer : (take given).run.run receipt.taker with ⟨cause' | _, taker'⟩
    · rw [answer] at handed
      rw [handAll_cons_of_error answer]
      obtain _ | ⟨_, before⟩ := before
      · cases handed
        cases answer.symm.trans refused
        exact ⟨rfl, _, rfl, rfl⟩
      · obtain ⟨-, none⟩ := List.cons.inj handed
        cases List.append_ne_nil_of_right_ne_nil before (List.cons_ne_nil _ _) none.symm
    · rw [answer] at handed
      rw [handAll_cons_of_ok answer]
      obtain _ | ⟨_, before⟩ := before
      · obtain ⟨rfl, -⟩ := List.cons.inj handed
        cases answer.symm.trans refused
      · obtain ⟨rfl, later⟩ := List.cons.inj handed
        rw [Taker.after, answer] at refused
        exact ih _ later refused

end Receipts

/-- The pieces that are handed over are in normal form. If one is refused it is the last, and that
is how the expansion ends. They are the beginning of those with any larger budget. -/
theorem decoded_pieces_are_normal (declared : String → Option String) (take : Taker ε σ)
    (budget : Budget) (text : String) (state : σ) :
    let final := (decode declared budget text).handOver take state
    Worker.Runs declared take (.start budget text state) final ∧
    IsNormal declared final.2.pieces ∧
    (∀ before piece after cause taker, final.2.pieces = before ++ piece :: after →
      (take piece).run.run (take.after state before) = (.error cause, taker) →
      after = [] ∧ final.1 = .refused cause ∧ final.2.taker = taker) ∧
    ∀ larger : Budget, budget.remaining ≤ larger.remaining →
      final.2.pieces <+: ((decode declared larger text).handOver take state).2.pieces := by
  intro final
  refine ⟨runs_decode declared take budget text state, ?_, ?_, fun larger more => ?_⟩
  · rw [Expansion.pieces_handOver]
    exact (isNormal_decode declared budget text).of_isPrefix (Taker.handed_prefix_self ..)
  · intro before piece after cause taker given refused
    rw [Expansion.pieces_handOver] at given
    obtain ⟨last, stopped, same, handed⟩ := Receipt.refused_of_handed
      { budget := (decode declared budget text).budget, taker := state } given refused
    dsimp only [final]
    rw [Expansion.handOver, handed]
    exact ⟨last, rfl, same⟩
  · rw [Expansion.pieces_handOver, Expansion.pieces_handOver]
    exact Taker.handed_mono (map_pieces_mono more) state

theorem decoded_pieces_are_normal_of_two_budgets :
    let declared := fun name => [("e", "p&u;q")].lookup name
    let take : Taker String Nat := fun _ => do
      if (← get) = 3 then throw "full" else modify (· + 1)
    let small := (decode declared (.full 5) "a&e;b&e;").handOver take 0
    let large := (decode declared (.full 10) "a&e;b&e;").handOver take 0
    (small = (.faulty (.overLimit 5), ⟨[.text "ap", .reference "u"], ⟨5, 0⟩, 2⟩) ∧
      small.2.pieces <+: large.2.pieces) ∧
    large.2.pieces = [.text "ap", .reference "u", .text "qbp"] ++ [.reference "u"] ∧
      large.1 = .refused "full" := by
  intro declared take small large
  have given : large.2.pieces = [.text "ap", .reference "u", .text "qbp"] ++ [.reference "u"] := by
    decide +kernel
  obtain ⟨-, -, -, beginning⟩ := decoded_pieces_are_normal declared take (.full 5) "a&e;b&e;" 0
  obtain ⟨-, -, refusal, -⟩ := decoded_pieces_are_normal declared take (.full 10) "a&e;b&e;" 0
  refine ⟨⟨by decide +kernel, beginning (.full 10) (by decide)⟩, given, ?_⟩
  exact (refusal _ _ _ "full" 3 given rfl).2.1

end XmlTable.Reference
