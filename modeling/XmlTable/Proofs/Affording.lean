import XmlTable.Proofs.Course

/-!
# What can be afforded

An expansion succeeds if its course has no fault and the budget has what the course costs. What
comes of it then, and what it spends, does not depend on the budget.
-/

namespace XmlTable.Reference

variable {declared : String → Option String} {budget left : Budget} {text result : String}

/-! ### Courses that end well -/

/-- All steps are taken if what they cost is there. -/
theorem Step.affordable_eq_iff (bytes : Nat) (steps : List Step) :
    affordable bytes steps = steps ↔ bytesOf (literals steps) ≤ bytes := by
  induction steps generalizing bytes with
  | nil => simp [affordable, literals, bytesOf]
  | cons step rest ih =>
    cases step with
    | text | reference =>
      rw [affordable, List.cons.injEq, ih]
      exact and_iff_right rfl
    | payment literal =>
      show _ ↔ literal.utf8ByteSize + bytesOf (literals rest) ≤ bytes
      rw [affordable]
      split
      · next afforded =>
        rw [List.cons.injEq, and_iff_right rfl, ih]
        omega
      · next excess =>
        refine iff_of_false (List.cons_ne_nil _ _).symm ?_
        omega

namespace Course

variable {course : Course}

/-- The bytes of replacement text that a course pays for if it is taken as a whole. -/
def cost (course : Course) : Nat :=
  bytesOf (Step.literals course.steps)

/-- A course ends well if it has no fault and what it costs is there. -/
theorem ending_eq_none_iff :
    course.ending budget = none ↔ course.fault = none ∧ course.cost ≤ budget.remaining := by
  have whole := Step.affordable_eq_iff budget.remaining course.steps
  rw [ending, taken, cost, ← whole]
  split
  · next enough => exact (and_iff_left enough).symm
  · next excess => exact iff_of_false (Option.some_ne_none _) fun h => excess h.2

/-- A course that costs more than there is exceeds the budget, whatever fault it would end with. -/
theorem ending_eq_overLimit (excess : budget.remaining < course.cost) :
    course.ending budget = some (.overLimit budget.limit) :=
  if_neg fun whole => Nat.not_le.2 excess ((Step.affordable_eq_iff ..).1 whole)

end Course

/-! ### Expansions into one text -/

theorem decodeToString_eq_ok (free : (decode declared budget text).fault = none)
    (written : writtenText (decode declared budget text).pieces = result) :
    (decodeToString declared budget text).1 = .ok result := by
  rw [decodeToString, free]
  exact congrArg Except.ok written

/-- When an expansion succeeds, and what comes of it and is left then. -/
theorem decodeToString_eq_ok_iff :
    decodeToString declared budget text = (.ok result, left) ↔
      ((Course.ofText declared text).fault = none ∧
        (Course.ofText declared text).cost ≤ budget.remaining) ∧
      result = Step.writtenText (Course.ofText declared text).steps ∧
      left = budget.less (Course.ofText declared text).cost := by
  rw [← Course.ending_eq_none_iff, ← decode_fault]
  cases fault : (decode declared budget text).fault with
  | some fault' =>
    rw [decodeToString, fault]
    simp
  | none =>
    have after := (decode_budget declared budget text).1
    rw [(taken_of_decode _ _ _ fault).1] at after
    rw [decodeToString, fault, ← writtenText_decode _ _ _ fault, Course.cost, ← after]
    simp [eq_comm]

/-- The expansion of a text succeeds. -/
def Succeeds (declared : String → Option String) (budget : Budget) (text : String) : Prop :=
  ∃ result, (decodeToString declared budget text).1 = .ok result

theorem succeeds_iff : Succeeds declared budget text ↔
    (Course.ofText declared text).fault = none ∧
      (Course.ofText declared text).cost ≤ budget.remaining := by
  constructor
  · rintro ⟨result, given⟩
    exact (decodeToString_eq_ok_iff.1 (Prod.ext given rfl)).1
  · intro h
    exact ⟨_, congrArg Prod.fst (decodeToString_eq_ok_iff.2 ⟨h, rfl, rfl⟩)⟩

/-- The budget suffices for the expansion of a text. -/
def Suffices (declared : String → Option String) (budget : Budget) (text : String) : Prop :=
  ∀ limit, (decodeToString declared budget text).1 ≠ .error (.overLimit limit)

theorem Suffices.cost_le (h : Suffices declared budget text) :
    (Course.ofText declared text).cost ≤ budget.remaining := by
  refine Nat.le_of_not_lt fun excess => h budget.limit ?_
  have ending := Course.ending_eq_overLimit excess
  rw [← decode_fault] at ending
  rw [decodeToString, ending]

/-- The bytes that the expansion of a text spends. -/
def spent (declared : String → Option String) (budget : Budget) (text : String) : Nat :=
  budget.remaining - (decodeToString declared budget text).2.remaining

theorem Succeeds.spent (h : Succeeds declared budget text) :
    spent declared budget text = (Course.ofText declared text).cost := by
  obtain ⟨result, given⟩ := h
  obtain ⟨⟨-, enough⟩, -, left⟩ := decodeToString_eq_ok_iff.1 (Prod.ext given rfl)
  rw [Reference.spent]
  exact (congrArg (fun left : Budget => _ - left.remaining) left).trans (Nat.sub_sub_self enough)

end XmlTable.Reference
