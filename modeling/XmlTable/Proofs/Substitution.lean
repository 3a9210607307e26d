import XmlTable.Proofs.Affording
import XmlTable.Proofs.Depths
import XmlTable.Proofs.Segments

/-!
# Expansion is substitution

A reference to a declared entity may as well be replaced by what the replacement text expands to.
What stands before the reference and after it is expanded as if it stood alone, and all that is
spent is spent for one of the parts, or for the replacement text itself.
-/

namespace XmlTable.Reference

variable {declared : String → Option String} {budget : Budget}

/-! ### Courses of parts -/

namespace Course

variable (first next last : Course)

theorem andThen_assoc :
    (first.andThen next).andThen last = first.andThen (next.andThen last) := by
  rcases first with ⟨steps, _ | fault⟩ <;> rcases next with ⟨steps', _ | fault'⟩ <;> simp [andThen]

theorem fault_andThen_eq_none_iff :
    (first.andThen next).fault = none ↔ first.fault = none ∧ next.fault = none := by
  refine ⟨fault_andThen, fun ⟨free, free'⟩ => ?_⟩
  rw [andThen, free]
  exact free'

theorem ofAll_append (course : Segment → Course) (segments more : List Segment) :
    ofAll course (segments ++ more) = (ofAll course segments).andThen (ofAll course more) := by
  induction segments with
  | nil => rfl
  | cons segment rest ih => rw [List.cons_append, ofAll, ih, ofAll, andThen_assoc]

variable {first next}

theorem cost_andThen (h : first.fault = none) :
    (first.andThen next).cost = first.cost + next.cost := by
  rw [cost, steps_andThen h, Step.literals_append, bytesOf_append]
  rfl

theorem writtenText_andThen (h : first.fault = none) :
    Step.writtenText (first.andThen next).steps =
      Step.writtenText first.steps ++ Step.writtenText next.steps := by
  rw [steps_andThen h, Step.writtenText_append]

end Course

/-! ### A reference and its replacement -/

section Replacement

variable {name value : String} (isName : IsName name.toList) (general : IsGeneral name)
  (found : declared name = some value) (shallow : ¬ Nests declared maxDepth value)
  (before after : String)

section Parts

include isName general found shallow

/-- The course of a text with a reference is those of its parts, with a payment for the replacement
text. That text is nested one level more deeply than it would be alone. -/
theorem ofText_reference :
    Course.ofText declared (before ++ "&" ++ name ++ ";" ++ after) =
      (Course.ofText declared before).andThen ((Course.one (.payment value)).andThen
        ((Course.ofText declared value).andThen (Course.ofText declared after))) := by
  have parts : segments (before ++ "&" ++ name ++ ";" ++ after).toList =
      segments before.toList ++ .reference name.toList :: segments after.toList := by
    rw [← segments_append_reference isName]
    simp
  have nested : Course.ofSegments declared 15 (segments value.toList) =
      Course.ofText declared value := (Course.ofSegments_succ shallow).symm
  have reference : Course.ofSegment declared (Course.ofSegments declared 15)
      (.reference name.toList) =
        (Course.one (.payment value)).andThen (Course.ofText declared value) := by
    rw [Course.ofSegment, general.sense found, ← nested]
  show Course.ofAll (Course.ofSegment declared (Course.ofSegments declared 15)) (segments _) = _
  rw [parts, Course.ofAll_append, Course.ofAll, reference, Course.andThen_assoc]
  rfl

/-- A text with a reference costs what its parts cost, and the replacement text. -/
theorem cost_reference (first : (Course.ofText declared before).fault = none)
    (middle : (Course.ofText declared value).fault = none) :
    (Course.ofText declared (before ++ "&" ++ name ++ ";" ++ after)).cost =
      (Course.ofText declared before).cost + value.utf8ByteSize +
        (Course.ofText declared value).cost + (Course.ofText declared after).cost := by
  have payment : (Course.one (.payment value)).cost = value.utf8ByteSize := rfl
  rw [ofText_reference isName general found shallow, Course.cost_andThen first,
    Course.cost_andThen rfl, Course.cost_andThen middle, payment]
  omega

theorem fault_reference :
    (Course.ofText declared (before ++ "&" ++ name ++ ";" ++ after)).fault = none ↔
      (Course.ofText declared before).fault = none ∧
      (Course.ofText declared value).fault = none ∧
      (Course.ofText declared after).fault = none := by
  rw [ofText_reference isName general found shallow, Course.fault_andThen_eq_none_iff,
    Course.fault_andThen_eq_none_iff, Course.fault_andThen_eq_none_iff]
  exact and_congr_right fun _ => and_iff_right rfl

theorem writtenText_reference (first : (Course.ofText declared before).fault = none)
    (middle : (Course.ofText declared value).fault = none) :
    Step.writtenText
        (Course.ofText declared (before ++ "&" ++ name ++ ";" ++ after)).steps =
      Step.writtenText (Course.ofText declared before).steps ++
        Step.writtenText (Course.ofText declared value).steps ++
        Step.writtenText (Course.ofText declared after).steps := by
  have payment : Step.writtenText (Course.one (.payment value)).steps = "" := rfl
  rw [ofText_reference isName general found shallow, Course.writtenText_andThen first,
    Course.writtenText_andThen rfl, Course.writtenText_andThen middle, payment,
    String.empty_append, String.append_assoc]

end Parts

/-- A reference to a declared entity is replaced by what the replacement text expands to. If the
budget suffices, the expansion succeeds exactly if those of the parts do, and it spends what these
spend and the bytes of the replacement text. -/
theorem expansion_is_substitution (isName : IsName name.toList) (general : IsGeneral name)
    (found : declared name = some value) (shallow : ¬ Nests declared maxDepth value)
    (before after : String)
    (enough : Suffices declared budget (before ++ "&" ++ name ++ ";" ++ after)) :
    (Succeeds declared budget (before ++ "&" ++ name ++ ";" ++ after) ↔
      Succeeds declared budget before ∧ Succeeds declared budget value ∧
        Succeeds declared budget after) ∧
    ∀ first middle last, (decodeToString declared budget before).1 = .ok first →
      (decodeToString declared budget value).1 = .ok middle →
      (decodeToString declared budget after).1 = .ok last →
      (decodeToString declared budget (before ++ "&" ++ name ++ ";" ++ after)).1 =
          .ok (first ++ middle ++ last) ∧
        spent declared budget (before ++ "&" ++ name ++ ";" ++ after) =
          spent declared budget before + spent declared budget value +
            spent declared budget after + value.utf8ByteSize := by
  have faultless := fault_reference isName general found shallow before after
  have cost := cost_reference isName general found shallow before after
  have text := writtenText_reference isName general found shallow before after
  have succeeds : Succeeds declared budget (before ++ "&" ++ name ++ ";" ++ after) ↔
      Succeeds declared budget before ∧ Succeeds declared budget value ∧
        Succeeds declared budget after := by
    simp only [succeeds_iff]
    constructor
    · rintro ⟨free, enough⟩
      obtain ⟨first, middle, last⟩ := faultless.1 free
      rw [cost first middle] at enough
      exact ⟨⟨first, by omega⟩, ⟨middle, by omega⟩, last, by omega⟩
    · rintro ⟨⟨first, -⟩, ⟨middle, -⟩, last, -⟩
      exact ⟨faultless.2 ⟨first, middle, last⟩, enough.cost_le⟩
  refine ⟨succeeds, fun first middle last given given' given'' => ?_⟩
  have whole := succeeds.2 ⟨⟨_, given⟩, ⟨_, given'⟩, _, given''⟩
  rw [whole.spent, Succeeds.spent ⟨_, given⟩, Succeeds.spent ⟨_, given'⟩,
    Succeeds.spent ⟨_, given''⟩]
  obtain ⟨⟨free, -⟩, rfl, -⟩ := decodeToString_eq_ok_iff.1 (Prod.ext given rfl)
  obtain ⟨⟨free', -⟩, rfl, -⟩ := decodeToString_eq_ok_iff.1 (Prod.ext given' rfl)
  obtain ⟨-, rfl, -⟩ := decodeToString_eq_ok_iff.1 (Prod.ext given'' rfl)
  obtain ⟨result, given⟩ := whole
  obtain ⟨-, rfl, -⟩ := decodeToString_eq_ok_iff.1 (Prod.ext given rfl)
  rw [given, text free free', cost free free']
  exact ⟨rfl, by omega⟩

end Replacement

theorem expansion_is_substitution_of_stray_ampersands :
    let declared := fun name => [("e", "[&f;]"), ("f", "y")].lookup name
    let text := "x & &y" ++ "&" ++ "e" ++ ";" ++ ";&g;"
    (IsName "e".toList ∧ IsGeneral "e" ∧ declared "e" = some "[&f;]" ∧
      ¬ Nests declared maxDepth "[&f;]" ∧ Suffices declared (.full 6) text) ∧
    (decodeToString declared (.full 6) text).1 = .ok ("x & &y" ++ "[y]" ++ ";&g;") ∧
      spent declared (.full 6) text = spent declared (.full 6) "x & &y" +
        spent declared (.full 6) "[&f;]" + spent declared (.full 6) ";&g;" + 5 := by
  intro declared text
  have isName : IsName "e".toList := ⟨by decide, by decide⟩
  have general : IsGeneral "e" := ⟨by decide, by decide⟩
  have found : declared "e" = some "[&f;]" := rfl
  have shallow : ¬ Nests declared maxDepth "[&f;]" := by
    have outer : segments "[&f;]".toList = [.text ['['], .reference ['f'], .text [']']] := by
      decide +kernel
    have inner : segments "y".toList = [.text ['y']] := by decide +kernel
    rintro (_ | @⟨_, _, name, value, refers, found, deep⟩)
    obtain rfl : name = "f" := by
      have mem := refers.mem
      rw [outer] at mem
      simpa [← String.toList_inj] using mem
    obtain rfl : "y" = value := Option.some.inj found
    obtain _ | ⟨refers, -, -⟩ := deep
    have mem := refers.mem
    rw [inner] at mem
    simp at mem
  have enough : Suffices declared (.full 6) text := by
    intro limit excess
    rw [decodeToString_eq_ok (by decide +kernel) rfl] at excess
    cases excess
  refine ⟨⟨isName, general, found, shallow, enough⟩, ?_⟩
  exact (expansion_is_substitution isName general found shallow _ _ enough).2 _ _ _
    (decodeToString_eq_ok (by decide +kernel) (by decide +kernel))
    (decodeToString_eq_ok (by decide +kernel) (by decide +kernel))
    (decodeToString_eq_ok (by decide +kernel) (by decide +kernel))

end XmlTable.Reference
