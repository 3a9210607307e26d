import XmlTable.Proofs.Spelling

/-!
# How deep replacement texts are nested

A text refers to entities, whose replacement texts refer to entities in turn. As far as such chains
of references go, so deep are replacement texts nested when the text is expanded. The bound on the
depth makes a difference where a chain is longer than the bound, and only there.
-/

namespace XmlTable.Reference

variable {declared : String → Option String} {levels : Nat} {text name value : String}

/-! ### References to entities -/

/-- A name is one of an entity that may be declared. -/
structure IsGeneral (name : String) : Prop where
  /-- A number sign would begin the number of a character. -/
  unnumbered : name.toList.head? ≠ some '#'
  /-- The predefined entities are not declared. -/
  own : Entity.predefined.lookup name = none

/-- A text refers to an entity by its name. -/
structure RefersTo (text name : String) : Prop where
  /-- The reference is found in the text. -/
  mem : .reference name.toList ∈ segments text.toList
  /-- It is one to an entity that may be declared. -/
  general : IsGeneral name

/-- A reference to an entity that is declared stands for its replacement text. -/
theorem IsGeneral.sense (h : IsGeneral name) (found : declared name = some value) :
    (Segment.reference name.toList).sense declared = .literal value := by
  rw [Segment.sense, String.ofList_toList, h.own, found]
  intro digits same
  exact h.unnumbered (by rw [same]; rfl)

theorem RefersTo.exists_sense (h : RefersTo text name) (found : declared name = some value) :
    ∃ segment ∈ segments text.toList, segment.sense declared = .literal value :=
  ⟨_, h.mem, h.general.sense found⟩

/-- What stands for a replacement text refers to an entity. -/
theorem exists_refersTo {segment : Segment} (hs : segment ∈ segments text.toList)
    (h : segment.sense declared = .literal value) :
    ∃ name, RefersTo text name ∧ declared name = some value := by
  revert h
  fun_cases Segment.sense declared segment with
  | case5 chars general literal found own =>
    rintro ⟨⟩
    refine ⟨String.ofList chars, ⟨by rwa [String.toList_ofList], ?_, own⟩, found⟩
    rw [String.toList_ofList]
    intro first
    obtain ⟨digits, rfl⟩ := List.head?_eq_some_iff.1 first
    exact general digits rfl
  | case1 | case2 | case3 | case4 | case6 =>
    intro h
    cases h

/-! ### Chains of references -/

/-- Replacement texts are nested in a text so many levels deep at least. -/
inductive Nests (declared : String → Option String) : Nat → String → Prop
  | text (text : String) : Nests declared 0 text
  | reference {levels : Nat} {text name value : String} : RefersTo text name →
    declared name = some value → Nests declared levels value → Nests declared (levels + 1) text

namespace Course

theorem ofAll_congr {course course' : Segment → Course} {segments : List Segment}
    (h : ∀ segment ∈ segments, course segment = course' segment) :
    ofAll course segments = ofAll course' segments := by
  induction segments with
  | nil => rfl
  | cons segment rest ih =>
    obtain ⟨first, later⟩ := List.forall_mem_cons.1 h
    rw [ofAll, ofAll, first, ih later]

theorem ofSegment_congr {nested nested' : List Segment → Course} {segment : Segment}
    (h : ∀ value, segment.sense declared = .literal value →
      nested (segments value.toList) = nested' (segments value.toList)) :
    ofSegment declared nested segment = ofSegment declared nested' segment := by
  unfold ofSegment
  cases hs : segment.sense declared with
  | text | invalid | unknown => rfl
  | literal value =>
    dsimp only
    rw [h value hs]

/-- Where replacement texts are not nested more deeply than they may be, it makes no difference if
they may be nested more deeply. -/
theorem ofSegments_succ (h : ¬ Nests declared (levels + 1) text) :
    ofSegments declared (levels + 1) (segments text.toList) =
      ofSegments declared levels (segments text.toList) := by
  induction levels generalizing text with
  | zero =>
    refine ofAll_congr fun segment hs => ofSegment_congr fun value literal => ?_
    obtain ⟨name, refers, found⟩ := exists_refersTo hs literal
    exact absurd (.reference refers found (.text value)) h
  | succ levels ih =>
    refine ofAll_congr fun segment hs => ofSegment_congr fun value literal => ih fun deep => ?_
    obtain ⟨name, refers, found⟩ := exists_refersTo hs literal
    exact h (.reference refers found deep)

/-- Where they are, the course ends with a fault, whatever comes before. -/
theorem fault_of_nests (h : Nests declared (levels + 1) text) :
    (ofSegments declared levels (segments text.toList)).fault ≠ none := by
  intro faultless
  induction levels generalizing text with
  | zero =>
    obtain _ | ⟨refers, found, -⟩ := h
    obtain ⟨segment, hs, literal⟩ := refers.exists_sense found
    have first := fault_ofAll faultless segment hs
    rw [ofSegment, literal] at first
    cases first
  | succ levels ih =>
    obtain _ | ⟨refers, found, deep⟩ := h
    obtain ⟨segment, hs, literal⟩ := refers.exists_sense found
    -- A course without a fault gets to every segment, so it gets to this one.
    have first := fault_ofAll faultless segment hs
    rw [ofSegment, literal] at first
    exact ih deep (fault_andThen first).2

end Course

end XmlTable.Reference
