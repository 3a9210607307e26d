import XmlTable.Proofs.Course

/-!
# How references are spelled out

An expansion that meets no fault leaves a text in which every reference is spelled out: by its
character, by the value of its entity, or by itself if no value is known. The value of a declared
entity is what its literal expands to on its own. That the literal is nested in another text makes
no difference to that, as long as it is not nested too deeply.
-/

namespace XmlTable.Reference

variable {declared : String → Option String}

/-- What a segment is spelled out as, given the values of entities. A reference that denotes no
legal character is spelled out as nothing. -/
def Segment.spelled (value? : String → Option String) : Segment → String
  | .text cs => String.ofList cs
  | .reference ('#' :: digits) => (characterOf? digits).elim "" String.singleton
  | .reference chars =>
    (value? (String.ofList chars)).getD (Piece.reference (String.ofList chars)).written

/-- A text with all references spelled out. -/
def spelled (value? : String → Option String) (text : String) : String :=
  String.join ((segments text.toList).map (Segment.spelled value?))

/-- What the literal of an entity expands to if the budget suffices. -/
def valueOf (declared : String → Option String) (literal : String) : String :=
  Step.writtenText (Course.ofText declared literal).steps

/-- The values of entities. The predefined ones go before those that are declared. -/
def values (declared : String → Option String) (name : String) : Option String :=
  (Entity.predefined.lookup name).or ((declared name).map (valueOf declared))

/-- A segment is spelled out as what it stands for. -/
theorem Segment.spelled_eq (segment : Segment) : segment.spelled (values declared) =
    match segment.sense declared with
    | .text content => content
    | .invalid _ => ""
    | .literal literal => valueOf declared literal
    | .unknown name => (Piece.reference name).written := by
  fun_cases Segment.sense declared segment with
  | case1 cs => rfl
  | case2 digits c found => rw [spelled, found]; rfl
  | case3 digits missing => rw [spelled, missing]; rfl
  | case4 chars name value known =>
    rw [spelled, values, known]
    · rfl
    · exact name
  | case5 chars name literal found unknown =>
    rw [spelled, values, unknown, found]
    · rfl
    · exact name
  | case6 chars name missing unknown =>
    rw [spelled, values, unknown, missing]
    · rfl
    · exact name

/-! ### Courses without a fault -/

namespace Course

theorem fault_andThen {first next : Course} (h : (first.andThen next).fault = none) :
    first.fault = none ∧ next.fault = none := by
  unfold andThen at h
  split at h
  · next free => exact ⟨free, h⟩
  · next faulty =>
    rw [faulty] at h
    cases h

theorem steps_andThen {first next : Course} (h : first.fault = none) :
    (first.andThen next).steps = first.steps ++ next.steps := by
  rw [andThen, h]

/-- Some courses are the same as others wherever these meet no fault. -/
def Agrees {α : Type} (course' course : α → Course) : Prop :=
  ∀ a, (course a).fault = none → course' a = course a

theorem ofSegment_agrees {nested nested' : List Segment → Course} (h : Agrees nested' nested) :
    Agrees (ofSegment declared nested') (ofSegment declared nested) := by
  intro segment faultless
  unfold ofSegment at faultless ⊢
  cases hs : segment.sense declared with
  | text | invalid | unknown => rfl
  | literal value =>
    rw [hs] at faultless
    dsimp only at faultless ⊢
    rw [h _ (fault_andThen faultless).2]

theorem ofAll_agrees {course course' : Segment → Course} (h : Agrees course' course) :
    Agrees (ofAll course') (ofAll course) := by
  intro segments faultless
  induction segments with
  | nil => rfl
  | cons segment rest ih =>
    obtain ⟨first, later⟩ := fault_andThen faultless
    rw [ofAll, ofAll, h _ first, ih later]

/-- A course without a fault is the same if replacement texts may be nested more deeply. -/
theorem ofSegments_agrees (levels : Nat) :
    Agrees (ofSegments declared (levels + 1)) (ofSegments declared levels) := by
  induction levels with
  | zero =>
    -- Nothing nested is without a fault.
    exact ofAll_agrees (ofSegment_agrees nofun)
  | succ levels ih => exact ofAll_agrees (ofSegment_agrees ih)

/-- The steps of some segments without a fault are those of each in turn. -/
theorem writtenText_ofAll {course : Segment → Course} {segments : List Segment}
    (h : (ofAll course segments).fault = none) : Step.writtenText (ofAll course segments).steps =
      String.join (segments.map fun segment => Step.writtenText (course segment).steps) := by
  induction segments with
  | nil => exact String.join_nil.symm
  | cons segment rest ih =>
    obtain ⟨first, later⟩ := fault_andThen h
    rw [ofAll, steps_andThen first, Step.writtenText_append, ih later, List.map_cons,
      String.join_cons]

theorem fault_ofAll {course : Segment → Course} {segments : List Segment}
    (h : (ofAll course segments).fault = none) :
    ∀ segment ∈ segments, (course segment).fault = none := by
  induction segments with
  | nil => nofun
  | cons segment rest ih =>
    obtain ⟨first, later⟩ := fault_andThen h
    exact List.forall_mem_cons.2 ⟨first, ih later⟩

/-- A segment whose course meets no fault is put as it is spelled out. -/
theorem writtenText_ofSegment {nested : List Segment → Course}
    (h : ∀ literal, (nested (segments literal.toList)).fault = none →
      ofText declared literal = nested (segments literal.toList)) {segment : Segment}
    (faultless : (ofSegment declared nested segment).fault = none) :
    Step.writtenText (ofSegment declared nested segment).steps =
      segment.spelled (values declared) := by
  rw [Segment.spelled_eq]
  unfold ofSegment at faultless ⊢
  cases hs : segment.sense declared with
  | text content => exact String.append_empty
  | invalid name => rfl
  | unknown name => exact String.append_empty
  | literal literal =>
    rw [hs] at faultless
    dsimp only at faultless ⊢
    rw [steps_andThen rfl, valueOf, h literal (fault_andThen faultless).2]
    exact String.empty_append

/-- A text whose expansion meets no fault is spelled out by it. -/
theorem writtenText_ofText {text : String} (h : (ofText declared text).fault = none) :
    Step.writtenText (ofText declared text).steps = spelled (values declared) text := by
  have nested : ∀ literal, (ofSegments declared 15 (segments literal.toList)).fault = none →
      ofText declared literal = ofSegments declared 15 (segments literal.toList) :=
    fun literal faultless => ofSegments_agrees 15 _ faultless
  have faultless :
      (ofAll (ofSegment declared (ofSegments declared 15)) (segments text.toList)).fault = none := h
  refine (writtenText_ofAll faultless).trans ?_
  refine congrArg String.join (List.map_congr_left fun segment hm => ?_)
  exact writtenText_ofSegment nested (fault_ofAll faultless segment hm)

end Course

end XmlTable.Reference
