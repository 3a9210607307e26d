import XmlTable.Reference.Expansion

/-!
# The course of an expansion

What an expansion does is a sequence of steps: it puts text, it puts a reference that it cannot
expand, or it pays for a replacement text. Which steps these are, and with which fault they end if
there is one, is a matter of the text and the declarations. The budget only decides how far the
steps are taken: up to the first replacement text that cannot be paid for.
-/

namespace XmlTable

/-- What is found by its key is there. -/
theorem mem_of_lookup_eq_some {α β : Type} [BEq α] [LawfulBEq α] {pairs : List (α × β)} {key : α}
    {b : β} (h : pairs.lookup key = some b) : (key, b) ∈ pairs := by
  obtain ⟨before, after, split, -⟩ := List.lookup_eq_some_iff.1 h
  exact split ▸ List.mem_append_right _ List.mem_cons_self

/-- Work that ends well has ended well in both of its parts. -/
theorem exists_of_bind_eq_ok {ε α β : Type} {work : Except ε α} {next : α → Except ε β} {b : β}
    (h : work >>= next = .ok b) : ∃ a, work = .ok a ∧ next a = .ok b := by
  cases work with
  | error fault => cases h
  | ok a => exact ⟨a, rfl, h⟩

namespace Reference

variable {declared : String → Option String}

/-! ### What a segment stands for -/

/-- What a segment of a text stands for. -/
inductive Sense where
  /-- It stands for text. -/
  | text (content : String)
  /-- It stands for no legal character. -/
  | invalid (name : String)
  /-- It stands for a replacement text. -/
  | literal (value : String)
  /-- It stands for an entity without a known value. -/
  | unknown (name : String)
  deriving DecidableEq, Repr

/-- What a segment stands for. -/
def Segment.sense (declared : String → Option String) : Segment → Sense
  | .text cs => .text (String.ofList cs)
  | .reference ('#' :: digits) =>
    match characterOf? digits with
    | some c => .text (String.singleton c)
    | none => .invalid (String.ofList ('#' :: digits))
  | .reference chars =>
    match Entity.predefined.lookup (String.ofList chars), declared (String.ofList chars) with
    | some value, _ => .text value
    | none, some value => .literal value
    | none, none => .unknown (String.ofList chars)

/-- A segment is put as what it stands for. -/
theorem putSegment_eq (putNested : List Segment → Expanding Unit) (segment : Segment) :
    putSegment declared putNested segment =
      match segment.sense declared with
      | .text content => modify (·.addText content)
      | .invalid name => throw (.invalidCharacter name)
      | .literal value => putEntity putNested value
      | .unknown name => modify (·.addReference name) := by
  fun_cases Segment.sense declared segment with
  | case1 cs => rfl
  | case2 digits c found => rw [putSegment, found]
  | case3 digits missing => rw [putSegment, missing]
  | case4 chars name value known =>
    rw [putSegment, known]
    exact name
  | case5 chars name value found unknown =>
    rw [putSegment, unknown, found]
    exact name
  | case6 chars name missing unknown =>
    rw [putSegment, unknown, missing]
    exact name

/-! ### Steps -/

/-- A step of an expansion. -/
inductive Step where
  /-- Text is put. -/
  | text (content : String)
  /-- A reference without a known value is put. -/
  | reference (name : String)
  /-- A replacement text is paid for. -/
  | payment (literal : String)
  deriving DecidableEq, Repr

namespace Step

/-- What a step adds to the text. -/
def written : Step → String
  | text content => content
  | reference name => (Piece.reference name).written
  | payment _ => ""

/-- What some steps add to the text. -/
def writtenText : List Step → String
  | [] => ""
  | step :: rest => step.written ++ writtenText rest

/-- The replacement texts that some steps pay for. -/
def literals : List Step → List String
  | [] => []
  | payment literal :: rest => literal :: literals rest
  | text _ :: rest | reference _ :: rest => literals rest

theorem writtenText_append (steps more : List Step) :
    writtenText (steps ++ more) = writtenText steps ++ writtenText more := by
  induction steps with
  | nil => exact String.empty_append.symm
  | cons step rest ih => rw [List.cons_append, writtenText, ih, writtenText, String.append_assoc]

theorem literals_append (steps more : List Step) :
    literals (steps ++ more) = literals steps ++ literals more := by
  induction steps with
  | nil => rfl
  | cons step rest ih =>
    cases step with
    | text | reference => exact ih
    | payment literal => exact congrArg (literal :: ·) ih

/-- Take a step, unless there is not enough of the budget. -/
def take : Step → Expanding Unit
  | text content => modify (·.addText content)
  | reference name => modify (·.addReference name)
  | payment literal => putEntity (fun _ => pure ()) literal

end Step

/-! ### Courses -/

/-- What an expansion does if the budget suffices. -/
structure Course where
  /-- The steps in order. -/
  steps : List Step
  /-- The fault that ends it early. -/
  fault : Option Fault
  deriving DecidableEq, Repr

namespace Course

/-- A course of one step. -/
def one (step : Step) : Course := ⟨[step], none⟩

/-- A course that ends at once. -/
def stop (fault : Fault) : Course := ⟨[], some fault⟩

/-- One course after another, unless the first ends with a fault. -/
def andThen (first next : Course) : Course :=
  match first.fault with
  | none => ⟨first.steps ++ next.steps, next.fault⟩
  | some _ => first

/-- The course of one segment of a text. That of a replacement text is given by its segments. -/
def ofSegment (declared : String → Option String) (nested : List Segment → Course)
    (segment : Segment) : Course :=
  match segment.sense declared with
  | .text content => one (.text content)
  | .invalid name => stop (.invalidCharacter name)
  | .literal value => (one (.payment value)).andThen (nested (segments value.toList))
  | .unknown name => one (.reference name)

/-- The course of some segments in order. -/
def ofAll (ofSegment : Segment → Course) : List Segment → Course
  | [] => ⟨[], none⟩
  | segment :: rest => (ofSegment segment).andThen (ofAll ofSegment rest)

/-- The course of an expansion with replacement texts nested at most `levels` deep. -/
def ofSegments (declared : String → Option String) : Nat → List Segment → Course
  | 0 => ofAll (ofSegment declared fun _ => stop .tooDeep)
  | levels + 1 => ofAll (ofSegment declared (ofSegments declared levels))

/-- The course of the expansion of a text. -/
def ofText (declared : String → Option String) (text : String) : Course :=
  ofSegments declared maxDepth (segments text.toList)

/-- Take the steps of a course and end with its fault. -/
def take (course : Course) : Expanding Unit := do
  forM course.steps Step.take
  match course.fault with
  | none => pure ()
  | some fault => throw fault

/-! ### The expansion takes its course -/

theorem take_one (step : Step) : (one step).take = step.take := by
  simp [take, one]

theorem take_stop (fault : Fault) : (stop fault).take = throw fault := by
  simp [take, stop]

theorem take_andThen (first next : Course) :
    (first.andThen next).take = (do first.take; next.take) := by
  unfold andThen
  split
  · next hf => simp [take, hf]
  · next hf => simp [take, hf]

/-- A segment is put by its course. -/
theorem take_ofSegment {putNested : List Segment → Expanding Unit}
    {nested : List Segment → Course} (h : ∀ segments, (nested segments).take = putNested segments)
    (segment : Segment) :
    (ofSegment declared nested segment).take = putSegment declared putNested segment := by
  rw [putSegment_eq, ofSegment]
  cases segment.sense declared with
  | text content => exact take_one _
  | invalid name => exact take_stop _
  | literal value =>
    dsimp only
    rw [take_andThen, take_one, h]
    simp only [Step.take, putEntity, bind_assoc]
    refine bind_congr fun progress => ?_
    split <;> simp
  | unknown name => exact take_one _

theorem take_ofAll {ofSegment : Segment → Course} {put : Segment → Expanding Unit}
    (h : ∀ segment, (ofSegment segment).take = put segment) (segments : List Segment) :
    (ofAll ofSegment segments).take = putAll put segments := by
  induction segments with
  | nil => simp [ofAll, take, putAll]
  | cons segment rest ih => rw [ofAll, take_andThen, h, ih, putAll]

/-- An expansion takes its course. -/
theorem take_ofSegments (levels : Nat) (segments : List Segment) :
    (ofSegments declared levels segments).take = expand declared levels segments := by
  induction levels generalizing segments with
  | zero => exact take_ofAll (take_ofSegment fun _ => take_stop _) _
  | succ levels ih => exact take_ofAll (take_ofSegment ih) _

end Course

/-! ### What is taken with a budget -/

/-- The bytes of some texts. -/
def bytesOf : List String → Nat
  | [] => 0
  | text :: rest => text.utf8ByteSize + bytesOf rest

theorem bytesOf_append (texts more : List String) :
    bytesOf (texts ++ more) = bytesOf texts + bytesOf more := by
  induction texts with
  | nil => exact (Nat.zero_add _).symm
  | cons text rest ih => rw [List.cons_append, bytesOf, ih, bytesOf, Nat.add_assoc]

/-- What is left of a budget when some bytes are spent. -/
def Budget.less (budget : Budget) (bytes : Nat) : Budget :=
  { budget with remaining := budget.remaining - bytes }

theorem Budget.spend?_of_le {budget : Budget} {bytes : Nat} (h : bytes ≤ budget.remaining) :
    budget.spend? bytes = some (budget.less bytes) :=
  if_pos h

theorem Budget.spend?_of_lt {budget : Budget} {bytes : Nat} (h : budget.remaining < bytes) :
    budget.spend? bytes = none :=
  if_neg (Nat.not_le.2 h)

/-- The steps that are taken with so many bytes: all up to the first payment that exceeds them. -/
def Step.affordable : Nat → List Step → List Step
  | _, [] => []
  | bytes, payment literal :: rest =>
    if literal.utf8ByteSize ≤ bytes then
      payment literal :: affordable (bytes - literal.utf8ByteSize) rest
    else []
  | bytes, text content :: rest => text content :: affordable bytes rest
  | bytes, reference name :: rest => reference name :: affordable bytes rest

/-- The text that an expansion under way makes up. -/
def Progress.written (progress : Progress) : String :=
  Reference.writtenText progress.pieces.toList ++ progress.pending

theorem writtenText_concat (pieces : List (Piece × Budget)) (piece : Piece × Budget) :
    writtenText (pieces ++ [piece]) = writtenText pieces ++ piece.1.written := by
  rw [writtenText, List.foldl_append]
  rfl

theorem Progress.written_flush (progress : Progress) :
    progress.flush.written = progress.written := by
  unfold flush
  split
  · rfl
  · show Reference.writtenText (progress.pieces.push _).toList ++ "" = _
    rw [Array.toList_push, writtenText_concat, String.append_empty]
    rfl

theorem Progress.flush_budget (progress : Progress) : progress.flush.budget = progress.budget := by
  unfold flush
  split <;> rfl

theorem Progress.flush_pending (progress : Progress) : progress.flush.pending = "" := by
  unfold flush
  split
  · next empty => exact String.isEmpty_iff.1 empty
  · rfl

/-- An expansion goes on from another by some steps. -/
structure Progress.Takes (progress : Progress) (steps : List Step) (progress' : Progress) :
    Prop where
  /-- What they add is put. -/
  written : progress'.written = progress.written ++ Step.writtenText steps
  /-- What they cost is spent. -/
  budget : progress'.budget = progress.budget.less (bytesOf (Step.literals steps))
  /-- It was there. -/
  le : bytesOf (Step.literals steps) ≤ progress.budget.remaining

namespace Progress.Takes

variable {progress progress' progress'' : Progress} {steps : List Step}

theorem nil (progress : Progress) : progress.Takes [] progress where
  written := by rw [Step.writtenText, String.append_empty]
  budget := rfl
  le := Nat.zero_le _

/-- A step without a cost comes before others. -/
theorem cons_free {step : Step} (free : Step.literals (step :: steps) = Step.literals steps)
    (text : progress'.written = progress.written ++ step.written)
    (budget : progress'.budget = progress.budget) (h : progress'.Takes steps progress'') :
    progress.Takes (step :: steps) progress'' where
  written := by rw [h.written, text, Step.writtenText, String.append_assoc]
  budget := by rw [h.budget, free, budget]
  le := by
    rw [free, ← budget]
    exact h.le

/-- A payment comes before other steps. -/
theorem cons_payment {literal : String}
    (afforded : literal.utf8ByteSize ≤ progress.budget.remaining)
    (h : Takes { progress with budget := progress.budget.less literal.utf8ByteSize } steps
      progress'') :
    progress.Takes (.payment literal :: steps) progress'' where
  written := by rw [h.written, Step.writtenText, Step.written, String.empty_append]; rfl
  budget := by
    rw [h.budget, Budget.less, Budget.less, Budget.less, Nat.sub_sub]
    rfl
  le := by
    have rest : bytesOf (Step.literals steps) ≤ progress.budget.remaining - literal.utf8ByteSize :=
      h.le
    show literal.utf8ByteSize + bytesOf (Step.literals steps) ≤ _
    omega

end Progress.Takes

theorem Expanding.run_bind {α β : Type} (work : Expanding α) (next : α → Expanding β)
    (progress : Progress) : (work >>= next).run.run progress =
      match work.run.run progress with
      | (.ok a, progress') => (next a).run.run progress'
      | (.error fault, progress') => (.error fault, progress') := by
  change (match work.run.run progress with | (r, p) => (ExceptT.bindCont next r).run p) = _
  rcases work.run.run progress with ⟨_ | _, _⟩ <;> rfl

theorem Progress.written_addText (progress : Progress) (text : String) :
    (progress.addText text).written = progress.written ++ text :=
  (String.append_assoc ..).symm

theorem Progress.written_addReference (progress : Progress) (name : String) :
    (progress.addReference name).written = progress.written ++ (Piece.reference name).written := by
  rw [← progress.written_flush, written, written, addReference, progress.flush_pending,
    String.append_empty, String.append_empty, Array.toList_push, writtenText_concat]

/-- A payment is made if it can be. -/
theorem Step.run_take_payment (literal : String) (progress : Progress) :
    (take (payment literal)).run.run progress =
      match progress.budget.spend? literal.utf8ByteSize with
      | none => (.error (.overLimit progress.budget.limit), progress)
      | some left => (.ok (), { progress with budget := left }) := by
  rw [take, putEntity, Expanding.run_bind]
  change (match progress.budget.spend? literal.utf8ByteSize with
    | none => throw (.overLimit progress.budget.limit)
    | some left => do
      modify fun progress => { progress with budget := left }
      pure () : Expanding Unit).run.run progress = _
  cases progress.budget.spend? literal.utf8ByteSize <;> rfl

/-- Steps are taken as far as they are affordable. If not all are, that is a fault. -/
theorem Step.exists_run_take (steps : List Step) (progress : Progress) :
    ∃ progress', (forM steps Step.take : Expanding Unit).run.run progress =
        (if affordable progress.budget.remaining steps = steps then .ok ()
          else .error (.overLimit progress.budget.limit), progress') ∧
      progress.Takes (affordable progress.budget.remaining steps) progress' := by
  induction steps generalizing progress with
  | nil => exact ⟨progress, rfl, .nil progress⟩
  | cons step rest ih =>
    rw [List.forM_cons, Expanding.run_bind]
    cases step with
    | text content =>
      have first : (take (text content)).run.run progress =
          (.ok (), progress.addText content) := rfl
      have budget : (progress.addText content).budget = progress.budget := rfl
      obtain ⟨progress', run, takes⟩ := ih (progress.addText content)
      rw [budget] at run takes
      rw [first, affordable]
      simp only [run, List.cons.injEq, true_and]
      exact ⟨progress', rfl, takes.cons_free rfl (progress.written_addText content) budget⟩
    | reference name =>
      have first : (take (reference name)).run.run progress =
          (.ok (), progress.addReference name) := rfl
      have budget : (progress.addReference name).budget = progress.budget := progress.flush_budget
      obtain ⟨progress', run, takes⟩ := ih (progress.addReference name)
      rw [budget] at run takes
      rw [first, affordable]
      simp only [run, List.cons.injEq, true_and]
      exact ⟨progress', rfl, takes.cons_free rfl (progress.written_addReference name) budget⟩
    | payment literal =>
      rw [run_take_payment, affordable]
      by_cases afforded : literal.utf8ByteSize ≤ progress.budget.remaining
      · obtain ⟨progress', run, takes⟩ :=
          ih { progress with budget := progress.budget.less literal.utf8ByteSize }
        rw [Budget.spend?_of_le afforded, if_pos afforded]
        simp only [run, List.cons.injEq, true_and]
        exact ⟨progress', rfl, takes.cons_payment afforded⟩
      · rw [Budget.spend?_of_lt (Nat.not_le.1 afforded), if_neg afforded]
        exact ⟨progress, rfl, .nil progress⟩

/-! ### Pieces -/

/-- Text as a piece, unless it is empty. -/
def Piece.ofText (text : String) : List Piece :=
  if text.isEmpty then [] else [.text text]

/-- The pieces that some steps make up. Of text before them there is no piece yet. -/
def Step.pieces (pending : String) : List Step → List Piece
  | [] => Piece.ofText pending
  | text content :: rest => pieces (pending ++ content) rest
  | reference name :: rest => Piece.ofText pending ++ .reference name :: pieces "" rest
  | payment _ :: rest => pieces pending rest

theorem Progress.map_flush (progress : Progress) :
    progress.flush.pieces.toList.map (·.1) =
      progress.pieces.toList.map (·.1) ++ Piece.ofText progress.pending := by
  unfold flush Piece.ofText
  split
  · exact (List.append_nil _).symm
  · rw [Array.toList_push, List.map_append]
    rfl

/-- If all of some steps are taken, their pieces are put after those that were there. -/
theorem Step.map_pieces {steps : List Step} {progress progress' : Progress}
    (run : (forM steps Step.take : Expanding Unit).run.run progress = (.ok (), progress')) :
    progress'.flush.pieces.toList.map (·.1) =
      progress.pieces.toList.map (·.1) ++ pieces progress.pending steps := by
  induction steps generalizing progress with
  | nil =>
    cases run
    exact progress'.map_flush
  | cons step rest ih =>
    rw [List.forM_cons, Expanding.run_bind] at run
    cases step with
    | text content => exact ih run
    | reference name =>
      refine (ih run).trans ?_
      show (progress.flush.pieces.push _).toList.map (·.1) ++ pieces progress.flush.pending rest = _
      rw [Array.toList_push, List.map_append, progress.map_flush, progress.flush_pending,
        List.append_assoc, List.append_assoc]
      rfl
    | payment literal =>
      rw [run_take_payment] at run
      cases afforded : progress.budget.spend? literal.utf8ByteSize with
      | none =>
        rw [afforded] at run
        cases run
      | some left =>
        rw [afforded] at run
        exact @ih { progress with budget := left } run

namespace Course

/-- The steps of a course that are taken with a budget. -/
def taken (course : Course) (budget : Budget) : List Step :=
  Step.affordable budget.remaining course.steps

/-- The fault with which a course ends that is taken with a budget. -/
def ending (course : Course) (budget : Budget) : Option Fault :=
  if course.taken budget = course.steps then course.fault else some (.overLimit budget.limit)

/-- A course that ends well is taken as a whole. -/
theorem taken_of_ending {course : Course} {budget : Budget} (h : course.ending budget = none) :
    course.taken budget = course.steps ∧ course.fault = none := by
  unfold ending at h
  split at h
  · next whole => exact ⟨whole, h⟩
  · cases h

theorem exists_run_take (course : Course) (progress : Progress) :
    ∃ progress', course.take.run.run progress =
        (match course.ending progress.budget with
          | none => .ok ()
          | some fault => .error fault, progress') ∧
      progress.Takes (course.taken progress.budget) progress' := by
  obtain ⟨progress', run, takes⟩ := Step.exists_run_take course.steps progress
  refine ⟨progress', ?_, takes⟩
  rw [take, Expanding.run_bind, run, ending, taken]
  by_cases whole : Step.affordable progress.budget.remaining course.steps = course.steps
  · rw [if_pos whole, if_pos whole]
    cases course.fault <;> rfl
  · rw [if_neg whole, if_neg whole]

end Course

/-! ### What comes of an expansion -/

variable (declared : String → Option String) (budget : Budget) (text : String)

/-- An expansion takes what steps of its course are affordable, and ends with the fault of its
course. -/
theorem exists_decode_eq :
    ∃ progress,
      ({ budget } : Progress).Takes ((Course.ofText declared text).taken budget) progress ∧
      decode declared budget text =
        match (Course.ofText declared text).ending budget with
        | none => ⟨progress.flush.pieces.toList, progress.budget, none⟩
        | some fault => ⟨progress.pieces.toList, progress.budget, some fault⟩ := by
  obtain ⟨progress, run, takes⟩ := (Course.ofText declared text).exists_run_take { budget }
  refine ⟨progress, takes, ?_⟩
  rw [Course.ofText, Course.take_ofSegments] at run
  rw [decode, run, Course.ofText]
  cases (Course.ofSegments declared maxDepth (segments text.toList)).ending budget <;> rfl

theorem decode_fault :
    (decode declared budget text).fault = (Course.ofText declared text).ending budget := by
  obtain ⟨progress, -, same⟩ := exists_decode_eq declared budget text
  rw [same]
  cases (Course.ofText declared text).ending budget <;> rfl

/-- What is taken of the course of an expansion is paid for. -/
theorem decode_budget :
    (decode declared budget text).budget =
        budget.less (bytesOf (Step.literals ((Course.ofText declared text).taken budget))) ∧
      bytesOf (Step.literals ((Course.ofText declared text).taken budget)) ≤ budget.remaining := by
  obtain ⟨progress, takes, same⟩ := exists_decode_eq declared budget text
  refine ⟨?_, takes.le⟩
  rw [same, ← takes.budget]
  cases (Course.ofText declared text).ending budget <;> rfl

/-- An expansion without a fault takes the whole of its course. -/
theorem taken_of_decode (h : (decode declared budget text).fault = none) :
    (Course.ofText declared text).taken budget = (Course.ofText declared text).steps ∧
      (Course.ofText declared text).fault = none :=
  Course.taken_of_ending ((decode_fault declared budget text).symm.trans h)

/-- The pieces of an expansion without a fault are written as its course says. -/
theorem writtenText_decode (h : (decode declared budget text).fault = none) :
    writtenText (decode declared budget text).pieces =
      Step.writtenText (Course.ofText declared text).steps := by
  obtain ⟨progress, takes, same⟩ := exists_decode_eq declared budget text
  have ending := (decode_fault declared budget text).symm.trans h
  rw [(taken_of_decode _ _ _ h).1] at takes
  rw [same, ending]
  show writtenText progress.flush.pieces.toList = _
  rw [← String.append_empty (s := writtenText progress.flush.pieces.toList),
    ← progress.flush_pending]
  show progress.flush.written = _
  rw [progress.written_flush, takes.written]
  exact String.empty_append

/-- The pieces of an expansion without a fault are those that its course makes up. -/
theorem map_pieces_decode (h : (decode declared budget text).fault = none) :
    (decode declared budget text).pieces.map (·.1) =
      Step.pieces "" (Course.ofText declared text).steps := by
  have run : (Course.ofSegments declared maxDepth (segments text.toList)).take =
      expand declared maxDepth (segments text.toList) := Course.take_ofSegments ..
  rw [decode, ← run] at h ⊢
  rw [Course.take, Expanding.run_bind] at h ⊢
  rw [Course.ofText]
  generalize hr : (forM (Course.ofSegments declared maxDepth (segments text.toList)).steps
    Step.take : Expanding Unit).run.run { budget } = r at h ⊢
  obtain ⟨_ | _, progress⟩ := r
  · cases h
  · generalize (Course.ofSegments declared maxDepth (segments text.toList)).fault = fault at h ⊢
    cases fault with
    | none => exact Step.map_pieces hr
    | some fault => cases h

end Reference

end XmlTable
