import XmlTable.Proofs.Course
import XmlTable.Text.Split

/-!
# What expansions cost

An expansion can make a text longer only by the replacement texts that it puts in place, and each of
these is paid for in full before it is put. A reference to a character or to a predefined entity is
at least as long as what it stands for, and one without a known value stays as it is. Expansions
that share a budget therefore put in place no more than it had at first.
-/

namespace XmlTable.Reference

variable {declared : String → Option String}

/-! ### The bytes of segments -/

/-- A segment as it stands in a text. -/
def Segment.source : Segment → List Char
  | .text cs => cs
  | .reference name => '&' :: (name ++ [';'])

/-- A reference that is found is a name and a semicolon. -/
theorem eq_append_of_takeName? {cs name rest : List Char} (h : takeName? cs = some (name, rest)) :
    cs = name ++ ';' :: rest := by
  unfold takeName? at h
  split at h
  · next c found after ht hd =>
    cases h
    rw [← List.takeWhile_append_dropWhile (p := isNameChar) (l := cs), ht, hd]
  · cases h

theorem source_putText (run : List Char) (done : List Segment) :
    (putText run done).reverse.flatMap Segment.source =
      done.reverse.flatMap Segment.source ++ run.reverse := by
  cases run with
  | nil => exact (List.append_nil _).symm
  | cons c run =>
    show ((.text (c :: run).reverse :: done).reverse).flatMap Segment.source = _
    rw [List.reverse_cons, List.flatMap_append, List.flatMap_singleton]
    rfl

theorem source_segmentsFrom (done : List Segment) (run cs : List Char) :
    (segmentsFrom done run cs).flatMap Segment.source =
      done.reverse.flatMap Segment.source ++ run.reverse ++ cs := by
  fun_induction segmentsFrom done run cs with
  | case1 done run => rw [source_putText, List.append_nil]
  | case2 done run rest name after found ih =>
    rw [ih, List.reverse_cons, List.flatMap_append, source_putText, List.flatMap_singleton,
      eq_append_of_takeName? found]
    simp [Segment.source]
  | case3 done run rest missing ih => rw [ih]; simp
  | case4 done run c rest plain ih => rw [ih]; simp

/-- The segments of a text make it up. -/
theorem source_segments (cs : List Char) : (segments cs).flatMap Segment.source = cs :=
  source_segmentsFrom [] [] cs

/-- No character is longer than a reference to it by its number. -/
theorem utf8Size_le_of_characterOf? {digits : List Char} {c : Char}
    (h : characterOf? digits = some c) :
    c.utf8Size ≤ Text.byteLength (Segment.reference ('#' :: digits)).source := by
  have digit : digits ≠ [] := by
    rintro rfl
    cases h
  have length := Text.length_le_byteLength (Segment.reference ('#' :: digits)).source
  have positive := List.length_pos_iff.2 digit
  have small := c.utf8Size_le_four
  simp only [Segment.source, List.length_cons, List.length_append, List.length_nil] at length
  rw [Segment.source]
  omega

/-- The values of the predefined entities are single bytes. -/
theorem utf8ByteSize_of_predefined {name value : String}
    (h : Entity.predefined.lookup name = some value) : value.utf8ByteSize = 1 := by
  have single : Entity.predefined.all (·.2.utf8ByteSize = 1) = true := by decide
  exact of_decide_eq_true (List.all_eq_true.1 single _ (mem_of_lookup_eq_some h))

/-- A reference is longer than its name. -/
theorem byteLength_reference (name : List Char) :
    Text.byteLength (Segment.reference name).source = Text.byteLength name + 2 := by
  rw [Segment.source, Text.byteLength_cons, Text.byteLength_append]
  show 1 + (Text.byteLength name + 1) = _
  omega

/-- A segment that stands for text is at least as long. -/
theorem utf8ByteSize_le_of_sense {segment : Segment} {content : String}
    (h : segment.sense declared = .text content) :
    content.utf8ByteSize ≤ Text.byteLength segment.source := by
  revert h
  fun_cases Segment.sense declared segment with
  | case1 cs =>
    rintro ⟨⟩
    rw [← Text.byteLength_toList, String.toList_ofList]
    exact Nat.le_refl _
  | case2 digits c found =>
    rintro ⟨⟩
    rw [String.utf8ByteSize_singleton]
    exact utf8Size_le_of_characterOf? found
  | case4 chars name value known =>
    rintro ⟨⟩
    rw [utf8ByteSize_of_predefined known, byteLength_reference]
    omega
  | case3 | case5 | case6 =>
    intro h
    cases h

/-- A segment without a known value stays as it is. -/
theorem utf8ByteSize_of_unknown {segment : Segment} {name : String}
    (h : segment.sense declared = .unknown name) :
    (Piece.reference name).written.utf8ByteSize = Text.byteLength segment.source := by
  revert h
  fun_cases Segment.sense declared segment with
  | case6 chars name missing unknown =>
    rintro ⟨⟩
    rw [Piece.written, String.utf8ByteSize_append, String.utf8ByteSize_append,
      ← Text.byteLength_toList (String.ofList chars), String.toList_ofList, byteLength_reference]
    show 1 + Text.byteLength chars + 1 = _
    omega
  | case1 | case2 | case3 | case4 | case5 =>
    intro h
    cases h

/-! ### The bytes of courses -/

/-- What a course adds to a text is paid for, as far as it is longer than the text. -/
def Course.Frugal (course : Course) (source : List Char) : Prop :=
  (Step.writtenText course.steps).utf8ByteSize ≤
    Text.byteLength source + bytesOf (Step.literals course.steps)

namespace Course

theorem frugal_stop (fault : Fault) (source : List Char) : (stop fault).Frugal source :=
  Nat.zero_le _

theorem Frugal.andThen {first next : Course} {cs ds : List Char} (h : first.Frugal cs)
    (h' : next.Frugal ds) : (first.andThen next).Frugal (cs ++ ds) := by
  unfold Frugal at *
  unfold Course.andThen
  rw [Text.byteLength_append]
  split
  · rw [Step.writtenText_append, String.utf8ByteSize_append, Step.literals_append, bytesOf_append]
    omega
  · omega

theorem frugal_ofSegment {nested : List Segment → Course}
    (h : ∀ segments, (nested segments).Frugal (segments.flatMap Segment.source))
    (segment : Segment) : (ofSegment declared nested segment).Frugal segment.source := by
  rw [ofSegment]
  cases hs : segment.sense declared with
  | text content =>
    have text := utf8ByteSize_le_of_sense hs
    rw [← String.append_empty (s := content)] at text
    exact text
  | invalid name => exact frugal_stop _ _
  | literal value =>
    have nested := h (segments value.toList)
    rw [Frugal, source_segments, Text.byteLength_toList] at nested
    show ("" ++ Step.writtenText _).utf8ByteSize ≤
      _ + (value.utf8ByteSize + bytesOf (Step.literals _))
    rw [String.empty_append]
    exact Nat.le_trans nested (Nat.le_add_left ..)
  | unknown name =>
    have text := Nat.le_of_eq (utf8ByteSize_of_unknown hs)
    rw [← String.append_empty (s := (Piece.reference name).written)] at text
    exact text

theorem frugal_ofAll {ofSegment : Segment → Course}
    (h : ∀ segment : Segment, (ofSegment segment).Frugal segment.source) (segments : List Segment) :
    (ofAll ofSegment segments).Frugal (segments.flatMap Segment.source) := by
  induction segments with
  | nil => exact Nat.zero_le _
  | cons segment rest ih => exact (h segment).andThen ih

theorem frugal_ofSegments (declared : String → Option String) (levels : Nat)
    (segments : List Segment) :
    (ofSegments declared levels segments).Frugal (segments.flatMap Segment.source) := by
  induction levels generalizing segments with
  | zero => exact frugal_ofAll (frugal_ofSegment fun _ => frugal_stop _ _) _
  | succ levels ih => exact frugal_ofAll (frugal_ofSegment ih) _

end Course

/-! ### Expansions that share a budget -/

/-- A request to expand the references of a text, with what comes of it. -/
structure Request where
  /-- The text. -/
  text : String
  /-- The budget before. -/
  before : Budget
  /-- What is given. -/
  answer : Except Fault String
  /-- The budget after. -/
  after : Budget
  deriving Repr

/-- A text is expanded. -/
def Request.make (declared : String → Option String) (budget : Budget) (text : String) : Request :=
  let (answer, after) := decodeToString declared budget text
  ⟨text, budget, answer, after⟩

/-- The replacement texts that a request puts in place. -/
def Request.literals (declared : String → Option String) (request : Request) : List String :=
  Step.literals ((Course.ofText declared request.text).taken request.before)

/-- Requests for some texts in order, which share a budget. -/
def requests (declared : String → Option String) : Budget → List String → List Request
  | _, [] => []
  | budget, text :: rest =>
    let request := Request.make declared budget text
    request :: requests declared request.after rest

/-- What is left of a budget after some requests. -/
def leftAfter (budget : Budget) : List Request → Budget
  | [] => budget
  | request :: rest => leftAfter request.after rest

/-- A request pays for the replacement texts that it puts in place, and what is given has no more
bytes than its text and they. -/
structure Request.Pays (declared : String → Option String) (request : Request) : Prop where
  /-- They are paid from the budget. -/
  budget : bytesOf (request.literals declared) + request.after.remaining =
    request.before.remaining
  /-- An answer is no longer. -/
  answer : ∀ result, request.answer = .ok result →
    result.utf8ByteSize ≤ request.text.utf8ByteSize + bytesOf (request.literals declared)

/-- Every request pays, whether it succeeds or not. -/
theorem make_pays (declared : String → Option String) (budget : Budget) (text : String) :
    (Request.make declared budget text).Pays declared := by
  obtain ⟨left, enough⟩ := decode_budget declared budget text
  have after : (Request.make declared budget text).after =
      (decode declared budget text).budget := by
    rw [Request.make, decodeToString]
    cases (decode declared budget text).fault <;> rfl
  refine ⟨?_, fun result given => ?_⟩
  · rw [after, left]
    exact Nat.add_sub_of_le enough
  · rw [Request.make, decodeToString] at given
    cases fault : (decode declared budget text).fault with
    | some fault' =>
      rw [fault] at given
      cases given
    | none =>
      rw [fault] at given
      cases given
      have whole := (taken_of_decode _ _ _ fault).1
      have frugal := Course.frugal_ofSegments declared maxDepth (segments text.toList)
      rw [Course.Frugal, source_segments, Text.byteLength_toList] at frugal
      rw [writtenText_decode _ _ _ fault]
      show _ ≤ text.utf8ByteSize +
        bytesOf (Step.literals ((Course.ofText declared text).taken budget))
      rw [whole]
      exact frugal

/-- The account of some requests that share a budget. -/
structure Account (declared : String → Option String) (budget : Budget)
    (requests : List Request) : Prop where
  /-- What is left never increases. -/
  descends : (budget.remaining :: requests.map (·.after.remaining)).Pairwise (· ≥ ·)
  /-- The replacement texts that are put in place make up what is spent. -/
  paid : bytesOf (requests.flatMap (Request.literals declared)) +
    (leftAfter budget requests).remaining = budget.remaining
  /-- An answer is longer than its text by no more than what its request spends. -/
  answers : ∀ request ∈ requests, ∀ result, request.answer = .ok result →
    result.utf8ByteSize ≤
      request.text.utf8ByteSize + (request.before.remaining - request.after.remaining)

theorem account_requests (declared : String → Option String) (budget : Budget)
    (texts : List String) : Account declared budget (requests declared budget texts) := by
  induction texts generalizing budget with
  | nil =>
    refine ⟨List.pairwise_singleton _ _, ?_, nofun⟩
    exact Nat.zero_add _
  | cons text rest ih =>
    obtain ⟨spent, answer⟩ := make_pays declared budget text
    obtain ⟨descends, paid, answers⟩ := ih (Request.make declared budget text).after
    have less := Nat.le_of_add_left_le (Nat.le_of_eq spent)
    refine ⟨?_, ?_, ?_⟩
    · refine List.pairwise_cons.2 ⟨fun left hl => ?_, descends⟩
      rcases List.mem_cons.1 hl with rfl | hl
      · exact less
      · exact Nat.le_trans ((List.pairwise_cons.1 descends).1 left hl) less
    · rw [requests, List.flatMap_cons, bytesOf_append, leftAfter, Nat.add_assoc, paid]
      exact spent
    · intro request hc result given
      rcases List.mem_cons.1 hc with rfl | hc
      · exact Nat.le_trans (answer result given)
          (Nat.add_le_add_left (Nat.le_sub_of_add_le (Nat.le_of_eq spent)) _)
      · exact answers request hc result given

/-- Expansions that share a budget put in place no more replacement text than it had at first. What
is left never increases, what is spent is what was put in place, and a text that is given is longer
than the one it was made of by no more than was spent for it. -/
theorem expansion_is_paid_for (declared : String → Option String) (limit : Nat)
    (texts : List String) :
    Account declared (.full limit) (requests declared (.full limit) texts) :=
  account_requests declared (.full limit) texts

end XmlTable.Reference
