import XmlTable.Proofs.Handover
import XmlTable.Proofs.Normalization
import XmlTable.Proofs.Phrases

/-!
# The data of processing instructions

The target of a processing instruction ends at the first white space of ASCII, and the data begin
after it. What is taken away between the two is not the white space of XML alone but all blanks:
data that begin with another blank, such as a nonbreaking space, lose it. Nothing else is lost.
-/

namespace XmlTable

/-! ### Target and data -/

namespace Text

variable {cs space target : List Char}

/-- The text begins with a blank. -/
def BeginsBlank (cs : List Char) : Prop :=
  ∃ c ∈ cs.head?, isBlank c = true

/-- A text without its leading blanks. -/
def trimmed (text : String) : String :=
  String.ofList (trimStart text.toList)

theorem trimStart_append (h : ∀ c ∈ space, isSpace c = true) (cs : List Char) :
    trimStart (space ++ cs) = trimStart cs :=
  List.dropWhile_append_of_pos fun c hc => isBlank_of_isSpace (h c hc)

theorem trimStart_of_not_beginsBlank (h : ¬ BeginsBlank cs) : trimStart cs = cs := by
  cases cs with
  | nil => rfl
  | cons c rest =>
    have other : ¬ isBlank c = true := fun hc => h ⟨c, rfl, hc⟩
    exact List.dropWhile_cons_of_neg other

/-- What is left does not begin with a blank. -/
theorem not_beginsBlank_trimStart (cs : List Char) : ¬ BeginsBlank (trimStart cs) := by
  rintro ⟨c, hc, blank⟩
  have stops := List.head?_dropWhile_not isBlank cs
  rw [← trimStart, hc] at stops
  simp [blank] at stops

/-- Line ends do not make up for blanks that are lost. -/
theorem normalizeLineEnds_trimmed_iff (text : String) :
    normalizeLineEnds (trimmed text) = normalizeLineEnds text ↔ ¬ BeginsBlank text.toList := by
  rw [← String.toList_inj, toList_normalizeLineEnds_eq, toList_normalizeLineEnds_eq, trimmed,
    String.toList_ofList]
  constructor
  · rintro same ⟨c, hc, blank⟩
    obtain ⟨rest, parts⟩ := List.head?_eq_some_iff.1 hc
    have lost : text.toList.takeWhile isBlank ≠ [] := by
      rw [parts, List.takeWhile_cons_of_pos blank]
      exact List.cons_ne_nil _ _
    -- A line feed is a blank, so no pair is cut between what is lost and what is left.
    have whole : ¬ CutsPair (text.toList.takeWhile isBlank) (trimStart text.toList) :=
      fun cut => not_beginsBlank_trimStart _ ⟨'\n', cut.2, by decide⟩
    have split := scanLineEnds_append whole
    rw [trimStart, List.takeWhile_append_dropWhile, ← trimStart, ← same] at split
    exact lost (scanLineEnds_eq_nil_iff.1 (List.append_left_eq_self.1 split.symm))
  · intro h
    rw [trimStart_of_not_beginsBlank h]

end Text

namespace Reader

open Text (isAsciiSpace isAllSpace isAsciiSpace_of_isSpace BeginsBlank normalizeLineEnds trimmed)

variable {σ : Type} {target space data : String}

/-- The target ends where the white space after it begins, and the data are what comes then, less
its leading blanks. -/
theorem splitInstruction_append (word : ∀ c ∈ target.toList, isAsciiSpace c = false)
    (ne : space ≠ "") (blank : isAllSpace space = true) (data : String) :
    splitInstruction (target ++ space ++ data) = (target, trimmed data) := by
  have isTarget : ∀ c ∈ target.toList, (!isAsciiSpace c) = true := fun c hc => by
    rw [word c hc, Bool.not_false]
  have isSpace := List.all_eq_true.1 blank
  obtain ⟨first, rest, parts⟩ := List.exists_cons_of_ne_nil (mt String.toList_eq_nil_iff.1 ne)
  have stops : (!isAsciiSpace first) = false := by
    have spaced := isSpace first (by rw [parts]; exact List.mem_cons_self)
    rw [isAsciiSpace_of_isSpace spaced, Bool.not_true]
  obtain ⟨front, back⟩ := takeWhile_append_cons isTarget stops (rest ++ data.toList)
  have text : (target ++ space ++ data).toList =
      target.toList ++ first :: (rest ++ data.toList) := by
    simp [parts]
  have after : first :: (rest ++ data.toList) = space.toList ++ data.toList := by
    rw [parts, List.cons_append]
  rw [splitInstruction, text]
  rw [front, back, after, Text.trimStart_append isSpace, String.ofList_toList, trimmed]

/-- A processing instruction is delivered with its target and its data. -/
theorem readToken_instruction (sink : Sink σ) (patience position : Nat)
    (word : ∀ c ∈ target.toList, isAsciiSpace c = false) (ne : space ≠ "")
    (blank : isAllSpace space = true) (data : String) :
    readToken sink patience position (.instruction (Bytes.encode (target ++ space ++ data))) =
      deliver sink (.instruction target (normalizeLineEnds (trimmed data))) := by
  rw [readToken, decodeBytes, Bytes.utf8?_encode]
  dsimp only
  rw [pure_bind, splitInstruction_append word ne blank]

/-- Wherever a processing instruction stands among the tokens of a source, it is read by one
delivery, of its target and of its data with their line ends normalized. The data are all of what
comes after the white space exactly if that does not begin with a blank; else its leading blanks are
lost. -/
theorem instruction_data_are_kept (sink : Sink σ) (patience position : Nat)
    (before after : List (Nat × Token)) (word : ∀ c ∈ target.toList, isAsciiSpace c = false)
    (ne : space ≠ "") (blank : isAllSpace space = true) (data : String) :
    let delivered := normalizeLineEnds (trimmed data)
    (readTokens sink patience (before ++
        (position, .instruction (Bytes.encode (target ++ space ++ data))) :: after) = do
      readTokens sink patience before
      deliver sink (.instruction target delivered)
      readTokens sink patience after) ∧
    (delivered = normalizeLineEnds data ↔ ¬ BeginsBlank data.toList) := by
  intro delivered
  constructor
  · rw [readTokens_append, readTokens, readToken_instruction sink patience position word ne blank]
  · exact Text.normalizeLineEnds_trimmed_iff data

/-- A nonbreaking space is kept if it does not come first. -/
theorem instruction_data_are_kept_of_inner_blanks :
    let sink := Sink.recorder none
    let before : List (Nat × Token) := [(0, .start ⟨Bytes.ascii "a", 1⟩)]
    let after : List (Nat × Token) := [(18, .close (Bytes.ascii "a"))]
    let content := Bytes.encode ("t" ++ " \r\n" ++ "x\r\u00a0 ")
    ((∀ c ∈ "t".toList, isAsciiSpace c = false) ∧ isAllSpace " \r\n" = true ∧
      ¬ BeginsBlank "x\r\u00a0 ".toList) ∧
    (readTokens sink 0 (before ++ (3, .instruction content) :: after) = do
      readTokens sink 0 before
      deliver sink (.instruction "t" "x\n\u00a0 ")
      readTokens sink 0 after) := by
  intro sink before after content
  have word : ∀ c ∈ "t".toList, isAsciiSpace c = false :=
    List.forall_mem_singleton.2 (by decide)
  have blank : isAllSpace " \r\n" = true := by decide
  have begins : ¬ BeginsBlank "x\r\u00a0 ".toList := by
    rintro ⟨c, ⟨⟩, blank⟩
    exact absurd blank (by decide)
  obtain ⟨reads, kept⟩ := instruction_data_are_kept sink 0 3 before after word (by decide) blank
    "x\r\u00a0 "
  rw [kept.2 begins] at reads
  exact ⟨⟨word, blank, begins⟩, reads⟩

/-- A nonbreaking space that comes first is no white space of XML, but it is lost. -/
theorem leading_nonbreaking_space_is_lost :
    let read := run (Sink.recorder none) 0 0 (.ofString "<a><?t \u00a0x?></a>") #[]
      { handler := .lenient }
    (Text.isLegal '\u00a0'.toNat = true ∧ Text.isSpace '\u00a0' = false) ∧
      read.outcome = .ok () ∧ read.state = #[.startDocument, .startElement "a" [],
        .instruction "t" "x", .endElement, .endDocument] ∧
      normalizeLineEnds "\u00a0x" ≠ "x" := by
  decide +kernel

end Reader

end XmlTable
