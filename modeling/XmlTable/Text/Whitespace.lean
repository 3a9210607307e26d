/-!
# White space

Three sets of characters count as white space in an XML processor, and which one applies is part
of each rule. XML itself knows four characters; declaration texts are trimmed by the Unicode
property `White_Space`; the target of a processing instruction ends at one of five ASCII
characters. The three sets are nested only in part: a form feed is no XML space.
-/

namespace XmlTable.Text

/-- The white space of XML: space, tab, line feed and carriage return. -/
def isSpace (c : Char) : Bool :=
  c = ' ' || c = '\t' || c = '\n' || c = '\r'

/-- The white space of ASCII: that of XML and the form feed. -/
def isAsciiSpace (c : Char) : Bool :=
  isSpace c || c = '\x0c'

/-- The code point ranges of the Unicode property `White_Space`, both ends included. -/
def blankRanges : List (Nat × Nat) :=
  [(0x9, 0xD), (0x20, 0x20), (0x85, 0x85), (0xA0, 0xA0), (0x1680, 0x1680), (0x2000, 0x200A),
    (0x2028, 0x2029), (0x202F, 0x202F), (0x205F, 0x205F), (0x3000, 0x3000)]

/-- A character with the Unicode property `White_Space`. -/
def isBlank (c : Char) : Bool :=
  blankRanges.any fun range => range.1 ≤ c.toNat && c.toNat ≤ range.2

/-- A text that consists of XML white space, the empty one included. -/
def isAllSpace (text : String) : Bool :=
  text.toList.all isSpace

/-- A list of characters without its leading blanks. -/
def trimStart (cs : List Char) : List Char :=
  cs.dropWhile isBlank

/-- A list of characters without its trailing blanks. -/
def trimEnd (cs : List Char) : List Char :=
  (cs.reverse.dropWhile isBlank).reverse

/-- A list of characters without its leading and trailing blanks. -/
def trim (cs : List Char) : List Char :=
  trimEnd (trimStart cs)

/-- Every XML space is an ASCII space. -/
theorem isAsciiSpace_of_isSpace {c : Char} (h : isSpace c = true) : isAsciiSpace c = true := by
  simp [isAsciiSpace, h]

/-- Every ASCII space is a blank. -/
theorem isBlank_of_isAsciiSpace {c : Char} (h : isAsciiSpace c = true) : isBlank c = true := by
  simp only [isAsciiSpace, isSpace, Bool.or_eq_true, decide_eq_true_eq] at h
  rcases h with (((rfl | rfl) | rfl) | rfl) | rfl <;> decide

/-- The property `White_Space` has twenty-five characters. -/
theorem length_blankRanges :
    blankRanges.foldl (fun count range => count + (range.2 + 1 - range.1)) 0 = 25 := by
  decide

end XmlTable.Text
