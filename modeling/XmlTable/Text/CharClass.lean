/-!
# Legal characters

XML admits tab, line feed, carriage return and the code points from the space on, less the
surrogates and the last two of the first plane.
-/

namespace XmlTable.Text

/-- The code point ranges of the legal characters, both ends included. -/
def legalRanges : List (Nat × Nat) :=
  [(0x9, 0xA), (0xD, 0xD), (0x20, 0xD7FF), (0xE000, 0xFFFD), (0x10000, 0x10FFFF)]

/-- The code point is a legal character. -/
def isLegal (code : Nat) : Bool :=
  legalRanges.any fun range => range.1 ≤ code && code ≤ range.2

/-- A legal code point is one of a character. -/
theorem isValidChar_of_isLegal {code : Nat} (h : isLegal code = true) : code.isValidChar := by
  simp [isLegal, legalRanges] at h
  unfold Nat.isValidChar
  omega

/-- The legal character with a code point. -/
def legalChar? (code : Nat) : Option Char :=
  if h : isLegal code then some (Char.ofNatAux code (isValidChar_of_isLegal h)) else none

end XmlTable.Text
