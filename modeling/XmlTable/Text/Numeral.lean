/-!
# Numerals of bounded value

Numbers of 32 bits are read from decimal or hexadecimal digits, of which there must be at least
one. A plus sign may stand in front, leading zeros are allowed, and a value beyond the bound is
refused like a wrong digit.
-/

namespace XmlTable.Text

/-- The value of a decimal digit. -/
def decimalDigit? (c : Char) : Option Nat :=
  if '0' ≤ c ∧ c ≤ '9' then some (c.toNat - '0'.toNat) else none

/-- The value of a hexadecimal digit of either case. -/
def hexDigit? (c : Char) : Option Nat :=
  if 'a' ≤ c ∧ c ≤ 'f' then some (c.toNat - 'a'.toNat + 10)
  else if 'A' ≤ c ∧ c ≤ 'F' then some (c.toNat - 'A'.toNat + 10)
  else decimalDigit? c

/-- The numbers of 32 bits are those below this one. -/
def wordBound : Nat := 4294967296

/-- The 32-bit number that continues `value` by the digits `cs` of a base. -/
def wordFrom? (base : Nat) (digit? : Char → Option Nat) (value : Nat) :
    List Char → Option Nat
  | [] => some value
  | c :: rest =>
    match digit? c with
    | none => none
    | some digit =>
      if value * base + digit < wordBound then
        wordFrom? base digit? (value * base + digit) rest
      else none

/-- A list of characters without a leading plus sign. -/
def dropPlus : List Char → List Char
  | '+' :: rest => rest
  | cs => cs

/-- The 32-bit number that a nonempty run of digits denotes, a plus sign being allowed. -/
def word? (base : Nat) (digit? : Char → Option Nat) (cs : List Char) : Option Nat :=
  match dropPlus cs with
  | [] => none
  | digits => wordFrom? base digit? 0 digits

/-- The 32-bit number that decimal digits denote. -/
def decimalWord? (cs : List Char) : Option Nat :=
  word? 10 decimalDigit? cs

/-- The 32-bit number that hexadecimal digits denote. -/
def hexWord? (cs : List Char) : Option Nat :=
  word? 16 hexDigit? cs

/-- A number that continues a 32-bit number is one itself. -/
theorem lt_wordBound_of_wordFrom? {base : Nat} {digit? : Char → Option Nat} {cs : List Char}
    {value n : Nat} (hv : value < wordBound) (h : wordFrom? base digit? value cs = some n) :
    n < wordBound := by
  induction cs generalizing value with
  | nil => simp only [wordFrom?, Option.some.injEq] at h; omega
  | cons c rest ih =>
    simp only [wordFrom?] at h
    split at h
    · simp at h
    · split at h
      · exact ih ‹_› h
      · simp at h

/-- What is read as a 32-bit number is one. -/
theorem lt_wordBound_of_word? {base : Nat} {digit? : Char → Option Nat} {cs : List Char} {n : Nat}
    (h : word? base digit? cs = some n) : n < wordBound := by
  unfold word? at h
  split at h
  · simp at h
  · exact lt_wordBound_of_wordFrom? (by decide) h

end XmlTable.Text
