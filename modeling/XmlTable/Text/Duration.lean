/-!
# Lengths of time

A length of time is a number of nanoseconds. Its text uses the largest of the units second,
millisecond, microsecond and nanosecond that gives a whole part of at least one, and exactly the
decimals needed.
-/

namespace XmlTable

/-- A length of time in nanoseconds. -/
structure Duration where
  /-- The number of nanoseconds. -/
  nanoseconds : Nat
  deriving DecidableEq, Repr

namespace Duration

/-- Nanoseconds in a microsecond. -/
def perMicrosecond : Nat := 1000

/-- Nanoseconds in a millisecond. -/
def perMillisecond : Nat := 1000000

/-- Nanoseconds in a second. -/
def perSecond : Nat := 1000000000

/-- The length of whole seconds and further nanoseconds. -/
def ofSeconds (seconds nanoseconds : Nat) : Duration :=
  ⟨seconds * perSecond + nanoseconds⟩

/-- The length of whole milliseconds. -/
def ofMilliseconds (milliseconds : Nat) : Duration :=
  ⟨milliseconds * perMillisecond⟩

/-- The whole milliseconds of a length. -/
def milliseconds (d : Duration) : Nat :=
  d.nanoseconds / perMillisecond

/-- The digits of `n`, with zeros in front up to `width` of them. -/
def padded (width n : Nat) : List Char :=
  let digits := Nat.toDigits 10 n
  List.replicate (width - digits.length) '0' ++ digits

/-- The text of `n` nanoseconds in units of `size` nanoseconds, the unit's name following. A unit
has as many decimals as its size has zeros. -/
def inUnit (n size places : Nat) (unit : String) : String :=
  let decimals := (padded places (n % size)).reverse.dropWhile (· = '0') |>.reverse
  let point := if decimals.isEmpty then [] else '.' :: decimals
  toString (n / size) ++ String.ofList point ++ unit

/-- The text of a length of time. -/
def text (d : Duration) : String :=
  if perSecond ≤ d.nanoseconds then inUnit d.nanoseconds perSecond 9 "s"
  else if perMillisecond ≤ d.nanoseconds then inUnit d.nanoseconds perMillisecond 6 "ms"
  else if perMicrosecond ≤ d.nanoseconds then inUnit d.nanoseconds perMicrosecond 3 "µs"
  else toString d.nanoseconds ++ "ns"

/-- Whole milliseconds are read back from a length made of them. -/
theorem milliseconds_ofMilliseconds (n : Nat) : (ofMilliseconds n).milliseconds = n := by
  simp [ofMilliseconds, milliseconds, perMillisecond]

example : (ofSeconds 0 0).text = "0ns" := by decide
example : (ofSeconds 0 1500).text = "1.5µs" := by decide
example : (ofSeconds 0 20000000).text = "20ms" := by decide
example : (ofSeconds 1 1).text = "1.000000001s" := by decide

end Duration

end XmlTable
