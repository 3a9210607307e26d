/-!
# Escaped text on one line

A text is written on one line by escaping its line ends: a line feed becomes a backslash and the
letter n, a carriage return a backslash and the letter r, and a backslash is doubled. Reading takes
any other escaped character for itself, and keeps a backslash at the very end.
-/

namespace XmlTable.Text

/-- How one character is written on a line. -/
def escapeChar (c : Char) : List Char :=
  if c = '\x5c' then ['\x5c', '\x5c']
  else if c = '\n' then ['\x5c', 'n']
  else if c = '\r' then ['\x5c', 'r']
  else [c]

/-- A text as written on one line. -/
def escape (cs : List Char) : List Char :=
  cs.flatMap escapeChar

/-- The character that an escaped one stands for. -/
def unescapeChar (c : Char) : Char :=
  if c = 'n' then '\n' else if c = 'r' then '\r' else c

/-- Read a written text; what is read already is in `done`, last character first. -/
def unescapeOnto (done : List Char) : List Char → List Char
  | [] => done.reverse
  | c :: rest =>
    if c = '\x5c' then
      match rest with
      | escaped :: rest => unescapeOnto (unescapeChar escaped :: done) rest
      | [] => (c :: done).reverse
    else unescapeOnto (c :: done) rest

/-- The text that was written on a line. -/
def unescape (cs : List Char) : List Char :=
  unescapeOnto [] cs

/-- Reading what was written gives the text, put after what was read before. -/
theorem unescapeOnto_escape (cs done : List Char) :
    unescapeOnto done (escape cs) = done.reverse ++ cs := by
  induction cs generalizing done with
  | nil => simp [escape, unescapeOnto]
  | cons c rest ih =>
    have step : escape (c :: rest) = escapeChar c ++ escape rest := by simp [escape]
    rw [step]
    unfold escapeChar
    split
    · next h => simp [unescapeOnto, unescapeChar, ih, h]
    · split
      · next h => simp [unescapeOnto, unescapeChar, ih, h]
      · split
        · next h => simp [unescapeOnto, unescapeChar, ih, h]
        · next h _ _ =>
          rw [List.singleton_append, unescapeOnto.eq_def]
          simp [h, ih]

/-- Reading undoes writing. -/
theorem unescape_escape (cs : List Char) : unescape (escape cs) = cs := by
  simp [unescape, unescapeOnto_escape]

/-- A written text is on one line. -/
theorem newline_notMem_escape (cs : List Char) : '\n' ∉ escape cs ∧ '\r' ∉ escape cs := by
  have key : ∀ c : Char, '\n' ∉ escapeChar c ∧ '\r' ∉ escapeChar c := by
    intro c
    unfold escapeChar
    repeat' split
    all_goals simp_all [eq_comm]
  constructor <;> simp only [escape, List.mem_flatMap, not_exists, not_and] <;>
    intro c _ <;> simp [key c]

end XmlTable.Text
