/-!
# Cutting texts

Small operations on lists of characters that readers of declarations share.
-/

namespace XmlTable.Text

/-- The parts of a text between the occurrences of a character. -/
def splitAt (separator : Char) (cs : List Char) : List (List Char) :=
  cs.foldr
    (fun c parts =>
      if c = separator then [] :: parts
      else match parts with
        | first :: others => (c :: first) :: others
        | [] => [[c]])
    [[]]

/-- What comes after the first occurrence of a pattern. -/
def after? (pattern : List Char) : List Char → Option (List Char)
  | [] => if pattern.isEmpty then some [] else none
  | c :: rest =>
    if pattern.isPrefixOf (c :: rest) then some ((c :: rest).drop pattern.length)
    else after? pattern rest

/-- A text starts with another. -/
def startsWith (cs : List Char) (start : String) : Bool :=
  start.toList.isPrefixOf cs

/-- The number of bytes that a text takes in UTF-8. -/
def byteLength (cs : List Char) : Nat :=
  cs.foldl (fun total c => total + c.utf8Size) 0

theorem byteLength_cons (c : Char) (cs : List Char) :
    byteLength (c :: cs) = c.utf8Size + byteLength cs := by
  have shift : ∀ (cs : List Char) (n : Nat),
      cs.foldl (fun total c => total + c.utf8Size) n = n + byteLength cs := by
    intro cs
    induction cs with
    | nil => exact fun n => rfl
    | cons c cs ih =>
      intro n
      rw [byteLength, List.foldl_cons, List.foldl_cons, ih, ih]
      omega
  rw [byteLength, List.foldl_cons, shift, Nat.zero_add]

theorem byteLength_append (cs ds : List Char) :
    byteLength (cs ++ ds) = byteLength cs + byteLength ds := by
  induction cs with
  | nil => exact (Nat.zero_add _).symm
  | cons c cs ih => rw [List.cons_append, byteLength_cons, ih, byteLength_cons, Nat.add_assoc]

/-- The bytes of a text are those of its characters. -/
theorem byteLength_toList (text : String) : byteLength text.toList = text.utf8ByteSize := by
  rw [← String.ofList_toList (s := text), String.toList_ofList]
  induction text.toList with
  | nil => rfl
  | cons c cs ih =>
    rw [byteLength_cons, ih, String.ofList_cons, String.utf8ByteSize_append,
      String.utf8ByteSize_singleton]

/-- No text has more characters than bytes. -/
theorem length_le_byteLength (cs : List Char) : cs.length ≤ byteLength cs := by
  induction cs with
  | nil => exact Nat.le_refl _
  | cons c cs ih =>
    have := c.utf8Size_pos
    rw [byteLength_cons, List.length_cons]
    omega

/-- What comes after a pattern is not longer than the text. -/
theorem length_le_of_after? {pattern cs rest : List Char} (h : after? pattern cs = some rest) :
    rest.length ≤ cs.length := by
  induction cs with
  | nil =>
    simp only [after?] at h
    split at h <;> simp_all
  | cons c cs ih =>
    simp only [after?] at h
    split at h
    · simp only [Option.some.injEq] at h
      subst h
      simp only [List.length_drop]
      omega
    · have := ih h
      simp only [List.length_cons]
      omega

end XmlTable.Text
