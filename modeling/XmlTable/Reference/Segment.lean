/-!
# References in a text

A reference is an ampersand, a name and a semicolon. The name is not empty and has no white space,
no ampersand and no less-than sign; an ampersand that begins no reference stands for itself. A text
thus falls into runs of characters and references, of which the names are all that matters.
-/

namespace XmlTable.Reference

/-- A character that may stand in the name of a reference. -/
def isNameChar (c : Char) : Bool :=
  !(c = ' ' || c = '\t' || c = '\r' || c = '\n' || c = '&' || c = '<' || c = ';')

/-- The name of a reference whose ampersand was just read, and what comes after its semicolon. -/
def takeName? (cs : List Char) : Option (List Char × List Char) :=
  match cs.takeWhile isNameChar, cs.dropWhile isNameChar with
  | c :: name, ';' :: rest => some (c :: name, rest)
  | _, _ => none

/-- What comes after a reference is shorter than what began with its name. -/
theorem length_lt_of_takeName? {cs name rest : List Char} (h : takeName? cs = some (name, rest)) :
    rest.length < cs.length := by
  unfold takeName? at h
  split at h
  · next c found after ht hd =>
    simp only [Option.some.injEq, Prod.mk.injEq] at h
    have := congrArg List.length (List.takeWhile_append_dropWhile (p := isNameChar) (l := cs))
    simp only [List.length_append, hd, List.length_cons, ← h.2] at this ⊢
    omega
  · simp at h

/-- A part of a text. -/
inductive Segment where
  /-- Characters that stand for themselves. -/
  | text (cs : List Char)
  /-- A reference by its name. -/
  | reference (name : List Char)
  deriving DecidableEq, Repr

/-- Put a run of characters, given backwards, before which `done` was read; an empty run is left
out. -/
def putText (run : List Char) (done : List Segment) : List Segment :=
  if run.isEmpty then done else .text run.reverse :: done

/-- The segments of a text. The run of characters at hand is in `run`, last character first, and the
segments before it are in `done`, last one first. -/
def segmentsFrom (done : List Segment) (run : List Char) (cs : List Char) : List Segment :=
  match cs with
  | [] => (putText run done).reverse
  | c :: rest =>
    if c = '&' then
      match _h : takeName? rest with
      | some (name, after) => segmentsFrom (.reference name :: putText run done) [] after
      | none => segmentsFrom done (c :: run) rest
    else segmentsFrom done (c :: run) rest
termination_by cs.length
decreasing_by
  all_goals simp only [List.length_cons]
  · have := length_lt_of_takeName? _h
    omega
  · omega
  · omega

/-- The segments of a text. -/
def segments (cs : List Char) : List Segment :=
  segmentsFrom [] [] cs

end XmlTable.Reference
