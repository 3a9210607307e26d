import XmlTable.Proofs.Spending
import XmlTable.Proofs.Writing

/-!
# Where references stand

A reference is found by what stands between its ampersand and its semicolon alone. No ampersand
before it takes anything away from it, since no name has an ampersand, and what comes after it is
read as if nothing had come before.
-/

namespace XmlTable.Reference

variable {name cs ds rest : List Char}

/-! ### Names -/

/-- Characters that may stand between the ampersand and the semicolon of a reference. -/
structure IsName (name : List Char) : Prop where
  /-- There is one at least. -/
  ne_nil : name ≠ []
  /-- None of them is white space, an ampersand, a less-than sign or a semicolon. -/
  all : name.all isNameChar = true

theorem IsName.isNameChar (h : IsName name) {c : Char} (hc : c ∈ name) :
    isNameChar c = true :=
  List.all_eq_true.1 h.all c hc

theorem takeName?_of_isName (h : IsName name) (rest : List Char) :
    takeName? (name ++ ';' :: rest) = some (name, rest) := by
  obtain ⟨run, left⟩ := takeWhile_append_cons (fun _ hc => h.isNameChar hc)
    (show isNameChar ';' = false by decide) rest
  rw [takeName?, run, left]
  cases name with
  | nil => exact absurd rfl h.ne_nil
  | cons => rfl

theorem isName_of_takeName? (h : takeName? cs = some (name, rest)) : IsName name := by
  unfold takeName? at h
  split at h
  · next c found after run left =>
    cases h
    exact ⟨List.cons_ne_nil _ _, run ▸ List.all_takeWhile⟩
  · cases h

/-- A name that is found is found whatever comes after it. -/
theorem takeName?_append (h : takeName? cs = some (name, rest)) (ds : List Char) :
    takeName? (cs ++ ds) = some (name, rest ++ ds) := by
  rw [eq_append_of_takeName? h, List.append_assoc, List.cons_append,
    takeName?_of_isName (isName_of_takeName? h)]

/-- Where no name is found, none is found if a reference comes after. -/
theorem takeName?_append_ampersand (h : takeName? cs = none) (ds : List Char) :
    takeName? (cs ++ '&' :: ds) = none := by
  rw [Option.eq_none_iff_forall_not_mem]
  rintro ⟨name, rest⟩ found
  have isName := isName_of_takeName? found
  -- The ampersand stands neither in the name nor where the semicolon does, so it comes after both.
  rcases List.append_eq_append_iff.1 (eq_append_of_takeName? found) with
    ⟨left, rfl, same⟩ | ⟨left, rfl, same⟩
  · cases left with
    | nil => simp at same
    | cons c left =>
      cases same
      exact absurd (isName.isNameChar (c := '&') (by simp)) (by decide)
  · cases left with
    | nil => simp at same
    | cons c left =>
      cases same
      rw [takeName?_of_isName isName] at h
      cases h

/-! ### Segments -/

section Segments

variable (done : List Segment) (run : List Char)

theorem segmentsFrom_reference (found : takeName? cs = some (name, rest)) :
    segmentsFrom done run ('&' :: cs) =
      segmentsFrom (.reference name :: putText run done) [] rest := by
  rw [segmentsFrom, if_pos rfl]
  split
  · next found' =>
    cases found.symm.trans found'
    rfl
  · next missing => cases found.symm.trans missing

theorem segmentsFrom_ampersand (missing : takeName? cs = none) :
    segmentsFrom done run ('&' :: cs) = segmentsFrom done ('&' :: run) cs := by
  rw [segmentsFrom, if_pos rfl]
  split
  · next found => cases missing.symm.trans found
  · rfl

theorem segmentsFrom_plain {c : Char} (plain : c ≠ '&') (cs : List Char) :
    segmentsFrom done run (c :: cs) = segmentsFrom done (c :: run) cs := by
  rw [segmentsFrom, if_neg plain]

theorem putText_append (more : List Segment) :
    putText run (done ++ more) = putText run done ++ more := by
  cases run <;> rfl

/-- What was read before comes first. -/
theorem segmentsFrom_append (more : List Segment) (cs : List Char) :
    segmentsFrom (done ++ more) run cs = more.reverse ++ segmentsFrom done run cs := by
  fun_induction segmentsFrom done run cs with
  | case1 done run => rw [segmentsFrom, putText_append, List.reverse_append]
  | case2 done run rest name after found ih =>
    rw [segmentsFrom_reference _ _ found, putText_append, ← List.cons_append, ih]
  | case3 done run rest missing ih => rw [segmentsFrom_ampersand _ _ missing, ih]
  | case4 done run c rest plain ih => rw [segmentsFrom_plain _ _ plain, ih]

/-- A reference after a text is found, whatever ampersands the text has, and what comes after it is
read by itself. -/
theorem segmentsFrom_append_reference (h : IsName name) (cs ds : List Char) :
    segmentsFrom done run (cs ++ '&' :: (name ++ ';' :: ds)) =
      segmentsFrom done run cs ++ .reference name :: segments ds := by
  fun_induction segmentsFrom done run cs with
  | case1 done run =>
    have found := takeName?_of_isName h ds
    rw [List.nil_append, segmentsFrom_reference _ _ found, ← List.nil_append (_ :: _),
      segmentsFrom_append, List.reverse_cons, List.append_assoc]
    rfl
  | case2 done run rest other after found ih =>
    rw [List.cons_append, segmentsFrom_reference _ _ (takeName?_append found _), ih]
  | case3 done run rest missing ih =>
    rw [List.cons_append, segmentsFrom_ampersand _ _ (takeName?_append_ampersand missing _), ih]
  | case4 done run c rest plain ih =>
    rw [List.cons_append, segmentsFrom_plain _ _ plain, ih]

end Segments

/-- The segments of a text with a reference in it are those before, the reference, and those
after. -/
theorem segments_append_reference (h : IsName name) (cs ds : List Char) :
    segments (cs ++ '&' :: (name ++ ';' :: ds)) = segments cs ++ .reference name :: segments ds :=
  segmentsFrom_append_reference [] [] h cs ds

end XmlTable.Reference
