import XmlTable.Proofs.WhiteSpace

/-!
# Normalization in one pass

Line ends are unified by replacing the pairs of a carriage return and a line feed and then the
carriage returns left over, and a text that has nothing to replace is returned at once. The outcome
is that of one pass from left to right, which looks one character ahead. So a text may be normalized
again, and in two parts, unless a pair is cut in the middle.
-/

namespace XmlTable.Text

variable {cs us vs : List Char}

/-- The line ends of a text in one pass: a pair of a carriage return and a line feed is one line
feed, and so is a carriage return that no line feed follows. -/
def scanLineEnds : List Char → List Char
  | '\r' :: '\n' :: rest => '\n' :: scanLineEnds rest
  | '\r' :: rest => '\n' :: scanLineEnds rest
  | c :: rest => c :: scanLineEnds rest
  | [] => []

/-- What stands for a character in the value of an attribute, once line ends are unified. -/
def spaced (c : Char) : Char :=
  if c = '\n' ∨ c = '\t' then ' ' else c

/-- A text is cut between a carriage return and the line feed that belongs to it. -/
def CutsPair (us vs : List Char) : Prop :=
  us.getLast? = some '\r' ∧ vs.head? = some '\n'

/-! ### The pass -/

theorem scanLineEnds_cons_return (h : cs.head? ≠ some '\n') :
    scanLineEnds ('\r' :: cs) = '\n' :: scanLineEnds cs := by
  rw [scanLineEnds]
  rintro rest rfl
  exact h rfl

theorem scanLineEnds_cons_of_ne {c : Char} (h : c ≠ '\r') (cs : List Char) :
    scanLineEnds (c :: cs) = c :: scanLineEnds cs := by
  rw [scanLineEnds]
  · exact fun _ hc _ => h hc
  · exact h

/-- Nothing is done where there is no carriage return. -/
theorem scanLineEnds_of_notMem (h : '\r' ∉ cs) : scanLineEnds cs = cs := by
  induction cs with
  | nil => rfl
  | cons c rest ih =>
    rw [List.mem_cons, not_or] at h
    rw [scanLineEnds_cons_of_ne (Ne.symm h.1), ih h.2]

/-- A text does not vanish. -/
theorem scanLineEnds_eq_nil_iff : scanLineEnds cs = [] ↔ cs = [] := by
  fun_cases scanLineEnds cs <;> simp

/-- No carriage return is left. -/
theorem return_notMem_scanLineEnds (cs : List Char) : '\r' ∉ scanLineEnds cs := by
  fun_induction scanLineEnds cs with
  | case1 rest ih => simpa using ih
  | case2 rest _ ih => simpa using ih
  | case3 c rest _ other ih => simpa [Ne.symm other] using ih
  | case4 => simp

/-- Two passes over the parts of a text do what one pass over the text does, unless a pair is
cut. -/
theorem scanLineEnds_append (h : ¬ CutsPair us vs) :
    scanLineEnds (us ++ vs) = scanLineEnds us ++ scanLineEnds vs := by
  fun_induction scanLineEnds us with
  | case1 rest ih =>
    have later : ¬ CutsPair rest vs := by
      rintro ⟨last, head⟩
      exact h ⟨by simp [List.getLast?_cons, last], head⟩
    simp [scanLineEnds, ih later]
  | case2 rest alone ih =>
    cases rest with
    | nil =>
      -- The return is the last character of the first part.
      have head : vs.head? ≠ some '\n' := fun head => h ⟨rfl, head⟩
      exact scanLineEnds_cons_return head
    | cons d rest =>
      have later : ¬ CutsPair (d :: rest) vs := fun ⟨last, head⟩ =>
        h ⟨by simpa [List.getLast?_cons] using last, head⟩
      have head : (d :: rest ++ vs).head? ≠ some '\n' := by
        rintro ⟨⟩
        exact alone rest rfl
      rw [List.cons_append, scanLineEnds_cons_return head, ih later, List.cons_append]
  | case3 c rest _ other ih =>
    have later : ¬ CutsPair rest vs := by
      rintro ⟨last, head⟩
      exact h ⟨by simp [List.getLast?_cons, last], head⟩
    rw [List.cons_append, scanLineEnds_cons_of_ne other, ih later, List.cons_append]
  | case4 => rfl

/-- Where a pair is cut, its halves make two line feeds. -/
theorem length_scanLineEnds_append (h : CutsPair us vs) :
    (scanLineEnds (us ++ vs)).length + 1 = (scanLineEnds us ++ scanLineEnds vs).length := by
  obtain ⟨last, head⟩ := h
  obtain ⟨us, rfl⟩ := List.getLast?_eq_some_iff.1 last
  obtain ⟨vs, rfl⟩ := List.head?_eq_some_iff.1 head
  have before : ∀ ws, ¬ CutsPair us ('\r' :: ws) := by
    rintro ws ⟨-, ⟨⟩⟩
  have whole : scanLineEnds (us ++ ['\r'] ++ '\n' :: vs) =
      scanLineEnds us ++ '\n' :: scanLineEnds vs := by
    rw [List.append_assoc, List.singleton_append, scanLineEnds_append (before _), scanLineEnds]
  have front : scanLineEnds (us ++ ['\r']) = scanLineEnds us ++ ['\n'] :=
    scanLineEnds_append (before _)
  rw [whole, front, scanLineEnds_cons_of_ne (by decide)]
  simp only [List.length_append, List.length_cons, List.length_nil]
  omega

/-! ### The replacements -/

/-- The two replacements come to what one pass does. -/
theorem map_joinPairsOnto (done cs : List Char) :
    (joinPairsOnto done cs).map (fun c => if c = '\r' then '\n' else c) =
      done.reverse.map (fun c => if c = '\r' then '\n' else c) ++ scanLineEnds cs := by
  fun_induction joinPairsOnto done cs with
  | case1 done rest ih => simp [ih, scanLineEnds]
  | case2 done c rest alone ih =>
    by_cases hc : c = '\r'
    · subst hc
      have head : rest.head? ≠ some '\n' := by
        intro head
        obtain ⟨rest, rfl⟩ := List.head?_eq_some_iff.1 head
        exact alone rest rfl rfl
      simp [ih, scanLineEnds_cons_return head]
    · simp [ih, scanLineEnds_cons_of_ne hc, hc]
  | case3 done => simp [scanLineEnds]

theorem unifyLineEnds_eq (cs : List Char) : unifyLineEnds cs = scanLineEnds cs := by
  unfold unifyLineEnds
  split
  · exact map_joinPairsOnto [] cs
  · next none => exact (scanLineEnds_of_notMem (by simpa using none)).symm

theorem flattenSpace_eq (cs : List Char) : flattenSpace cs = (scanLineEnds cs).map spaced := by
  unfold flattenSpace
  split
  · rw [unifyLineEnds_eq]
    simp [spaced]
  · next none =>
    have plain : ∀ c ∈ cs, c ≠ '\n' ∧ c ≠ '\t' ∧ c ≠ '\r' := by
      simpa [and_assoc] using none
    have carriage : '\r' ∉ cs := fun hm => (plain _ hm).2.2 rfl
    rw [scanLineEnds_of_notMem carriage, List.map_congr_left (g := id), List.map_id]
    intro c hc
    simp [spaced, plain c hc]

/-! ### Texts -/

theorem toList_normalizeLineEnds_eq (text : String) :
    (normalizeLineEnds text).toList = scanLineEnds text.toList := by
  rw [toList_normalizeLineEnds, unifyLineEnds_eq]

theorem toList_normalizeAttribute_eq (text : String) :
    (normalizeAttribute text).toList = (scanLineEnds text.toList).map spaced := by
  rw [toList_normalizeAttribute, flattenSpace_eq]

theorem normalizeLineEnds_idem (text : String) :
    normalizeLineEnds (normalizeLineEnds text) = normalizeLineEnds text :=
  normalizeLineEnds_of_notMem (return_notMem_normalizeLineEnds text)

theorem normalizeAttribute_idem (text : String) :
    normalizeAttribute (normalizeAttribute text) = normalizeAttribute text := by
  have plain : ∀ c, isBreak c = true → c ∉ (normalizeAttribute text).toList := by
    intro c hc hm
    rw [toList_normalizeAttribute] at hm
    rw [isBreak_of_mem_flattenSpace hm] at hc
    cases hc
  exact normalizeAttribute_of_notMem (plain _ (by decide)) (plain _ (by decide))
    (plain _ (by decide))

theorem normalizeAttribute_normalizeLineEnds (text : String) :
    normalizeAttribute (normalizeLineEnds text) = normalizeAttribute text := by
  rw [← String.toList_inj, toList_normalizeAttribute_eq, toList_normalizeAttribute_eq,
    toList_normalizeLineEnds_eq, scanLineEnds_of_notMem (return_notMem_scanLineEnds _)]

theorem normalizeLineEnds_append_iff (first second : String) :
    normalizeLineEnds (first ++ second) = normalizeLineEnds first ++ normalizeLineEnds second ↔
      ¬ CutsPair first.toList second.toList := by
  rw [← String.toList_inj]
  simp only [String.toList_append, toList_normalizeLineEnds_eq]
  constructor
  · intro same cut
    have := length_scanLineEnds_append cut
    rw [same] at this
    omega
  · exact scanLineEnds_append

theorem normalizeAttribute_append_iff (first second : String) :
    normalizeAttribute (first ++ second) = normalizeAttribute first ++ normalizeAttribute second ↔
      ¬ CutsPair first.toList second.toList := by
  rw [← String.toList_inj]
  simp only [String.toList_append, toList_normalizeAttribute_eq, ← List.map_append]
  constructor
  · intro same cut
    have := length_scanLineEnds_append cut
    have := congrArg List.length same
    simp only [List.length_map] at this
    omega
  · intro whole
    rw [scanLineEnds_append whole]

/-- Normalization is one pass from left to right, and in the values of attributes a replacement of
what is left: both may be repeated, line ends may be unified before attributes are normalized, and a
text may be normalized in two parts, exactly if no pair is cut. -/
theorem normalization_is_one_pass (text first second : String) :
    ((normalizeLineEnds text).toList = scanLineEnds text.toList ∧
      (normalizeAttribute text).toList = (scanLineEnds text.toList).map spaced) ∧
    (normalizeLineEnds (normalizeLineEnds text) = normalizeLineEnds text ∧
      normalizeAttribute (normalizeAttribute text) = normalizeAttribute text ∧
      normalizeAttribute (normalizeLineEnds text) = normalizeAttribute text) ∧
    (normalizeLineEnds (first ++ second) = normalizeLineEnds first ++ normalizeLineEnds second ↔
      ¬ CutsPair first.toList second.toList) ∧
    (normalizeAttribute (first ++ second) =
        normalizeAttribute first ++ normalizeAttribute second ↔
      ¬ CutsPair first.toList second.toList) :=
  ⟨⟨toList_normalizeLineEnds_eq text, toList_normalizeAttribute_eq text⟩,
    ⟨normalizeLineEnds_idem text, normalizeAttribute_idem text,
      normalizeAttribute_normalizeLineEnds text⟩,
    normalizeLineEnds_append_iff first second, normalizeAttribute_append_iff first second⟩

example : normalizeAttribute "a\r\r\n\nb\t\r" = "a   b  " := by
  decide

end XmlTable.Text
