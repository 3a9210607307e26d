import XmlTable.Proofs.Writing
import XmlTable.Subset.Reading

/-!
# Parts of declarations as they are written

Names, literals and lists of names with white space around them are read as they were written, with
one exception. The names of a list are trimmed, and of what counts as white space then some
characters may stand in a name: a name that begins or ends with such a character loses it.
-/

namespace XmlTable

/-- A run of what has a property ends where the rest begins with what lacks it. -/
theorem takeWhile_append_of_head {α : Type} {p : α → Bool} {run rest : List α}
    (hr : ∀ a ∈ run, p a = true) (hs : ∀ a ∈ rest.head?, p a = false) :
    (run ++ rest).takeWhile p = run ∧ (run ++ rest).dropWhile p = rest := by
  cases rest with
  | nil =>
    rw [List.takeWhile_append_of_pos hr, List.dropWhile_append_of_pos hr]
    exact ⟨List.append_nil _, rfl⟩
  | cons stop rest => exact takeWhile_append_cons hr (hs stop rfl) rest

theorem dropWhile_eq_nil {α : Type} {p : α → Bool} {run : List α} (hr : ∀ a ∈ run, p a = true) :
    run.dropWhile p = [] := by
  rw [← List.append_nil run, List.dropWhile_append_of_pos hr]
  rfl

namespace Text

variable {separator : Char} {cs ds : List Char}

/-- What is not the separator belongs to the first part. -/
theorem splitAt_cons_of_ne {c : Char} (h : c ≠ separator) {first : List Char}
    {others : List (List Char)} (parts : splitAt separator cs = first :: others) :
    splitAt separator (c :: cs) = (c :: first) :: others := by
  rw [splitAt] at parts ⊢
  rw [List.foldr_cons, if_neg h, parts]

/-- A text without the separator is a single part. -/
theorem splitAt_of_notMem (h : separator ∉ cs) : splitAt separator cs = [cs] := by
  induction cs with
  | nil => rfl
  | cons c cs ih =>
    rw [List.mem_cons, not_or] at h
    exact splitAt_cons_of_ne (Ne.symm h.1) (ih h.2)

/-- A part goes up to the separator. -/
theorem splitAt_append_cons (h : separator ∉ cs) (ds : List Char) :
    splitAt separator (cs ++ separator :: ds) = cs :: splitAt separator ds := by
  induction cs with
  | nil => rw [List.nil_append, splitAt, List.foldr_cons, if_pos rfl]; rfl
  | cons c cs ih =>
    rw [List.mem_cons, not_or] at h
    exact splitAt_cons_of_ne (Ne.symm h.1) (ih h.2)

/-- Blanks around a text do not matter when it is trimmed. -/
theorem trim_padded {space space' : List Char} (hs : ∀ c ∈ space, isBlank c = true)
    (hs' : ∀ c ∈ space', isBlank c = true) : trim (space ++ (cs ++ space')) = trim cs := by
  have trimEnd_append : ∀ cs, trimEnd (cs ++ space') = trimEnd cs := by
    intro cs
    rw [trimEnd, List.reverse_append, List.dropWhile_append_of_pos]
    · rfl
    · exact fun c hc => hs' c (List.mem_reverse.1 hc)
  rw [trim, trimStart, List.dropWhile_append_of_pos hs, List.dropWhile_append]
  split
  · next blank =>
    rw [trim, trimStart, List.isEmpty_iff.1 blank, dropWhile_eq_nil hs']
  · exact trimEnd_append _

/-- The white space of XML is blank. -/
theorem isBlank_of_isSpace {c : Char} (h : isSpace c = true) : isBlank c = true :=
  isBlank_of_isAsciiSpace (isAsciiSpace_of_isSpace h)

end Text

namespace Subset

open Text (isSpace)

variable {c : Char} {cs rest space : List Char} {name value : String} {names : List String}

/-! ### White space and names -/

/-- The characters are white space. -/
def IsSpace (cs : List Char) : Prop :=
  ∀ c ∈ cs, isSpace c = true

instance (cs : List Char) : Decidable (IsSpace cs) :=
  decidable_of_iff (cs.all isSpace = true) List.all_eq_true

/-- The characters are white space, and there is one at least. -/
structure IsGap (cs : List Char) : Prop where
  /-- They are white space. -/
  isSpace : IsSpace cs
  /-- There is one. -/
  ne_nil : cs ≠ []

/-- The characters do not begin with white space. -/
def IsSetOff (cs : List Char) : Prop :=
  ∀ c ∈ cs.head?, isSpace c = false

/-- The characters do not go on with a name. -/
def EndsName (cs : List Char) : Prop :=
  ∀ c ∈ cs.head?, isNameChar c = false

/-- The text is accepted as a name. -/
structure IsName (name : String) : Prop where
  /-- It is not empty. -/
  ne_nil : name.toList ≠ []
  /-- It has characters of names only. -/
  chars : ∀ c ∈ name.toList, isNameChar c = true

instance (name : String) : Decidable (IsName name) :=
  decidable_of_iff (name.toList ≠ [] ∧ name.toList.all isNameChar = true)
    ⟨fun ⟨ne_nil, chars⟩ => ⟨ne_nil, List.all_eq_true.1 chars⟩,
      fun h => ⟨h.ne_nil, List.all_eq_true.2 h.chars⟩⟩

theorem ne_of_holds {d : Char} (p : Char → Bool) (h : p c = true) (hd : p d = false) : c ≠ d := by
  rintro rfl
  rw [h] at hd
  cases hd

theorem isNameChar_of_isSpace (h : isSpace c = true) : isNameChar c = false := by
  simp only [isSpace, Bool.or_eq_true, decide_eq_true_eq] at h
  rcases h with ((rfl | rfl) | rfl) | rfl <;> decide

theorem isSpace_of_isNameChar (h : isNameChar c = true) : isSpace c = false := by
  cases hs : isSpace c with
  | false => rfl
  | true => exact absurd rfl (ne_of_holds isNameChar h (isNameChar_of_isSpace hs))

theorem IsGap.endsName (h : IsGap space) (rest : List Char) : EndsName (space ++ rest) := by
  obtain ⟨c, space, rfl⟩ := List.exists_cons_of_ne_nil h.ne_nil
  rintro _ ⟨⟩
  exact isNameChar_of_isSpace (h.isSpace c List.mem_cons_self)

theorem IsGap.beginsWithSpace (h : IsGap space) (rest : List Char) :
    beginsWithSpace (space ++ rest) = true := by
  obtain ⟨c, space, rfl⟩ := List.exists_cons_of_ne_nil h.ne_nil
  exact h.isSpace c List.mem_cons_self

theorem skipSpace_of_isSpace (h : IsSpace space) : skipSpace space = [] :=
  dropWhile_eq_nil h

theorem skipSpace_append (h : IsSpace space) (hr : IsSetOff rest) :
    skipSpace (space ++ rest) = rest :=
  (takeWhile_append_of_head h hr).2

theorem IsName.isSetOff (h : IsName name) (rest : List Char) : IsSetOff (name.toList ++ rest) := by
  obtain ⟨c, cs, hc⟩ := List.exists_cons_of_ne_nil h.ne_nil
  rw [hc]
  rintro _ ⟨⟩
  exact isSpace_of_isNameChar (h.chars c (hc ▸ List.mem_cons_self))

/-- A name is read up to what does not belong to it. -/
theorem readName?_append (h : IsName name) (hr : EndsName rest) :
    readName? (name.toList ++ rest) = some (name, rest) := by
  obtain ⟨taken, left⟩ := takeWhile_append_of_head h.chars hr
  rw [readName?, taken, left]
  split
  · next empty => exact absurd empty h.ne_nil
  · rw [String.ofList_toList]

/-! ### Literals -/

/-- The character is a quotation mark. -/
def IsQuote (c : Char) : Prop :=
  c = '\x22' ∨ c = '\x27'

instance : DecidablePred IsQuote := fun _ => inferInstanceAs (Decidable (_ ∨ _))

/-- A literal as it is written: in quotes that do not occur in it. -/
inductive Quoted (value : String) : List Char → Prop
  | mk {quote : Char} : IsQuote quote → quote ∉ value.toList →
    Quoted value (quote :: (value.toList ++ [quote]))

theorem IsQuote.isSpace (h : IsQuote c) : isSpace c = false := by
  rcases h with rfl | rfl <;> decide

theorem Quoted.isSetOff (h : Quoted value cs) (rest : List Char) : IsSetOff (cs ++ rest) := by
  obtain ⟨hq, -⟩ := h
  rintro _ ⟨⟩
  exact hq.isSpace

theorem Quoted.readQuoted? (h : Quoted value cs) (rest : List Char) :
    readQuoted? (cs ++ rest) = some (value, rest) := by
  obtain @⟨quote, hq, outside⟩ := h
  have inside : ∀ c ∈ value.toList, decide (c ≠ quote) = true := fun c hc =>
    decide_eq_true fun same => outside (same ▸ hc)
  obtain ⟨taken, left⟩ := takeWhile_append_cons inside (decide_eq_false (· rfl)) rest
  rw [List.cons_append, List.append_assoc, List.singleton_append, Subset.readQuoted?,
    if_pos (show _ ∨ _ from hq), taken, left, String.ofList_toList]

/-! ### Lists of names -/

/-- Some names between bars, each with white space around it. -/
inductive NamesWritten : List String → List Char → Prop
  | nil {space : List Char} : IsSpace space → NamesWritten [] space
  | one {name : String} {space space' : List Char} : IsSpace space → IsName name →
    IsSpace space' → NamesWritten [name] (space ++ (name.toList ++ space'))
  | cons {name next : String} {names : List String} {space space' cs : List Char} :
    IsSpace space → IsName name → IsSpace space' → NamesWritten (next :: names) cs →
    NamesWritten (name :: next :: names) (space ++ (name.toList ++ space') ++ '|' :: cs)

/-- A character that names between bars are written with. -/
def isInNames (c : Char) : Bool :=
  isSpace c || isNameChar c || c = '|'

/-- A name with white space around it. -/
theorem isInNames_of_mem_padded {space' : List Char} (hs : IsSpace space) (hn : IsName name)
    (hs' : IsSpace space') (h : c ∈ space ++ (name.toList ++ space')) :
    isInNames c = true ∧ c ≠ '|' := by
  have plain : isSpace c = true ∨ isNameChar c = true := by
    rw [List.mem_append, List.mem_append] at h
    rcases h with h | h | h
    · exact .inl (hs c h)
    · exact .inr (hn.chars c h)
    · exact .inl (hs' c h)
  rcases plain with hc | hc
  · rw [isInNames, hc]
    refine ⟨rfl, ?_⟩
    rintro rfl
    cases hc
  · rw [isInNames, hc, Bool.or_true]
    exact ⟨rfl, ne_of_holds isNameChar hc (by decide)⟩

theorem NamesWritten.isInNames (h : NamesWritten names cs) (hc : c ∈ cs) :
    isInNames c = true := by
  induction h with
  | nil hs => rw [Subset.isInNames, hs c hc]; rfl
  | one hs hn hs' => exact (isInNames_of_mem_padded hs hn hs' hc).1
  | cons hs hn hs' _ ih =>
    rw [List.mem_append, List.mem_cons] at hc
    rcases hc with hc | rfl | hc
    · exact (isInNames_of_mem_padded hs hn hs' hc).1
    · decide
    · exact ih hc

/-- Names as they are read from a list: without blanks at their ends, and left out if they have
nothing else. -/
def asRead (names : List String) : List String :=
  trimmedNames (names.map String.toList)

/-- White space around a name does not matter in a list of names. -/
theorem trimmedNames_padded {space' : List Char} (hs : IsSpace space) (hs' : IsSpace space')
    (parts : List (List Char)) :
    trimmedNames ((space ++ (cs ++ space')) :: parts) = trimmedNames (cs :: parts) := by
  rw [trimmedNames, List.filterMap_cons, Text.trim_padded
    (fun c hc => Text.isBlank_of_isSpace (hs c hc))
    (fun c hc => Text.isBlank_of_isSpace (hs' c hc))]
  rw [trimmedNames, List.filterMap_cons]

theorem trimmedNames_cons (part : List Char) (parts : List (List Char)) :
    trimmedNames (part :: parts) = trimmedNames [part] ++ trimmedNames parts := by
  rw [trimmedNames, ← List.singleton_append, List.filterMap_append]
  rfl

/-- The names that are found between bars are those that were written, trimmed. -/
theorem NamesWritten.trimmedNames_splitAt (h : NamesWritten names cs) :
    trimmedNames (Text.splitAt '|' cs) = asRead names := by
  induction h with
  | @nil space hs =>
    have apart : '|' ∉ space := fun hc => absurd (hs _ hc) (by decide)
    have blank : Text.trim (space ++ ([] ++ [])) = [] :=
      Text.trim_padded (fun c hc => Text.isBlank_of_isSpace (hs c hc)) (List.forall_mem_nil _)
    rw [List.append_nil, List.append_nil] at blank
    rw [Text.splitAt_of_notMem apart, trimmedNames, List.filterMap_cons, blank]
    rfl
  | one hs hn hs' =>
    rw [Text.splitAt_of_notMem fun hc => (isInNames_of_mem_padded hs hn hs' hc).2 rfl,
      trimmedNames_padded hs hs']
    rfl
  | cons hs hn hs' _ ih =>
    rw [Text.splitAt_append_cons fun hc => (isInNames_of_mem_padded hs hn hs' hc).2 rfl,
      trimmedNames_padded hs hs', trimmedNames_cons, ih]
    exact (trimmedNames_cons _ _).symm

/-- A list of names in parentheses. -/
inductive GroupWritten (names : List String) : List Char → Prop
  | mk {inner : List Char} : NamesWritten names inner → GroupWritten names ('(' :: (inner ++ [')']))

theorem GroupWritten.readGroup (h : GroupWritten names cs) (rest : List Char) :
    readGroup (cs ++ rest) = .ok (asRead names, rest) := by
  obtain @⟨inner, written⟩ := h
  have inside : ∀ c ∈ inner, decide (c ≠ ')') = true := fun c hc =>
    decide_eq_true (ne_of_holds Subset.isInNames (written.isInNames hc) (by decide))
  obtain ⟨taken, left⟩ := takeWhile_append_cons inside (decide_eq_false (· rfl)) rest
  rw [List.cons_append, List.append_assoc, List.singleton_append, Subset.readGroup, taken, left,
    written.trimmedNames_splitAt]

/-! ### Bodies of declarations -/

/-- Characters in which every greater-than sign is in quotes, and all quotes are closed. -/
inductive Closed : List Char → Prop
  | nil : Closed []
  | plain {c : Char} {cs : List Char} : c ≠ '>' → ¬ IsQuote c → Closed cs → Closed (c :: cs)
  | quoted {quote : Char} {inside cs : List Char} : IsQuote quote → quote ∉ inside → Closed cs →
    Closed (quote :: (inside ++ quote :: cs))

theorem Closed.append {ds : List Char} (h : Closed cs) (h' : Closed ds) : Closed (cs ++ ds) := by
  induction h with
  | nil => exact h'
  | plain hc hq _ ih => exact ih.plain hc hq
  | quoted hq inside _ ih =>
    rw [List.cons_append, List.append_assoc]
    exact ih.quoted hq inside

/-- Characters of which none is a greater-than sign or a quote. -/
theorem Closed.of_forall (h : ∀ c ∈ cs, c ≠ '>' ∧ ¬ IsQuote c) : Closed cs := by
  induction cs with
  | nil => exact nil
  | cons c cs ih =>
    obtain ⟨sign, quote⟩ := h c List.mem_cons_self
    exact (ih fun c hc => h c (List.mem_cons_of_mem _ hc)).plain sign quote

/-- The same of characters that can be looked at one by one. -/
theorem Closed.of_all (h : (cs.all fun c => c ≠ '>' ∧ ¬ IsQuote c) = true) : Closed cs :=
  .of_forall fun c hc => of_decide_eq_true (List.all_eq_true.1 h c hc)

theorem splitBody_quoted {quote : Char} {inside seen : List Char} (h : quote ∉ inside) :
    splitBody (some quote) seen (inside ++ quote :: rest) =
      splitBody none (quote :: (inside.reverse ++ seen)) rest := by
  induction inside generalizing seen with
  | nil => rw [List.nil_append, splitBody, if_pos rfl]; rfl
  | cons c inside ih =>
    rw [List.mem_cons, not_or] at h
    rw [List.cons_append, splitBody, if_neg (Ne.symm h.1), ih h.2, List.reverse_cons,
      List.append_assoc]
    rfl

/-- The body of a declaration goes up to its end. -/
theorem Closed.splitBody (h : Closed cs) (seen rest : List Char) :
    splitBody none seen (cs ++ '>' :: rest) = some (seen.reverse ++ cs, rest) := by
  induction h generalizing seen with
  | nil => rw [List.nil_append, Subset.splitBody, if_pos rfl, List.append_nil]
  | plain hc hq _ ih =>
    rw [List.cons_append, Subset.splitBody, if_neg hc, if_neg (show ¬ (_ ∨ _) from hq), ih,
      List.reverse_cons, List.append_assoc, List.singleton_append]
  | @quoted quote inside cs hq outside _ ih =>
    have sign : quote ≠ '>' := by
      rintro rfl
      rcases hq with h | h <;> cases h
    rw [List.cons_append, List.append_assoc, List.cons_append, Subset.splitBody, if_neg sign,
      if_pos (show _ ∨ _ from hq), splitBody_quoted outside, ih]
    simp

theorem Closed.of_isNameChar (h : ∀ c ∈ cs, isNameChar c = true) : Closed cs := by
  refine .of_forall fun c hc => ⟨ne_of_holds isNameChar (h c hc) (by decide), ?_⟩
  rintro (rfl | rfl)
  · cases h _ hc
  · cases h _ hc

theorem IsSpace.closed (h : IsSpace space) : Closed space := by
  refine .of_forall fun c hc => ⟨?_, ?_⟩
  · rintro rfl
    cases h _ hc
  · rintro (rfl | rfl)
    · cases h _ hc
    · cases h _ hc

theorem IsName.closed (h : IsName name) : Closed name.toList :=
  .of_isNameChar h.chars

theorem Quoted.closed (h : Quoted value cs) : Closed cs := by
  obtain ⟨hq, outside⟩ := h
  exact Closed.nil.quoted hq outside

theorem NamesWritten.closed (h : NamesWritten names cs) : Closed cs := by
  refine .of_forall fun c hc => ⟨ne_of_holds Subset.isInNames (h.isInNames hc) (by decide), ?_⟩
  rintro (rfl | rfl)
  · cases h.isInNames hc
  · cases h.isInNames hc

theorem GroupWritten.closed (h : GroupWritten names cs) : Closed cs := by
  obtain ⟨written⟩ := h
  have closing : Closed [')'] := Closed.nil.plain (by decide) (by decide)
  exact (written.closed.append closing).plain (by decide) (by decide)

end Subset

end XmlTable
