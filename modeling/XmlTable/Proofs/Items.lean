import XmlTable.Proofs.Collecting
import XmlTable.Proofs.Excerpts

/-!
# Items of an internal subset

Comments, processing instructions, declarations and references to parameter entities end by
themselves: where one ends does not depend on what comes after it. A scan of items that are followed
by more is therefore a scan of the items, followed by a scan of the rest. The one kind of item that
a scan sees otherwise is a comment whose text begins so that, with the opening mark, it makes a
closing mark: the scan takes the comment to end there.
-/

namespace XmlTable

/-! ### Patterns in texts -/

namespace Text

variable {pattern cs rest : List Char} {c : Char}

theorem after?_append (pattern rest : List Char) :
    after? pattern (pattern ++ rest) = some rest := by
  cases pattern with
  | nil =>
    rw [List.nil_append]
    cases rest <;> rfl
  | cons c pattern =>
    have here : (c :: pattern).isPrefixOf (c :: (pattern ++ rest)) = true :=
      List.isPrefixOf_iff_prefix.2 (List.prefix_append (c :: pattern) rest)
    rw [List.cons_append, after?, if_pos here, ← List.cons_append, List.drop_left]

theorem after?_cons (h : ¬ pattern <+: c :: cs) : after? pattern (c :: cs) = after? pattern cs := by
  rw [after?, if_neg (mt List.isPrefixOf_iff_prefix.1 h)]

/-- A pattern is not found where its first character is not. -/
theorem after?_append_of_notMem (h : c ∉ cs) (rest : List Char) :
    after? (c :: pattern) (cs ++ rest) = after? (c :: pattern) rest := by
  induction cs with
  | nil => rfl
  | cons d cs ih =>
    rw [List.mem_cons, not_or] at h
    rw [List.cons_append, after?_cons, ih h.2]
    exact fun begins => h.1 (List.cons_prefix_cons.1 begins).1

end Text

namespace Subset

open Text (startsWith after?)

variable {cs rest item : List Char}

/-! ### Items as they are written -/

/-- The mark that ends a comment. -/
def commentEnd : List Char := ['-', '-', '>']

/-- The mark that ends a processing instruction. -/
def instructionEnd : List Char := ['?', '>']

/-- The text of a comment. -/
structure IsCommentText (cs : List Char) : Prop where
  /-- No two hyphens stand next to each other. -/
  separate : ¬ ['-', '-'] <:+: cs
  /-- The last character is no hyphen. -/
  ends : cs.getLast? ≠ some '-'

/-- With the hyphens before it, the beginning of the text ends the comment. -/
def EndsComment (cs : List Char) : Prop :=
  ['>'] <+: cs ∨ ['-', '>'] <+: cs

/-- A comment with its text. -/
def comment (text : List Char) : List Char :=
  ['<', '!', '-', '-'] ++ (text ++ commentEnd)

/-- A processing instruction with its target and the data after it. -/
def instruction (target : String) (data : List Char) : List Char :=
  ['<', '?'] ++ (target.toList ++ (data ++ instructionEnd))

/-- A reference to a parameter entity. -/
def parameterReference (name : String) : List Char :=
  '%' :: (name.toList ++ [';'])

/-- A declaration up to its end, well-formed or not. -/
inductive IsDeclaration : List Char → Prop
  | mk {inner : List Char} : Closed inner → ¬ ['-', '-'] <+: inner →
    IsDeclaration ('<' :: '!' :: (inner ++ ['>']))

/-- An item that declares nothing, with its end: a comment only if its text does not end it. -/
inductive IsPassedOver : List Char → Prop
  | comment {text : List Char} : IsCommentText text → ¬ EndsComment text →
    IsPassedOver (comment text)
  | instruction {target : String} {data : List Char} : IsName target →
    ¬ instructionEnd <:+: data → IsPassedOver (instruction target data)
  | reference {name : String} : IsName name → IsPassedOver (parameterReference name)

/-- A complete item of an internal subset. -/
inductive IsItem : List Char → Prop
  | passed {cs : List Char} : IsPassedOver cs → IsItem cs
  | declaration {cs : List Char} : IsDeclaration cs → IsItem cs

/-- Items in order with white space around them. -/
inductive Items : List Char → Prop
  | nil {space : List Char} : IsSpace space → Items space
  | cons {space item cs : List Char} : IsSpace space → IsItem item → Items cs →
    Items (space ++ (item ++ cs))

/-! ### Where items end -/

/-- After its text a comment ends. -/
theorem IsCommentText.after? {text : List Char} (h : IsCommentText text) (rest : List Char) :
    after? commentEnd (text ++ (commentEnd ++ rest)) = some rest := by
  obtain ⟨separate, ends⟩ := h
  induction text with
  | nil => exact Text.after?_append _ rest
  | cons c text ih =>
    have shorter : text.getLast? ≠ some '-' := fun last => ends (by
      rw [List.getLast?_cons, last]
      rfl)
    rw [List.cons_append, Text.after?_cons, ih (mt List.infix_cons separate) shorter]
    -- An end here would begin with two hyphens, of which the second is in the text, too.
    intro begins
    obtain ⟨rfl, more⟩ := List.cons_prefix_cons.1 begins
    cases text with
    | nil => exact ends rfl
    | cons d text =>
      obtain ⟨rfl, -⟩ := List.cons_prefix_cons.1 more
      exact separate ⟨[], text, rfl⟩

/-- A comment ends after its text, unless that ends it before. -/
theorem after?_comment {text : List Char} (h : IsCommentText text) (goesOn : ¬ EndsComment text)
    (rest : List Char) : after? commentEnd (comment text ++ rest) = some rest := by
  rw [EndsComment, not_or] at goesOn
  have first : ¬ commentEnd <+: '-' :: '-' :: (text ++ (commentEnd ++ rest)) := by
    intro begins
    have closes := (List.cons_prefix_cons.1 (List.cons_prefix_cons.1 begins).2).2
    cases text with
    | nil => cases (List.cons_prefix_cons.1 closes).1
    | cons c text =>
      obtain ⟨rfl, -⟩ := List.cons_prefix_cons.1 closes
      exact goesOn.1 ⟨text, rfl⟩
  have second : ¬ commentEnd <+: '-' :: (text ++ (commentEnd ++ rest)) := by
    intro begins
    have goesOn' := (List.cons_prefix_cons.1 begins).2
    cases text with
    | nil => cases (List.cons_prefix_cons.1 (List.cons_prefix_cons.1 goesOn').2).1
    | cons c text =>
      obtain ⟨rfl, closes⟩ := List.cons_prefix_cons.1 goesOn'
      cases text with
      | nil => exact h.ends rfl
      | cons d text =>
        obtain ⟨rfl, -⟩ := List.cons_prefix_cons.1 closes
        exact goesOn.2 ⟨text, rfl⟩
  have whole : comment text ++ rest =
      ['<', '!'] ++ ('-' :: '-' :: (text ++ (commentEnd ++ rest))) := by
    simp [comment]
  rw [whole, commentEnd, Text.after?_append_of_notMem (by decide), ← commentEnd,
    Text.after?_cons first, Text.after?_cons second, h.after?]

/-- A processing instruction ends after its data. -/
theorem after?_instruction {target : String} {data : List Char} (h : IsName target)
    (hd : ¬ instructionEnd <:+: data) (rest : List Char) :
    after? instructionEnd (instruction target data ++ rest) = some rest := by
  have ends : after? instructionEnd (data ++ (instructionEnd ++ rest)) = some rest := by
    induction data with
    | nil => exact Text.after?_append _ rest
    | cons c data ih =>
      rw [List.cons_append, Text.after?_cons, ih (mt List.infix_cons hd)]
      intro begins
      obtain ⟨rfl, closes⟩ := List.cons_prefix_cons.1 begins
      cases data with
      | nil => cases (List.cons_prefix_cons.1 closes).1
      | cons d data =>
        obtain ⟨rfl, -⟩ := List.cons_prefix_cons.1 closes
        exact hd ⟨[], data, rfl⟩
  have opens :
      ¬ instructionEnd <+: '?' :: (target.toList ++ (data ++ (instructionEnd ++ rest))) := by
    intro begins
    have closes := (List.cons_prefix_cons.1 begins).2
    obtain ⟨c, name, hc⟩ := List.exists_cons_of_ne_nil h.ne_nil
    rw [hc] at closes
    obtain ⟨rfl, -⟩ := List.cons_prefix_cons.1 closes
    exact absurd (h.chars '>' (hc ▸ List.mem_cons_self)) (by decide)
  have outside : '?' ∉ target.toList := fun hc => absurd (h.chars _ hc) (by decide)
  have whole : instruction target data ++ rest =
      ['<'] ++ ('?' :: (target.toList ++ (data ++ (instructionEnd ++ rest)))) := by
    simp [instruction]
  rw [whole, instructionEnd, Text.after?_append_of_notMem (by decide), ← instructionEnd,
    Text.after?_cons opens, ← ends]
  exact Text.after?_append_of_notMem outside _

/-- A reference ends after its name. -/
theorem after?_parameterReference {name : String} (h : IsName name) (rest : List Char) :
    after? [';'] (parameterReference name ++ rest) = some rest := by
  have outside : ';' ∉ '%' :: name.toList := by
    rw [List.mem_cons, not_or]
    exact ⟨by decide, fun hc => absurd (h.chars _ hc) (by decide)⟩
  have whole : parameterReference name ++ rest = ('%' :: name.toList) ++ ([';'] ++ rest) := by
    simp [parameterReference]
  rw [whole, Text.after?_append_of_notMem outside, Text.after?_append]

/-! ### Reading an item -/

variable {position : Unit → Nat} {declarations : Declarations}

theorem not_startsWith_comment {inner : List Char} (h : ¬ ['-', '-'] <+: inner)
    (rest : List Char) : startsWith ('<' :: '!' :: (inner ++ '>' :: rest)) "<!--" = false := by
  refine Bool.eq_false_iff.2 fun begins => h ?_
  have opening : ['<', '!', '-', '-'] <+: '<' :: '!' :: (inner ++ '>' :: rest) :=
    List.isPrefixOf_iff_prefix.1 begins
  have hyphens := (List.cons_prefix_cons.1 (List.cons_prefix_cons.1 opening).2).2
  -- The sign that ends the declaration is no hyphen, so both hyphens are before it.
  cases inner with
  | nil => cases (List.cons_prefix_cons.1 hyphens).1
  | cons c inner =>
    obtain ⟨rfl, hyphen⟩ := List.cons_prefix_cons.1 hyphens
    cases inner with
    | nil => cases (List.cons_prefix_cons.1 hyphen).1
    | cons d inner =>
      obtain ⟨rfl, -⟩ := List.cons_prefix_cons.1 hyphen
      exact ⟨inner, rfl⟩

/-- Names have nothing that quotes or ends a declaration. -/
theorem Closed.dropWhile_isNameChar (h : Closed cs) : Closed (cs.dropWhile isNameChar) := by
  induction h with
  | nil => exact .nil
  | @plain c cs hc hq closed ih =>
    rw [List.dropWhile_cons]
    split
    · exact ih
    · exact closed.plain hc hq
  | @quoted quote inside cs hq outside closed ih =>
    have stops : ¬ isNameChar quote = true := by
      rcases hq with rfl | rfl <;> decide
    rw [List.dropWhile_cons_of_neg stops]
    exact closed.quoted hq outside

/-- The keyword and the body of a declaration. -/
theorem split_declaration {inner : List Char} (h : Closed inner) (rest : List Char) :
    (inner ++ '>' :: rest).takeWhile isNameChar = inner.takeWhile isNameChar ∧
      splitBody none [] ((inner ++ '>' :: rest).dropWhile isNameChar) =
        some (inner.dropWhile isNameChar, rest) := by
  have parts := List.takeWhile_append_dropWhile (p := isNameChar) (l := inner)
  have name : ∀ c ∈ inner.takeWhile isNameChar, isNameChar c = true :=
    List.all_eq_true.1 List.all_takeWhile
  have ends : ∀ c ∈ (inner.dropWhile isNameChar ++ '>' :: rest).head?, isNameChar c = false := by
    have first := List.head?_dropWhile_not isNameChar inner
    cases hd : inner.dropWhile isNameChar with
    | nil =>
      rintro _ ⟨⟩
      decide
    | cons d more =>
      rw [hd] at first
      rintro _ ⟨⟩
      exact first
  have split := takeWhile_append_of_head name ends
  rw [← List.append_assoc, parts] at split
  refine ⟨split.1, ?_⟩
  rw [split.2, h.dropWhile_isNameChar.splitBody [] rest]
  rfl

/-- What a declaration with a keyword and a body comes to: it is added to the others, or its fault
is reported. -/
def readDeclaration (keyword : String) (body : List Char) (position : Unit → Nat)
    (declarations : Declarations) : Scanning Declarations :=
  match declare keyword body declarations with
  | .ok declared => do
    warn declared.warning
    return declared.declarations
  | .error fault => do
    report (position ()) fault
    return declarations

theorem run_warn (warning : Option String) (journal : Journal) : (warn warning).run.run journal =
    (.ok (), journal.tell (warning.map Report.warning).toList) := by
  cases warning with
  | none =>
    rw [Option.map_none, Option.toList_none, Journal.tell_nil]
    rfl
  | some message =>
    rw [Option.map_some, Option.toList_some, Journal.tell, ← Array.push_eq_append]
    rfl

/-- An item is read in one way whatever comes after it, and that is what is left then. -/
def ReadsAs (item : List Char) (read : (Unit → Nat) → Declarations → Scanning Declarations) :
    Prop :=
  ∀ rest position declarations, scanItem position declarations (item ++ rest) = do
    let known ← read position declarations
    return (known, some rest)

/-- Comments are passed over. -/
theorem readsAs_of_comment {mark : List Char}
    (h : ∀ rest, after? commentEnd (['<', '!', '-', '-'] ++ (mark ++ rest)) = some rest) :
    ReadsAs (['<', '!', '-', '-'] ++ mark) fun _ declarations => pure declarations := by
  intro rest position declarations
  have opens : startsWith (['<', '!', '-', '-'] ++ mark ++ rest) "<!--" = true :=
    startsWith_append "<!--" _
  have ends : after? "-->".toList (['<', '!', '-', '-'] ++ mark ++ rest) = some rest :=
    (congrArg _ (List.append_assoc ..)).trans (h rest)
  rw [scanItem, opens, if_pos rfl, scanPast, ends, pure_bind]

theorem readsAs_instruction {target : String} {data : List Char} (h : IsName target)
    (hd : ¬ instructionEnd <:+: data) :
    ReadsAs (instruction target data) fun _ declarations => pure declarations := by
  intro rest position declarations
  have comment : startsWith (instruction target data ++ rest) "<!--" = false := rfl
  have opens : startsWith (instruction target data ++ rest) "<?" = true := rfl
  have ends : after? "?>".toList (instruction target data ++ rest) = some rest :=
    after?_instruction h hd rest
  rw [scanItem, comment, if_neg Bool.false_ne_true, opens, if_pos rfl, scanPast, ends, pure_bind]

theorem readsAs_parameterReference {name : String} (h : IsName name) :
    ReadsAs (parameterReference name) fun _ declarations => pure declarations := by
  intro rest position declarations
  have others : ∀ word, word.toList.head? = some '<' →
      startsWith (parameterReference name ++ rest) word = false := fun word hw =>
    not_startsWith_cons hw (by decide) _
  have opens : startsWith (parameterReference name ++ rest) "%" = true := rfl
  have ends : after? ";".toList (parameterReference name ++ rest) = some rest :=
    after?_parameterReference h rest
  rw [scanItem, others _ rfl, others _ rfl, others _ rfl, opens]
  simp only [Bool.false_eq_true, if_false, if_true, scanPast, ends, pure_bind]

theorem readsAs_declaration {inner : List Char} (h : Closed inner)
    (hc : ¬ ['-', '-'] <+: inner) :
    ReadsAs ('<' :: '!' :: (inner ++ ['>'])) (readDeclaration
      (String.ofList (inner.takeWhile isNameChar)) (inner.dropWhile isNameChar)) := by
  intro rest position declarations
  have comment := not_startsWith_comment hc rest
  have instruction : startsWith ('<' :: '!' :: (inner ++ '>' :: rest)) "<?" = false := rfl
  have opens : startsWith ('<' :: '!' :: (inner ++ '>' :: rest)) "<!" = true := rfl
  obtain ⟨keyword, body⟩ := split_declaration h rest
  rw [List.cons_append, List.cons_append, List.append_assoc, List.singleton_append, scanItem,
    comment, instruction, opens]
  show scanDeclaration position declarations (inner ++ '>' :: rest) = _
  rw [scanDeclaration, keyword, body, readDeclaration]
  dsimp only
  cases declare _ _ declarations with
  | ok declared =>
    dsimp only
    rw [bind_assoc]
    rfl
  | error fault =>
    dsimp only
    rw [bind_assoc]
    rfl

theorem IsPassedOver.readsAs (h : IsPassedOver item) :
    ReadsAs item fun _ declarations => pure declarations := by
  cases h with
  | @comment text hc goesOn =>
    refine readsAs_of_comment fun rest => ?_
    rw [← List.append_assoc]
    exact after?_comment hc goesOn rest
  | instruction ht hd => exact readsAs_instruction ht hd
  | reference hn => exact readsAs_parameterReference hn

/-- An item ends by itself. -/
theorem IsItem.exists_readsAs (h : IsItem item) : ∃ read, ReadsAs item read := by
  cases h with
  | passed hp => exact ⟨_, hp.readsAs⟩
  | declaration hd =>
    obtain ⟨closed, hc⟩ := hd
    exact ⟨_, readsAs_declaration closed hc⟩

theorem IsItem.isSetOff (h : IsItem item) (rest : List Char) : IsSetOff (item ++ rest) := by
  rcases h with ⟨_ | _ | _⟩ | ⟨_, _⟩ <;>
  · rintro _ ⟨⟩
    decide

theorem IsItem.ne_nil (h : IsItem item) : item ≠ [] := by
  rcases h with ⟨_ | _ | _⟩ | ⟨_, _⟩ <;> exact List.cons_ne_nil _ _

/-! ### Scanning items -/

variable {base total total' offset : Nat} {space : List Char}

/-- White space before the rest of a subset does not matter. -/
theorem scanFrom_space (hs : IsSpace space) (fuel : Nat) (declarations : Declarations)
    (rest : List Char) : scanFrom base total fuel declarations (space ++ rest) =
      scanFrom base total fuel declarations rest := by
  cases fuel with
  | zero => rfl
  | succ fuel =>
    have same : skipSpace (space ++ rest) = skipSpace rest := List.dropWhile_append_of_pos hs
    rw [scanFrom, scanFrom, same]

/-- A scan goes on after an item with what is known then. -/
theorem ReadsAs.scanFrom {read : (Unit → Nat) → Declarations → Scanning Declarations}
    (h : ReadsAs item read) (hs : IsSpace space) (setOff : IsSetOff (item ++ rest))
    (ne : item ≠ []) {place : Nat}
    (here : base + (total - Text.byteLength (item ++ rest)) = place) (fuel : Nat)
    (declarations : Declarations) :
    scanFrom base total (fuel + 1) declarations (space ++ (item ++ rest)) =
      read (fun _ => place) declarations >>= fun known =>
        Subset.scanFrom base total fuel known rest := by
  obtain ⟨c, cs, nonempty⟩ : ∃ c cs, item ++ rest = c :: cs := by
    obtain ⟨c, cs, rfl⟩ := List.exists_cons_of_ne_nil ne
    exact ⟨c, cs ++ rest, rfl⟩
  have item := h rest (fun _ => place) declarations
  rw [nonempty] at here item
  rw [Subset.scanFrom, skipSpace_append hs setOff, nonempty]
  dsimp only
  rw [here, item, bind_assoc]
  rfl

/-- A scan of items and more is a scan of the items, followed by a scan of the rest. -/
theorem Items.exists_scanFrom_append {pre : List Char} (h : Items pre) :
    ∃ count ≤ pre.length, ∀ {base offset total total' : Nat} {rest : List Char},
      offset + Text.byteLength (pre ++ rest) = total → offset + Text.byteLength pre = total' →
      ∀ fuel declarations, scanFrom base total (count + fuel) declarations (pre ++ rest) =
        scanFrom base total' (count + 1) declarations pre >>= fun known =>
          scanFrom base total fuel known rest := by
  induction h with
  | @nil space hs =>
    refine ⟨0, Nat.zero_le _, fun {base offset total total' rest} _ _ fuel declarations => ?_⟩
    rw [scanFrom_space hs, Nat.zero_add, Nat.zero_add, scanFrom, skipSpace_of_isSpace hs]
    rfl
  | @cons space item cs hs isItem _ ih =>
    obtain ⟨count, le, scan⟩ := ih
    obtain ⟨read, reads⟩ := isItem.exists_readsAs
    have positive := List.length_pos_iff.2 isItem.ne_nil
    refine ⟨count + 1, ?_, ?_⟩
    · rw [List.length_append, List.length_append]
      omega
    intro base offset total total' rest whole part fuel declarations
    simp only [List.append_assoc, Text.byteLength_append] at whole part ⊢
    have here : base + (total - Text.byteLength (item ++ (cs ++ rest))) =
        base + (offset + Text.byteLength space) := by
      simp only [Text.byteLength_append]
      omega
    have here' : base + (total' - Text.byteLength (item ++ cs)) =
        base + (offset + Text.byteLength space) := by
      rw [Text.byteLength_append]
      omega
    have later := @scan base (offset + Text.byteLength space + Text.byteLength item) total total'
      rest (by rw [Text.byteLength_append]; omega) (by omega) fuel
    rw [Nat.add_right_comm, reads.scanFrom hs (isItem.isSetOff _) isItem.ne_nil here,
      reads.scanFrom hs (isItem.isSetOff _) isItem.ne_nil here', bind_assoc]
    simp only [later]

end Subset

end XmlTable
