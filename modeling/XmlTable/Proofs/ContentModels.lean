import XmlTable.Proofs.Malformed

/-!
# Content models

The content specifications of XML are those that its grammar derives: two keywords, lists of names
for mixed content, and models of sequences and choices in parentheses. A specification that is
derived is read as what it says, but for the names of mixed content, which are trimmed. Whether
there is anything to be read is told by the first characters alone. A specification that begins
with neither a keyword nor a parenthesis is reported, and its declaration leaves no trace; one that
begins like a content model is accepted whatever comes then.
-/

namespace XmlTable.Subset

open Text (byteLength isBlank isSpace startsWith)

variable {c : Char} {cs ds spec front back space : List Char} {content : ContentSpec}

/-! ### Names of XML -/

/-- The code point ranges of the characters that a name may begin with, both ends included. -/
def nameStartRanges : List (Nat × Nat) :=
  [(0x3A, 0x3A), (0x41, 0x5A), (0x5F, 0x5F), (0x61, 0x7A), (0xC0, 0xD6), (0xD8, 0xF6),
    (0xF8, 0x2FF), (0x370, 0x37D), (0x37F, 0x1FFF), (0x200C, 0x200D), (0x2070, 0x218F),
    (0x2C00, 0x2FEF), (0x3001, 0xD7FF), (0xF900, 0xFDCF), (0xFDF0, 0xFFFD), (0x10000, 0xEFFFF)]

/-- The code point ranges of the characters of names, both ends included. -/
def nameRanges : List (Nat × Nat) :=
  nameStartRanges ++ [(0x2D, 0x2E), (0x30, 0x39), (0xB7, 0xB7), (0x300, 0x36F), (0x203F, 0x2040)]

/-- A character is in one of some ranges. -/
def isWithin (ranges : List (Nat × Nat)) (c : Char) : Bool :=
  ranges.any fun range => range.1 ≤ c.toNat && c.toNat ≤ range.2

/-- A name by the grammar of XML. -/
structure IsXmlName (name : String) : Prop where
  /-- It begins as names do. -/
  first : ∃ c ∈ name.toList.head?, isWithin nameStartRanges c = true
  /-- It has characters of names only. -/
  chars : ∀ c ∈ name.toList, isWithin nameRanges c = true

instance (name : String) : Decidable (IsXmlName name) :=
  decidable_of_iff (name.toList.head?.any (isWithin nameStartRanges) = true ∧
      name.toList.all (isWithin nameRanges) = true) <| by
    rw [Option.any_eq_true, List.all_eq_true]
    exact ⟨fun ⟨first, chars⟩ => ⟨first, chars⟩, fun h => ⟨h.first, h.chars⟩⟩

theorem isNameChar_of_isWithin (h : isWithin nameRanges c = true) : isNameChar c = true := by
  by_cases hc : c.toNat < 128
  · exact Text.forall_ascii
      (P := fun c => isWithin nameRanges c = true → isNameChar c = true) (by decide) hc h
  · rw [isNameChar, decide_eq_true (Nat.le_of_not_lt hc), Bool.or_true]

theorem IsXmlName.isName {name : String} (h : IsXmlName name) : IsName name where
  ne_nil empty := by
    obtain ⟨c, first, -⟩ := h.first
    rw [empty] at first
    cases first
  chars c hc := isNameChar_of_isWithin (h.chars c hc)

/-- Of the characters of names one is blank. -/
theorem eq_of_isBlank_of_isWithin (hb : isBlank c = true) (hn : isWithin nameRanges c = true) :
    c = '\u1680' := by
  have overlap : (Text.blankRanges.all fun blank => nameRanges.all fun name =>
      blank.2 < name.1 ∨ name.2 < blank.1 ∨
        max blank.1 name.1 = 0x1680 ∧ min blank.2 name.2 = 0x1680) = true := by
    decide
  obtain ⟨blank, mem, low⟩ := List.any_eq_true.1 hb
  obtain ⟨name, mem', low'⟩ := List.any_eq_true.1 hn
  have meet := of_decide_eq_true (List.all_eq_true.1 (List.all_eq_true.1 overlap _ mem) _ mem')
  simp only [Bool.and_eq_true, decide_eq_true_eq] at low low'
  refine Char.toNat_inj.1 (show c.toNat = 0x1680 from ?_)
  omega

/-- The text neither begins nor ends with the one blank that names may have. -/
def KeepsEnds (name : String) : Prop :=
  name.toList.head? ≠ some '\u1680' ∧ name.toList.getLast? ≠ some '\u1680'

instance (name : String) : Decidable (KeepsEnds name) :=
  inferInstanceAs (Decidable (_ ∧ _))

theorem IsXmlName.isTrimmed {name : String} (h : IsXmlName name) (ends : KeepsEnds name) :
    IsTrimmed name := by
  have solid : ∀ c ∈ name.toList, c ≠ '\u1680' → isBlank c = false := fun c hc ne =>
    Bool.eq_false_iff.2 fun blank => ne (eq_of_isBlank_of_isWithin blank (h.chars c hc))
  have first : ∀ c ∈ name.toList.head?, isBlank c = false := fun c hc =>
    solid c (List.mem_of_mem_head? hc) fun same => ends.1 (same ▸ hc)
  have last : ∀ c ∈ name.toList.reverse.head?, isBlank c = false := by
    intro c hc
    rw [List.head?_reverse] at hc
    exact solid c (List.mem_of_mem_getLast? hc) fun same => ends.2 (same ▸ hc)
  have start : Text.trimStart name.toList = name.toList :=
    (takeWhile_append_of_head (List.forall_mem_nil _) first).2
  have stop : name.toList.reverse.dropWhile isBlank = name.toList.reverse :=
    (takeWhile_append_of_head (List.forall_mem_nil _) last).2
  refine ⟨h.isName.ne_nil, ?_⟩
  rw [Text.trim, start, Text.trimEnd, stop, List.reverse_reverse]

/-! ### The grammar of content specifications -/

/-- What stands between the parts of a model. -/
inductive Connector where
  /-- The parts come one after the other. -/
  | comma
  /-- One of the parts comes. -/
  | bar
  deriving DecidableEq, Repr

/-- The character of a connector. -/
def Connector.char : Connector → Char
  | comma => ','
  | bar => '|'

/-- The kinds of phrases in a model of elements. -/
inductive Phrase where
  /-- A name or a group, with a mark or without. -/
  | particle
  /-- Particles with connectors between them. -/
  | row (connector : Connector)
  /-- A sequence or a choice in parentheses. -/
  | group
  deriving DecidableEq, Repr

/-- How often a particle may occur: once, or as a mark says. -/
def IsMark (mark : List Char) : Prop :=
  mark ∈ [[], ['?'], ['*'], ['+']]

instance (mark : List Char) : Decidable (IsMark mark) :=
  inferInstanceAs (Decidable (_ ∈ _))

/-- The grammar derives a phrase of a model. -/
inductive Derives : Phrase → List Char → Prop
  | name {name : String} {mark : List Char} : IsXmlName name → IsMark mark →
    Derives .particle (name.toList ++ mark)
  | marked {cs mark : List Char} : Derives .group cs → IsMark mark →
    Derives .particle (cs ++ mark)
  | one {connector : Connector} {space cs space' : List Char} : IsSpace space →
    Derives .particle cs → IsSpace space' → Derives (.row connector) (space ++ (cs ++ space'))
  | more {connector : Connector} {space cs space' ds : List Char} : IsSpace space →
    Derives .particle cs → IsSpace space' → Derives (.row connector) ds →
    Derives (.row connector) (space ++ (cs ++ space') ++ connector.char :: ds)
  | sequence {cs : List Char} : Derives (.row .comma) cs → Derives .group ('(' :: (cs ++ [')']))
  | choice {space cs space' ds : List Char} : IsSpace space → Derives .particle cs →
    IsSpace space' → Derives (.row .bar) ds →
    Derives .group ('(' :: (space ++ (cs ++ space') ++ '|' :: (ds ++ [')'])))

/-- The grammar derives a content specification, which says what the content is. -/
inductive Specifies : ContentSpec → List Char → Prop
  | empty : Specifies .empty "EMPTY".toList
  | any : Specifies .any "ANY".toList
  | text {space space' : List Char} : IsSpace space → IsSpace space' →
    Specifies (.mixed []) ('(' :: (space ++ ("#PCDATA".toList ++ (space' ++ [')']))))
  | mixed {names : List String} {space space' tail : List Char} : IsSpace space →
    IsSpace space' → MixedWritten names tail → (∀ name ∈ names, IsXmlName name) →
    Specifies (.mixed names)
      ('(' :: (space ++ ("#PCDATA".toList ++ (space' ++ (tail ++ [')', '*'])))))
  | children {model : String} {cs mark : List Char} : Derives .group cs → IsMark mark →
    model.toList = cs ++ mark → Specifies (.children model) (cs ++ mark)

/-- Apart from blanks around it, a text is a content specification that the grammar derives. -/
inductive HasContent (content : ContentSpec) : List Char → Prop
  | mk {front cs back : List Char} : (∀ c ∈ front, isBlank c = true) → Specifies content cs →
    (∀ c ∈ back, isBlank c = true) → HasContent content (front ++ (cs ++ back))

/-- The names that a content specification lists. -/
def ContentSpec.listed : ContentSpec → List String
  | mixed names => names
  | _ => []

/-! ### What is derived is read -/

theorem isInModel_of_isSpace (h : isSpace c = true) : isInModel c = true := by
  rw [isInModel, h]
  rfl

theorem IsMark.isInModel {mark : List Char} (h : IsMark mark) :
    ∀ c ∈ mark, isInModel c = true := by
  have marks : ([[], ['?'], ['*'], ['+']].all fun mark => mark.all Subset.isInModel) = true := by
    decide
  exact List.all_eq_true.1 (List.all_eq_true.1 marks mark h)

theorem isInModel_of_mem_padded {space' : List Char} (hs : IsSpace space)
    (hcs : ∀ c ∈ cs, isInModel c = true) (hs' : IsSpace space')
    (h : c ∈ space ++ (cs ++ space')) : isInModel c = true := by
  rw [List.mem_append, List.mem_append] at h
  rcases h with h | h | h
  · exact isInModel_of_isSpace (hs c h)
  · exact hcs c h
  · exact isInModel_of_isSpace (hs' c h)

/-- What is derived has the characters of models only. -/
theorem Derives.isInModel {phrase : Phrase} (h : Derives phrase cs) :
    ∀ c ∈ cs, isInModel c = true := by
  induction h with
  | name hn hm =>
    refine List.forall_mem_append.2 ⟨fun c hc => ?_, hm.isInModel⟩
    rw [Subset.isInModel, isNameChar_of_isWithin (hn.chars c hc), Bool.or_true, Bool.true_or]
  | marked _ hm ih => exact List.forall_mem_append.2 ⟨ih, hm.isInModel⟩
  | one hs _ hs' ih => exact fun c => isInModel_of_mem_padded hs ih hs'
  | @more connector _ _ _ _ hs _ hs' _ ih ih' =>
    refine List.forall_mem_append.2 ⟨fun c => isInModel_of_mem_padded hs ih hs',
      List.forall_mem_cons.2 ⟨?_, ih'⟩⟩
    cases connector <;> decide
  | sequence _ ih =>
    exact List.forall_mem_cons.2 ⟨by decide,
      List.forall_mem_append.2 ⟨ih, List.forall_mem_singleton.2 (by decide)⟩⟩
  | choice hs _ hs' _ ih ih' =>
    refine List.forall_mem_cons.2 ⟨by decide, List.forall_mem_append.2
      ⟨fun c => isInModel_of_mem_padded hs ih hs', List.forall_mem_cons.2 ⟨by decide, ?_⟩⟩⟩
    exact List.forall_mem_append.2 ⟨ih', List.forall_mem_singleton.2 (by decide)⟩

/-- A group is in parentheses. -/
theorem Derives.exists_group (h : Derives .group cs) : ∃ inner, cs = '(' :: (inner ++ [')']) := by
  cases h with
  | sequence => exact ⟨_, rfl⟩
  | @choice space cs space' ds =>
    refine ⟨space ++ (cs ++ space') ++ '|' :: ds, congrArg ('(' :: ·) ?_⟩
    rw [List.append_assoc _ ('|' :: ds), List.cons_append]

/-- A group with a mark is a model. -/
theorem Derives.isModel {mark : List Char} (h : Derives .group cs) (hm : IsMark mark) :
    IsModel (cs ++ mark) where
  opens := by
    obtain ⟨inner, rfl⟩ := h.exists_group
    exact ⟨_, rfl⟩
  closes := by
    obtain ⟨inner, rfl⟩ := h.exists_group
    simp only [IsMark, List.mem_cons, List.not_mem_nil, or_false] at hm
    rcases hm with rfl | rfl | rfl | rfl
    · exact ⟨'(' :: inner, ')', List.append_nil _, by decide⟩
    · exact ⟨_, '?', rfl, by decide⟩
    · exact ⟨_, '*', rfl, by decide⟩
    · exact ⟨_, '+', rfl, by decide⟩
  chars := List.forall_mem_append.2 ⟨h.isInModel, hm.isInModel⟩

theorem Specifies.contentWritten (h : Specifies content cs) : ContentWritten content cs := by
  cases h with
  | empty => exact .empty
  | any => exact .any
  | text hs hs' => exact .mixed hs hs' .none (.inl rfl)
  | mixed hs hs' written _ => exact .mixed hs hs' written (.inr rfl)
  | children group mark same =>
    rw [← same]
    exact .children (same ▸ group.isModel mark)

/-- A model ends with a parenthesis or a mark. -/
theorem HasContent.closes {model : String} (h : HasContent (.children model) spec) :
    ∃ last ∈ model.toList.getLast?, last ∈ ")?*+".toList := by
  obtain ⟨-, specifies, -⟩ := h
  cases specifies.contentWritten with
  | children written =>
    obtain ⟨inner, last, ends, mark⟩ := written.closes
    exact ⟨last, by rw [ends, List.getLast?_concat]; rfl, mark⟩

theorem Specifies.isXmlName (h : Specifies content cs) :
    ∀ name ∈ content.listed, IsXmlName name := by
  cases h with
  | mixed _ _ _ names => exact names
  | empty | any | text | children => exact List.forall_mem_nil _

/-- Blanks before a content specification do not matter. -/
theorem readContentSpec_append (hf : ∀ c ∈ front, isBlank c = true) (cs : List Char) :
    readContentSpec (front ++ cs) = readContentSpec cs := by
  have same : Text.trimStart (front ++ cs) = Text.trimStart cs := List.dropWhile_append_of_pos hf
  rw [readContentSpec, readContentSpec, same]

theorem HasContent.readContentSpec (h : HasContent content spec) :
    readContentSpec spec = .ok content.asRead := by
  obtain ⟨hf, specifies, hb⟩ := h
  rw [readContentSpec_append hf, specifies.contentWritten.readContentSpec hb]

/-- Without a blank at an end, the names of mixed content are read as they are. -/
theorem HasContent.asRead_eq (h : HasContent content spec)
    (ends : ∀ name ∈ content.listed, KeepsEnds name) : content.asRead = content := by
  obtain ⟨-, specifies, -⟩ := h
  have names := specifies.isXmlName
  cases content with
  | mixed listed =>
    exact congrArg ContentSpec.mixed (asRead_of_isTrimmed fun name hn =>
      (names name hn).isTrimmed (ends name hn))
  | empty | any | children => rfl

/-! ### What is not derived -/

/-- After blanks a text begins as content specifications do. -/
def BeginsContent (spec : List Char) : Prop :=
  ["EMPTY", "ANY", "("].any (startsWith (Text.trimStart spec)) = true

instance (spec : List Char) : Decidable (BeginsContent spec) :=
  inferInstanceAs (Decidable (_ = true))

/-- There is something to be read exactly if the text begins so. -/
theorem readContentSpec_cases (spec : List Char) :
    BeginsContent spec ∧ (∃ content, readContentSpec spec = .ok content) ∨
      ¬ BeginsContent spec ∧ readContentSpec spec = .error .invalidContentSpec := by
  unfold BeginsContent readContentSpec
  dsimp only
  simp only [List.any_cons, List.any_nil, Bool.or_false, Bool.or_eq_true, not_or]
  split
  · next empty => exact .inl ⟨.inl empty, _, rfl⟩
  · next empty =>
    split
    · next any => exact .inl ⟨.inr (.inl any), _, rfl⟩
    · next any =>
      split
      · next inner same =>
        refine .inl ⟨.inr (.inr ?_), ?_⟩
        · rw [same]
          rfl
        · split
          · exact ⟨_, rfl⟩
          · exact ⟨_, rfl⟩
      · next other =>
        refine .inr ⟨⟨empty, any, fun opens => ?_⟩, rfl⟩
        obtain ⟨inner, same⟩ := List.isPrefixOf_iff_prefix.1 opens
        exact other inner same.symm

/-- What does not begin so is not derived. -/
theorem HasContent.begins (h : HasContent content spec) : BeginsContent spec := by
  rcases readContentSpec_cases spec with ⟨begins, -⟩ | ⟨-, refused⟩
  · exact begins
  · rw [h.readContentSpec] at refused
    cases refused

/-! ### Declarations that are reported -/

/-- A declaration is reported with a fault and leaves no other trace. -/
structure IsReported (d : List Char) (fault : Fault) : Prop where
  /-- Whatever was declared before and whatever comes next, the handler is told at its position. -/
  item : ReadsAs d fun position known => do
    report (position ()) fault
    return known
  /-- Among other items, a scan whose handler recovers declares what it would without it, and tells
  of the fault at its first byte. -/
  scan : ∀ {pre post : List Char} {handler : Handler} {patience base : Nat}, Items pre →
    handler.Recovers → (account handler patience base (pre ++ post)).Ends →
    ∃ declarations after,
      account handler patience base (pre ++ post) =
        ⟨.ok declarations, (account handler patience base pre).reports ++ after⟩ ∧
      account handler patience base (pre ++ (d ++ post)) =
        ⟨.ok declarations, (account handler patience base pre).reports ++
          .error (.parse (base + byteLength pre) fault.message) ::
            after.map (·.relocate (shiftFrom (base + byteLength pre) (byteLength d)))⟩

/-- An item of which a fault is always reported is reported among others. -/
theorem IsDeclaration.isReported {d : List Char} (hd : IsDeclaration d) {fault : Fault}
    (reads : ReadsAs d fun position known => do
      report (position ()) fault
      return known) : IsReported d fault := by
  refine ⟨reads, fun {pre post handler patience base} items recovers ends => ?_⟩
  have item : IsItem d := .declaration hd
  have none : IsSpace [] := nofun
  have here : base + (byteLength (pre ++ (d ++ post)) - byteLength (d ++ post)) =
      base + byteLength pre := by
    rw [Text.byteLength_append, Nat.add_sub_cancel]
  obtain ⟨slack, known, reports, goesOn⟩ := items.exists_goesOn recovers ends
  refine goesOn.account_of_fault item.ne_nil (fun fuel => ?_) recovers ends
  refine (reads.scanFrom none (item.isSetOff _) item.ne_nil here fuel known).trans ?_
  exact bind_assoc _ _ _

/-- The declaration of an element with a text for its content. -/
inductive ElementWritten (spec : List Char) : List Char → Prop
  | mk {gap gap' : List Char} {name : String} : IsGap gap → IsName name → IsGap gap' →
    Closed spec → ElementWritten spec
      ('<' :: '!' :: ("ELEMENT".toList ++ (gap ++ (name.toList ++ (gap' ++ spec))) ++ ['>']))

theorem declare_of_not_begins {gap gap' : List Char} {name : String} (hg : IsGap gap)
    (hn : IsName name) (hg' : IsGap gap') (h : ¬ BeginsContent spec) (known : Declarations) :
    declare "ELEMENT" (gap ++ (name.toList ++ (gap' ++ spec))) known =
      .error .invalidContentSpec := by
  have first := skipSpace_append hg.isSpace (hn.isSetOff (gap' ++ spec))
  have word := readName?_append hn (hg'.endsName spec)
  have apart := hg'.beginsWithSpace spec
  have parts := List.takeWhile_append_dropWhile (p := isSpace) (l := spec)
  have blank : ∀ c ∈ spec.takeWhile isSpace, isBlank c = true := fun c hc =>
    Text.isBlank_of_isSpace (List.all_eq_true.1 List.all_takeWhile c hc)
  have second : skipSpace (gap' ++ spec) = spec.dropWhile isSpace :=
    List.dropWhile_append_of_pos hg'.isSpace
  have refused : readContentSpec (spec.dropWhile isSpace) = .error .invalidContentSpec := by
    rw [← readContentSpec_append blank, parts]
    rcases readContentSpec_cases spec with ⟨begins, -⟩ | ⟨-, refused⟩
    · exact absurd begins h
    · exact refused
  show declareElement _ _ = _
  simp only [declareElement, first, word, apart, second, refused]
  rfl

/-- A declaration whose text does not begin as content specifications do is reported. -/
theorem ElementWritten.isReported {d : List Char} (h : ElementWritten spec d)
    (begins : ¬ BeginsContent spec) : IsReported d .invalidContentSpec := by
  obtain @⟨gap, gap', name, hg, hn, hg', hc⟩ := h
  have keyword : IsName "ELEMENT" := by decide
  have closed : Closed ("ELEMENT".toList ++ (gap ++ (name.toList ++ (gap' ++ spec)))) :=
    keyword.closed.append (hg.isSpace.closed.append (hn.closed.append
      (hg'.isSpace.closed.append hc)))
  have unmarked : ¬ ['-', '-'] <+: "ELEMENT".toList ++ (gap ++ (name.toList ++ (gap' ++ spec))) :=
    fun hyphens => absurd (List.cons_prefix_cons.1 hyphens).1 (by decide)
  refine IsDeclaration.isReported (.mk closed unmarked) fun rest position known => ?_
  obtain ⟨word, body⟩ := takeWhile_append_of_head keyword.chars
    (hg.endsName (name.toList ++ (gap' ++ spec)))
  rw [readsAs_declaration closed unmarked, word, body, readDeclaration, String.ofList_toList,
    declare_of_not_begins hg hn hg' begins]

/-- Of every text: if the grammar derives it as a content specification, apart from blanks around
it, then it is read as what it says, and the names of mixed content are exactly those listed unless
one has a blank at an end. If it begins with neither a keyword nor a parenthesis, then the grammar
does not derive it, and the declaration of an element with it is reported and leaves no other trace.
All texts that do begin so are accepted, also those that the grammar does not derive. -/
theorem content_is_told_by_its_beginning (spec : List Char) :
    (∀ content, HasContent content spec → readContentSpec spec = .ok content.asRead ∧
      ((∀ name ∈ content.listed, KeepsEnds name) → content.asRead = content)) ∧
    ((∃ content, readContentSpec spec = .ok content) ↔ BeginsContent spec) ∧
    (¬ BeginsContent spec → (¬ ∃ content, HasContent content spec) ∧
      ∀ d, ElementWritten spec d → IsReported d .invalidContentSpec) := by
  refine ⟨fun content h => ⟨h.readContentSpec, h.asRead_eq⟩, ⟨?_, fun begins => ?_⟩,
    fun refused => ⟨?_, fun d written => written.isReported refused⟩⟩
  · rintro ⟨content, read⟩
    rcases readContentSpec_cases spec with ⟨begins, -⟩ | ⟨-, refused⟩
    · exact begins
    · rw [read] at refused
      cases refused
  · rcases readContentSpec_cases spec with ⟨-, read⟩ | ⟨other, -⟩
    · exact read
    · exact absurd begins other
  · rintro ⟨content, h⟩
    exact refused h.begins

/-- A model with a choice in a sequence is read, and a misspelled keyword is reported. -/
theorem content_is_told_by_its_beginning_of_nested_model :
    HasContent (.children "(b, (c | d)*)+") " (b, (c | d)*)+ ".toList ∧
      readContentSpec " (b, (c | d)*)+ ".toList = .ok (.children "(b, (c | d)*)+") ∧
      ¬ BeginsContent "EMTPY".toList ∧ ElementWritten "EMTPY".toList "<!ELEMENT a EMTPY>".toList ∧
      account .lenient 0 0 ("<!ELEMENT a EMTPY>".toList ++ "<!ELEMENT b ANY>".toList) =
        ⟨.ok { elements := [("b", .any)] }, [.error (.parse 0 "invalid content specification")]⟩ := by
  have none : IsSpace [] := nofun
  have space : IsSpace [' '] := by decide
  have blank : ∀ c ∈ [' '], isBlank c = true := fun c hc => Text.isBlank_of_isSpace (space c hc)
  have once : IsMark [] := by decide
  have b : Derives .particle ['b'] := .name (by decide : IsXmlName "b") once
  have c : Derives .particle ['c'] := .name (by decide : IsXmlName "c") once
  have d : Derives .particle ['d'] := .name (by decide : IsXmlName "d") once
  have choice : Derives .group "(c | d)".toList := .choice none c space (.one space d none)
  have starred : Derives .particle "(c | d)*".toList := .marked choice (by decide : IsMark ['*'])
  have sequence : Derives .group "(b, (c | d)*)".toList :=
    .sequence (.more none b none (.one space starred none))
  have content : HasContent (.children "(b, (c | d)*)+") " (b, (c | d)*)+ ".toList :=
    .mk blank (.children sequence (by decide : IsMark ['+']) rfl) blank
  have gap : IsGap [' '] := ⟨space, List.cons_ne_nil _ _⟩
  have written : ElementWritten "EMTPY".toList "<!ELEMENT a EMTPY>".toList :=
    .mk gap (by decide : IsName "a") gap (.of_all (by decide))
  have misspelled : ¬ BeginsContent "EMTPY".toList := by decide
  refine ⟨content, ((content_is_told_by_its_beginning _).1 _ content).1, misspelled, written, ?_⟩
  have reported := ((content_is_told_by_its_beginning _).2.2 misspelled).2 _ written
  have alone : account .lenient 0 0 "<!ELEMENT b ANY>".toList =
      ⟨.ok { elements := [("b", .any)] }, []⟩ := by
    rw [account_eq]
    rfl
  have silent : account .lenient 0 0 [] = ⟨.ok .none, []⟩ := by
    rw [account_eq]
    rfl
  have recovers : Handler.lenient.Recovers := fun _ _ => rfl
  have ends : (account .lenient 0 0 ([] ++ "<!ELEMENT b ANY>".toList)).Ends := by
    rw [List.nil_append, alone]
    exact nofun
  obtain ⟨declarations, after, without, within⟩ := reported.scan (.nil none) recovers ends
  rw [List.nil_append, alone, silent] at without
  cases without
  rwa [silent] at within

/-- A model whose parenthesis is not closed is accepted, and its element is declared to contain
elements only. -/
theorem unclosed_model_is_accepted :
    (¬ ∃ content, HasContent content "(b".toList) ∧
      readContentSpec "(b".toList = .ok (.children "(b") ∧
      (account .lenient 0 0 "<!ELEMENT a (b>".toList).reports = [] ∧
      (account .lenient 0 0 "<!ELEMENT a (b>".toList).outcome.map (·.isElementOnly "a") =
        .ok true := by
  have read : readContentSpec "(b".toList = .ok (.children "(b") := rfl
  refine ⟨?_, read, ?_, ?_⟩
  · rintro ⟨content, h⟩
    have same := Except.ok.inj (h.readContentSpec.symm.trans read)
    obtain rfl : content = .children "(b" := by
      cases content with
      | children => exact same
      | empty | any | mixed => cases same
    obtain ⟨last, ends, mark⟩ := h.closes
    obtain rfl : 'b' = last := Option.some.inj ends
    exact absurd mark (by decide)
  · rw [account_eq]
    rfl
  · rw [account_eq]
    rfl

end XmlTable.Subset
