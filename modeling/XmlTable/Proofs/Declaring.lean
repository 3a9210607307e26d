import XmlTable.Proofs.Phrases

/-!
# Declarations as they are written

Contents of elements, definitions of attributes and whole declarations are read as they were
written, but for names in lists, which are trimmed.
-/

namespace XmlTable.Subset

open Text (isSpace startsWith)

variable {cs rest space gap : List Char} {names : List String}

theorem startsWith_append (word : String) (rest : List Char) :
    startsWith (word.toList ++ rest) word = true :=
  List.isPrefixOf_iff_prefix.2 (List.prefix_append _ _)

theorem not_startsWith_cons {word : String} {first c : Char}
    (hw : word.toList.head? = some first) (hc : first ≠ c) (rest : List Char) :
    startsWith (c :: rest) word = false := by
  obtain ⟨more, same⟩ := List.head?_eq_some_iff.1 hw
  rw [startsWith, same]
  show (first == c && _) = false
  rw [beq_false_of_ne hc, Bool.false_and]

/-! ### Contents of elements -/

/-- A content specification with the names in it as they are read. -/
def ContentSpec.asRead : ContentSpec → ContentSpec
  | mixed names => mixed (Subset.asRead names)
  | content => content

/-- A character that a model of elements is written with. -/
def isInModel (c : Char) : Bool :=
  isSpace c || isNameChar c || c ∈ "()|,?*+".toList

/-- A model of elements: it begins with a parenthesis, and ends with one or with a mark. -/
structure IsModel (cs : List Char) : Prop where
  /-- It begins with a parenthesis. -/
  opens : ∃ inner, cs = '(' :: inner
  /-- It ends with a parenthesis or a mark. -/
  closes : ∃ inner last, cs = inner ++ [last] ∧ last ∈ ")?*+".toList
  /-- It has the characters of names, white space, parentheses, separators and marks. -/
  chars : ∀ c ∈ cs, isInModel c = true

/-- What comes after the keyword of mixed content: nothing, or names after a bar. -/
inductive MixedWritten : List String → List Char → Prop
  | none : MixedWritten [] []
  | bar {names : List String} {cs : List Char} : names ≠ [] → NamesWritten names cs →
    MixedWritten names ('|' :: cs)

/-- A content specification as it is written. -/
inductive ContentWritten : ContentSpec → List Char → Prop
  | empty : ContentWritten .empty "EMPTY".toList
  | any : ContentWritten .any "ANY".toList
  | mixed {names : List String} {space space' tail star : List Char} : IsSpace space →
    IsSpace space' → MixedWritten names tail → (star = [] ∨ star = ['*']) →
    ContentWritten (.mixed names)
      ('(' :: (space ++ ("#PCDATA".toList ++ (space' ++ (tail ++ ')' :: star)))))
  | children {model : String} : IsModel model.toList →
    ContentWritten (.children model) model.toList

theorem MixedWritten.closed (h : MixedWritten names cs) : Closed cs := by
  cases h with
  | none => exact .nil
  | bar _ written => exact written.closed.plain (by decide) (by decide)

theorem trimStart_of_head {c : Char} (h : Text.isBlank c = false) (cs : List Char) :
    Text.trimStart (c :: cs) = c :: cs :=
  List.dropWhile_cons_of_neg (by rw [h]; exact Bool.false_ne_true)

/-- Blanks after a text do not matter when it is trimmed at the end. -/
theorem trimEnd_append (hs : ∀ c ∈ space, Text.isBlank c = true) {last : Char}
    (h : Text.isBlank last = false) : Text.trimEnd (cs ++ [last] ++ space) = cs ++ [last] := by
  have blank : ∀ c ∈ space.reverse, Text.isBlank c = true := fun c hc =>
    hs c (List.mem_reverse.1 hc)
  rw [Text.trimEnd, List.reverse_append, List.dropWhile_append_of_pos blank, List.reverse_append,
    List.reverse_singleton, List.singleton_append, List.dropWhile_cons_of_neg (by simp [h]),
    List.reverse_cons, List.reverse_reverse]

theorem MixedWritten.mixedNames (h : MixedWritten names cs) {front : List Char}
    (hf : ∀ c ∈ front, c ≠ '|' ∧ c ≠ ')') (rest : List Char) :
    mixedNames (front ++ (cs ++ ')' :: rest)) = Subset.asRead names := by
  have inside : ∀ c ∈ front ++ cs, decide (c ≠ ')') = true := by
    intro c hc
    rcases List.mem_append.1 hc with hc | hc
    · exact decide_eq_true (hf c hc).2
    · cases h with
      | none => cases hc
      | bar _ written =>
        rcases List.mem_cons.1 hc with rfl | hc
        · decide
        · exact decide_eq_true (ne_of_holds isInNames (written.isInNames hc) (by decide))
  rw [← List.append_assoc, Subset.mixedNames,
    (takeWhile_append_cons inside (decide_eq_false (· rfl)) rest).1]
  have apart : '|' ∉ front := fun hc => (hf _ hc).1 rfl
  cases h with
  | none =>
    rw [List.append_nil, Text.splitAt_of_notMem apart]
    rfl
  | bar _ written =>
    rw [Text.splitAt_append_cons apart, List.drop_one, List.tail_cons]
    exact written.trimmedNames_splitAt

/-- No model of elements is one of mixed content. -/
theorem IsModel.not_startsWith (h : IsModel ('(' :: cs))
    (hs : ∀ c ∈ space, Text.isBlank c = true) :
    startsWith (Text.trimStart (cs ++ space)) "#PCDATA" = false := by
  refine Bool.eq_false_iff.2 fun begins => ?_
  have prefixed : "#PCDATA".toList <+: Text.trimStart (cs ++ space) :=
    List.isPrefixOf_iff_prefix.1 begins
  have found : '#' ∈ cs ++ space :=
    (List.dropWhile_suffix _).subset (prefixed.subset List.mem_cons_self)
  rcases List.mem_append.1 found with hc | hc
  · exact absurd (h.chars '#' (List.mem_cons_of_mem _ hc)) (by decide)
  · exact absurd (hs '#' hc) (by decide)

theorem IsModel.readContentSpec (h : IsModel cs) (hs : ∀ c ∈ space, Text.isBlank c = true) :
    readContentSpec (cs ++ space) = .ok (.children (String.ofList cs)) := by
  obtain ⟨inner, rfl⟩ := h.opens
  obtain ⟨front, last, same, mark⟩ := h.closes
  have solid : Text.isBlank last = false := by
    have marks : (")?*+".toList.all fun c => !Text.isBlank c) = true := by decide
    simpa using List.all_eq_true.1 marks last mark
  have trimmed : Text.trimEnd ('(' :: (inner ++ space)) = '(' :: inner := by
    rw [← List.cons_append, same, trimEnd_append hs solid]
  have opens : Text.trimStart ('(' :: (inner ++ space)) = '(' :: (inner ++ space) :=
    trimStart_of_head (by decide) _
  rw [List.cons_append, Subset.readContentSpec, opens]
  show (if startsWith (Text.trimStart (inner ++ space)) "#PCDATA" = true then _ else
    Except.ok (ContentSpec.children (String.ofList (Text.trimEnd ('(' :: (inner ++ space)))))) = _
  rw [h.not_startsWith hs, trimmed]
  rfl

/-- The content of an element is read as it was written, whatever blanks come after it. -/
theorem ContentWritten.readContentSpec {content : ContentSpec} (h : ContentWritten content cs)
    (hs : ∀ c ∈ space, Text.isBlank c = true) :
    readContentSpec (cs ++ space) = .ok content.asRead := by
  cases h with
  | empty => rfl
  | any => rfl
  | @mixed names before after tail star hb ha written =>
    have plain : ∀ c ∈ before ++ ("#PCDATA".toList ++ after), c ≠ '|' ∧ c ≠ ')' := by
      intro c hc
      rcases List.mem_append.1 hc with hc | hc
      · exact ⟨ne_of_holds isSpace (hb c hc) (by decide), ne_of_holds isSpace (hb c hc) (by decide)⟩
      · rcases List.mem_append.1 hc with hc | hc
        · have word : ("#PCDATA".toList.all fun c => c ≠ '|' ∧ c ≠ ')') = true := by decide
          exact of_decide_eq_true (List.all_eq_true.1 word c hc)
        · exact ⟨ne_of_holds isSpace (ha c hc) (by decide),
            ne_of_holds isSpace (ha c hc) (by decide)⟩
    have names := written.mixedNames plain (star ++ space)
    have opens : ∀ cs, Text.trimStart ('(' :: cs) = '(' :: cs :=
      trimStart_of_head (by decide)
    have keyword : Text.trimStart
        (before ++ ("#PCDATA".toList ++ (after ++ (tail ++ ')' :: (star ++ space))))) =
        "#PCDATA".toList ++ (after ++ (tail ++ ')' :: (star ++ space))) := by
      rw [Text.trimStart, List.dropWhile_append_of_pos fun c hc =>
        Text.isBlank_of_isSpace (hb c hc)]
      exact trimStart_of_head (by decide) _
    simp only [List.cons_append, List.append_assoc] at names ⊢
    rw [Subset.readContentSpec, opens]
    show (if startsWith (Text.trimStart _) "#PCDATA" = true then Except.ok (ContentSpec.mixed _)
      else _) = _
    rw [keyword, startsWith_append, if_pos rfl, names]
    rfl
  | children model =>
    rw [model.readContentSpec hs, String.ofList_toList]
    rfl

/-! ### Definitions of attributes -/

/-- An attribute type with the names in it as they are read. -/
def AttributeType.asRead : AttributeType → AttributeType
  | notations names => notations (Subset.asRead names)
  | enumeration names => enumeration (Subset.asRead names)
  | type => type

/-- The definition of an attribute with the names in it as they are read. -/
def AttributeDefinition.asRead (definition : AttributeDefinition) : AttributeDefinition :=
  { definition with type := definition.type.asRead }

/-- An attribute type as it is written. -/
inductive TypeWritten : AttributeType → List Char → Prop
  | keyword {word : String} {type : AttributeType} : (word, type) ∈ AttributeType.keywords →
    TypeWritten type word.toList
  | enumeration {names : List String} {cs : List Char} : GroupWritten names cs →
    TypeWritten (.enumeration names) cs
  | notations {names : List String} {gap cs : List Char} : IsGap gap → GroupWritten names cs →
    TypeWritten (.notations names) ("NOTATION".toList ++ (gap ++ cs))

/-- What holds without an attribute, as it is written. -/
inductive RuleWritten : DefaultRule → List Char → Prop
  | required : RuleWritten .required "#REQUIRED".toList
  | implied : RuleWritten .implied "#IMPLIED".toList
  | fixed {value : String} {gap cs : List Char} : IsGap gap → Quoted value cs →
    RuleWritten (.fixed value) ("#FIXED".toList ++ (gap ++ cs))
  | given {value : String} {cs : List Char} : Quoted value cs → RuleWritten (.given value) cs

/-- The definition of an attribute as it is written. -/
inductive DefinitionWritten : AttributeDefinition → List Char → Prop
  | mk {name : String} {type : AttributeType} {rule : DefaultRule} {gap gap' cs ds : List Char} :
    IsName name → IsGap gap → TypeWritten type cs → IsGap gap' → RuleWritten rule ds →
    DefinitionWritten ⟨name, type, rule⟩ (name.toList ++ (gap ++ (cs ++ (gap' ++ ds))))

/-- Definitions of attributes, each after white space. -/
inductive DefinitionsWritten : List AttributeDefinition → List Char → Prop
  | nil {space : List Char} : IsSpace space → DefinitionsWritten [] space
  | cons {definition : AttributeDefinition} {definitions : List AttributeDefinition}
    {gap cs ds : List Char} : IsGap gap → DefinitionWritten definition cs →
    DefinitionsWritten definitions ds →
    DefinitionsWritten (definition :: definitions) (gap ++ (cs ++ ds))

theorem GroupWritten.startsWith (h : GroupWritten names cs) (rest : List Char) :
    startsWith (cs ++ rest) "(" = true := by
  obtain ⟨_⟩ := h
  rfl

theorem GroupWritten.isSetOff (h : GroupWritten names cs) (rest : List Char) :
    IsSetOff (cs ++ rest) := by
  obtain ⟨_⟩ := h
  rintro _ ⟨⟩
  decide

/-- A name does not begin with what is no name. -/
theorem IsName.not_startsWith {name : String} (h : IsName name) (rest : List Char) {word : String}
    {first : Char} (hw : word.toList.head? = some first) (hf : isNameChar first = false) :
    startsWith (name.toList ++ rest) word = false := by
  obtain ⟨c, cs, hc⟩ := List.exists_cons_of_ne_nil h.ne_nil
  rw [hc]
  exact not_startsWith_cons hw
    (ne_of_holds isNameChar (h.chars c (hc ▸ List.mem_cons_self)) hf).symm _

/-- The keywords of types are names, each of one type. -/
theorem keyword_spec {word : String} {type : AttributeType}
    (h : (word, type) ∈ AttributeType.keywords) :
    IsName word ∧ AttributeType.keywords.lookup word = some type ∧ type.asRead = type := by
  have all : AttributeType.keywords.all (fun entry => entry.1.toList ≠ [] ∧
      entry.1.toList.all isNameChar = true ∧
      AttributeType.keywords.lookup entry.1 = some entry.2 ∧ entry.2.asRead = entry.2) = true := by
    decide
  obtain ⟨ne, chars, found, same⟩ := of_decide_eq_true (List.all_eq_true.1 all _ h)
  exact ⟨⟨ne, List.all_eq_true.1 chars⟩, found, same⟩

theorem TypeWritten.readType {type : AttributeType} (h : TypeWritten type cs)
    (hr : EndsName rest) : readType (cs ++ rest) = .ok (type.asRead, rest) := by
  cases h with
  | keyword known =>
    obtain ⟨name, found, same⟩ := keyword_spec known
    have opening : startsWith (_ ++ rest) "(" = false := name.not_startsWith rest rfl (by decide)
    simp only [Subset.readType, opening, readName?_append name hr, found, same]
    rfl
  | enumeration written =>
    simp only [Subset.readType, written.startsWith, written.readGroup]
    rfl
  | @notations _ gap cs hg written =>
    have name : IsName "NOTATION" := by decide
    have opening : startsWith ("NOTATION".toList ++ (gap ++ (cs ++ rest))) "(" = false := rfl
    have word := readName?_append name (hg.endsName (cs ++ rest))
    have unknown : AttributeType.keywords.lookup "NOTATION" = none := by decide
    have skipped := skipSpace_append hg.isSpace (written.isSetOff rest)
    simp only [List.append_assoc, Subset.readType, opening, word, unknown, skipped,
      written.readGroup]
    rfl

/-- A literal does not begin with what is no quotation mark. -/
theorem Quoted.not_startsWith {value : String} (h : Quoted value cs) (rest : List Char)
    {word : String} {first : Char} (hw : word.toList.head? = some first) (hf : ¬ IsQuote first) :
    startsWith (cs ++ rest) word = false := by
  obtain ⟨hq, -⟩ := h
  exact not_startsWith_cons hw (fun same => hf (same ▸ hq)) _

/-- What holds without an attribute is read as it was written. -/
theorem RuleWritten.readRule {rule : DefaultRule} (h : RuleWritten rule cs) (rest : List Char) :
    readRule (cs ++ rest) = .ok (rule, rest) := by
  cases h with
  | required => rfl
  | implied => rfl
  | @fixed value gap cs hg quoted =>
    have skipped := skipSpace_append hg.isSpace (quoted.isSetOff rest)
    have required : startsWith ("#FIXED".toList ++ (gap ++ (cs ++ rest))) "#REQUIRED" = false := rfl
    have implied : startsWith ("#FIXED".toList ++ (gap ++ (cs ++ rest))) "#IMPLIED" = false := rfl
    have after : ("#FIXED".toList ++ (gap ++ (cs ++ rest))).drop 6 = gap ++ (cs ++ rest) := rfl
    rw [List.append_assoc, List.append_assoc, Subset.readRule, required, implied,
      startsWith_append, after, skipped, quoted.readQuoted?]
    rfl
  | given quoted =>
    have plain : ∀ {word : String}, word.toList.head? = some '#' →
        startsWith (cs ++ rest) word = false := fun hw => quoted.not_startsWith rest hw (by decide)
    rw [Subset.readRule, plain rfl, plain rfl, plain rfl, quoted.readQuoted?]
    rfl

theorem TypeWritten.isSetOff {type : AttributeType} (h : TypeWritten type cs) (rest : List Char) :
    IsSetOff (cs ++ rest) := by
  cases h with
  | keyword known => exact (keyword_spec known).1.isSetOff rest
  | enumeration written => exact written.isSetOff rest
  | notations =>
    rintro _ ⟨⟩
    decide

theorem RuleWritten.isSetOff {rule : DefaultRule} (h : RuleWritten rule cs) (rest : List Char) :
    IsSetOff (cs ++ rest) := by
  cases h with
  | given quoted => exact quoted.isSetOff rest
  | required | implied | fixed =>
    rintro _ ⟨⟩
    decide

/-- The definition of an attribute is read as it was written. -/
theorem DefinitionWritten.readDefinition {definition : AttributeDefinition}
    (h : DefinitionWritten definition cs) (rest : List Char) :
    readDefinition (cs ++ rest) = .ok (definition.asRead, rest) := by
  obtain @⟨name, type, rule, gap, gap', ts, rs, hn, hg, ht, hg', hr⟩ := h
  simp only [List.append_assoc]
  have word := readName?_append hn (hg.endsName (ts ++ (gap' ++ (rs ++ rest))))
  have first := skipSpace_append hg.isSpace (ht.isSetOff (gap' ++ (rs ++ rest)))
  have second := skipSpace_append hg'.isSpace (hr.isSetOff rest)
  simp only [Subset.readDefinition, word, first, ht.readType (hg'.endsName _)]
  show readRule (skipSpace (gap' ++ (rs ++ rest))) >>= _ = _
  rw [second, hr.readRule]
  rfl

theorem DefinitionWritten.isSetOff {definition : AttributeDefinition}
    (h : DefinitionWritten definition cs) (rest : List Char) : IsSetOff (cs ++ rest) := by
  obtain ⟨hn, _, _, _, _⟩ := h
  rw [List.append_assoc]
  exact hn.isSetOff _

theorem DefinitionWritten.ne_nil {definition : AttributeDefinition}
    (h : DefinitionWritten definition cs) : cs ≠ [] := by
  obtain ⟨hn, _, _, _, _⟩ := h
  exact fun empty => hn.ne_nil (List.append_eq_nil_iff.1 empty).1

theorem DefinitionsWritten.length_le {definitions : List AttributeDefinition}
    (h : DefinitionsWritten definitions cs) : definitions.length ≤ cs.length := by
  induction h with
  | nil => exact Nat.zero_le _
  | cons hg _ _ ih =>
    have := List.length_pos_iff.2 hg.ne_nil
    rw [List.length_append, List.length_append, List.length_cons]
    omega

/-- Definitions of attributes are read as they were written. -/
theorem DefinitionsWritten.readDefinitions {definitions : List AttributeDefinition}
    (h : DefinitionsWritten definitions cs) {fuel : Nat} (enough : definitions.length < fuel)
    (done : List AttributeDefinition) :
    readDefinitions fuel cs done = .ok (done.reverse ++ definitions.map (·.asRead)) := by
  induction h generalizing fuel done with
  | nil hs =>
    obtain ⟨fuel, rfl⟩ := Nat.exists_eq_succ_of_ne_zero (Nat.ne_of_gt enough)
    rw [Subset.readDefinitions, skipSpace_of_isSpace hs, List.map_nil, List.append_nil]
  | @cons definition definitions gap cs ds hg written _ ih =>
    obtain ⟨fuel, rfl⟩ := Nat.exists_eq_succ_of_ne_zero (Nat.ne_of_gt (Nat.zero_lt_of_lt enough))
    have first := skipSpace_append hg.isSpace (written.isSetOff ds)
    have read := written.readDefinition ds
    have later := ih (Nat.lt_of_succ_lt_succ enough) (definition.asRead :: done)
    have ne : cs ++ ds ≠ [] := fun empty => written.ne_nil (List.append_eq_nil_iff.1 empty).1
    rw [Subset.readDefinitions, first]
    split
    · next empty => exact absurd empty ne
    · rw [read]
      show Subset.readDefinitions fuel ds (definition.asRead :: done) = _
      rw [later, List.reverse_cons, List.append_assoc]
      rfl

/-! ### Declarations -/

/-- A declaration of an internal subset. -/
inductive Declaration where
  /-- An element is declared with its content. -/
  | element (name : String) (content : ContentSpec)
  /-- Attributes of an element are defined. -/
  | attributes (element : String) (definitions : List AttributeDefinition)
  /-- A general entity is declared with its literal value. -/
  | entity (name literal : String)
  /-- A data format is declared by a name. -/
  | format (name : String)
  deriving DecidableEq, Repr

namespace Declaration

/-- The keyword of a declaration. -/
def keyword : Declaration → String
  | element .. => "ELEMENT"
  | attributes .. => "ATTLIST"
  | entity .. => "ENTITY"
  | format _ => "NOTATION"

/-- A declaration with the names in its lists as they are read. -/
def asRead : Declaration → Declaration
  | element name content => element name content.asRead
  | attributes owner definitions => attributes owner (definitions.map (·.asRead))
  | declaration => declaration

/-- What comes of a declaration after others. -/
def declared (declarations : Declarations) : Declaration → Except Fault Declared
  | element name content =>
    if (declarations.elements.lookup name).isSome then .error (.repeatedElement name)
    else .ok ⟨{ declarations with elements := declarations.elements ++ [(name, content)] }, none⟩
  | attributes owner definitions =>
    .ok ⟨{ declarations with
      attributeLists := addDefinitions owner definitions declarations.attributeLists }, none⟩
  | entity name literal =>
    if (declarations.entity? name).isSome then
      .ok ⟨declarations, some ("entity '" ++ name ++ "' declared more than once")⟩
    else
      .ok ⟨{ declarations with entities := declarations.entities ++ [(name, literal)] }, none⟩
  | format _ => .ok ⟨declarations, none⟩

end Declaration

/-- The place of a data format as it is written: identifiers, each after its keyword or the one
before. -/
inductive FormatWritten : List Char → Prop
  | system {literal : String} {gap cs : List Char} : IsGap gap → Quoted literal cs →
    FormatWritten ("SYSTEM".toList ++ (gap ++ cs))
  | identified {literal : String} {gap cs : List Char} : IsGap gap → Quoted literal cs →
    FormatWritten ("PUBLIC".toList ++ (gap ++ cs))
  | located {literal literal' : String} {gap gap' cs cs' : List Char} : IsGap gap →
    Quoted literal cs → IsGap gap' → Quoted literal' cs' →
    FormatWritten ("PUBLIC".toList ++ (gap ++ (cs ++ (gap' ++ cs'))))

/-- The body of a declaration as it is written, after its keyword. -/
inductive BodyWritten : Declaration → List Char → Prop
  | element {name : String} {content : ContentSpec} {gap gap' cs space : List Char} : IsGap gap →
    IsName name → IsGap gap' → ContentWritten content cs → IsSpace space →
    BodyWritten (.element name content) (gap ++ (name.toList ++ (gap' ++ (cs ++ space))))
  | attributes {element : String} {definitions : List AttributeDefinition} {gap cs : List Char} :
    IsGap gap → IsName element → DefinitionsWritten definitions cs →
    BodyWritten (.attributes element definitions) (gap ++ (element.toList ++ cs))
  | entity {name literal : String} {gap gap' cs space : List Char} : IsGap gap → IsName name →
    IsGap gap' → Quoted literal cs → IsSpace space →
    BodyWritten (.entity name literal) (gap ++ (name.toList ++ (gap' ++ (cs ++ space))))
  | format {name : String} {gap gap' cs space : List Char} : IsGap gap → IsName name →
    IsGap gap' → FormatWritten cs → IsSpace space →
    BodyWritten (.format name) (gap ++ (name.toList ++ (gap' ++ (cs ++ space))))

theorem ContentWritten.isSetOff {content : ContentSpec} (h : ContentWritten content cs)
    (rest : List Char) : IsSetOff (cs ++ rest) := by
  cases h with
  | children model =>
    obtain ⟨inner, same⟩ := model.opens
    rw [same]
    rintro _ ⟨⟩
    decide
  | empty | any | mixed =>
    rintro _ ⟨⟩
    decide

theorem DefinitionsWritten.endsName {definitions : List AttributeDefinition}
    (h : DefinitionsWritten definitions cs) : EndsName cs := by
  cases h with
  | nil hs => exact fun c hc => isNameChar_of_isSpace (hs c (List.mem_of_mem_head? hc))
  | cons hg _ _ => exact hg.endsName _

theorem BodyWritten.declare {declaration : Declaration} (h : BodyWritten declaration cs)
    (declarations : Declarations) :
    declare declaration.keyword cs declarations = declaration.asRead.declared declarations := by
  cases h with
  | @element name content gap gap' cs space hg hn hg' hc hs =>
    have first := skipSpace_append hg.isSpace (hn.isSetOff (gap' ++ (cs ++ space)))
    have word := readName?_append hn (hg'.endsName (cs ++ space))
    have apart := hg'.beginsWithSpace (cs ++ space)
    have second := skipSpace_append hg'.isSpace (hc.isSetOff space)
    show declareElement _ _ = _
    have read := hc.readContentSpec fun c h => Text.isBlank_of_isSpace (hs c h)
    simp only [declareElement, first, word, apart, second, read]
    show (if (declarations.elements.lookup name).isSome = true then _ else _) = _
    rw [Declaration.asRead, Declaration.declared]
    split <;> rfl
  | @attributes element definitions gap cs hg hn hd =>
    have first := skipSpace_append hg.isSpace (hn.isSetOff cs)
    have word := readName?_append hn hd.endsName
    have read := hd.readDefinitions (Nat.lt_succ_of_le hd.length_le) []
    show declareAttributes _ _ = _
    simp only [declareAttributes, first, word, read]
    rfl
  | @entity name literal gap gap' cs space hg hn hg' hq hs =>
    have first := skipSpace_append hg.isSpace (hn.isSetOff (gap' ++ (cs ++ space)))
    have general : startsWith (name.toList ++ (gap' ++ (cs ++ space))) "%" = false :=
      hn.not_startsWith _ rfl (by decide)
    have word := readName?_append hn (hg'.endsName (cs ++ space))
    have apart := hg'.beginsWithSpace (cs ++ space)
    have second := skipSpace_append hg'.isSpace (hq.isSetOff space)
    have system : startsWith (cs ++ space) "SYSTEM" = false :=
      hq.not_startsWith space rfl (by decide)
    have identified : startsWith (cs ++ space) "PUBLIC" = false :=
      hq.not_startsWith space rfl (by decide)
    show declareEntity _ _ = _
    simp only [declareEntity, first, general, word, apart, second, system, identified,
      hq.readQuoted?]
    show (if (declarations.entity? name).isSome = true then _ else _) = _
    rw [Declaration.asRead, Declaration.declared]
    · split <;> rfl
    · nofun
    · nofun
  | format => rfl

/-! ### The ends of declarations -/

theorem ContentWritten.closed {content : ContentSpec} (h : ContentWritten content cs) :
    Closed cs := by
  cases h with
  | empty | any => exact .of_all (by decide)
  | @mixed _ _ _ _ mark hs hs' written star =>
    have keyword : Closed "#PCDATA".toList := .of_all (by decide)
    have ending : Closed (')' :: mark) := by
      rcases star with rfl | rfl
      · exact .of_all (by decide)
      · exact .of_all (by decide)
    exact (hs.closed.append (keyword.append (hs'.closed.append
      (written.closed.append ending)))).plain (by decide) (by decide)
  | children model =>
    refine .of_forall fun c hc => ⟨ne_of_holds isInModel (model.chars c hc) (by decide), ?_⟩
    rintro (rfl | rfl)
    · exact absurd (model.chars _ hc) (by decide)
    · exact absurd (model.chars _ hc) (by decide)

theorem TypeWritten.closed {type : AttributeType} (h : TypeWritten type cs) : Closed cs := by
  cases h with
  | keyword known => exact (keyword_spec known).1.closed
  | enumeration written => exact written.closed
  | notations hg written =>
    exact .append (.of_all (by decide)) (hg.isSpace.closed.append written.closed)

theorem RuleWritten.closed {rule : DefaultRule} (h : RuleWritten rule cs) : Closed cs := by
  cases h with
  | required | implied => exact .of_all (by decide)
  | fixed hg quoted =>
    exact .append (.of_all (by decide)) (hg.isSpace.closed.append quoted.closed)
  | given quoted => exact quoted.closed

theorem DefinitionWritten.closed {definition : AttributeDefinition}
    (h : DefinitionWritten definition cs) : Closed cs := by
  obtain ⟨hn, hg, ht, hg', hr⟩ := h
  exact hn.closed.append (hg.isSpace.closed.append (ht.closed.append
    (hg'.isSpace.closed.append hr.closed)))

theorem DefinitionsWritten.closed {definitions : List AttributeDefinition}
    (h : DefinitionsWritten definitions cs) : Closed cs := by
  induction h with
  | nil hs => exact hs.closed
  | cons hg written _ ih => exact hg.isSpace.closed.append (written.closed.append ih)

theorem FormatWritten.closed (h : FormatWritten cs) : Closed cs := by
  have system : Closed "SYSTEM".toList := .of_all (by decide)
  have identified : Closed "PUBLIC".toList := .of_all (by decide)
  cases h with
  | system hg quoted => exact system.append (hg.isSpace.closed.append quoted.closed)
  | identified hg quoted => exact identified.append (hg.isSpace.closed.append quoted.closed)
  | located hg quoted hg' quoted' =>
    exact identified.append (hg.isSpace.closed.append (quoted.closed.append
      (hg'.isSpace.closed.append quoted'.closed)))

theorem BodyWritten.closed {declaration : Declaration} (h : BodyWritten declaration cs) :
    Closed cs := by
  cases h with
  | element hg hn hg' content hs =>
    exact hg.isSpace.closed.append (hn.closed.append (hg'.isSpace.closed.append
      (content.closed.append hs.closed)))
  | attributes hg hn definitions =>
    exact hg.isSpace.closed.append (hn.closed.append definitions.closed)
  | entity hg hn hg' quoted hs =>
    exact hg.isSpace.closed.append (hn.closed.append (hg'.isSpace.closed.append
      (quoted.closed.append hs.closed)))
  | format hg hn hg' format hs =>
    exact hg.isSpace.closed.append (hn.closed.append (hg'.isSpace.closed.append
      (format.closed.append hs.closed)))

/-- The keyword of a declaration ends where its body begins. -/
theorem BodyWritten.endsName {declaration : Declaration} (h : BodyWritten declaration cs)
    (rest : List Char) : EndsName (cs ++ rest) := by
  cases h with
  | element hg | attributes hg | entity hg | format hg =>
    rw [List.append_assoc]
    exact hg.endsName _

end XmlTable.Subset
