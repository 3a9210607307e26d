import XmlTable.Proofs.Course
import XmlTable.Proofs.Progress
import XmlTable.Proofs.Writing
import XmlTable.Reader

/-!
# Excerpts of a source

Whatever a reader is given was cut out of the source in one piece: the bytes of a token, those of an
attribute in a tag, and the literals of an internal subset. Each scan leaves a rest that ends where
the text ended that it was given, and what it hands out stands in that text before the rest.
-/

namespace XmlTable

section

variable {α : Type} {p : α → Bool} {whole part rest : List α} {stop : α}

/-- What stands before and after a place stands in the whole. -/
theorem infix_and_suffix_of_append (h : part ++ stop :: rest = whole) :
    part <:+: whole ∧ rest <:+ whole := by
  subst h
  exact ⟨(List.prefix_append part _).isInfix,
    (List.suffix_cons stop rest).trans (List.suffix_append part _)⟩

/-- A run ends before what is left behind it. -/
theorem takeWhile_append_of_dropWhile (h : whole.dropWhile p = stop :: rest) :
    whole.takeWhile p ++ stop :: rest = whole := by
  rw [← h]
  exact List.takeWhile_append_dropWhile

end

/-! ### Tokens -/

theorem Bytes.trimEnd_prefix (bytes : Bytes) : bytes.trimEnd <+: bytes := by
  unfold trimEnd
  dsimp only
  split
  · exact List.prefix_rfl
  · have kept := List.reverse_prefix.2 (bytes.reverse.dropWhile_suffix isSpace)
    rwa [List.reverse_reverse] at kept

namespace Token

/-- The bytes that a token holds. -/
def bytes : Token → Bytes
  | start tag | empty tag => tag.content
  | close held | text held | cdata held | comment held | instruction held | doctype held => held
  | declaration => []

namespace Lexer

variable {fault : Option String} {lexer next : Lexer} {token : Token} {whole : Bytes}

/-- A token that a step reads is cut out of some bytes, and what the lexer has left then is the end
of them. -/
def Step.Cuts (whole : Bytes) (step : Step) : Prop :=
  ∀ token next, step = .token token next → token.bytes <:+: whole ∧ next.rest <:+ whole

namespace Step.Cuts

variable {step : Step}

theorem finished (position : Nat) : Cuts whole (.finished position) := by
  rintro _ _ ⟨⟩

theorem malformed (fault : Fault) : Cuts whole (.malformed fault) := by
  rintro _ _ ⟨⟩

theorem read (held : token.bytes <:+: whole) (left : next.rest <:+ whole) :
    Cuts whole (.token token next) := by
  rintro _ _ ⟨⟩
  exact ⟨held, left⟩

theorem atEnd (h : Cuts whole step) : Cuts whole (step.atEnd fault) := by
  cases fault with
  | none => exact h
  | some message => rintro _ _ ⟨⟩

end Step.Cuts

open Step (Cuts)

theorem infix_of_bangToken {kind : Bang} {content : Bytes}
    (h : bangToken kind content = .ok token) : token.bytes <:+: content := by
  have inside : ∀ count length : Nat, (content.drop count).take length <:+: content :=
    fun count length => (List.take_prefix length _).isInfix.trans (List.drop_suffix count _).isInfix
  cases kind with
  | comment =>
    rw [bangToken] at h
    split at h <;> cases h
    exact inside _ _
  | cdata =>
    rw [bangToken] at h
    split at h <;> cases h
    exact inside _ _
  | doctype =>
    rw [bangToken] at h
    dsimp only at h
    split at h
    · split at h <;> cases h
      exact ((List.dropWhile_suffix _).trans (List.drop_suffix 8 content)).isInfix
    · cases h

/-- The bytes up to the end of markup with an exclamation mark, that end, and the bytes after it are
all that there was. -/
theorem append_of_splitBang {kind : Bang} {balance : Int} {seen bytes content rest : Bytes}
    (h : splitBang kind balance seen bytes = some (content, rest)) :
    content ++ Bytes.ofChar '>' :: rest = seen.reverse ++ bytes := by
  induction bytes generalizing balance seen with
  | nil => cases h
  | cons b bytes ih =>
    have onward : (b :: seen).reverse ++ bytes = seen.reverse ++ b :: bytes := by
      rw [List.reverse_cons, List.append_assoc, List.singleton_append]
    rw [splitBang] at h
    split at h
    · next closes =>
      subst closes
      split at h
      · cases h
        rfl
      · exact (ih h).trans onward
    · split at h
      · exact (ih h).trans onward
      · exact (ih h).trans onward

theorem readBang_cuts : Cuts lexer.rest (lexer.readBang fault) := by
  unfold readBang
  split
  · next mark b bytes hrest =>
    split
    · exact .malformed _
    · split
      · exact (Cuts.malformed _).atEnd
      · next content rest hsplit =>
        obtain ⟨held, left⟩ := infix_and_suffix_of_append (append_of_splitBang hsplit)
        split
        · next token htoken =>
          rw [hrest]
          exact .read ((infix_of_bangToken htoken).trans held) left
        · exact .malformed _
  · exact (Cuts.malformed _).atEnd

theorem closeElement_cuts {name : Bytes} (held : name <:+: whole) (left : lexer.rest <:+ whole) :
    Cuts whole (lexer.closeElement name) := by
  unfold closeElement
  split
  · exact .malformed _
  · dsimp only
    split
    · exact .read (name.trimEnd_prefix.isInfix.trans held) left
    · exact .malformed _

theorem readClose_cuts : Cuts lexer.rest (lexer.readClose fault) := by
  have body := List.drop_suffix 1 lexer.rest
  unfold readClose
  dsimp only
  split
  · next stop rest hrest =>
    obtain ⟨held, left⟩ := infix_and_suffix_of_append (takeWhile_append_of_dropWhile hrest)
    exact closeElement_cuts (held.trans body.isInfix) (left.trans body)
  · exact (closeElement_cuts ((List.takeWhile_prefix _).isInfix.trans body.isInfix)
      List.nil_suffix).atEnd

theorem finishInstruction_cuts {content : Bytes} (held : content <:+: whole)
    (left : lexer.rest <:+ whole) : Cuts whole (lexer.finishInstruction content) := by
  unfold finishInstruction
  split
  · next token htoken =>
    refine .read (List.IsInfix.trans ?_ held) left
    unfold instructionToken at htoken
    split at htoken
    · cases htoken
    · split at htoken <;> cases htoken
      · exact List.nil_infix
      · exact (List.take_prefix _ _).isInfix.trans (List.drop_suffix 1 content).isInfix
  · exact .malformed _

theorem readInstruction_cuts : Cuts lexer.rest (lexer.readInstruction fault) := by
  unfold readInstruction
  dsimp only
  split
  · next stop rest hrest =>
    obtain ⟨held, left⟩ := infix_and_suffix_of_append (takeWhile_append_of_dropWhile hrest)
    exact finishInstruction_cuts held left
  · exact (finishInstruction_cuts (List.takeWhile_prefix _).isInfix List.nil_suffix).atEnd

/-- The bytes up to the end of a tag, that end, and the bytes after it are all that there was;
without an end the bytes up to it are. -/
theorem append_of_splitTag {quote : Option UInt8} {seen bytes content : Bytes}
    {rest : Option Bytes} (h : splitTag quote seen bytes = (content, rest)) :
    content ++ rest.elim [] (Bytes.ofChar '>' :: ·) = seen.reverse ++ bytes := by
  induction bytes generalizing quote seen with
  | nil => cases h; rfl
  | cons b bytes ih =>
    have onward : (b :: seen).reverse ++ bytes = seen.reverse ++ b :: bytes := by
      rw [List.reverse_cons, List.append_assoc, List.singleton_append]
    cases quote with
    | some quote => exact (ih h).trans onward
    | none =>
      rw [splitTag] at h
      split at h
      · next closes =>
        subst closes
        cases h
        rfl
      · split at h
        · exact (ih h).trans onward
        · exact (ih h).trans onward

theorem finishTag_cuts {content : Bytes} (held : content <:+: whole) (left : lexer.rest <:+ whole) :
    Cuts whole (lexer.finishTag content) := by
  have inside : (tagToken content).bytes <:+: whole := by
    unfold tagToken
    dsimp only
    split
    · exact content.dropLast_prefix.isInfix.trans held
    · exact held
  unfold finishTag
  split
  · next tag htag =>
    rw [htag] at inside
    exact .read inside left
  · exact .read inside left

theorem readTag_cuts : Cuts lexer.rest (lexer.readTag fault) := by
  unfold readTag
  split
  · next content rest hsplit =>
    obtain ⟨held, left⟩ := infix_and_suffix_of_append (append_of_splitTag hsplit)
    exact finishTag_cuts held left
  · next content hsplit =>
    obtain rfl : content = lexer.rest := by simpa using append_of_splitTag hsplit
    exact (finishTag_cuts List.infix_rfl List.nil_suffix).atEnd

theorem readMarkup_cuts : Cuts lexer.rest (lexer.readMarkup fault) := by
  unfold readMarkup
  split
  · exact (Cuts.finished _).atEnd
  · split
    · exact readBang_cuts
    · split
      · exact readClose_cuts
      · split
        · exact readInstruction_cuts
        · exact readTag_cuts

theorem readText_cuts : Cuts lexer.rest (lexer.readText fault) := by
  unfold readText
  dsimp only
  split
  · next stop rest hrest =>
    obtain ⟨held, left⟩ := infix_and_suffix_of_append (takeWhile_append_of_dropWhile hrest)
    exact .read held left
  · have held := (List.takeWhile_prefix (l := lexer.rest) (· ≠ Bytes.ofChar '<')).isInfix
    exact Cuts.atEnd (.read held List.nil_suffix)

/-- A step of the lexer cuts a token out of the bytes that are left. -/
theorem step_cuts : Cuts lexer.rest (lexer.step fault) := by
  unfold step
  split
  · show Cuts { lexer with afterText := false }.rest _
    exact readMarkup_cuts
  · split
    · exact (Cuts.finished _).atEnd
    · next b rest hrest =>
      split
      · intro token next hstep
        obtain ⟨held, left⟩ := readMarkup_cuts _ _ hstep
        have shorter : rest <:+ lexer.rest := hrest ▸ List.suffix_cons b rest
        exact ⟨held.trans shorter.isInfix, left.trans shorter⟩
      · exact readText_cuts

/-- All tokens that the lexer reads from where it is are cut out of the bytes that are left. -/
theorem infix_of_mem_readAll {fuel : Nat} {done : List (Nat × Token)} {position : Nat}
    (h : (position, token) ∈ (readAll fault fuel lexer done).tokens) :
    (position, token) ∈ done ∨ token.bytes <:+: lexer.rest := by
  induction fuel generalizing lexer done with
  | zero => exact .inl (List.mem_reverse.1 h)
  | succ fuel ih =>
    unfold readAll at h
    split at h
    · next found next hstep =>
      obtain ⟨held, left⟩ := step_cuts _ _ hstep
      -- The token is one of those before, the one that this step reads, or one of the later ones.
      rcases ih h with before | later
      · rcases List.mem_cons.1 before with same | before
        · cases same
          exact .inr held
        · exact .inl before
      · exact .inr (later.trans left.isInfix)
    all_goals exact .inl (List.mem_reverse.1 h)

end Lexer

end Token

/-- The tokens of a source are cut out of its bytes. -/
theorem Source.infix_of_mem_tokens {source : Source} {position : Nat} {token : Token}
    (h : (position, token) ∈ source.tokens.tokens) : token.bytes <:+: source.bytes := by
  rcases Token.Lexer.infix_of_mem_readAll h with none | held
  · cases none
  · refine held.trans ?_
    unfold Token.Lexer.start
    dsimp only
    split
    · exact (List.drop_suffix 3 _).isInfix
    · exact List.infix_rfl

/-! ### Attributes -/

namespace Tag

variable {rest rest' whole : Bytes} {position position' : Nat}

theorem suffix_of_findEquals (h : findEquals rest position = .ok (rest', position')) :
    rest' <:+ rest := by
  unfold findEquals at h
  dsimp only at h
  split at h
  · cases h
  · next b after hafter =>
    split at h <;> cases h
    exact (infix_and_suffix_of_append (takeWhile_append_of_dropWhile hafter)).2

theorem infix_of_readValue {value : Bytes}
    (h : readValue rest position = .ok (value, rest', position')) :
    value <:+: rest ∧ rest' <:+ rest := by
  unfold readValue at h
  dsimp only at h
  split at h
  · cases h
  · next quote body hbody =>
    obtain ⟨-, inside⟩ := infix_and_suffix_of_append (takeWhile_append_of_dropWhile hbody)
    split at h
    · split at h <;> cases h
      next stop hstop =>
      obtain ⟨held, left⟩ := infix_and_suffix_of_append (takeWhile_append_of_dropWhile hstop)
      exact ⟨held.trans inside.isInfix, left.trans inside⟩
    · cases h

theorem infix_of_readAttribute {earlier : List (Bytes × Nat)} {attr : Attribute} {start : Nat}
    (h : readAttribute earlier rest position = .found attr start rest' position') :
    attr.value <:+: rest ∧ rest' <:+ rest := by
  unfold readAttribute at h
  dsimp only at h
  split at h
  · cases h
  · next first after hafter =>
    obtain ⟨-, inside⟩ := infix_and_suffix_of_append (takeWhile_append_of_dropWhile hafter)
    split at h
    · cases h
    · next behind _ hequals =>
      have equals := (suffix_of_findEquals hequals).trans (List.dropWhile_suffix _)
      split at h
      · cases h
      · split at h <;> cases h
        next hvalue =>
        obtain ⟨held, left⟩ := infix_of_readValue hvalue
        have all := equals.trans inside
        exact ⟨held.trans all.isInfix, left.trans all⟩

theorem infix_of_mem_readAttributes {fuel : Nat} {earlier : List (Bytes × Nat)}
    {done : List Attribute} {attr : Attribute}
    (h : attr ∈ (readAttributes fuel earlier rest position done).list) :
    attr ∈ done ∨ attr.value <:+: rest := by
  induction fuel generalizing earlier rest position done with
  | zero => exact .inl (List.mem_reverse.1 h)
  | succ fuel ih =>
    rw [readAttributes] at h
    split at h
    · exact .inl (List.mem_reverse.1 h)
    · exact .inl (List.mem_reverse.1 h)
    · next hfound =>
      obtain ⟨held, left⟩ := infix_of_readAttribute hfound
      rcases ih h with before | later
      · rcases List.mem_cons.1 before with rfl | before
        · exact .inr held
        · exact .inl before
      · exact .inr (later.trans left.isInfix)

/-- The values of the attributes of a tag are cut out of the tag. -/
theorem infix_of_mem_attributes {tag : Tag} {attr : Attribute} (h : attr ∈ tag.attributes.list) :
    attr.value <:+: tag.content := by
  rcases infix_of_mem_readAttributes h with none | held
  · cases none
  · exact held.trans (List.drop_suffix _ _).isInfix

end Tag

/-! ### Texts -/

namespace Bytes

/-- Bytes that encode a text are its bytes. -/
theorem eq_encode_of_utf8? {bytes : Bytes} {text : String} (h : bytes.utf8? = some text) :
    bytes = encode text := by
  unfold utf8? String.fromUTF8? at h
  split at h
  · cases h
    rfl
  · cases h

/-- What is cut out of a text is cut out of its bytes. -/
theorem encode_infix {cs : List Char} {text : String} (h : cs <:+: text.toList) :
    encode (String.ofList cs) <:+: encode text := by
  obtain ⟨before, after, whole⟩ := h
  rw [← @String.ofList_toList text, ← whole, String.ofList_append, String.ofList_append,
    encode_append, encode_append]
  exact ⟨_, _, rfl⟩

end Bytes

/-- The internal subset stands in a document type declaration at its place, behind a bracket. -/
theorem Reader.append_of_internalSubset? {content subset : String} {start : Nat}
    (h : internalSubset? content = some (start, subset)) :
    ∃ outside behind, content.toList = outside ++ '[' :: (subset.toList ++ behind) ∧
      start = Text.byteLength outside + 1 := by
  unfold internalSubset? at h
  dsimp only at h
  split at h
  · cases h
  · next opening inside hinside =>
    cases h
    have bracket : opening = '[' := by
      have stops := List.head?_dropWhile_not (· ≠ '[') content.toList
      rw [hinside] at stops
      simpa using stops
    have whole := (takeWhile_append_of_dropWhile hinside).symm
    rw [bracket] at whole
    have kept : (if inside.contains ']' then ((inside.reverse.dropWhile (· ≠ ']')).drop 1).reverse
        else inside) <+: inside := by
      split
      · have back := List.reverse_prefix.2
          (((inside.reverse.dropWhile (· ≠ ']')).drop_suffix 1).trans
            (inside.reverse.dropWhile_suffix _))
        rwa [List.reverse_reverse] at back
      · exact List.prefix_rfl
    obtain ⟨behind, parts⟩ := kept
    refine ⟨_, behind, ?_, rfl⟩
    rw [String.toList_ofList, parts]
    exact whole

/-- The internal subset is cut out of a document type declaration. -/
theorem Reader.infix_of_internalSubset? {content subset : String} {start : Nat}
    (h : internalSubset? content = some (start, subset)) : subset.toList <:+: content.toList := by
  obtain ⟨outside, behind, whole, -⟩ := append_of_internalSubset? h
  refine ⟨outside ++ ['['], behind, ?_⟩
  rw [whole, List.append_assoc, List.append_assoc, List.singleton_append]

/-! ### Literals -/

namespace Subset

variable {cs rest whole : List Char}

theorem infix_of_readQuoted? {value : String} (h : readQuoted? cs = some (value, rest)) :
    value.toList <:+: cs ∧ rest <:+ cs := by
  cases cs with
  | nil => cases h
  | cons quote body =>
    rw [readQuoted?] at h
    split at h
    · split at h
      · next stop after hafter =>
        cases h
        rw [String.toList_ofList]
        obtain ⟨held, left⟩ := infix_and_suffix_of_append (takeWhile_append_of_dropWhile hafter)
        have inside := List.suffix_cons quote body
        exact ⟨held.trans inside.isInfix, left.trans inside⟩
      · cases h
    · cases h

theorem suffix_of_readName? {name : String} (h : readName? cs = some (name, rest)) :
    rest <:+ cs := by
  unfold readName? at h
  split at h
  · cases h
  · cases h
    exact List.dropWhile_suffix _

theorem suffix_of_readGroup {names : List String} (h : readGroup cs = .ok (names, rest)) :
    rest <:+ cs := by
  unfold readGroup at h
  split at h
  · next body =>
    split at h
    · next stop after hafter =>
      cases h
      obtain ⟨-, left⟩ := infix_and_suffix_of_append (takeWhile_append_of_dropWhile hafter)
      exact left.trans (List.suffix_cons _ _)
    · cases h
  · cases h

theorem suffix_of_readType {type : AttributeType} (h : readType cs = .ok (type, rest)) :
    rest <:+ cs := by
  unfold readType at h
  split at h
  · obtain ⟨found, group, h⟩ := exists_of_bind_eq_ok h
    cases h
    exact suffix_of_readGroup group
  · split at h
    · cases h
    · next keyword after name =>
      have left := suffix_of_readName? name
      split at h
      · cases h
        exact left
      · split at h
        · obtain ⟨found, group, h⟩ := exists_of_bind_eq_ok h
          cases h
          exact (suffix_of_readGroup group).trans ((List.dropWhile_suffix _).trans left)
        · cases h

/-- The values of a rule are cut out of a text. -/
def DefaultRule.CutFrom (whole : List Char) (rule : DefaultRule) : Prop :=
  ∀ value, rule.value? = some value → value.toList <:+: whole

theorem infix_of_readRule {rule : DefaultRule} (h : readRule cs = .ok (rule, rest)) :
    rule.CutFrom cs ∧ rest <:+ cs := by
  unfold readRule at h
  split at h
  · cases h
    exact ⟨nofun, List.drop_suffix _ _⟩
  · split at h
    · cases h
      exact ⟨nofun, List.drop_suffix _ _⟩
    · split at h
      · split at h <;> cases h
        next value quoted =>
        obtain ⟨held, left⟩ := infix_of_readQuoted? quoted
        have inside := (List.dropWhile_suffix Text.isSpace).trans (List.drop_suffix 6 cs)
        refine ⟨fun value same => ?_, left.trans inside⟩
        cases same
        exact held.trans inside.isInfix
      · split at h <;> cases h
        next value quoted =>
        obtain ⟨held, left⟩ := infix_of_readQuoted? quoted
        refine ⟨fun value same => ?_, left⟩
        cases same
        exact held

theorem infix_of_readDefinition {definition : AttributeDefinition}
    (h : readDefinition cs = .ok (definition, rest)) :
    definition.rule.CutFrom cs ∧ rest <:+ cs := by
  unfold readDefinition at h
  split at h
  · cases h
  · next name behind hname =>
    obtain ⟨⟨type, afterType⟩, htype, h⟩ := exists_of_bind_eq_ok h
    obtain ⟨⟨rule, afterRule⟩, hrule, h⟩ := exists_of_bind_eq_ok h
    cases h
    obtain ⟨held, left⟩ := infix_of_readRule hrule
    have before := (List.dropWhile_suffix Text.isSpace).trans ((suffix_of_readType htype).trans
      ((List.dropWhile_suffix Text.isSpace).trans (suffix_of_readName? hname)))
    exact ⟨fun value same => (held value same).trans before.isInfix, left.trans before⟩

theorem infix_of_mem_readDefinitions {fuel : Nat} {done definitions : List AttributeDefinition}
    (h : readDefinitions fuel cs done = .ok definitions) {definition : AttributeDefinition}
    (hm : definition ∈ definitions) : definition ∈ done ∨ definition.rule.CutFrom cs := by
  induction fuel generalizing cs done with
  | zero =>
    cases h
    exact .inl (List.mem_reverse.1 hm)
  | succ fuel ih =>
    rw [readDefinitions] at h
    split at h
    · cases h
      exact .inl (List.mem_reverse.1 hm)
    · next hskip =>
      obtain ⟨⟨found, after⟩, hfound, h⟩ := exists_of_bind_eq_ok h
      obtain ⟨held, left⟩ := infix_of_readDefinition hfound
      have skipped : skipSpace cs <:+ cs := List.dropWhile_suffix _
      rcases ih h with before | later
      · rcases List.mem_cons.1 before with rfl | before
        · exact .inr fun value same => (held value same).trans skipped.isInfix
        · exact .inl before
      · exact .inr fun value same =>
          (later value same).trans (left.trans skipped).isInfix

/-- The literals in some declarations are cut out of a text. -/
structure Declarations.CutFrom (whole : List Char) (declarations : Declarations) : Prop where
  /-- Those of entities. -/
  entities : ∀ entity ∈ declarations.entities, entity.2.toList <:+: whole
  /-- Those of attributes. -/
  attributes : ∀ list ∈ declarations.attributeLists, ∀ definition ∈ list.2,
    definition.rule.CutFrom whole

theorem Declarations.cutFrom_none : Declarations.none.CutFrom whole where
  entities := List.forall_mem_nil _
  attributes := List.forall_mem_nil _

theorem Declarations.CutFrom.mono {declarations : Declarations} {part : List Char}
    (h : declarations.CutFrom part) (hp : part <:+: whole) : declarations.CutFrom whole where
  entities entity hm := (h.entities entity hm).trans hp
  attributes list hl definition hm value same :=
    (h.attributes list hl definition hm value same).trans hp

/-- A default of an element is the literal of an attribute. -/
theorem Declarations.exists_of_mem_defaults {declarations : Declarations} {element : String}
    {default : AttributeDefinition × String} (hd : default ∈ declarations.defaults element) :
    ∃ list ∈ declarations.attributeLists, ∃ definition ∈ list.2,
      definition.rule.value? = some default.2 := by
  obtain ⟨definition, hm, hv⟩ := List.mem_filterMap.1 hd
  obtain ⟨value, same, rfl⟩ := Option.map_eq_some_iff.1 hv
  unfold definitions at hm
  cases found : declarations.attributeLists.lookup element with
  | none =>
    rw [found] at hm
    cases hm
  | some list =>
    rw [found] at hm
    exact ⟨_, mem_of_lookup_eq_some found, definition, hm, same⟩

theorem Declarations.CutFrom.defaults {declarations : Declarations}
    (h : declarations.CutFrom whole) {element : String} {default : AttributeDefinition × String}
    (hd : default ∈ declarations.defaults element) : default.2.toList <:+: whole := by
  obtain ⟨list, hl, definition, hm, same⟩ := exists_of_mem_defaults hd
  exact h.attributes list hl definition hm _ same

theorem mem_of_mem_foldl_addDefinition {old new : List AttributeDefinition}
    {definition : AttributeDefinition} (h : definition ∈ new.foldl addDefinition old) :
    definition ∈ old ∨ definition ∈ new := by
  induction new generalizing old with
  | nil => exact .inl h
  | cons first rest ih =>
    rcases ih h with before | later
    · unfold addDefinition at before
      split at before
      · exact .inl before
      · rcases List.mem_append.1 before with before | single
        · exact .inl before
        · exact .inr (List.mem_singleton.1 single ▸ List.mem_cons_self)
    · exact .inr (List.mem_cons_of_mem _ later)

/-- A definition is one of those that there were or one of the new ones. -/
theorem mem_of_mem_addDefinitions {element : String} {new : List AttributeDefinition}
    {lists : List (String × List AttributeDefinition)} {list : String × List AttributeDefinition}
    (hl : list ∈ addDefinitions element new lists) {definition : AttributeDefinition}
    (hd : definition ∈ list.2) : (∃ list ∈ lists, definition ∈ list.2) ∨ definition ∈ new := by
  induction lists with
  | nil =>
    obtain rfl := List.mem_singleton.1 hl
    exact (mem_of_mem_foldl_addDefinition hd).imp_left (absurd · List.not_mem_nil)
  | cons first rest ih =>
    rw [addDefinitions] at hl
    split at hl
    · rcases List.mem_cons.1 hl with rfl | hl
      · exact (mem_of_mem_foldl_addDefinition hd).imp_left fun hm =>
          ⟨first, List.mem_cons_self, hm⟩
      · exact .inl ⟨list, List.mem_cons_of_mem _ hl, hd⟩
    · rcases List.mem_cons.1 hl with rfl | hl
      · exact .inl ⟨_, List.mem_cons_self, hd⟩
      · exact (ih hl).imp_left fun ⟨list, hm, hd⟩ => ⟨list, List.mem_cons_of_mem _ hm, hd⟩

section

variable {declarations : Declarations} {body : List Char} {declared : Declared}

theorem declareEntity_cutFrom (hd : declarations.CutFrom whole) (hb : body <:+: whole)
    (h : declareEntity body declarations = .ok declared) : declared.declarations.CutFrom whole := by
  unfold declareEntity at h
  dsimp only at h
  split at h
  · cases h
    exact hd
  · split at h
    · cases h
    · next name rest hname =>
      split at h
      · cases h
      · split at h
        · cases h
          exact hd
        · split at h
          · cases h
          · next value after quoted =>
            split at h
            · cases h
              exact hd
            · cases h
              obtain ⟨held, -⟩ := infix_of_readQuoted? quoted
              have inside := (List.dropWhile_suffix Text.isSpace).trans
                ((suffix_of_readName? hname).trans (List.dropWhile_suffix Text.isSpace))
              refine ⟨fun entity hm => ?_, hd.attributes⟩
              rcases List.mem_append.1 hm with hm | hm
              · exact hd.entities entity hm
              · obtain rfl := List.mem_singleton.1 hm
                exact (held.trans inside.isInfix).trans hb

theorem declareAttributes_cutFrom (hd : declarations.CutFrom whole) (hb : body <:+: whole)
    (h : declareAttributes body declarations = .ok declared) :
    declared.declarations.CutFrom whole := by
  unfold declareAttributes at h
  split at h
  · cases h
  · next element rest hname =>
    obtain ⟨new, hnew, h⟩ := exists_of_bind_eq_ok h
    cases h
    refine ⟨hd.entities, fun list hl definition hm value same => ?_⟩
    rcases mem_of_mem_addDefinitions hl hm with ⟨list, hl, hm⟩ | hm
    · exact hd.attributes list hl definition hm value same
    · rcases infix_of_mem_readDefinitions hnew hm with none | held
      · cases none
      · have inside := (suffix_of_readName? hname).trans (List.dropWhile_suffix Text.isSpace)
        exact ((held value same).trans inside.isInfix).trans hb

theorem declareElement_cutFrom (hd : declarations.CutFrom whole)
    (h : declareElement body declarations = .ok declared) :
    declared.declarations.CutFrom whole := by
  unfold declareElement at h
  split at h
  · cases h
  · dsimp only at h
    split at h
    · cases h
    · obtain ⟨content, -, h⟩ := exists_of_bind_eq_ok h
      split at h
      · cases h
      · cases h
        exact ⟨hd.entities, hd.attributes⟩

/-- A declaration adds literals that are cut out of its body. -/
theorem declare_cutFrom {keyword : String} (hd : declarations.CutFrom whole)
    (hb : body <:+: whole) (h : declare keyword body declarations = .ok declared) :
    declared.declarations.CutFrom whole := by
  unfold declare at h
  split at h
  · exact declareEntity_cutFrom hd hb h
  · split at h
    · exact declareAttributes_cutFrom hd hb h
    · split at h
      · exact declareElement_cutFrom hd h
      · split at h
        · cases h
          exact hd
        · cases h

end

theorem suffix_of_after? {pattern : List Char} (h : Text.after? pattern cs = some rest) :
    rest <:+ cs := by
  induction cs with
  | nil =>
    rw [Text.after?] at h
    split at h <;> cases h
    exact List.suffix_rfl
  | cons c cs ih =>
    rw [Text.after?] at h
    split at h
    · cases h
      exact List.drop_suffix _ _
    · exact (ih h).trans (List.suffix_cons c cs)

/-- The body of a declaration, its end, and what comes after it are all that there was. -/
theorem append_of_splitBody {quote : Option Char} {seen body : List Char}
    (h : splitBody quote seen cs = some (body, rest)) :
    body ++ '>' :: rest = seen.reverse ++ cs := by
  induction cs generalizing quote seen with
  | nil => cases h
  | cons c cs ih =>
    have onward : (c :: seen).reverse ++ cs = seen.reverse ++ c :: cs := by
      rw [List.reverse_cons, List.append_assoc, List.singleton_append]
    cases quote with
    | some quote => exact (ih h).trans onward
    | none =>
      rw [splitBody] at h
      split at h
      · next closes =>
        subst closes
        cases h
        rfl
      · split at h
        · exact (ih h).trans onward
        · exact (ih h).trans onward

/-- What comes after an item is the end of the text. -/
theorem suffix_of_afterItem? (h : afterItem? cs = some rest) : rest <:+ cs := by
  unfold afterItem? at h
  split at h
  · exact suffix_of_after? h
  · split at h
    · exact suffix_of_after? h
    · split at h
      · obtain ⟨⟨body, rest⟩, split, rfl⟩ := Option.map_eq_some_iff.1 h
        have whole := append_of_splitBody split
        rw [List.reverse_nil, List.nil_append] at whole
        exact (infix_and_suffix_of_append whole).2.trans
          ((List.dropWhile_suffix _).trans (List.drop_suffix _ _))
      · split at h
        · exact suffix_of_after? h
        · split at h
          · cases h
          · cases h
            exact List.dropWhile_suffix _

namespace Scanning

/-- If the work ends with an answer, something is true of that. -/
def Finds {α : Type} (work : Scanning α) (P : α → Prop) : Prop :=
  ∀ journal, work.Meets journal (fun a _ => P a) fun _ _ => True

variable {α β : Type} {P : α → Prop} {Q : β → Prop}

theorem Finds.of_run_eq_ok {work : Scanning α} (h : work.Finds P) {journal : Journal} {a : α}
    (ends : (work.run.run journal).1 = .ok a) : P a := by
  have finds := h journal
  unfold Meets at finds
  generalize work.run.run journal = r at finds ends
  obtain ⟨_ | found, _⟩ := r
  · cases ends
  · cases ends
    exact finds

theorem Finds.pure {a : α} (h : P a) : Finds (pure a) P :=
  fun _ => h

theorem Finds.throw (stop : Stop) : Finds (throw stop) P :=
  fun _ => trivial

theorem Finds.bind {work : Scanning α} {next : α → Scanning β} (h : work.Finds P)
    (hn : ∀ a, P a → (next a).Finds Q) : (work >>= next).Finds Q := fun journal =>
  (meets_bind work next).2 ((h journal).mono (fun a journal' ha => hn a ha journal')
    fun _ _ _ => trivial)

theorem Finds.and {work : Scanning α} {A : α → Prop} (h : work.Finds P) (ha : work.Finds A) :
    work.Finds fun a => P a ∧ A a := by
  intro journal
  have first := h journal
  have second := ha journal
  unfold Meets at first second ⊢
  split
  · next same => exact ⟨by rwa [same] at first, by rwa [same] at second⟩
  · trivial

theorem finds_true (work : Scanning α) : work.Finds fun _ => True := by
  intro journal
  unfold Meets
  split <;> trivial

/-- What is found in any case is found after other work. -/
theorem Finds.after {work : Scanning α} {next : α → Scanning β} (hn : ∀ a, (next a).Finds Q) :
    (work >>= next).Finds Q :=
  (finds_true work).bind fun a _ => hn a

end Scanning

open Scanning (Finds)

variable {declarations : Declarations} {position : Unit → Nat}

theorem scanItem_finds_afterItem? (position : Unit → Nat) (declarations : Declarations)
    (cs : List Char) : (scanItem position declarations cs).Finds (·.2 = afterItem? cs) :=
  fun journal => (scanItem_advances position declarations cs journal).mono
    (fun _ _ found => found.1) fun _ _ _ => trivial

/-- What is true of the declarations that an item comes to is found after it. -/
theorem scanItem_finds {P : Declarations → Prop}
    (read : ∀ declared, readItem declarations cs = .ok declared → P declared.declarations)
    (unread : ∀ fault, readItem declarations cs = .error fault → P declarations) :
    (scanItem position declarations cs).Finds (P ·.1) := by
  rw [scanItem_eq]
  cases comes : readItem declarations cs with
  | ok declared => exact .after fun _ => .pure (read declared comes)
  | error fault => exact .after fun _ => .pure (unread fault comes)

/-- After an item the literals that are known are cut out of the text. -/
theorem readItem_cutFrom (hd : declarations.CutFrom whole) (hcs : cs <:+: whole)
    (declared : Declared) (h : readItem declarations cs = .ok declared) :
    declared.declarations.CutFrom whole := by
  obtain same | ⟨body, rest, split, declares⟩ := eq_or_declare_of_readItem h
  · rwa [same]
  · have behind := ((cs.drop 2).dropWhile_suffix isNameChar).trans (List.drop_suffix 2 cs)
    obtain ⟨held, -⟩ := infix_and_suffix_of_append (append_of_splitBody split)
    exact declare_cutFrom hd ((held.trans behind.isInfix).trans hcs) declares

theorem scanFrom_finds {base total fuel : Nat} (hd : declarations.CutFrom whole)
    (hcs : cs <:+: whole) :
    (scanFrom base total fuel declarations cs).Finds (·.CutFrom whole) := by
  induction fuel generalizing declarations cs with
  | zero => exact .throw _
  | succ fuel ih =>
    have skipped : skipSpace cs <:+ cs := List.dropWhile_suffix _
    rw [scanFrom]
    split
    · exact .pure hd
    · -- What an item leaves is a suffix, so that the rest of the scan cuts out of the same text.
      have cuts := readItem_cutFrom hd (skipped.isInfix.trans hcs)
      refine Finds.bind ((scanItem_finds cuts fun _ _ => hd).and
        (scanItem_finds_afterItem? _ _ _)) ?_
      rintro ⟨found, left⟩ ⟨known, after⟩
      cases left with
      | none => exact .pure known
      | some rest =>
        have left := (suffix_of_afterItem? after.symm).trans skipped
        exact ih known (left.isInfix.trans hcs)

/-- The literals that a scan finds are cut out of the internal subset. -/
theorem scan_finds (patience base : Nat) (subset : String) :
    (scan patience base subset).Finds (·.CutFrom subset.toList) :=
  scanFrom_finds Declarations.cutFrom_none List.infix_rfl

end Subset

end XmlTable
