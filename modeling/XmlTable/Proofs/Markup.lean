import Mathlib.Data.List.Forall2
import XmlTable.Proofs.Writing
import XmlTable.Reader
import XmlTable.Tree

/-!
# Elements as they are written

An element is written as a tag, what is written for its content, and an end tag. In the tag stand
the name and, each after white space, the attributes with their values in quotes. The attributes of
a tag are read as they were written.
-/

namespace XmlTable

/-- The characters that are written as references in character data. -/
def Reference.reserved : List Char := ['&', '<', '>', '\r']

/-- The characters that are written as references in the value of an attribute. -/
def Reference.reservedInValue : List Char := reserved ++ ['\x22', '\x27', '\t', '\n']

open Reference (reservedInValue)

namespace Tag

/-! ### Reading an attribute that was written -/

/-- The bytes are white space. -/
def isBlank (space : Bytes) : Bool :=
  space.all Bytes.isSpace

/-- A byte that goes on with the key of an attribute. -/
def isInKey (b : UInt8) : Bool :=
  b ≠ Bytes.ofChar '=' && !Bytes.isSpace b

/-- The bytes are accepted as the key of an attribute. -/
def isKey : Bytes → Bool
  | [] => false
  | first :: rest => !Bytes.isSpace first && rest.all isInKey

/-- The byte is a quotation mark of one of the two kinds. -/
def IsQuote (b : UInt8) : Prop :=
  b = Bytes.ofChar '\x22' ∨ b = Bytes.ofChar '\x27'

variable {space key value rest bytes : Bytes} {quote : UInt8} {position : Nat}
  {earlier : List (Bytes × Nat)}

theorem IsQuote.isSpace (h : IsQuote quote) : Bytes.isSpace quote = false := by
  rcases h with rfl | rfl <;> decide

theorem readAttribute_blank (hs : isBlank space = true) :
    readAttribute earlier space position = .finished := by
  have none : space.dropWhile Bytes.isSpace = [] := by
    rw [← List.append_nil space, List.dropWhile_append_of_pos (List.all_eq_true.1 hs)]
    rfl
  rw [readAttribute, none]

theorem readValue_of_quote (hq : IsQuote quote) (hv : quote ∉ value) :
    readValue (quote :: (value ++ quote :: rest)) position =
      .ok (value, rest, position + value.length + 2) := by
  have isInside : ∀ b ∈ value, decide (b ≠ quote) = true := fun b hb =>
    decide_eq_true fun same => hv (same ▸ hb)
  obtain ⟨inside, after⟩ := takeWhile_append_cons isInside (decide_eq_false (· rfl)) rest
  have ends : ¬ Bytes.isSpace quote = true := by
    rw [hq.isSpace]
    exact Bool.false_ne_true
  rw [readValue, List.takeWhile_cons_of_neg ends, List.dropWhile_cons_of_neg ends]
  dsimp only
  rw [if_pos (show _ ∨ _ from hq), inside, after]
  rfl

/-- The next attribute is read as it was written. -/
theorem readAttribute_of_isKey (hs : isBlank space = true) (hk : isKey key = true)
    (hq : IsQuote quote) (hv : quote ∉ value) (new : earlier.lookup key = none)
    (rest : Bytes) (position : Nat) :
    ∃ next, readAttribute earlier
        (space ++ (key ++ Bytes.ofChar '=' :: quote :: (value ++ quote :: rest))) position =
      .found ⟨key, value⟩ (position + space.length) rest next := by
  cases key with
  | nil => cases hk
  | cons first key =>
    rw [isKey, Bool.and_eq_true, Bool.not_eq_true'] at hk
    have stops : isInKey (Bytes.ofChar '=') = false := by decide
    obtain ⟨name, equals⟩ := takeWhile_append_cons (List.all_eq_true.1 hk.2) stops
      (quote :: (value ++ quote :: rest))
    obtain ⟨blank, after⟩ := takeWhile_append_cons (List.all_eq_true.1 hs) hk.1
      (key ++ Bytes.ofChar '=' :: quote :: (value ++ quote :: rest))
    have found : ∀ position, findEquals
        (Bytes.ofChar '=' :: quote :: (value ++ quote :: rest)) position =
          .ok (quote :: (value ++ quote :: rest), position + 1) := fun _ => rfl
    have goesOn : (fun b => b ≠ Bytes.ofChar '=' && !Bytes.isSpace b) = isInKey := rfl
    rw [List.cons_append, readAttribute, blank, after]
    dsimp only
    rw [goesOn, name, equals, found, new]
    dsimp only
    rw [readValue_of_quote hq hv]
    exact ⟨_, rfl⟩

/-! ### Tags -/

/-- An attribute as it stands in a tag is one as it is delivered: the key is the name, and the value
is written. -/
structure Attribute.Writes (written : Attribute) (attr : Event.Attribute) : Prop where
  /-- The key is the name. -/
  key : written.key = Bytes.encode attr.name
  /-- The value is written with references where they are needed. -/
  value : ∃ ws, Reference.Written reservedInValue attr.value.toList ws ∧
    written.value = Bytes.encode (String.ofList ws)

/-- Attributes with the bytes that are written for them, from the end of the name to the end of the
tag. -/
inductive AttributesWritten : List Event.Attribute → Bytes → Prop
  | nil {space : Bytes} : isBlank space = true → AttributesWritten [] space
  | cons {attr : Event.Attribute} {attributes : List Event.Attribute} {space bytes : Bytes}
    {ws : List Char} {quote : UInt8} : isBlank space = true → space ≠ [] →
    Reference.Written reservedInValue attr.value.toList ws → IsQuote quote →
    AttributesWritten attributes bytes →
    AttributesWritten (attr :: attributes)
      (space ++ (Bytes.encode attr.name ++ Bytes.ofChar '=' :: quote ::
        (Bytes.encode (String.ofList ws) ++ quote :: bytes)))

/-- A tag that is written for the name and the attributes of an element. -/
inductive Written (name : String) (attributes : List Event.Attribute) : Tag → Prop
  | mk {bytes : Bytes} : AttributesWritten attributes bytes →
    Written name attributes ⟨Bytes.encode name ++ bytes, (Bytes.encode name).length⟩

/-- What is written for a value has no quotes. -/
theorem notMem_of_written {cs ws : List Char} (h : Reference.Written reservedInValue cs ws)
    (hq : IsQuote quote) : quote ∉ Bytes.encode (String.ofList ws) := by
  intro hm
  rcases hq with rfl | rfl
  · have found := Bytes.mem_of_ofChar_mem_encode (by decide) hm
    rw [String.toList_ofList] at found
    exact h.notMem (by decide) (by decide) found
  · have found := Bytes.mem_of_ofChar_mem_encode (by decide) hm
    rw [String.toList_ofList] at found
    exact h.notMem (by decide) (by decide) found

/-- What attributes need so that a tag can be read as it was written: their names are accepted as
keys, and no two are the same. -/
structure Readable (attributes : List Event.Attribute) : Prop where
  /-- The names are accepted. -/
  keys : ∀ attr ∈ attributes, isKey (Bytes.encode attr.name) = true
  /-- They are distinct. -/
  distinct : (attributes.map (·.name)).Nodup

variable {attributes : List Event.Attribute}

theorem Readable.tail {attr : Event.Attribute} (h : Readable (attr :: attributes)) :
    Readable attributes where
  keys _ ha := h.keys _ (List.mem_cons_of_mem _ ha)
  distinct := (List.nodup_cons.1 h.distinct).2

theorem AttributesWritten.length_le (h : AttributesWritten attributes bytes) :
    attributes.length ≤ bytes.length := by
  induction h with
  | nil => exact Nat.zero_le _
  | cons =>
    simp only [List.length_append, List.length_cons]
    omega

/-- Attributes are read as they were written, if none has the key of an earlier one. -/
theorem AttributesWritten.readAttributes (h : AttributesWritten attributes bytes)
    (readable : Readable attributes) {fuel : Nat} (enough : attributes.length < fuel)
    (new : ∀ attr ∈ attributes, earlier.lookup (Bytes.encode attr.name) = none)
    (position : Nat) (done : List Attribute) :
    ∃ found, List.Forall₂ Attribute.Writes found attributes ∧
      readAttributes fuel earlier bytes position done = ⟨done.reverse ++ found, none⟩ := by
  induction h generalizing fuel earlier position done with
  | nil blank =>
    obtain ⟨fuel, rfl⟩ := Nat.exists_eq_succ_of_ne_zero (Nat.ne_of_gt enough)
    refine ⟨[], .nil, ?_⟩
    rw [Tag.readAttributes, readAttribute_blank blank, List.append_nil]
  | @cons attr attributes space bytes ws quote blank _ written hq _ ih =>
    obtain ⟨fuel, rfl⟩ := Nat.exists_eq_succ_of_ne_zero (Nat.ne_of_gt (Nat.zero_lt_of_lt enough))
    obtain ⟨next, first⟩ := readAttribute_of_isKey blank (readable.keys _ List.mem_cons_self) hq
      (notMem_of_written written hq) (new _ List.mem_cons_self) bytes position
    have later : ∀ other ∈ attributes, List.lookup (Bytes.encode other.name)
        ((Bytes.encode attr.name, position + space.length) :: earlier) = none := by
      intro other ho
      have distinct : Bytes.encode other.name ≠ Bytes.encode attr.name := fun same =>
        (List.nodup_cons.1 readable.distinct).1
          (List.mem_map.2 ⟨other, ho, Bytes.encode_inj same⟩)
      rw [List.lookup_cons, beq_false_of_ne distinct]
      exact new _ (List.mem_cons_of_mem _ ho)
    have own : Attribute.Writes ⟨Bytes.encode attr.name, Bytes.encode (String.ofList ws)⟩ attr :=
      ⟨rfl, ws, written, rfl⟩
    obtain ⟨found, writes, rest⟩ := ih readable.tail (Nat.lt_of_succ_lt_succ enough) later next
      (_ :: done)
    refine ⟨_, .cons own writes, ?_⟩
    rw [Tag.readAttributes, first]
    dsimp only
    rw [rest, List.reverse_cons, List.append_assoc, List.singleton_append]

/-- The attributes of a tag are those that it was written for. -/
theorem Written.exists_attributes {name : String} {tag : Tag} (h : Written name attributes tag)
    (readable : Readable attributes) :
    ∃ found, List.Forall₂ Attribute.Writes found attributes ∧ tag.attributes = ⟨found, none⟩ := by
  obtain ⟨written⟩ := h
  obtain ⟨found, writes, read⟩ := written.readAttributes readable
    (Nat.lt_succ_of_le written.length_le) (fun _ _ => List.lookup_nil) (Bytes.encode name).length []
  refine ⟨found, writes, ?_⟩
  rw [Tag.attributes, List.drop_left]
  exact read

theorem Written.name_eq {name : String} {tag : Tag} (h : Written name attributes tag) :
    tag.name = Bytes.encode name := by
  obtain ⟨written⟩ := h
  exact List.take_left

end Tag

/-! ### Trees -/

namespace NodeTree

mutual

/-- A tree of elements, texts and comments that can be written so that it is read again: attributes
are readable, and one is an identifier by its name only; no text is empty or has flags; no comment
has a carriage return, for which it could not have a reference. -/
def IsNormal : NodeTree Event.Attribute → Prop
  | element _ attributes children =>
    Tag.Readable attributes ∧
      (∀ attr ∈ attributes, attr.isId = decide (attr.name = Reader.idName)) ∧ AllNormal children
  | text run flags => run ≠ "" ∧ flags = {}
  | comment content => '\r' ∉ content.toList
  | instruction .. | reference _ => False

/-- All of some trees are normal. -/
def AllNormal : List (NodeTree Event.Attribute) → Prop
  | [] => True
  | tree :: rest => tree.IsNormal ∧ AllNormal rest

end

/-- Some trees with the tokens that are written for them. An element without content may be written
as one tag. -/
inductive Written : List (NodeTree Event.Attribute) → List Token → Prop
  | nil : Written [] []
  | element {name : String} {attributes : List Event.Attribute} {tag : Tag}
    {children rest : List (NodeTree Event.Attribute)} {inner after : List Token} :
    Tag.Written name attributes tag → Written children inner → Written rest after →
    Written (.element name attributes children :: rest)
      (.start tag :: (inner ++ .close (Bytes.encode name) :: after))
  | emptyElement {name : String} {attributes : List Event.Attribute} {tag : Tag}
    {rest : List (NodeTree Event.Attribute)} {after : List Token} :
    Tag.Written name attributes tag → Written rest after →
    Written (.element name attributes [] :: rest) (.empty tag :: after)
  | text {run : String} {flags : Node.TextFlags} {ws : List Char}
    {rest : List (NodeTree Event.Attribute)} {after : List Token} :
    Reference.Written Reference.reserved run.toList ws → Written rest after →
    Written (.text run flags :: rest) (.text (Bytes.encode (String.ofList ws)) :: after)
  | comment {content : String} {rest : List (NodeTree Event.Attribute)} {after : List Token} :
    Written rest after →
    Written (.comment content :: rest) (.comment (Bytes.encode content) :: after)

end NodeTree

/-- The tokens of a source are written for a tree, and the source ends after them. -/
def Source.IsWrittenFor (source : Source) (tree : NodeTree Event.Attribute) : Prop :=
  NodeTree.Written [tree] (source.tokens.tokens.map (·.2)) ∧
    ∃ position, source.tokens.ending = .complete position

end XmlTable
