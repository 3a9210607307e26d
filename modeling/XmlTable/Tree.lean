import XmlTable.Event

/-!
# Documents as trees

A document can be described by a tree as well as by events. The events of a tree are those that come
while one goes through it from left to right. Not all of the tree is stored: texts next to each
other become one, empty ones leave nothing behind, and ignorable ones are dropped on demand.
-/

namespace XmlTable

open Node

/-- An element with its content, or another part of a document; how attributes are given is left
open. -/
inductive NodeTree (α : Type) where
  /-- An element with its attributes and what is between its start and its end. -/
  | element (name : String) (attributes : List α) (children : List (NodeTree α))
  /-- Character data. -/
  | text (text : String) (flags : TextFlags)
  /-- A comment. -/
  | comment (text : String)
  /-- A processing instruction. -/
  | instruction (target data : String)
  /-- A reference to an entity without a known value. -/
  | reference (name : String)
  deriving Repr

/-- A tree as it is stored: its attributes are names with values. -/
abbrev StoredTree := NodeTree (String × String)

namespace NodeTree

variable {α : Type}

/-- The tree is character data. -/
def isText : NodeTree α → Bool
  | text .. => true
  | _ => false

/-- The tree is a comment, a processing instruction or a reference. -/
def isLeaf : NodeTree α → Bool
  | comment _ | instruction .. | reference _ => true
  | element .. | text .. => false

theorem isText_of_isLeaf {tree : NodeTree α} (h : tree.isLeaf = true) : tree.isText = false := by
  cases tree with
  | text => cases h
  | _ => rfl

mutual

/-- The number of records of a tree: each attribute has two. -/
def width : NodeTree α → Nat
  | element _ attributes children => 1 + 2 * attributes.length + widths children
  | text .. | comment _ | instruction .. | reference _ => 1

/-- The number of records of some trees. -/
def widths : List (NodeTree α) → Nat
  | [] => 0
  | tree :: rest => tree.width + widths rest

end

theorem widths_append (trees rest : List (NodeTree α)) :
    widths (trees ++ rest) = widths trees + widths rest := by
  induction trees with
  | nil => simp [widths]
  | cons tree _ ih => simp [widths, ih, Nat.add_assoc]

/-- What is true of no trees, and of more trees when it is true of what is below the first and of
the rest, is true of any trees. -/
theorem forest_induction {motive : List (NodeTree α) → Prop} (nil : motive [])
    (element : ∀ name attributes children rest, motive children → motive rest →
      motive (element name attributes children :: rest))
    (text : ∀ run flags rest, motive rest → motive (text run flags :: rest))
    (leaf : ∀ tree rest, tree.isLeaf = true → motive rest → motive (tree :: rest)) :
    ∀ trees, motive trees
  | [] => nil
  | .element name attributes children :: rest =>
    element name attributes children rest (forest_induction nil element text leaf children)
      (forest_induction nil element text leaf rest)
  | .text run flags :: rest => text run flags rest (forest_induction nil element text leaf rest)
  | .comment _ :: rest => leaf _ rest rfl (forest_induction nil element text leaf rest)
  | .instruction .. :: rest => leaf _ rest rfl (forest_induction nil element text leaf rest)
  | .reference _ :: rest => leaf _ rest rfl (forest_induction nil element text leaf rest)

/-! ## What is stored -/

/-- Put a text before some trees; it becomes one with a text that comes first among them. -/
def consText (before : String) (flags : TextFlags) : List (NodeTree α) → List (NodeTree α)
  | text after others :: rest => text (before ++ after) (flags.merge others) :: rest
  | trees => text before flags :: trees

/-- Texts next to each other become one, and empty ones leave nothing behind. -/
def join : List (NodeTree α) → List (NodeTree α)
  | [] => []
  | text run flags :: rest => if run.isEmpty then join rest else consText run flags (join rest)
  | tree :: rest => tree :: join rest

/-- Texts that are put before others one by one become one with them. -/
theorem consText_consText (first second : String) (flags others : TextFlags)
    (trees : List (NodeTree α)) :
    consText first flags (consText second others trees) =
      consText (first ++ second) (flags.merge others) trees := by
  unfold consText
  split
  · next heq =>
    split at heq
    · obtain ⟨⟨rfl, rfl⟩, rfl⟩ : (_ ∧ _) ∧ _ := by simpa using heq
      simp [String.append_assoc, TextFlags.merge_assoc]
    · obtain ⟨⟨rfl, rfl⟩, rfl⟩ : (_ ∧ _) ∧ _ := by simpa using heq
      rfl
  · next trees' other =>
    exfalso
    split at other
    · exact other _ _ _ rfl
    · exact other _ _ _ rfl

theorem consText_of_not_isText {tree : NodeTree α} (h : tree.isText = false) (before : String)
    (flags : TextFlags) (rest : List (NodeTree α)) :
    consText before flags (tree :: rest) = text before flags :: tree :: rest := by
  cases tree with
  | text => cases h
  | _ => rfl

theorem join_of_not_isText {tree : NodeTree α} (h : tree.isText = false)
    (rest : List (NodeTree α)) : join (tree :: rest) = tree :: join rest := by
  cases tree with
  | text => cases h
  | _ => rfl

/-- The tree is not dropped. -/
def isKept (strip : Bool) : NodeTree α → Bool
  | text _ flags => !(flags.ignorable && strip)
  | _ => true

/-- The trees that are stored of some trees, and whether ignorable texts are dropped. -/
def tidy (strip : Bool) (trees : List (NodeTree α)) : List (NodeTree α) :=
  (join trees).filter (isKept strip)

mutual

/-- A tree as it is stored: what is below it is tidied up, and attributes are names with values. -/
def stored (strip : Bool) : NodeTree Event.Attribute → StoredTree
  | element name attributes children =>
    element name (attributes.map fun attr => (attr.name, attr.value))
      (tidy strip (storedAll strip children))
  | text run flags => text run flags
  | comment content => comment content
  | instruction target data => instruction target data
  | reference name => reference name

/-- Some trees, each as it is stored. -/
def storedAll (strip : Bool) : List (NodeTree Event.Attribute) → List StoredTree
  | [] => []
  | tree :: rest => tree.stored strip :: storedAll strip rest

end

@[simp] theorem isText_stored (strip : Bool) (tree : NodeTree Event.Attribute) :
    (tree.stored strip).isText = tree.isText := by
  cases tree with
  | element =>
    rw [stored]
    rfl
  | _ => rfl

/-! ## How it is delivered -/

mutual

/-- The events of a tree. -/
def events : NodeTree Event.Attribute → List Event
  | element name attributes children =>
    .startElement name attributes :: (eventsAll children ++ [.endElement])
  | text run flags => [.characters run flags]
  | comment content => [.comment content]
  | instruction target data => [.instruction target data]
  | reference name => [.entityReference name]

/-- The events of some trees, one after the other. -/
def eventsAll : List (NodeTree Event.Attribute) → List Event
  | [] => []
  | tree :: rest => tree.events ++ eventsAll rest

end

mutual

/-- The values of the attributes in a tree that declare namespaces. -/
def uris : NodeTree Event.Attribute → List String
  | element _ attributes children =>
    (attributes.filter (·.declaresNamespace)).map (·.value) ++ urisAll children
  | text .. | comment _ | instruction .. | reference _ => []

/-- The values of the attributes in some trees that declare namespaces. -/
def urisAll : List (NodeTree Event.Attribute) → List String
  | [] => []
  | tree :: rest => tree.uris ++ urisAll rest

end

end NodeTree

/-! ## Whole documents -/

/-- What may stand outside the document element. -/
inductive Aside where
  /-- A comment. -/
  | comment (text : String)
  /-- A processing instruction. -/
  | instruction (target data : String)
  deriving DecidableEq, Repr

namespace Aside

/-- It is a tree without branches. -/
def tree {α : Type} : Aside → NodeTree α
  | comment text => .comment text
  | instruction target data => .instruction target data

/-- The event of a comment or a processing instruction. -/
def event : Aside → Event
  | comment text => .comment text
  | instruction target data => .instruction target data

@[simp] theorem isLeaf_tree {α : Type} (part : Aside) :
    (part.tree : NodeTree α).isLeaf = true := by
  cases part <;> rfl

@[simp] theorem width_tree {α : Type} (part : Aside) : (part.tree : NodeTree α).width = 1 := by
  cases part <;> rfl

@[simp] theorem stored_tree (part : Aside) (strip : Bool) :
    (part.tree : NodeTree Event.Attribute).stored strip = part.tree := by
  cases part <;> rfl

@[simp] theorem events_tree (part : Aside) :
    (part.tree : NodeTree Event.Attribute).events = [part.event] := by
  cases part <;> rfl

end Aside

/-- What may stand before the document element. -/
inductive Prelude where
  /-- A comment or a processing instruction. -/
  | aside (part : Aside)
  /-- The declaration of a general entity. -/
  | entity (name value : String)
  deriving DecidableEq, Repr

namespace Prelude

/-- The tree of a comment or a processing instruction; entities are not part of the tree. -/
def tree? {α : Type} : Prelude → Option (NodeTree α)
  | aside part => some part.tree
  | entity .. => none

/-- The event of what stands before the document element. -/
def event : Prelude → Event
  | aside part => part.event
  | entity name value => .entityDeclaration name value

/-- The number of records that are stored at most; an entity has two. -/
def width : Prelude → Nat
  | aside _ => 1
  | entity .. => 2

/-- The number of records that are stored at most for some parts. -/
def widths : List Prelude → Nat
  | [] => 0
  | part :: rest => part.width + widths rest

/-- Comments and processing instructions have one record each. -/
theorem widths_map_aside (parts : List Aside) : widths (parts.map aside) = parts.length := by
  induction parts with
  | nil => rfl
  | cons part rest ih => rw [List.map_cons, widths, width, ih, List.length_cons, Nat.add_comm]

end Prelude

/-- A whole document: what stands before the document element, the document element, and what
stands after it. -/
structure DocumentTree where
  /-- What stands before the document element. -/
  before : List Prelude := []
  /-- The name of the document element. -/
  name : String
  /-- The attributes of the document element. -/
  attributes : List Event.Attribute := []
  /-- The content of the document element. -/
  children : List (NodeTree Event.Attribute) := []
  /-- What stands after the document element. -/
  after : List Aside := []

namespace DocumentTree

/-- The document element. -/
def root (tree : DocumentTree) : NodeTree Event.Attribute :=
  .element tree.name tree.attributes tree.children

/-- The events of a document. -/
def events (tree : DocumentTree) : List Event :=
  .startDocument :: (tree.before.map (·.event) ++ tree.root.events ++
    tree.after.map (·.event) ++ [.endDocument])

/-- The trees that are stored below the document node. -/
def stored (tree : DocumentTree) (strip : Bool) : List StoredTree :=
  tree.before.filterMap (·.tree?) ++ tree.root.stored strip :: tree.after.map (·.tree)

/-- The number of records that are stored at most, the one of the document node among them. -/
def width (tree : DocumentTree) (strip : Bool) : Nat :=
  1 + Prelude.widths tree.before + (tree.root.stored strip).width + tree.after.length

end DocumentTree

end XmlTable
