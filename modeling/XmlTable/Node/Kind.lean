/-!
# Kinds of nodes

The eight kinds of records that a document consists of, their labels in listings, and the facts
about a kind that the layout of the node table rests on.
-/

namespace XmlTable.Node

/-- The kind of a node. -/
inductive Kind where
  /-- The root of the document. -/
  | document
  /-- An element. -/
  | element
  /-- An attribute; its value is the text node right after it. -/
  | attr
  /-- Character data. -/
  | text
  /-- A comment. -/
  | comment
  /-- A processing instruction. -/
  | instruction
  /-- A declared entity; its value is the text node right after it. -/
  | entity
  /-- A reference to an entity that was not expanded. -/
  | reference
  deriving DecidableEq, Repr

namespace Kind

/-- All kinds. -/
def all : List Kind :=
  [document, element, attr, text, comment, instruction, entity, reference]

/-- The label of a kind in a listing. -/
def label : Kind → String
  | document => "document"
  | element => "element"
  | attr => "attribute"
  | text => "text"
  | comment => "comment"
  | instruction => "pi"
  | entity => "entity"
  | reference => "entity-ref"

/-- The kind with a label. -/
def ofLabel? (label : String) : Option Kind :=
  all.find? fun kind => kind.label == label

/-- The name of a kind in a diagnostic text. -/
def name : Kind → String
  | document => "Document"
  | element => "Element"
  | attr => "Attribute"
  | text => "Text"
  | comment => "Comment"
  | instruction => "ProcessingInstruction"
  | entity => "Entity"
  | reference => "EntityReference"

/-- Records of these kinds store a link to the next sibling instead of a payload. -/
def isLinked : Kind → Bool
  | element | attr | entity | reference => true
  | document | text | comment | instruction => false

/-- Records of these kinds are followed by the text node with their value. -/
def hasValueNode : Kind → Bool
  | attr | entity => true
  | _ => false

/-- Records of these kinds may be the parent of others. -/
def canHaveChildren : Kind → Bool
  | document | element | attr | entity => true
  | text | comment | instruction | reference => false

/-- Every kind is among all kinds. -/
theorem mem_all (kind : Kind) : kind ∈ all := by
  cases kind <;> decide

/-- A label determines its kind. -/
theorem ofLabel?_label (kind : Kind) : ofLabel? kind.label = some kind := by
  cases kind <;> decide

/-- A kind with a value node is linked. -/
theorem isLinked_of_hasValueNode {kind : Kind} (h : kind.hasValueNode = true) :
    kind.isLinked = true := by
  cases kind <;> simp_all [hasValueNode, isLinked]

end Kind

end XmlTable.Node
