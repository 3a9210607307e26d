import XmlTable.Node.Kind
import XmlTable.Symbol.Pool

/-!
# Node records

A document is a sequence of records of one shape. A node is named by its index in that sequence,
and document order is the order of indices. A record names its parent; a record of a linked kind
also names its next sibling once that is known, and any other record refers to its payload.
-/

namespace XmlTable

/-- A node: the index of its record. -/
abbrev NodeId := Nat

/-- The number of a namespace; 0 stands for no namespace. -/
abbrev NamespaceId := Nat

namespace Node

/-- Every index of a record is below this number. -/
def indexBound : Nat := 2147483647

/-- The document node has the first index. -/
def documentId : NodeId := 0

/-- Flags of character data. -/
structure TextFlags where
  /-- White space in content that consists of elements only. -/
  ignorable : Bool := false
  /-- Came from a CDATA section. -/
  cdata : Bool := false
  deriving DecidableEq, Repr

namespace TextFlags

/-- The flags of two runs of characters taken together: a flag stays if both runs have it. -/
def merge (a b : TextFlags) : TextFlags :=
  ⟨a.ignorable && b.ignorable, a.cdata && b.cdata⟩

/-- The flags of several runs do not depend on how they are grouped. -/
theorem merge_assoc (a b c : TextFlags) : (a.merge b).merge c = a.merge (b.merge c) := by
  simp [merge, Bool.and_assoc]

/-- Nor do they depend on the order. -/
theorem merge_comm (a b : TextFlags) : a.merge b = b.merge a := by
  simp [merge, Bool.and_comm]

/-- A run merged with itself keeps its flags. -/
theorem merge_self (a : TextFlags) : a.merge a = a := by
  simp [merge]

end TextFlags

/-- What is known of a next sibling. -/
inductive Link where
  /-- Nothing yet: a reader has to wait. -/
  | pending
  /-- There is none. -/
  | last
  /-- It is this node. -/
  | next (node : NodeId)
  deriving DecidableEq, Repr

/-- What a record holds besides its name and its parent. -/
inductive LinkField where
  /-- Linked kinds: the next sibling. -/
  | sibling (link : Link)
  /-- Other kinds: the symbol of the payload. -/
  | payload (symbol : SymbolId)
  deriving DecidableEq, Repr

/-- The record of a node. -/
structure Record where
  /-- The kind of the node. -/
  kind : Kind
  /-- The flags of character data; none for other kinds. -/
  flags : TextFlags := {}
  /-- The namespace of an element or attribute. -/
  namespaceId : NamespaceId := 0
  /-- The parent; the owning element of an attribute. -/
  parent : Option NodeId
  /-- The next sibling or the payload. -/
  link : LinkField
  /-- The symbol of the name, 0 for kinds without one. -/
  name : SymbolId := 0
  deriving DecidableEq, Repr

namespace Record

/-- The document node refers to no text; its payload field holds the largest 32-bit number. -/
def noPayload : SymbolId := 4294967295

/-- The record of the document node. -/
def document : Record :=
  { kind := .document, parent := none, link := .payload noPayload }

/-- A record with a link to the next sibling. -/
def linked (kind : Kind) (namespaceId : NamespaceId) (parent : NodeId) (name : SymbolId)
    (link : Link) : Record :=
  { kind, namespaceId, parent := some parent, link := .sibling link, name }

/-- A record with a payload. -/
def leaf (kind : Kind) (flags : TextFlags) (parent : NodeId) (payload name : SymbolId) : Record :=
  { kind, flags, parent := some parent, link := .payload payload, name }

/-- The record of the text node that holds the value of an attribute or entity. -/
def valueNode (owner : NodeId) (payload : SymbolId) : Record :=
  leaf .text {} owner payload 0

/-- The payload of a record, 0 where it has a link instead. -/
def payload (record : Record) : SymbolId :=
  match record.link with
  | .payload symbol => symbol
  | .sibling _ => 0

/-- What is known of the next sibling, for a record with a link. -/
def link? (record : Record) : Option Link :=
  match record.link with
  | .sibling link => some link
  | .payload _ => none

/-- A record with its link replaced; a record with a payload stays as it is. -/
def withLink (record : Record) (link : Link) : Record :=
  match record.link with
  | .sibling _ => { record with link := .sibling link }
  | .payload _ => record

/-- Replacing a link keeps the kind. -/
@[simp] theorem kind_withLink (record : Record) (link : Link) :
    (record.withLink link).kind = record.kind := by
  unfold withLink; split <;> rfl

/-- Replacing a link keeps the parent. -/
@[simp] theorem parent_withLink (record : Record) (link : Link) :
    (record.withLink link).parent = record.parent := by
  unfold withLink; split <;> rfl

/-- Replacing a link keeps the payload. -/
@[simp] theorem payload_withLink (record : Record) (link : Link) :
    (record.withLink link).payload = record.payload := by
  rcases record with ⟨_, _, _, _, link, _⟩; cases link <;> rfl

end Record

end Node

end XmlTable
