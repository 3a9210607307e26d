import XmlTable.Query.Lookup

/-!
# Properties of nodes

What a node is called and what it holds, in the terms of the document object model. The node must
exist; only the string value of a node may have to wait, since it is the text of everything below.
-/

namespace XmlTable.Query

open Node

/-- The kind of a node. -/
def kind (node : NodeId) : Query Kind :=
  return (← record node).kind

/-- The name of a node; kinds without a name of their own have a fixed one. -/
def nodeName (node : NodeId) : Query String := do
  let own ← record node
  match own.kind with
  | .document => return "#document"
  | .text => return if own.flags.cdata then "#cdata-section" else "#text"
  | .comment => return "#comment"
  | _ => observe (·.name own.name)

/-- The name of a node without its prefix, empty for kinds without a name. -/
def localName (node : NodeId) : Query String := do
  let own ← record node
  match own.kind with
  | .element | .attr => return QName.tail (← observe (·.name own.name))
  | .instruction | .entity | .reference => observe (·.name own.name)
  | .document | .text | .comment => return ""

/-- The prefix of the name of an element or attribute. -/
def namePrefix? (node : NodeId) : Query (Option String) := do
  let own ← record node
  match own.kind with
  | .element | .attr =>
    let lead := QName.lead (← observe (·.name own.name))
    return if lead.isEmpty then none else some lead
  | _ => return none

/-- The value of a node: the payload of character data, comments and processing instructions, the
value of attributes and entities, and nothing for other kinds. -/
def nodeValue? (node : NodeId) : Query (Option String) := do
  let own ← record node
  match own.kind with
  | .text | .comment | .instruction => return some (← observe (·.text own.payload))
  | .attr | .entity =>
    let value ← record (node + 1)
    return some (← observe (·.text value.payload))
  | .document | .element | .reference => return none

/-- The namespace of an element or attribute. -/
def namespaceUri? (node : NodeId) : Query (Option String) := do
  let own ← record node
  match own.kind with
  | .element | .attr => observe (·.namespaceUri? own.namespaceId)
  | _ => return none

/-- The node is white space in content that consists of elements only. -/
def isIgnorable (node : NodeId) : Query Bool := do
  let own ← record node
  return own.kind = .text && own.flags.ignorable

/-- The node is a CDATA section. -/
def isCData (node : NodeId) : Query Bool := do
  let own ← record node
  return own.kind = .text && own.flags.cdata

/-- The text below `root` after `node`, put after the text `before`. -/
def textBelow (root : NodeId) : Nat → String → NodeId → Reading String
  | 0, before, _ => return before
  | fuel + 1, before, node => do
    match ← nextDescendant root node with
    | none => return before
    | some next =>
      let found ← record next
      if found.kind = .text then
        let text ← (observe (·.text found.payload) : Query String)
        textBelow root fuel (before ++ text) next
      else textBelow root fuel before next

/-- The string value of a node: for the document and for elements all text below them, for a
reference the replacement text of the entity, for other kinds the value. -/
def stringValue (node : NodeId) : Reading String := do
  let own ← startRecord node
  match own.kind with
  | .document | .element => textBelow node indexBound "" node
  | .reference =>
    let name ← (observe (·.name own.name) : Query String)
    return ((← entity name).map (·.value)).getD ""
  | _ => return (← nodeValue? node).getD ""

end XmlTable.Query
