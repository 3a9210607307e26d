import XmlTable.Query.Basic

/-!
# Navigation in document order

Records lie in document order, with two exceptions to the tree: the attributes of an element, each
followed by the node with its value, lie between the element and its content, and declared
entities, likewise with their values, lie before the document element. Scans step over both.

Children and siblings are found by links and by adjacency. An element or reference names its next
sibling; any other child is followed at once by its next sibling, if there is one. An element is
published together with its attributes, so attributes never need a wait.
-/

namespace XmlTable.Query

open Node

/-- The record of a node that exists; a missing node is a mistake of the caller. -/
def record (node : NodeId) : Query Record :=
  .look fun doc =>
    match doc.nodes.get? node with
    | some record => .answer record
    | none => .misuse (.missingNode node doc.nodeCount)

/-- Wait for a record, or for the end of a document that does not have it. Whether the construction
is complete is read before the table. -/
def awaitRecord (node : NodeId) : Reading (Option Record) :=
  .await
    (fun (seen : Fin 2 → Document) => ((seen 1).nodes.get? node).isSome || (seen 0).isDone)
    fun seen => (seen 1).nodes.get? node

/-- Wait for the record that a navigation starts from. -/
def startRecord (node : NodeId) : Reading Record := do
  match ← awaitRecord node with
  | some record => return record
  | none => record node

/-- A record is the value of an attribute or entity. -/
def isValueNode (own : Record) : Query Bool := do
  if own.kind ≠ .text then return false
  match own.parent with
  | some parent => return (← record parent).kind.hasValueNode
  | none => return false

/-- The first node at or after an index that is no attribute, no entity and no value of one. At
most `fuel` records are looked at. -/
def structuralFrom : Nat → NodeId → Reading (Option (NodeId × Record))
  | 0, _ => return none
  | fuel + 1, index => do
    match ← awaitRecord index with
    | none => return none
    | some found =>
      if found.kind.hasValueNode then structuralFrom fuel (index + 2)
      else return some (index, found)

/-- The first child. Attributes and entities have one child, their value. The first structural
node after any other is either its first child or not below it. -/
def firstChild (node : NodeId) : Reading (Option NodeId) := do
  let own ← startRecord node
  if own.kind.hasValueNode then return some (node + 1)
  if !own.kind.canHaveChildren then return none
  match ← structuralFrom indexBound (node + 1) with
  | some (index, found) => return if found.parent = some node then some index else none
  | none => return none

/-- Wait for the link of a record to its next sibling. -/
def awaitLink (node : NodeId) : Reading (Option NodeId) :=
  .await
    (fun (seen : Fin 1 → Document) =>
      match (seen 0).nodes.link? node with
      | some .last | some (.next _) => true
      | some .pending | none => false)
    fun seen =>
      match (seen 0).nodes.link? node with
      | some (.next sibling) => some sibling
      | _ => none

/-- The next sibling under the same parent. -/
def nextSibling (node : NodeId) : Reading (Option NodeId) := do
  let own ← startRecord node
  if own.kind = .document then return none
  if own.kind.isLinked then awaitLink node
  else if ← isValueNode own then return none
  else
    match ← structuralFrom indexBound (node + 1) with
    | some (index, found) => return if found.parent = own.parent then some index else none
    | none => return none

/-- The first attribute of an element. -/
def firstAttribute (node : NodeId) : Query (Option NodeId) := do
  if (← record node).kind ≠ .element then return none
  match ← observe fun doc => doc.nodes.get? (node + 1) with
  | some found =>
    return if found.kind = .attr ∧ found.parent = some node then some (node + 1) else none
  | none => return none

/-- The next attribute of the same element; the node must be an attribute. -/
def nextAttribute (node : NodeId) : Query (Option NodeId) := do
  let kind := (← record node).kind
  if kind ≠ .attr then .misuse (.notAttribute kind node)
  else
    match ← observe fun doc => doc.nodes.link? node with
    | some (.next sibling) => return some sibling
    | some .last => return none
    | some .pending | none => .misuse .pendingAttribute

/-- The parent; the owning element of an attribute. -/
def parent (node : NodeId) : Query (Option NodeId) :=
  return (← record node).parent

/-- The first entity that the document declares. -/
def entityFrom : Nat → NodeId → Reading (Option NodeId)
  | 0, _ => return none
  | fuel + 1, index => do
    match ← awaitRecord index with
    | none => return none
    | some found =>
      match found.kind with
      | .entity => return some index
      | .element => return none
      | .attr => entityFrom fuel (index + 2)
      | _ => entityFrom fuel (index + 1)

/-- The first entity that the document declares; none follows the document element. -/
def firstEntity : Reading (Option NodeId) :=
  entityFrom indexBound (documentId + 1)

/-- The node before `node` in a chain of siblings that goes on with `current` after `previous`. -/
def siblingBefore (node : NodeId) : Nat → Option NodeId → Option NodeId →
    Reading (Option NodeId)
  | 0, _, _ | _, _, none => return none
  | fuel + 1, previous, some current => do
    if current = node then return previous
    siblingBefore node fuel (some current) (← nextSibling current)

/-- The previous sibling. It is found by going through the siblings from the first one. -/
def previousSibling (node : NodeId) : Reading (Option NodeId) := do
  let own ← startRecord node
  match own.kind with
  | .document => return none
  | .attr =>
    match own.parent with
    | some owner => siblingBefore node indexBound none (← firstAttribute owner)
    | none => return none
  | .entity => siblingBefore node indexBound none (← firstEntity)
  | _ =>
    if ← isValueNode own then return none
    match own.parent with
    | some parent => siblingBefore node indexBound none (← firstChild parent)
    | none => return none

/-- The last node of a chain of siblings that goes on with `current` after `last`. -/
def lastSibling : Nat → Option NodeId → Option NodeId → Reading (Option NodeId)
  | 0, last, _ | _, last, none => return last
  | fuel + 1, _, some current => do
    lastSibling fuel (some current) (← nextSibling current)

/-- The last child, which is known once the node is complete. -/
def lastChild (node : NodeId) : Reading (Option NodeId) := do
  lastSibling indexBound none (← firstChild node)

/-- A node is on the way from `current` to the root. The way is at most `fuel` nodes long. -/
def isOnPath (ancestor : NodeId) : Nat → Option NodeId → Query Bool
  | 0, _ | _, none => return false
  | fuel + 1, some current =>
    if current = ancestor then return true
    else if current < ancestor then return false
    else do isOnPath ancestor fuel (← record current).parent

/-- A node is a proper ancestor of another. Parents come before their children, which bounds the
search. -/
def isAncestor (ancestor node : NodeId) : Query Bool := do
  if node ≤ ancestor then return false
  isOnPath ancestor node (← record node).parent

/-- Where a scan for what comes after a node begins. -/
def scanStart (node : NodeId) : Reading NodeId := do
  if (← startRecord node).kind.hasValueNode then return node + 2 else return node + 1

/-- The next node after `node` in document order, if it is below `root`. Everything below a node
comes right after it, so nothing later is below `root` if this node is not. -/
def nextDescendant (root node : NodeId) : Reading (Option NodeId) := do
  match ← structuralFrom indexBound (← scanStart node) with
  | some (index, _) => return if ← isAncestor root index then some index else none
  | none => return none

/-- The first structural node at or after an index that is not below `context`. -/
def outsideFrom (context : NodeId) : Nat → NodeId → Reading (Option NodeId)
  | 0, _ => return none
  | fuel + 1, index => do
    match ← structuralFrom indexBound index with
    | some (found, _) =>
      if ← isAncestor context found then outsideFrom context fuel (found + 1)
      else return some found
    | none => return none

/-- The next node after `node` in document order that is not below `context`. -/
def nextFollowing (context node : NodeId) : Reading (Option NodeId) := do
  outsideFrom context indexBound (← scanStart node)

/-- The node belongs to the tree of children: it is no attribute, no entity and no value. -/
def isStructural (own : Record) : Query Bool := do
  if own.kind.hasValueNode then return false
  return !(← isValueNode own)

/-- The last structural node before `node` that is not above `context`. The document node is above
everything, so the search ends before it. -/
def nextPreceding (context : NodeId) : NodeId → Query (Option NodeId)
  | 0 | 1 => return none
  | index + 2 => do
    if !(← isStructural (← record (index + 1))) then nextPreceding context (index + 1)
    else if ← isAncestor (index + 1) context then nextPreceding context (index + 1)
    else return some (index + 1)

/-- The last structural node before `node`: its parent or a node that precedes it. -/
def before : NodeId → Query (Option NodeId)
  | 0 => return none
  | index + 1 => do
    if ← isStructural (← record index) then return some index else before index

end XmlTable.Query
