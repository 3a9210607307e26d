import XmlTable.Query.Properties
import XmlTable.Tree

/-!
# Reading a tree back

What is below a node can be read as trees with nothing but the questions that readers may ask: the
children of a node, its attributes, and the properties of each. A reading comes to nothing if a wait
fails on the way or if a node is of a kind that has no tree.
-/

namespace XmlTable.Query

open Node

/-- What is read of each of some nodes, if nothing is missing. -/
def readEach {α : Type} (read : NodeId → Query (Option α)) : List NodeId → Query (Option (List α))
  | [] => return some []
  | node :: rest => do
    match ← read node with
    | none => return none
    | some first => return (← readEach read rest).map (first :: ·)

/-- The name of an attribute with its value. -/
def readAttribute (node : NodeId) : Query (Option (String × String)) := do
  let name ← nodeName node
  return (← nodeValue? node).map (name, ·)

/-- What is read of the children of a node. -/
def readChildren {α : Type} (read : NodeId → Query (Option α)) (node : NodeId) :
    Query (Option (List α)) := do
  let walk ← children node
  match walk.stopped with
  | some _ => return none
  | none => readEach read walk.nodes

/-- The tree of a node, down to a depth. -/
def readTree : Nat → NodeId → Query (Option StoredTree)
  | 0, _ => return none
  | depth + 1, node => do
    match ← kind node with
    | .element =>
      let name ← nodeName node
      match ← readEach readAttribute (← attributes node) with
      | none => return none
      | some pairs => return (← readChildren (readTree depth) node).map (.element name pairs ·)
    | .text =>
      let ignorable ← isIgnorable node
      let cdata ← isCData node
      return (← nodeValue? node).map (.text · ⟨ignorable, cdata⟩)
    | .comment => return (← nodeValue? node).map .comment
    | .instruction =>
      let target ← nodeName node
      return (← nodeValue? node).map (.instruction target ·)
    | .reference => return some (.reference (← nodeName node))
    | .document | .attr | .entity => return none

/-- The trees below the document node. -/
def readDocument : Query (Option (List StoredTree)) :=
  readChildren (readTree indexBound) documentId

end XmlTable.Query
