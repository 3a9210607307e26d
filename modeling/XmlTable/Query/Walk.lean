import XmlTable.Query.Axes

/-!
# Walks

A walk follows one step of navigation from node to node until there is no further one. If a wait
fails on the way, the walk keeps the nodes up to there and ends with the failure.
-/

namespace XmlTable

/-- The nodes that a walk came to, and the failure that ended it. -/
structure Walk where
  /-- The nodes in the order of the walk. -/
  nodes : List NodeId
  /-- The failure that ended the walk early. -/
  stopped : Option Failure := none
  deriving DecidableEq, Repr

namespace Query

open Node

/-- The walk that goes on with the answer of `query` and from each node by `step`; the nodes that
it came to so far are in `done`, last one first. -/
def walkFrom (step : NodeId → Reading (Option NodeId)) :
    Nat → List NodeId → Reading (Option NodeId) → Query Walk
  | 0, done, _ => return ⟨done.reverse, none⟩
  | fuel + 1, done, query => do
    match ← query.run with
    | .ok (some node) => walkFrom step fuel (node :: done) (step node)
    | .ok none => return ⟨done.reverse, none⟩
    | .error failure => return ⟨done.reverse, some failure⟩

/-- The walk that starts with the answer of `first` and goes on by `step`. -/
def walk (first : Reading (Option NodeId)) (step : NodeId → Reading (Option NodeId)) :
    Query Walk :=
  walkFrom step indexBound [] first

/-- The children of a node. -/
def children (node : NodeId) : Query Walk :=
  walk (firstChild node) nextSibling

/-- The structural nodes below a node, in document order. -/
def descendants (node : NodeId) : Query Walk :=
  walk (nextDescendant node node) (nextDescendant node)

/-- The structural nodes after a node and not below it, in document order. -/
def following (node : NodeId) : Query Walk :=
  walk (nextFollowing node node) (nextFollowing node)

/-- The walk of a step that needs no wait. -/
def plainWalk (first : Query (Option NodeId)) (step : NodeId → Query (Option NodeId)) :
    Query (List NodeId) := do
  return (← walk (ExceptT.lift first) fun node => ExceptT.lift (step node)).nodes

/-- The attributes of an element, in order. -/
def attributes (element : NodeId) : Query (List NodeId) :=
  plainWalk (firstAttribute element) nextAttribute

/-- The nodes above a node, nearest first. -/
def ancestors (node : NodeId) : Query (List NodeId) :=
  plainWalk (parent node) parent

/-- The structural nodes before a node and not above it, last one first. -/
def preceding (node : NodeId) : Query (List NodeId) :=
  plainWalk (nextPreceding node node) (nextPreceding node)

/-- The structural nodes before a node, last one first. -/
def allBefore (node : NodeId) : Query (List NodeId) :=
  plainWalk (before node) before

end Query

end XmlTable
