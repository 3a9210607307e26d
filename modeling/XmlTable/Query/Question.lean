import XmlTable.Query.Properties

/-!
# Questions

The questions that readers may put to a document, listed once, so that what is true of all of them
can be stated and proved as such. Some are answered from what is there and never wait, some wait and
may fail, and some walk through the document and keep what they saw when they fail.
-/

namespace XmlTable

open Node

namespace Question

/-- The questions that are answered without a wait, by the types of their answers. -/
inductive Plain : Type → Type where
  | kind (node : NodeId) : Plain Kind
  | nodeName (node : NodeId) : Plain String
  | localName (node : NodeId) : Plain String
  | namePrefix (node : NodeId) : Plain (Option String)
  | nodeValue (node : NodeId) : Plain (Option String)
  | namespaceUri (node : NodeId) : Plain (Option String)
  | isIgnorable (node : NodeId) : Plain Bool
  | isCData (node : NodeId) : Plain Bool
  | firstAttribute (node : NodeId) : Plain (Option NodeId)
  | nextAttribute (node : NodeId) : Plain (Option NodeId)
  | attributeByName (element : NodeId) (name : String) : Plain (Option NodeId)
  | parent (node : NodeId) : Plain (Option NodeId)
  | isAncestor (ancestor node : NodeId) : Plain Bool
  | nextPreceding (context node : NodeId) : Plain (Option NodeId)
  | before (node : NodeId) : Plain (Option NodeId)
  | attributes (element : NodeId) : Plain (List NodeId)
  | ancestors (node : NodeId) : Plain (List NodeId)
  | preceding (node : NodeId) : Plain (List NodeId)
  | allBefore (node : NodeId) : Plain (List NodeId)

/-- The questions that may have to wait, by the types of their answers. -/
inductive Waiting : Type → Type where
  | firstChild (node : NodeId) : Waiting (Option NodeId)
  | lastChild (node : NodeId) : Waiting (Option NodeId)
  | nextSibling (node : NodeId) : Waiting (Option NodeId)
  | previousSibling (node : NodeId) : Waiting (Option NodeId)
  | nextDescendant (root node : NodeId) : Waiting (Option NodeId)
  | nextFollowing (context node : NodeId) : Waiting (Option NodeId)
  | stringValue (node : NodeId) : Waiting String
  | elementById (id : String) : Waiting (Option NodeId)
  | entity (name : String) : Waiting (Option Entity.Entry)
  | entityValue (name : String) : Waiting (Option String)
  | firstEntity : Waiting (Option NodeId)
  | documentElement : Waiting (Option NodeId)
  | awaitDone : Waiting Unit

/-- The questions that walk from node to node. -/
inductive Walking where
  | children (node : NodeId)
  | descendants (node : NodeId)
  | following (node : NodeId)

/-- The query of a question. -/
def Plain.ask : {α : Type} → Plain α → Query α
  | _, kind node => Query.kind node
  | _, nodeName node => Query.nodeName node
  | _, localName node => Query.localName node
  | _, namePrefix node => Query.namePrefix? node
  | _, nodeValue node => Query.nodeValue? node
  | _, namespaceUri node => Query.namespaceUri? node
  | _, isIgnorable node => Query.isIgnorable node
  | _, isCData node => Query.isCData node
  | _, firstAttribute node => Query.firstAttribute node
  | _, nextAttribute node => Query.nextAttribute node
  | _, attributeByName element name => Query.attributeByName element name
  | _, parent node => Query.parent node
  | _, isAncestor ancestor node => Query.isAncestor ancestor node
  | _, nextPreceding context node => Query.nextPreceding context node
  | _, before node => Query.before node
  | _, attributes element => Query.attributes element
  | _, ancestors node => Query.ancestors node
  | _, preceding node => Query.preceding node
  | _, allBefore node => Query.allBefore node

/-- The nodes that a question is about. -/
def Plain.nodes : {α : Type} → Plain α → List NodeId
  | _, kind node | _, nodeName node | _, localName node | _, namePrefix node
  | _, nodeValue node | _, namespaceUri node | _, isIgnorable node | _, isCData node
  | _, firstAttribute node | _, nextAttribute node | _, parent node | _, before node
  | _, ancestors node | _, preceding node | _, allBefore node => [node]
  | _, attributeByName element _ | _, attributes element => [element]
  | _, isAncestor ancestor node => [ancestor, node]
  | _, nextPreceding context node => [context, node]

/-- Only attributes have a next attribute. -/
def Plain.IsMisplaced (d : Document) : {α : Type} → Plain α → Prop
  | _, nextAttribute node => (d.nodes.get? node).map (·.kind) ≠ some .attr
  | _, _ => False

/-- The query of a question. -/
def Waiting.ask : {α : Type} → Waiting α → Reading α
  | _, firstChild node => Query.firstChild node
  | _, lastChild node => Query.lastChild node
  | _, nextSibling node => Query.nextSibling node
  | _, previousSibling node => Query.previousSibling node
  | _, nextDescendant root node => Query.nextDescendant root node
  | _, nextFollowing context node => Query.nextFollowing context node
  | _, stringValue node => Query.stringValue node
  | _, elementById id => Query.elementById id
  | _, entity name => Query.entity name
  | _, entityValue name => Query.entityValue name
  | _, firstEntity => Query.firstEntity
  | _, documentElement => Query.documentElement
  | _, awaitDone => Query.awaitDone

/-- The nodes that a question is about. -/
def Waiting.nodes : {α : Type} → Waiting α → List NodeId
  | _, firstChild node | _, lastChild node | _, nextSibling node | _, previousSibling node
  | _, stringValue node => [node]
  | _, nextDescendant root node => [root, node]
  | _, nextFollowing context node => [context, node]
  | _, elementById _ | _, entity _ | _, entityValue _ | _, firstEntity | _, documentElement
  | _, awaitDone => []

/-- The query of a question. -/
def Walking.ask : Walking → Query Walk
  | children node => Query.children node
  | descendants node => Query.descendants node
  | following node => Query.following node

/-- The node that a question is about. -/
def Walking.node : Walking → NodeId
  | children node | descendants node | following node => node

end Question

/-- A question that a reader may put to a document, by the type of its answer. -/
inductive Question : Type → Type 1 where
  /-- It is answered without a wait. -/
  | plain {α : Type} (question : Question.Plain α) : Question α
  /-- It may wait, and a wait may end with a failure. -/
  | waiting {α : Type} (question : Question.Waiting α) : Question (Except Failure α)
  /-- It walks through the document and may wait at every step. -/
  | walking (question : Question.Walking) : Question Walk

namespace Question

/-- The query of a question. -/
def ask : {α : Type} → Question α → Query α
  | _, plain question => question.ask
  | _, waiting question => question.ask.run
  | _, walking question => question.ask

/-- The nodes that a question is about. -/
def nodes : {α : Type} → Question α → List NodeId
  | _, plain question => question.nodes
  | _, waiting question => question.nodes
  | _, walking question => [question.node]

/-- The question may have to wait. -/
def waits : {α : Type} → Question α → Bool
  | _, plain _ => false
  | _, waiting _ | _, walking _ => true

/-- An answer is not a failure, and not cut short by one. -/
def IsOk : {α : Type} → Question α → α → Prop
  | _, plain _, _ => True
  | _, waiting _, result => ∃ value, result = .ok value
  | _, walking _, walk => walk.stopped = none

/-- Only attributes have a next attribute. -/
def IsMisplaced (d : Document) : {α : Type} → Question α → Prop
  | _, plain question => question.IsMisplaced d
  | _, waiting _ | _, walking _ => False

end Question

end XmlTable
