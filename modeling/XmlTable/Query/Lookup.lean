import XmlTable.Query.Walk

/-!
# Looking nodes up

Elements by identifier, entities and attributes by name, and the document element. That something
does not exist is said only when it cannot come any more.
-/

namespace XmlTable.Query

open Node

/-- The element with an identifier, as far as is known: the symbol of the identifier is looked up
first, then its element. -/
def knownElement (id : String) (named indexed : Document) : Option NodeId :=
  (named.names.lookup id).bind indexed.identifiers.get?

/-- The element with an identifier. It is missing only from a complete document, and whether the
construction is complete is read first. -/
def elementById (id : String) : Reading (Option NodeId) :=
  .await
    (fun (seen : Fin 3 → Document) =>
      (seen 0).isDone || (knownElement id (seen 1) (seen 2)).isSome)
    fun seen => knownElement id (seen 1) (seen 2)

/-- The entity with a name. It is missing only when no entity is declared any more, and whether
that is so is read first. -/
def entity (name : String) : Reading (Option Entity.Entry) :=
  .await
    (fun (seen : Fin 3 → Document) =>
      (seen 0).entities.isSealed || (seen 1).isDone || ((seen 2).entities.get? name).isSome)
    fun seen => (seen 2).entities.get? name

/-- The replacement text of the entity with a name. -/
def entityValue (name : String) : Reading (Option String) :=
  return (← entity name).map (·.value)

/-- The first element of a chain of siblings. -/
def elementAmong : Nat → Option NodeId → Reading (Option NodeId)
  | 0, _ | _, none => return none
  | fuel + 1, some node => do
    if (← record node).kind = .element then return some node
    elementAmong fuel (← nextSibling node)

/-- The element that contains all others. -/
def documentElement : Reading (Option NodeId) := do
  elementAmong indexBound (← firstChild documentId)

/-- The first of some nodes whose name has a symbol. -/
def findNamed (name : SymbolId) : List NodeId → Query (Option NodeId)
  | [] => return none
  | node :: rest => do
    if (← record node).name = name then return some node
    findNamed name rest

/-- The attribute of an element with a qualified name. -/
def attributeByName (element : NodeId) (name : String) : Query (Option NodeId) := do
  match ← observe (·.names.lookup name) with
  | some id => findNamed id (← attributes element)
  | none => return none

/-- Wait until the construction is complete. -/
def awaitDone : Reading Unit :=
  .await (fun (seen : Fin 1 → Document) => (seen (Fin.last 0)).isDone) fun _ => ()

end XmlTable.Query
