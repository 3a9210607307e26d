import XmlTable.Node.Record

/-!
# Known entities

Five entities are predefined and have a value only. The general entities that the internal subset
declares have a node as well. The first declaration of a name decides, and once the table is
sealed it takes no more declarations, so that a missing name is missing for good.
-/

namespace XmlTable.Entity

/-- The predefined entities with their values. -/
def predefined : List (String × String) :=
  [("lt", "<"), ("gt", ">"), ("amp", "&"), ("quot", "\x22"), ("apos", "\x27")]

/-- What is known of an entity. -/
structure Entry where
  /-- The replacement text. -/
  value : String
  /-- The node of a declared entity. -/
  node : Option NodeId
  deriving DecidableEq, Repr

/-- The entities that a document knows. -/
structure Table where
  /-- The entries by name, in the order of their declarations. -/
  entries : List (String × Entry) := predefined.map fun (name, value) => (name, ⟨value, none⟩)
  /-- No declaration will arrive any more. -/
  isSealed : Bool := false
  deriving DecidableEq, Repr

namespace Table

/-- The table with the predefined entities. -/
def initial : Table := {}

/-- What is known of the entity with a name. -/
def get? (table : Table) (name : String) : Option Entry :=
  table.entries.lookup name

/-- An entity with the name is known. -/
def contains (table : Table) (name : String) : Bool :=
  (table.get? name).isSome

/-- A declaration of the name would be taken. -/
def accepts (table : Table) (name : String) : Bool :=
  !table.isSealed && !table.contains name

/-- Take the declaration of an entity, unless the name is known or the table is sealed. -/
def declare (table : Table) (name value : String) (node : NodeId) : Table :=
  if table.accepts name then
    { table with entries := table.entries ++ [(name, ⟨value, some node⟩)] }
  else table

/-- Take no more declarations. -/
def close (table : Table) : Table :=
  { table with isSealed := true }

/-- The number of known entities. -/
def size (table : Table) : Nat :=
  table.entries.length

/-- An entity that is known stays as it is. -/
theorem get?_declare_of_some {table : Table} {name : String} {entry : Entry}
    (h : table.get? name = some entry) (other value : String) (node : NodeId) :
    (table.declare other value node).get? name = some entry := by
  unfold declare
  split
  · simp only [get?, List.lookup_append] at h ⊢
    simp [h]
  · exact h

/-- A declaration that is taken gives its name the value and the node, and no other name. -/
theorem get?_declare_of_accepts {table : Table} {name : String} (h : table.accepts name)
    (other value : String) (node : NodeId) :
    (table.declare name value node).get? other =
      if other = name then some ⟨value, some node⟩ else table.get? other := by
  unfold declare
  rw [if_pos h]
  simp only [accepts, contains, Bool.and_eq_true, Bool.not_eq_true',
    Option.isSome_eq_false_iff, Option.isNone_iff_eq_none, get?] at h
  simp only [get?, List.lookup_append, List.lookup_cons, List.lookup_nil]
  by_cases ho : other = name
  · subst ho
    simp [h.2]
  · simp [ho, beq_false_of_ne ho]

end Table

end XmlTable.Entity
