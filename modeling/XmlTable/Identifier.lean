import XmlTable.Node.Record
import Std.Data.TreeMap

/-!
# Elements by identifier

The value of an attribute of type ID names its element. The index maps the symbol of the value to
the first element that carries it; while the document grows a missing value means nothing yet.
-/

namespace XmlTable.Identifier

/-- The elements by the symbol of their identifier. -/
structure Index where
  /-- The first element with an identifier. -/
  elements : Std.TreeMap SymbolId NodeId := ∅

namespace Index

/-- The index without identifiers. -/
def empty : Index := {}

/-- The element with an identifier. -/
def get? (index : Index) (value : SymbolId) : Option NodeId :=
  index.elements[value]?

/-- Record an identifier; the first element with it keeps it. -/
def insert (index : Index) (value : SymbolId) (element : NodeId) : Index :=
  ⟨index.elements.insertIfNew value element⟩

/-- The number of identifiers. -/
def size (index : Index) : Nat :=
  index.elements.size

/-- Recording an identifier settles it if it was free, and no other. -/
theorem get?_insert (index : Index) (value other : SymbolId) (element : NodeId) :
    (index.insert value element).get? other =
      if other = value then some ((index.get? value).getD element) else index.get? other := by
  unfold insert get?
  rw [Std.TreeMap.getElem?_insertIfNew]
  by_cases h : other = value
  · subst h
    have hm := Std.TreeMap.mem_iff_isSome_getElem? (t := index.elements) (a := other)
    cases hv : index.elements[other]? <;> simp [hm, hv]
  · have : compare value other ≠ .eq := fun he =>
      h (Std.LawfulEqCmp.eq_of_compare he).symm
    simp [h, this]

end Index

end XmlTable.Identifier
