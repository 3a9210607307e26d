import XmlTable.Config
import XmlTable.Symbol.Buffer

/-!
# The store of text payloads

Text payloads are kept in a pool or in a buffer, as the settings say. The choice shows in the
symbols only: the string of a symbol is the one that was stored.
-/

namespace XmlTable.Symbol

/-- The pool that documents use. -/
abbrev ContentPool := Pool contentHash

/-- A store of text payloads. -/
inductive Store where
  /-- Equal texts share a symbol. -/
  | pool (pool : ContentPool)
  /-- Every text has a symbol of its own. -/
  | buffer (buffer : Buffer)

namespace Store

/-- The empty store of a kind. -/
def ofStorage : TextStorage → Store
  | .interned => pool Pool.empty
  | .appended => buffer Buffer.empty

/-- The string of a symbol. -/
def resolve : Store → SymbolId → Option String
  | pool p, id => p.resolve id
  | buffer b, id => b.resolve id

/-- The symbol that storing a string gives. -/
def symbolFor : Store → String → SymbolId
  | pool p, s => p.symbolFor s
  | buffer b, s => b.symbolFor s

/-- The store after a string was stored. -/
def insert : Store → String → Store
  | pool p, s => pool (p.insert s)
  | buffer b, s => buffer (b.insert s)

/-- The string of a symbol, the empty string for a number that is none. -/
def get (store : Store) (id : SymbolId) : String :=
  (store.resolve id).getD ""

/-- What was stored resolves to itself, in either kind of store. -/
theorem resolve_insert_symbolFor (store : Store) (s : String) :
    (store.insert s).resolve (store.symbolFor s) = some s := by
  cases store with
  | pool p => exact p.resolve_insert_symbolFor s
  | buffer b => exact b.resolve_insert_symbolFor s

end Store

end XmlTable.Symbol
