import XmlTable.Symbol.Pool

/-!
# Symbols for text that rarely repeats

A buffer stores every nonempty string anew: it needs no hash and no index, and gives the next free
symbol. Looking a string up finds the oldest copy.
-/

namespace XmlTable.Symbol

/-- A store of strings in which every nonempty string gets a symbol of its own. -/
structure Buffer where
  /-- The strings by symbol. -/
  entries : Array String
  /-- Symbol 0 is the empty string. -/
  entries_zero : entries[emptyId]? = some ""
  deriving DecidableEq, Repr

namespace Buffer

/-- The buffer that holds the empty string only. -/
def empty : Buffer := ⟨#[""], getElem?_emptyId⟩

/-- The number of symbols given out, that of the empty string included. -/
def size (buffer : Buffer) : Nat :=
  buffer.entries.size

/-- No string was stored besides the empty one. -/
def isEmpty (buffer : Buffer) : Bool :=
  buffer.size ≤ 1

/-- The string of a symbol. -/
def resolve (buffer : Buffer) (id : SymbolId) : Option String :=
  buffer.entries[id]?

/-- The least symbol of a string that is stored. -/
def lookup (buffer : Buffer) (s : String) : Option SymbolId :=
  if s.isEmpty then some emptyId else buffer.entries.findIdx? (· == s)

/-- The symbol that storing a string gives. -/
def symbolFor (buffer : Buffer) (s : String) : SymbolId :=
  if s.isEmpty then emptyId else buffer.size

/-- The buffer after a string was stored. -/
def insert (buffer : Buffer) (s : String) : Buffer :=
  if s.isEmpty then buffer
  else
    { entries := buffer.entries.push s
      entries_zero := by
        obtain ⟨hlt, _⟩ := Array.getElem?_eq_some_iff.1 buffer.entries_zero
        rw [Array.getElem?_push_lt hlt, ← Array.getElem?_eq_getElem hlt, buffer.entries_zero] }

/-- Store a string and give its symbol. -/
def intern (buffer : Buffer) (s : String) : SymbolId × Buffer :=
  (buffer.symbolFor s, buffer.insert s)

/-- What was stored resolves to itself. -/
theorem resolve_insert_symbolFor (buffer : Buffer) (s : String) :
    (buffer.insert s).resolve (buffer.symbolFor s) = some s := by
  unfold insert symbolFor
  split
  · next h =>
    rw [String.isEmpty_iff.1 h]
    exact buffer.entries_zero
  · simp [resolve, size]

/-- A symbol keeps its string. -/
theorem resolve_insert_of_lt (buffer : Buffer) (s : String) {id : SymbolId}
    (h : id < buffer.size) : (buffer.insert s).resolve id = buffer.resolve id := by
  unfold insert
  split
  · rfl
  · simp only [resolve, size] at *
    rw [Array.getElem?_push_lt h, Array.getElem?_eq_getElem h]

end Buffer

end XmlTable.Symbol
