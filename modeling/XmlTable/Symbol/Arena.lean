import XmlTable.Symbol.Pool

/-!
# Symbols in memory

The strings that have symbols stand in one long text, one behind the other. For each symbol, which
is a number of 32 bits, it is known where its string begins and how long it is, both in bytes. A
pool finds a string among the symbols with its hash, and a buffer by going through all symbols.
-/

namespace XmlTable

/-- The part of a text from one place to another, both counted in bytes. There is none if one of
them is beyond the text or inside a character. -/
def Text.part? (text : String) (start stop : Nat) : Option String :=
  if h : String.Pos.Raw.IsValid text ⟨start⟩ ∧ String.Pos.Raw.IsValid text ⟨stop⟩ then
    some (text.extract ⟨⟨start⟩, h.1⟩ ⟨⟨stop⟩, h.2⟩)
  else none

/-- A part of a text is found at its place. -/
theorem Text.part?_append (before s after : String) :
    part? (before ++ s ++ after) before.utf8ByteSize (before.utf8ByteSize + s.utf8ByteSize) =
      some s := by
  have start : String.Pos.Raw.IsValid (before ++ s ++ after) ⟨before.utf8ByteSize⟩ :=
    String.Pos.Raw.isValid_iff_exists_append.2 ⟨before, s ++ after, String.append_assoc, rfl⟩
  have stop : String.Pos.Raw.IsValid (before ++ s ++ after)
      ⟨before.utf8ByteSize + s.utf8ByteSize⟩ := by
    rw [← String.utf8ByteSize_append]
    exact String.Pos.Raw.isValid_iff_exists_append.2 ⟨before ++ s, after, rfl, rfl⟩
  rw [part?, dif_pos ⟨start, stop⟩]
  apply congrArg some
  apply String.toByteArray_inj.1
  rw [String.toByteArray_extract, String.toByteArray_append, String.toByteArray_append,
    ByteArray.append_assoc]
  have behind := ByteArray.extract_append_size_add' (a := before.toByteArray)
    (b := s.toByteArray ++ after.toByteArray) (i := 0) (j := s.utf8ByteSize) rfl
  exact behind.trans (ByteArray.extract_append_eq_left rfl)

namespace Symbol

/-- Strings in one text. -/
structure Arena where
  /-- Where each string begins and how long it is, in bytes, by symbol. -/
  entries : Array (Nat × Nat)
  /-- The strings, one behind the other. -/
  data : String
  deriving DecidableEq, Repr

namespace Arena

/-- The arena that holds the empty string only. -/
def empty : Arena := ⟨#[(0, 0)], ""⟩

/-- The number of strings. -/
def size (arena : Arena) : Nat :=
  arena.entries.size

/-- Put a string behind the others; the answer is its symbol. -/
def push (arena : Arena) (s : String) : UInt32 × Arena :=
  (.ofNat arena.size,
    { entries := arena.entries.push (arena.data.utf8ByteSize, s.utf8ByteSize)
      data := arena.data ++ s })

/-- The string of a symbol. -/
def get? (arena : Arena) (id : UInt32) : Option String :=
  arena.entries[id.toNat]?.bind fun entry => Text.part? arena.data entry.1 (entry.1 + entry.2)

end Arena

/-- The symbol of the empty string. -/
def emptyWord : UInt32 := 0

/-- A pool in memory. -/
structure FlatPool (hash : String → UInt64) where
  /-- The strings. -/
  arena : Arena
  /-- The symbols of the nonempty strings with a hash, oldest first. -/
  index : Std.TreeMap UInt64 (List UInt32)

namespace FlatPool

variable {hash : String → UInt64}

/-- The pool that holds the empty string only. -/
def empty : FlatPool hash := ⟨.empty, ∅⟩

/-- The number of symbols given out, that of the empty string included. -/
def size (pool : FlatPool hash) : Nat :=
  pool.arena.size

/-- The string of a symbol. -/
def resolve (pool : FlatPool hash) (id : UInt32) : Option String :=
  pool.arena.get? id

/-- The symbol of a nonempty string among those with its hash. -/
def find? (pool : FlatPool hash) (s : String) : Option UInt32 :=
  (pool.index[hash s]?.getD []).find? fun id => pool.resolve id == some s

/-- The symbol of a string that is stored. -/
def lookup (pool : FlatPool hash) (s : String) : Option UInt32 :=
  if s.isEmpty then some emptyWord else pool.find? s

/-- Store a string that has no symbol. -/
def add (pool : FlatPool hash) (s : String) : UInt32 × FlatPool hash :=
  ((pool.arena.push s).1,
    { arena := (pool.arena.push s).2
      index := pool.index.alter (hash s) fun bucket =>
        some (bucket.getD [] ++ [(pool.arena.push s).1]) })

/-- Store a string and give its symbol. -/
def intern (pool : FlatPool hash) (s : String) : UInt32 × FlatPool hash :=
  if s.isEmpty then (emptyWord, pool)
  else
    match pool.find? s with
    | some id => (id, pool)
    | none => pool.add s

end FlatPool

/-- A buffer in memory. -/
structure FlatBuffer where
  /-- The strings. -/
  arena : Arena
  deriving DecidableEq, Repr

namespace FlatBuffer

/-- The buffer that holds the empty string only. -/
def empty : FlatBuffer := ⟨.empty⟩

/-- The number of symbols given out, that of the empty string included. -/
def size (buffer : FlatBuffer) : Nat :=
  buffer.arena.size

/-- The string of a symbol. -/
def resolve (buffer : FlatBuffer) (id : UInt32) : Option String :=
  buffer.arena.get? id

/-- The symbols of nonempty strings in order. Their number is one of 32 bits too. -/
def ids (buffer : FlatBuffer) : List UInt32 :=
  (List.range' 1 ((UInt32.ofNat buffer.size).toNat - 1)).map .ofNat

/-- The least symbol of a string that is stored. -/
def lookup (buffer : FlatBuffer) (s : String) : Option UInt32 :=
  if s.isEmpty then some emptyWord else buffer.ids.find? fun id => buffer.resolve id == some s

/-- Store a string and give its symbol. -/
def intern (buffer : FlatBuffer) (s : String) : UInt32 × FlatBuffer :=
  if s.isEmpty then (emptyWord, buffer)
  else ((buffer.arena.push s).1, ⟨(buffer.arena.push s).2⟩)

end FlatBuffer

end Symbol

end XmlTable
