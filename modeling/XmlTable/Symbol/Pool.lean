import Std.Data.TreeMap

/-!
# Symbols: strings by number

A string that a document holds is stored once and referred to by a small number, its symbol.
Symbol 0 is the empty string everywhere. A pool gives equal strings equal symbols. It finds a
string through buckets of symbols with the same hash, and compares the strings of a bucket, so the
hash function matters to speed alone: it is a parameter of the type. The type carries that the
strings are distinct and that the buckets have all of them, so looking a string up finds exactly
the symbol that it was given.
-/

namespace XmlTable

/-- The number of a stored string. -/
abbrev SymbolId := Nat

namespace Symbol

/-- The symbol of the empty string. -/
def emptyId : SymbolId := 0

/-- It is the symbol of the string that is there from the start. -/
theorem getElem?_emptyId : #[""][emptyId]? = some "" :=
  rfl

/-- A hash of the content of a string: each code point is mixed in by exclusive or and a
multiplication. -/
def contentHash (s : String) : UInt64 :=
  s.toList.foldl (fun h c => (h ^^^ c.val.toUInt64) * 1099511628211) 14695981039346656037

/-- A store of strings in which equal strings have equal symbols. -/
structure Pool (hash : String → UInt64) where
  /-- The strings by symbol. -/
  entries : Array String
  /-- The symbols of the nonempty strings with a hash, oldest first. -/
  buckets : Std.TreeMap UInt64 (List SymbolId)
  /-- Symbol 0 is the empty string. -/
  entries_zero : entries[emptyId]? = some ""
  /-- No string is stored twice. -/
  nodup : entries.toList.Nodup
  /-- A nonempty string is in the bucket of its hash. -/
  mem_bucket : ∀ (id : SymbolId) (s : String), entries[id]? = some s → s ≠ "" →
    id ∈ buckets[hash s]?.getD []

namespace Pool

variable {hash : String → UInt64}

/-- The pool that holds the empty string only. -/
def empty : Pool hash where
  entries := #[""]
  buckets := ∅
  entries_zero := getElem?_emptyId
  nodup := by simp
  mem_bucket id s h hne := by
    obtain ⟨_, rfl⟩ := Array.getElem?_eq_some_iff.1 h
    simp at hne

/-- The number of symbols given out, that of the empty string included. -/
def size (pool : Pool hash) : Nat :=
  pool.entries.size

/-- No string was stored besides the empty one. -/
def isEmpty (pool : Pool hash) : Bool :=
  pool.size ≤ 1

/-- The string of a symbol. -/
def resolve (pool : Pool hash) (id : SymbolId) : Option String :=
  pool.entries[id]?

/-- The symbol of a string that is stored. -/
def lookup (pool : Pool hash) (s : String) : Option SymbolId :=
  if s.isEmpty then some emptyId
  else (pool.buckets[hash s]?.getD []).find? fun id => pool.resolve id == some s

/-- Symbols of one string are the same. -/
theorem resolve_inj (pool : Pool hash) {s : String} {id id' : SymbolId}
    (h : pool.resolve id = some s) (h' : pool.resolve id' = some s) : id = id' := by
  obtain ⟨hlt, _⟩ := Array.getElem?_eq_some_iff.1 h
  refine (List.getElem?_inj (by rwa [Array.length_toList]) pool.nodup).1 ?_
  rw [Array.getElem?_toList, Array.getElem?_toList]
  exact h.trans h'.symm

/-- Looking a string up finds its symbol. -/
theorem lookup_eq_some_iff (pool : Pool hash) (s : String) (id : SymbolId) :
    pool.lookup s = some id ↔ pool.resolve id = some s := by
  unfold lookup
  split
  · next hs =>
    obtain rfl := String.isEmpty_iff.1 hs
    constructor
    · rintro ⟨⟩
      exact pool.entries_zero
    · intro h
      rw [pool.resolve_inj h pool.entries_zero]
  · next hs =>
    constructor
    · intro h
      simpa using List.find?_some h
    · intro h
      have hm := pool.mem_bucket id s h (fun he => hs (String.isEmpty_iff.2 he))
      have found : ((pool.buckets[hash s]?.getD []).find? fun id =>
          pool.resolve id == some s).isSome :=
        List.find?_isSome.2 ⟨id, hm, by simpa using h⟩
      obtain ⟨id', h'⟩ := Option.isSome_iff_exists.1 found
      rw [h', pool.resolve_inj h (by simpa using List.find?_some h')]

/-- A string that is not found has no symbol. -/
theorem lookup_eq_none_iff (pool : Pool hash) (s : String) :
    pool.lookup s = none ↔ s ∉ pool.entries := by
  rw [Option.eq_none_iff_forall_ne_some, Array.mem_iff_getElem?, not_exists]
  exact forall_congr' fun id => not_congr (pool.lookup_eq_some_iff s id)

/-- The symbol that storing a string gives. -/
def symbolFor (pool : Pool hash) (s : String) : SymbolId :=
  (pool.lookup s).getD pool.size

/-- The pool after a string was stored. -/
def insert (pool : Pool hash) (s : String) : Pool hash :=
  if h : (pool.lookup s).isSome then pool
  else
    have fresh : s ∉ pool.entries :=
      (pool.lookup_eq_none_iff s).1 (Option.not_isSome_iff_eq_none.1 h)
    { entries := pool.entries.push s
      buckets := pool.buckets.alter (hash s) fun bucket => some (bucket.getD [] ++ [pool.size])
      entries_zero := by
        obtain ⟨hlt, _⟩ := Array.getElem?_eq_some_iff.1 pool.entries_zero
        rw [Array.getElem?_push_lt hlt, ← Array.getElem?_eq_getElem hlt, pool.entries_zero]
      nodup := by
        rw [Array.toList_push, List.nodup_append]
        refine ⟨pool.nodup, by simp, ?_⟩
        rintro t ht _ hs rfl
        obtain rfl := List.mem_singleton.1 hs
        exact fresh (Array.mem_toList_iff.1 ht)
      mem_bucket := fun id t ht hne => by
        rw [Std.TreeMap.getElem?_alter]
        rw [Array.getElem?_push] at ht
        split at ht
        · next hid =>
          obtain rfl := Option.some.inj ht
          simp [hid, size]
        · next hid =>
          have := pool.mem_bucket id t ht hne
          split
          · next hc =>
            rw [Std.LawfulEqCmp.eq_of_compare hc]
            simp [this]
          · exact this }

/-- Store a string and give its symbol. -/
def intern (pool : Pool hash) (s : String) : SymbolId × Pool hash :=
  (pool.symbolFor s, pool.insert s)

/-- The number of bytes of all strings stored. -/
def bytesUsed (pool : Pool hash) : Nat :=
  pool.entries.foldl (fun total s => total + s.utf8ByteSize) 0

/-- What was stored resolves to itself. -/
theorem resolve_insert_symbolFor (pool : Pool hash) (s : String) :
    (pool.insert s).resolve (pool.symbolFor s) = some s := by
  unfold insert symbolFor
  split
  · next h =>
    obtain ⟨id, hid⟩ := Option.isSome_iff_exists.1 h
    rw [hid, Option.getD_some]
    exact (pool.lookup_eq_some_iff s id).1 hid
  · next h =>
    rw [Option.not_isSome_iff_eq_none.1 h]
    simp [resolve, size]

/-- A symbol keeps its string. -/
theorem resolve_insert_of_lt (pool : Pool hash) (s : String) {id : SymbolId}
    (h : id < pool.size) : (pool.insert s).resolve id = pool.resolve id := by
  unfold insert
  split
  · rfl
  · simp only [resolve, size] at *
    rw [Array.getElem?_push_lt h, Array.getElem?_eq_getElem h]

/-- A string that is stored is found, and no others than before. -/
theorem lookup_insert (pool : Pool hash) (s t : String) :
    (pool.insert s).lookup t = if t = s then some (pool.symbolFor s) else pool.lookup t := by
  split
  · next h =>
    rw [h, lookup_eq_some_iff, resolve_insert_symbolFor]
  · next h =>
    unfold insert
    split
    · rfl
    · ext id
      rw [lookup_eq_some_iff, lookup_eq_some_iff]
      simp only [resolve, Array.getElem?_push]
      split
      · next hid =>
        simp [hid, Ne.symm h]
      · rfl

end Pool

end Symbol

end XmlTable
