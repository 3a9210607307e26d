import Mathlib.Data.List.Dedup
import XmlTable.Proofs.Growth
import XmlTable.Symbol.Arena

/-!
# What tables of symbols answer

A pool gives a string one symbol, whatever the hash function is, and a buffer gives it a new one at
every call; either resolves a symbol to its string at every later moment. This is shown for runs of
calls, and carried over to the tables in memory, which have symbols of 32 bits: they answer as the
others do for as many calls as there are symbols.
-/

namespace XmlTable.Symbol

variable {σ τ : Type} {hash : String → UInt64}

/-! ### Calls -/

/-- A call to a table of symbols. -/
inductive Call where
  /-- Store a string. -/
  | intern (s : String)
  /-- Look a string up. -/
  | lookup (s : String)
  deriving DecidableEq, Repr

/-- The string that a call stores. The empty string is there from the start. -/
def Call.stored? : Call → Option String
  | intern s => if s.isEmpty then none else some s
  | lookup _ => none

/-- What a table of symbols does; a symbol is told by its number. -/
structure Interface (σ : Type) where
  /-- The table that holds the empty string only. -/
  empty : σ
  /-- Store a string and give its symbol. -/
  intern : σ → String → SymbolId × σ
  /-- The symbol of a string that is stored. -/
  lookup : σ → String → Option SymbolId
  /-- The string of a symbol. -/
  resolve : σ → SymbolId → Option String
  /-- The number of symbols given out, that of the empty string included. -/
  size : σ → Nat

namespace Interface

/-- What a call leaves of a table. -/
def call (I : Interface σ) (state : σ) : Call → σ
  | .intern s => (I.intern state s).2
  | .lookup _ => state

/-- The table after so many of some calls. -/
def moment (I : Interface σ) (calls : List Call) (k : Nat) : σ :=
  (calls.take k).foldl I.call I.empty

/-- The strings that so many of some calls store. -/
def stored (calls : List Call) (k : Nat) : List String :=
  (calls.take k).filterMap Call.stored?

/-- A table keeps the strings that it was given. -/
structure Keeps (I : Interface σ) (calls : List Call) : Prop where
  /-- A symbol is resolved at every later moment. -/
  resolve : ∀ (i k : Nat) (s : String), calls[i]? = some (.intern s) → i < k → k ≤ calls.length →
    I.resolve (I.moment calls k) (I.intern (I.moment calls i) s).1 = some s
  /-- Looking a string up changes nothing. -/
  lookup_keeps : ∀ (k : Nat) (s : String), calls[k]? = some (.lookup s) →
    I.moment calls (k + 1) = I.moment calls k
  /-- The empty string has the first symbol. -/
  intern_empty : ∀ i : Nat, calls[i]? = some (.intern "") →
    (I.intern (I.moment calls i) "").1 = emptyId
  /-- The first symbol is resolved to the empty string at every moment. -/
  resolve_empty : ∀ k ≤ calls.length, I.resolve (I.moment calls k) emptyId = some ""

/-- A table gives equal strings equal symbols, and different ones different symbols. -/
structure Deduplicates (I : Interface σ) (calls : List Call) : Prop extends Keeps I calls where
  /-- Two calls that store strings get the same symbol exactly if the strings are the same. -/
  intern_iff : ∀ (i j : Nat) (s t : String), calls[i]? = some (.intern s) →
    calls[j]? = some (.intern t) →
    ((I.intern (I.moment calls i) s).1 = (I.intern (I.moment calls j) t).1 ↔ s = t)
  /-- A string that was stored is found with the symbol that it would be given. -/
  lookup_of_mem : ∀ (k : Nat) (s : String), calls[k]? = some (.lookup s) →
    s = "" ∨ .intern s ∈ calls.take k →
    I.lookup (I.moment calls k) s = some (I.intern (I.moment calls k) s).1
  /-- Others are not found. -/
  lookup_of_notMem : ∀ (k : Nat) (s : String), calls[k]? = some (.lookup s) →
    ¬ (s = "" ∨ .intern s ∈ calls.take k) → I.lookup (I.moment calls k) s = none
  /-- The symbols are those of the empty string and of the different strings stored. -/
  size : ∀ k ≤ calls.length, I.size (I.moment calls k) = 1 + (stored calls k).dedup.length

/-- A table gives every nonempty string a new symbol each time. -/
structure Accumulates (I : Interface σ) (calls : List Call) : Prop extends Keeps I calls where
  /-- The symbol of a nonempty string is the next one. -/
  intern : ∀ (i : Nat) (s : String), calls[i]? = some (.intern s) → s ≠ "" →
    (I.intern (I.moment calls i) s).1 = I.size (I.moment calls i)
  /-- Until then it is not used, as none after it is. -/
  resolve_eq_none_iff : ∀ k ≤ calls.length, ∀ id,
    I.resolve (I.moment calls k) id = none ↔ I.size (I.moment calls k) ≤ id
  /-- A string is found with its least symbol, if it has one. -/
  lookup_eq_some_iff : ∀ (k : Nat) (s : String), calls[k]? = some (.lookup s) → ∀ id,
    I.lookup (I.moment calls k) s = some id ↔
      I.resolve (I.moment calls k) id = some s ∧
        ∀ other < id, I.resolve (I.moment calls k) other ≠ some s
  /-- The symbols are that of the empty string and one for each string stored. -/
  size : ∀ k ≤ calls.length, I.size (I.moment calls k) = 1 + (stored calls k).length

variable {I : Interface σ} {J : Interface τ} {calls : List Call} {k : Nat}

@[simp] theorem moment_zero (I : Interface σ) (calls : List Call) :
    I.moment calls 0 = I.empty := rfl

@[simp] theorem stored_zero (calls : List Call) : stored calls 0 = [] := rfl

theorem moment_succ {c : Call} (h : calls[k]? = some c) :
    I.moment calls (k + 1) = I.call (I.moment calls k) c := by
  rw [moment, List.take_add_one, h, Option.toList_some, List.foldl_append]
  rfl

/-- After the last call nothing changes. -/
theorem moment_succ_of_none (h : calls[k]? = none) :
    I.moment calls (k + 1) = I.moment calls k := by
  rw [moment, List.take_add_one, h, Option.toList_none, List.append_nil]
  rfl

theorem stored_succ_of_none (h : calls[k]? = none) : stored calls (k + 1) = stored calls k := by
  rw [stored, List.take_add_one, h, Option.toList_none, List.append_nil]
  rfl

theorem stored_succ {c : Call} (h : calls[k]? = some c) :
    stored calls (k + 1) = stored calls k ++ c.stored?.toList := by
  rw [stored, List.take_add_one, h, Option.toList_some, List.filterMap_append]
  cases hc : c.stored? <;> simp [hc, stored]

/-- The strings stored are those that calls are to store, but for the empty one. -/
theorem mem_stored_iff {s : String} : s ∈ stored calls k ↔ s ≠ "" ∧ .intern s ∈ calls.take k := by
  rw [stored, List.mem_filterMap]
  constructor
  · rintro ⟨c, hc, same⟩
    cases c with
    | lookup => cases same
    | intern t =>
      rw [Call.stored?] at same
      split at same
      · cases same
      · next ne =>
        obtain rfl := Option.some.inj same
        exact ⟨fun h => ne (String.isEmpty_iff.2 h), hc⟩
  · rintro ⟨ne, hm⟩
    refine ⟨_, hm, ?_⟩
    rw [Call.stored?, if_neg (mt String.isEmpty_iff.1 ne)]

/-- Looking a string up leaves a table as it is. -/
theorem moment_succ_of_lookup {s : String} (h : calls[k]? = some (.lookup s)) :
    I.moment calls (k + 1) = I.moment calls k :=
  moment_succ h

end Interface

/-! ### Pools -/

namespace Pool

open Interface

/-- What a pool does. -/
def interface (hash : String → UInt64) : Interface (Pool hash) where
  empty := .empty
  intern := intern
  lookup := lookup
  resolve := resolve
  size := size

variable {pool : Pool hash} {calls : List Call} {i k : Nat} {s t : String} {id : SymbolId}

theorem mem_entries_insert_iff : t ∈ (pool.insert s).entries ↔ t = s ∨ t ∈ pool.entries := by
  unfold insert
  split
  · next found =>
    have known : s ∈ pool.entries := by
      by_contra missing
      rw [(pool.lookup_eq_none_iff s).2 missing] at found
      cases found
    constructor
    · exact .inr
    · rintro (rfl | h)
      · exact known
      · exact h
  · simp [or_comm]

/-- A symbol is resolved to the same string later. -/
theorem resolve_moment_of_le (h : ((interface hash).moment calls i).resolve id = some s)
    (le : i ≤ k) : ((interface hash).moment calls k).resolve id = some s := by
  induction le with
  | refl => exact h
  | @step k _ ih =>
    cases hc : calls[k]? with
    | none => rwa [moment_succ_of_none hc]
    | some c =>
      rw [moment_succ hc]
      cases c with
      | intern t => exact resolve_insert_of_some _ t ih
      | lookup t => exact ih

/-- A symbol that was given is resolved to its string from then on. -/
theorem resolve_intern (hash : String → UInt64) (h : calls[i]? = some (.intern s)) (lt : i < k) :
    ((interface hash).moment calls k).resolve (((interface hash).moment calls i).symbolFor s) =
      some s := by
  refine resolve_moment_of_le ?_ lt
  rw [moment_succ h]
  exact resolve_insert_symbolFor _ s

/-- The strings of a pool are the empty one and those that were stored. -/
theorem mem_entries_moment : s ∈ ((interface hash).moment calls k).entries ↔
    s = "" ∨ s ∈ stored calls k := by
  induction k with
  | zero => simp [interface, Pool.empty]
  | succ k ih =>
    cases hc : calls[k]? with
    | none => rw [moment_succ_of_none hc, ih, stored_succ_of_none hc]
    | some c =>
      rw [moment_succ hc, stored_succ hc]
      cases c with
      | intern t =>
        change s ∈ (((interface hash).moment calls k).insert t).entries ↔ _
        rw [mem_entries_insert_iff]
        by_cases empty : t = ""
        · subst empty
          simp [ih, Call.stored?]
        · simp only [ih, Call.stored?, String.isEmpty_iff, empty, if_false, Option.toList_some,
            List.mem_append, List.mem_singleton]
          tauto
      | lookup t => simp [Interface.call, Call.stored?, ih]

theorem lookup_eq_some_symbolFor (h : s ∈ pool.entries) :
    pool.lookup s = some (pool.symbolFor s) := by
  cases found : pool.lookup s with
  | none => exact absurd h ((pool.lookup_eq_none_iff s).1 found)
  | some id => rw [symbolFor, found, Option.getD_some]

/-- A pool keeps the strings that it was given. -/
theorem keeps (hash : String → UInt64) (calls : List Call) : (interface hash).Keeps calls where
  resolve _ _ _ h lt _ := resolve_intern hash h lt
  lookup_keeps _ _ := moment_succ_of_lookup
  intern_empty _ _ := rfl
  resolve_empty _ _ := entries_zero _

/-- A pool gives equal strings equal symbols, whatever the hash is. -/
theorem deduplicates (hash : String → UInt64) (calls : List Call) :
    (interface hash).Deduplicates calls where
  toKeeps := keeps hash calls
  intern_iff i j s t hi hj := by
    have first := resolve_intern hash hi (Nat.lt_succ_of_le (Nat.le_max_left i j))
    have second := resolve_intern hash hj (Nat.lt_succ_of_le (Nat.le_max_right i j))
    constructor
    · intro same
      rw [show ((interface hash).moment calls i).symbolFor s =
        ((interface hash).moment calls j).symbolFor t from same, second] at first
      exact (Option.some.inj first).symm
    · rintro rfl
      exact resolve_inj _ first second
  lookup_of_mem k s _ known := by
    refine lookup_eq_some_symbolFor (mem_entries_moment.2 ?_)
    rw [mem_stored_iff]
    tauto
  lookup_of_notMem k s _ unknown := by
    refine (lookup_eq_none_iff _ s).2 fun hm => unknown ?_
    rw [mem_entries_moment, mem_stored_iff] at hm
    tauto
  size k _ := by
    have same : ((interface hash).moment calls k).entries.toList.Perm
        ("" :: (stored calls k).dedup) := by
      have fresh : "" ∉ (stored calls k).dedup := by
        rw [List.mem_dedup, mem_stored_iff]
        exact fun h => h.1 rfl
      refine (List.perm_ext_iff_of_nodup (nodup _)
        (List.nodup_cons.2 ⟨fresh, List.nodup_dedup _⟩)).2 fun s => ?_
      rw [Array.mem_toList_iff, mem_entries_moment, List.mem_cons, List.mem_dedup]
    have length := same.length_eq
    rw [Array.length_toList, List.length_cons] at length
    exact length.trans (Nat.add_comm ..)

end Pool

/-! ### Buffers -/

namespace Buffer

open Interface

/-- What a buffer does. -/
def interface : Interface Buffer where
  empty := .empty
  intern := intern
  lookup := lookup
  resolve := resolve
  size := size

variable {buffer : Buffer} {calls : List Call} {i k : Nat} {s : String} {id : SymbolId}

/-- The strings of a buffer are the empty one and then those that were stored, in order. -/
theorem toList_entries_moment (calls : List Call) (k : Nat) :
    (interface.moment calls k).entries.toList = "" :: stored calls k := by
  induction k with
  | zero => rfl
  | succ k ih =>
    cases hc : calls[k]? with
    | none => rw [moment_succ_of_none hc, ih, stored_succ_of_none hc]
    | some c =>
      rw [moment_succ hc, stored_succ hc]
      cases c with
      | intern s =>
        change ((interface.moment calls k).insert s).entries.toList = _
        unfold insert Call.stored?
        by_cases empty : s.isEmpty
        · simp [empty, ih]
        · simp [empty, ih]
      | lookup s => simp [Interface.call, Call.stored?, ih]

theorem resolve_moment (calls : List Call) (k : Nat) (id : SymbolId) :
    (interface.moment calls k).resolve id = ("" :: stored calls k)[id]? := by
  rw [resolve, ← Array.getElem?_toList, toList_entries_moment]

theorem size_moment (calls : List Call) (k : Nat) :
    (interface.moment calls k).size = 1 + (stored calls k).length := by
  rw [size, ← Array.length_toList, toList_entries_moment, List.length_cons, Nat.add_comm]

/-- What is stored later comes behind. -/
theorem stored_prefix (calls : List Call) {k k' : Nat} (h : k ≤ k') :
    stored calls k <+: stored calls k' :=
  (List.take_prefix_take_left h).filterMap _

theorem resolve_moment_of_le (h : (interface.moment calls i).resolve id = some s) (le : i ≤ k) :
    (interface.moment calls k).resolve id = some s := by
  rw [resolve_moment] at h ⊢
  obtain ⟨later, parts⟩ := stored_prefix calls le
  have lt := (List.getElem?_eq_some_iff.1 h).1
  rw [← parts, ← List.cons_append, List.getElem?_append_left lt, h]

/-- A string is found with its least symbol. -/
theorem lookup_eq_some_iff (buffer : Buffer) (s : String) (id : SymbolId) :
    buffer.lookup s = some id ↔
      buffer.resolve id = some s ∧ ∀ other < id, buffer.resolve other ≠ some s := by
  unfold lookup
  split
  · next hs =>
    obtain rfl := String.isEmpty_iff.1 hs
    constructor
    · rintro ⟨⟩
      exact ⟨buffer.entries_zero, fun other h => absurd h (Nat.not_lt_zero other)⟩
    · rintro ⟨-, least⟩
      have zero : ¬ emptyId < id := fun h => least emptyId h buffer.entries_zero
      rw [Nat.eq_zero_of_not_pos zero]
      rfl
  · rw [Array.findIdx?_eq_some_iff_getElem]
    constructor
    · rintro ⟨h, own, least⟩
      refine ⟨by simpa [resolve, h] using own, fun other lt => ?_⟩
      simpa [resolve, Nat.lt_trans lt h] using least other lt
    · rintro ⟨own, least⟩
      obtain ⟨h, own⟩ := Array.getElem?_eq_some_iff.1 own
      refine ⟨h, by simpa using own, fun other lt => ?_⟩
      simpa [resolve, Nat.lt_trans lt h] using least other lt

/-- A buffer keeps the strings that it was given. -/
theorem keeps (calls : List Call) : interface.Keeps calls where
  resolve i k s h lt _ := by
    refine resolve_moment_of_le ?_ lt
    rw [moment_succ h]
    exact resolve_insert_symbolFor _ s
  lookup_keeps _ _ := moment_succ_of_lookup
  intern_empty _ _ := rfl
  resolve_empty _ _ := entries_zero _

/-- A buffer gives a string a new symbol each time. -/
theorem accumulates (calls : List Call) : interface.Accumulates calls where
  toKeeps := keeps calls
  intern _ _ _ ne := if_neg (mt String.isEmpty_iff.1 ne)
  resolve_eq_none_iff _ _ _ := Array.getElem?_eq_none_iff
  lookup_eq_some_iff _ s _ id := lookup_eq_some_iff _ s id
  size k _ := size_moment calls k

end Buffer

/-! ### Tables that answer alike -/

namespace Interface

variable {I : Interface σ} {J : Interface τ} {R : σ → τ → Prop} {calls : List Call}

/-- Two tables answer some calls alike, and look the same at every moment. -/
structure Agrees (I : Interface σ) (J : Interface τ) (calls : List Call) : Prop where
  /-- A string that is stored now gets the same symbol. -/
  intern : ∀ k < calls.length, ∀ s,
    (I.intern (I.moment calls k) s).1 = (J.intern (J.moment calls k) s).1
  /-- A string that is looked up now has the same symbol. -/
  lookup : ∀ k < calls.length, ∀ s, I.lookup (I.moment calls k) s = J.lookup (J.moment calls k) s
  /-- Symbols are resolved to the same strings. -/
  resolve : ∀ k ≤ calls.length, ∀ id,
    I.resolve (I.moment calls k) id = J.resolve (J.moment calls k) id
  /-- There are as many symbols. -/
  size : ∀ k ≤ calls.length, I.size (I.moment calls k) = J.size (J.moment calls k)

theorem lt_length {i : Nat} {c : Call} (h : calls[i]? = some c) : i < calls.length :=
  (List.getElem?_eq_some_iff.1 h).1

theorem Keeps.of_agrees (h : J.Keeps calls) (same : I.Agrees J calls) : I.Keeps calls where
  resolve i k s hi lt le := by
    rw [same.intern i (lt_length hi), same.resolve k le]
    exact h.resolve i k s hi lt le
  lookup_keeps _ _ := moment_succ_of_lookup
  intern_empty i hi := by rw [same.intern i (lt_length hi), h.intern_empty i hi]
  resolve_empty k le := by rw [same.resolve k le, h.resolve_empty k le]

theorem Deduplicates.of_agrees (h : J.Deduplicates calls) (same : I.Agrees J calls) :
    I.Deduplicates calls where
  toKeeps := h.toKeeps.of_agrees same
  intern_iff i j s t hi hj := by
    rw [same.intern i (lt_length hi), same.intern j (lt_length hj)]
    exact h.intern_iff i j s t hi hj
  lookup_of_mem k s hk known := by
    rw [same.lookup k (lt_length hk), same.intern k (lt_length hk)]
    exact h.lookup_of_mem k s hk known
  lookup_of_notMem k s hk unknown := by
    rw [same.lookup k (lt_length hk)]
    exact h.lookup_of_notMem k s hk unknown
  size k le := by rw [same.size k le, h.size k le]

theorem Accumulates.of_agrees (h : J.Accumulates calls) (same : I.Agrees J calls) :
    I.Accumulates calls where
  toKeeps := h.toKeeps.of_agrees same
  intern i s hi ne := by
    rw [same.intern i (lt_length hi), same.size i (Nat.le_of_lt (lt_length hi))]
    exact h.intern i s hi ne
  resolve_eq_none_iff k le id := by
    rw [same.resolve k le, same.size k le]
    exact h.resolve_eq_none_iff k le id
  lookup_eq_some_iff k s hk id := by
    have le := Nat.le_of_lt (lt_length hk)
    simp only [same.lookup k (lt_length hk), same.resolve k le]
    exact h.lookup_eq_some_iff k s hk id
  size k le := by rw [same.size k le, h.size k le]

/-- A table does what another does as long as that has no more symbols than there are numbers of 32
bits. -/
structure Simulates (I : Interface σ) (J : Interface τ) (R : σ → τ → Prop) : Prop where
  /-- The tables that hold nothing correspond. -/
  empty : R I.empty J.empty
  /-- There is one symbol at first. -/
  size_empty : J.size J.empty = 1
  /-- A call gives one new symbol at most. -/
  size_intern_le : ∀ (y : τ) (s : String), J.size (J.intern y s).2 ≤ J.size y + 1
  /-- Tables that correspond have as many symbols. -/
  size : ∀ {x : σ} {y : τ}, R x y → I.size x = J.size y
  /-- They resolve them to the same strings. -/
  resolve : ∀ {x : σ} {y : τ}, R x y → J.size y ≤ UInt32.size → ∀ id,
    I.resolve x id = J.resolve y id
  /-- They find a string with the same symbol. -/
  lookup : ∀ {x : σ} {y : τ}, R x y → J.size y < UInt32.size → ∀ s, I.lookup x s = J.lookup y s
  /-- They give a string the same symbol, and correspond then. -/
  intern : ∀ {x : σ} {y : τ}, R x y → J.size y < UInt32.size → ∀ s,
    (I.intern x s).1 = (J.intern y s).1 ∧ R (I.intern x s).2 (J.intern y s).2

/-- At every moment the tables correspond, and there are no more symbols than calls and one. -/
theorem Simulates.moment (h : I.Simulates J R) (few : calls.length < UInt32.size) {k : Nat}
    (le : k ≤ calls.length) :
    R (I.moment calls k) (J.moment calls k) ∧ J.size (J.moment calls k) ≤ k + 1 := by
  induction k with
  | zero => exact ⟨h.empty, Nat.le_of_eq h.size_empty⟩
  | succ k ih =>
    obtain ⟨related, small⟩ := ih (Nat.le_of_succ_le le)
    have hc := List.getElem?_eq_getElem (show k < calls.length from le)
    rw [moment_succ hc, moment_succ hc]
    cases calls[k] with
    | intern s =>
      have bound := h.size_intern_le (J.moment calls k) s
      exact ⟨(h.intern related (by omega) s).2, by simp only [call]; omega⟩
    | lookup s => exact ⟨related, by simp only [call]; omega⟩

/-- Where there are fewer calls than numbers of 32 bits, the tables answer alike. -/
theorem Simulates.agrees (h : I.Simulates J R) (few : calls.length < UInt32.size) :
    I.Agrees J calls where
  intern k lt s := by
    obtain ⟨related, small⟩ := h.moment few (Nat.le_of_lt lt)
    exact (h.intern related (by omega) s).1
  lookup k lt s := by
    obtain ⟨related, small⟩ := h.moment few (Nat.le_of_lt lt)
    exact h.lookup related (by omega) s
  resolve k le id := by
    obtain ⟨related, small⟩ := h.moment few le
    exact h.resolve related (by omega) id
  size k le := h.size (h.moment few le).1

end Interface

/-! ### Tables in memory -/

namespace Arena

variable {arena : Arena} {entries : Array String}

/-- An arena holds some strings: each stands in the text at its place. -/
structure Holds (arena : Arena) (entries : Array String) : Prop where
  /-- There are as many. -/
  size : arena.size = entries.size
  /-- A string begins and ends where it is said to. -/
  cut : ∀ (id : Nat) (s : String), entries[id]? = some s → ∃ before after,
    arena.data = before ++ s ++ after ∧
      arena.entries[id]? = some (before.utf8ByteSize, s.utf8ByteSize)

theorem holds_empty : empty.Holds #[""] where
  size := rfl
  cut id s h := by
    obtain ⟨lt, rfl⟩ := Array.getElem?_eq_some_iff.1 h
    obtain rfl : id = 0 := Nat.lt_one_iff.1 lt
    exact ⟨"", "", rfl, rfl⟩

/-- A string that is put behind the others leaves them where they are. -/
theorem Holds.push (h : arena.Holds entries) (s : String) :
    (arena.push s).2.Holds (entries.push s) where
  size := by simpa [Arena.push, Arena.size] using h.size
  cut id t ht := by
    have sizes : arena.entries.size = entries.size := h.size
    rw [Array.getElem?_push] at ht
    by_cases last : id = entries.size
    · rw [if_pos last] at ht
      obtain rfl := Option.some.inj ht
      refine ⟨arena.data, "", (String.append_empty).symm, ?_⟩
      exact Array.getElem?_push.trans (if_pos (last.trans sizes.symm))
    · rw [if_neg last] at ht
      obtain ⟨before, after, data, entry⟩ := h.cut id t ht
      refine ⟨before, after ++ s, ?_, ?_⟩
      · simp only [Arena.push, data, String.append_assoc]
      · rw [← entry]
        exact Array.getElem?_push.trans (if_neg (by rwa [sizes]))

/-- A symbol is resolved to its string. -/
theorem Holds.get? (h : arena.Holds entries) (id : UInt32) :
    arena.get? id = entries[id.toNat]? := by
  cases found : entries[id.toNat]? with
  | none =>
    have beyond := Array.getElem?_eq_none_iff.1 found
    rw [← h.size] at beyond
    rw [Arena.get?, Array.getElem?_eq_none beyond, Option.bind_none]
  | some s =>
    obtain ⟨before, after, data, entry⟩ := h.cut _ s found
    rw [Arena.get?, entry, Option.bind_some, data]
    exact Text.part?_append before s after

/-- A string is found among symbols as it is among their numbers. -/
theorem Holds.find? (h : arena.Holds entries) (ids : List UInt32) (s : String) :
    (ids.find? fun id => arena.get? id == some s).map UInt32.toNat =
      (ids.map UInt32.toNat).find? fun id => entries[id]? == some s := by
  have same : (fun id : UInt32 => arena.get? id == some s) =
      (fun id => entries[id]? == some s) ∘ UInt32.toNat := by
    funext id
    rw [h.get?]
    rfl
  rw [same, List.find?_map]

/-- The number of the next symbol, as long as there is one. -/
theorem Holds.toNat_push (h : arena.Holds entries) (few : entries.size < UInt32.size) (s : String) :
    (arena.push s).1.toNat = entries.size := by
  rw [Arena.push, h.size]
  exact UInt32.toNat_ofNat_of_lt' few

end Arena

/-- A symbol of 32 bits is resolved by its number, and other numbers are of no symbol. -/
theorem resolve_eq {arena : Arena} {entries : Array String} (h : arena.Holds entries)
    (few : entries.size ≤ UInt32.size) (id : SymbolId) :
    (if id < UInt32.size then arena.get? (.ofNat id) else none) = entries[id]? := by
  by_cases small : id < UInt32.size
  · rw [if_pos small, h.get?, UInt32.toNat_ofNat_of_lt' small]
  · rw [if_neg small, Array.getElem?_eq_none (Nat.le_trans few (Nat.le_of_not_lt small))]

namespace FlatPool

/-- What a pool in memory does. -/
def interface (hash : String → UInt64) : Interface (FlatPool hash) where
  empty := .empty
  intern pool s := ((pool.intern s).1.toNat, (pool.intern s).2)
  lookup pool s := (pool.lookup s).map UInt32.toNat
  resolve pool id := if id < UInt32.size then pool.resolve (.ofNat id) else none
  size := size

variable {flat : FlatPool hash} {pool : Pool hash}

/-- A pool in memory has the strings and the buckets of a pool. -/
structure Represents (flat : FlatPool hash) (pool : Pool hash) : Prop where
  /-- The strings. -/
  arena : flat.arena.Holds pool.entries
  /-- The buckets. -/
  index : ∀ key : UInt64,
    (flat.index[key]?.getD []).map UInt32.toNat = pool.buckets[key]?.getD []

theorem represents_empty : Represents (empty : FlatPool hash) Pool.empty where
  arena := Arena.holds_empty
  index h := by simp [empty, Pool.empty]

/-- A nonempty string is found among those with its hash. -/
theorem Represents.find? (h : flat.Represents pool) {s : String} (ne : ¬ s.isEmpty = true) :
    (flat.find? s).map UInt32.toNat = pool.lookup s := by
  rw [Pool.lookup, if_neg ne, ← h.index]
  exact h.arena.find? _ s

theorem Represents.lookup (h : flat.Represents pool) (s : String) :
    (flat.lookup s).map UInt32.toNat = pool.lookup s := by
  unfold FlatPool.lookup
  by_cases empty : s.isEmpty = true
  · rw [if_pos empty, Pool.lookup, if_pos empty]
    rfl
  · rw [if_neg empty, h.find? empty]

/-- A string that has no symbol gets the next one. -/
theorem Represents.add (h : flat.Represents pool) (few : pool.size < UInt32.size) {s : String}
    (new : pool.lookup s = none) :
    (flat.add s).1.toNat = pool.size ∧ (flat.add s).2.Represents (pool.insert s) := by
  have number := h.arena.toNat_push few s
  have missing : ¬ (pool.lookup s).isSome = true := by rw [new]; exact Bool.false_ne_true
  refine ⟨number, ?_, fun key => ?_⟩
  · rw [Pool.insert, dif_neg missing]
    exact h.arena.push s
  · rw [Pool.insert, dif_neg missing]
    simp only [FlatPool.add, Std.TreeMap.getElem?_alter]
    split
    · simp [← h.index, number, Pool.size]
    · exact h.index key

theorem Represents.intern (h : flat.Represents pool) (few : pool.size < UInt32.size)
    (s : String) : (flat.intern s).1.toNat = pool.symbolFor s ∧
      (flat.intern s).2.Represents (pool.insert s) := by
  have kept : (pool.lookup s).isSome = true → pool.insert s = pool := fun found => dif_pos found
  unfold FlatPool.intern
  by_cases empty : s.isEmpty = true
  · have found : pool.lookup s = some emptyId := if_pos empty
    rw [if_pos empty, kept (by rw [found]; rfl), Pool.symbolFor, found]
    exact ⟨rfl, h⟩
  · rw [if_neg empty]
    have same := h.find? empty
    cases found : flat.find? s with
    | some id =>
      rw [found] at same
      rw [kept (by rw [← same]; rfl), Pool.symbolFor, ← same]
      exact ⟨rfl, h⟩
    | none =>
      rw [found] at same
      rw [Pool.symbolFor, ← same]
      exact h.add few same.symm

/-- A pool in memory does what a pool does. -/
theorem simulates (hash : String → UInt64) :
    (interface hash).Simulates (Pool.interface hash) Represents where
  empty := represents_empty
  size_empty := rfl
  size_intern_le pool s := by
    change (pool.insert s).size ≤ pool.size + 1
    unfold Pool.insert
    split
    · exact Nat.le_succ _
    · exact Nat.le_of_eq (Array.size_push ..)
  size h := h.arena.size
  resolve h few id := resolve_eq h.arena few id
  lookup h _ s := h.lookup s
  intern h few s := h.intern few s

end FlatPool

namespace FlatBuffer

/-- What a buffer in memory does. -/
def interface : Interface FlatBuffer where
  empty := .empty
  intern buffer s := ((buffer.intern s).1.toNat, (buffer.intern s).2)
  lookup buffer s := (buffer.lookup s).map UInt32.toNat
  resolve buffer id := if id < UInt32.size then buffer.resolve (.ofNat id) else none
  size := size

variable {flat : FlatBuffer} {buffer : Buffer}

/-- A buffer in memory has the strings of a buffer. -/
def Represents (flat : FlatBuffer) (buffer : Buffer) : Prop :=
  flat.arena.Holds buffer.entries

/-- The symbols of the nonempty strings are gone through in order. -/
theorem Represents.ids (h : flat.Represents buffer) (few : buffer.size < UInt32.size) :
    flat.ids.map UInt32.toNat = List.range' 1 (buffer.size - 1) := by
  have same : flat.size = buffer.size := h.size
  rw [FlatBuffer.ids, same, UInt32.toNat_ofNat_of_lt' few, List.map_map]
  refine (List.map_congr_left fun id hid => ?_).trans (List.map_id _)
  have bounds := List.mem_range'_1.1 hid
  exact UInt32.toNat_ofNat_of_lt' (show id < UInt32.size by omega)

/-- A nonempty string is found with the least symbol. -/
theorem Represents.find? (h : flat.Represents buffer) (few : buffer.size < UInt32.size)
    {s : String} (ne : s ≠ "") :
    (flat.ids.find? fun id => flat.resolve id == some s).map UInt32.toNat = buffer.lookup s := by
  have found : (flat.ids.find? fun id => flat.resolve id == some s).map UInt32.toNat =
      (flat.ids.map UInt32.toNat).find? fun id => buffer.resolve id == some s :=
    Arena.Holds.find? h flat.ids s
  rw [found, h.ids few]
  apply Option.ext
  intro (id : Nat)
  rw [List.find?_range'_eq_some, Buffer.lookup_eq_some_iff]
  -- the search begins behind the empty string, which is another one
  have first : buffer.resolve 0 ≠ some s := by
    rw [show buffer.resolve 0 = some "" from buffer.entries_zero]
    exact fun eq => ne (Option.some.inj eq).symm
  constructor
  · rintro ⟨own, -, least⟩
    refine ⟨by simpa using own, fun other lt => ?_⟩
    cases other with
    | zero => exact first
    | succ other => simpa using least (other + 1) (Nat.succ_pos other) lt
  · rintro ⟨own, least⟩
    have lt : id < buffer.size := (Array.getElem?_eq_some_iff.1 own).1
    have pos : id ≠ 0 := fun zero => first (zero ▸ own)
    refine ⟨by simpa using own, List.mem_range'_1.2 (by omega), fun other _ before => ?_⟩
    simpa using least other before

theorem Represents.lookup (h : flat.Represents buffer) (few : buffer.size < UInt32.size)
    (s : String) : (flat.lookup s).map UInt32.toNat = buffer.lookup s := by
  unfold FlatBuffer.lookup
  by_cases empty : s.isEmpty = true
  · rw [if_pos empty, Buffer.lookup, if_pos empty]
    rfl
  · rw [if_neg empty, h.find? few (mt String.isEmpty_iff.2 empty)]

theorem Represents.intern (h : flat.Represents buffer) (few : buffer.size < UInt32.size)
    (s : String) : (flat.intern s).1.toNat = buffer.symbolFor s ∧
      (flat.intern s).2.Represents (buffer.insert s) := by
  unfold FlatBuffer.intern Buffer.symbolFor Buffer.insert
  by_cases empty : s.isEmpty = true
  · simp only [if_pos empty]
    exact ⟨rfl, h⟩
  · simp only [if_neg empty]
    exact ⟨h.toNat_push few s, h.push s⟩

/-- A buffer in memory does what a buffer does. -/
theorem simulates : interface.Simulates Buffer.interface Represents where
  empty := Arena.holds_empty
  size_empty := rfl
  size_intern_le buffer s := by
    change (buffer.insert s).size ≤ buffer.size + 1
    unfold Buffer.insert
    split
    · exact Nat.le_succ _
    · exact Nat.le_of_eq (Array.size_push ..)
  size h := h.size
  resolve h few id := resolve_eq h few id
  lookup h few s := h.lookup few s
  intern h few s := h.intern few s

end FlatBuffer

/-! ### All tables -/

/-- Whatever the hash function is, pools give strings symbols that tell them apart, and buffers give
them new ones. So do those in memory for fewer calls than there are numbers of 32 bits, and their
answers are the same. -/
theorem symbols_are_faithful (hash : String → UInt64) {calls : List Call}
    (few : calls.length < UInt32.size) :
    ((Pool.interface hash).Deduplicates calls ∧ (FlatPool.interface hash).Deduplicates calls ∧
      (FlatPool.interface hash).Agrees (Pool.interface hash) calls) ∧
    (Buffer.interface.Accumulates calls ∧ FlatBuffer.interface.Accumulates calls ∧
      FlatBuffer.interface.Agrees Buffer.interface calls) := by
  have pools := (FlatPool.simulates hash).agrees few
  have buffers := FlatBuffer.simulates.agrees few
  have dedup := Pool.deduplicates hash calls
  have accum := Buffer.accumulates calls
  exact ⟨⟨dedup, dedup.of_agrees pools, pools⟩, accum, accum.of_agrees buffers, buffers⟩

/-- It is so where all strings have one hash. -/
theorem symbols_are_faithful_of_collisions :
    [Call.intern "é", .lookup "x", .intern "a", .intern "é", .lookup "a"].length < UInt32.size ∧
      (FlatPool.interface fun _ => 0).Deduplicates
        [.intern "é", .lookup "x", .intern "a", .intern "é", .lookup "a"] ∧
      FlatBuffer.interface.Accumulates
        [.intern "é", .lookup "x", .intern "a", .intern "é", .lookup "a"] := by
  have few : [Call.intern "é", .lookup "x", .intern "a", .intern "é", .lookup "a"].length <
      UInt32.size := by decide
  have faithful := symbols_are_faithful (fun _ => 0) few
  exact ⟨few, faithful.1.2.1, faithful.2.2.1⟩

end XmlTable.Symbol
