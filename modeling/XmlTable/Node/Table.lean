import XmlTable.Node.Geometry

/-!
# The node table

Records are kept in chunks. A chunk is begun when its first record arrives and is never moved
afterwards, so growing the table leaves every record where it is. The record with index `i` is the
one at `i % chunkSize` in chunk `i / chunkSize`: every chunk but the last is full, which the type
carries. Records are appended and their links replaced; nothing else changes. The laws say what
each operation does to `get?`, and that `toList` lists the same records.
-/

namespace XmlTable.Node

/-- Records in chunks. -/
structure Table where
  /-- The shape of the table. -/
  geometry : Geometry
  /-- The chunks begun so far. -/
  chunks : Array (Array Record) := #[]
  /-- The number of records. -/
  size : Nat := 0
  /-- The chunks have room for all records. -/
  size_le : size ≤ chunks.size * geometry.chunkSize := by simp
  /-- No chunk is begun before the one in front of it is full. -/
  lt_size_add : chunks.size * geometry.chunkSize < size + geometry.chunkSize := by
    simp [Geometry.chunkSize_pos]
  /-- A chunk holds the records that follow those of the chunks in front of it, as far as it has
  room. -/
  size_chunk : ∀ (c : Nat) (h : c < chunks.size),
    chunks[c].size = min geometry.chunkSize (size - c * geometry.chunkSize) := by simp
  deriving DecidableEq, Repr

namespace Table

/-- The table without records. -/
def empty (geometry : Geometry) : Table := { geometry }

/-- No record was appended yet. -/
def isEmpty (table : Table) : Bool :=
  table.size = 0

/-- The most records that the table can hold. -/
def capacity (table : Table) : Nat :=
  table.geometry.capacity

/-- The number of chunks begun. -/
def allocatedChunks (table : Table) : Nat :=
  table.chunks.size

/-- The record with an index. -/
def get? (table : Table) (index : Nat) : Option Record :=
  table.chunks[index / table.geometry.chunkSize]?.bind fun chunk =>
    chunk[index % table.geometry.chunkSize]?

/-- What is known of the next sibling of a record of a linked kind. -/
def link? (table : Table) (index : Nat) : Option Link :=
  (table.get? index).bind Record.link?

/-- So many more records have room. -/
def hasRoom (table : Table) (count : Nat) : Bool :=
  table.size + count ≤ table.capacity

/-! ### Appending -/

/-- One more record leaves the other chunks as they are. -/
private theorem fill_succ_of_ne (n c : Nat) {k : Nat} (hk : 0 < k) (h : c ≠ n / k) :
    min k (n + 1 - c * k) = min k (n - c * k) := by
  have := Nat.div_mul_le_self n k
  have := Nat.lt_div_mul_add (a := n) hk
  rcases Nat.lt_or_gt_of_ne h with h | h
  · have := Nat.mul_le_mul_right k (show c + 1 ≤ n / k from h)
    rw [Nat.succ_mul] at this
    omega
  · have := Nat.mul_le_mul_right k (show n / k + 1 ≤ c from h)
    rw [Nat.succ_mul] at this
    omega

/-- One more record comes into the chunk that its index falls into. -/
private theorem fill_succ_self (n : Nat) {k : Nat} (hk : 0 < k) :
    min k (n + 1 - n / k * k) = min k (n - n / k * k) + 1 := by
  have := Nat.div_mul_le_self n k
  have := Nat.lt_div_mul_add (a := n) hk
  omega

/-- Put a record after the last one, in a new chunk if the last chunk is full. -/
def push (table : Table) (record : Record) : Table :=
  have hk := table.geometry.chunkSize_pos
  have hn := table.size_le
  have hm := table.lt_size_add
  have hq := Nat.div_mul_le_self table.size table.geometry.chunkSize
  have hr := Nat.lt_div_mul_add (a := table.size) hk
  if h : table.size / table.geometry.chunkSize < table.chunks.size then
    { geometry := table.geometry
      size := table.size + 1
      chunks := table.chunks.modify (table.size / table.geometry.chunkSize) (·.push record)
      size_le := by
        have := Nat.mul_le_mul_right table.geometry.chunkSize (show _ + 1 ≤ _ from h)
        rw [Nat.succ_mul] at this
        rw [Array.size_modify]
        omega
      lt_size_add := by
        rw [Array.size_modify]
        omega
      size_chunk := fun c hc => by
        rw [Array.size_modify] at hc
        rw [Array.getElem_modify]
        split
        · next hc' =>
          subst hc'
          rw [Array.size_push, table.size_chunk, fill_succ_self _ hk]
        · next hc' =>
          rw [table.size_chunk c hc, fill_succ_of_ne _ c hk (Ne.symm hc')] }
  else
    have full := Nat.mul_le_mul_right table.geometry.chunkSize (Nat.le_of_not_lt h)
    { geometry := table.geometry
      size := table.size + 1
      chunks := table.chunks.push #[record]
      size_le := by
        rw [Array.size_push, Nat.succ_mul]
        omega
      lt_size_add := by
        rw [Array.size_push, Nat.succ_mul]
        omega
      size_chunk := fun c hc => by
        rw [Array.size_push] at hc
        rw [Array.getElem_push]
        split
        · next hc' =>
          rw [table.size_chunk c hc', fill_succ_of_ne _ c hk (by omega)]
        · next hc' =>
          obtain rfl : c = table.chunks.size := by omega
          rw [List.size_toArray, List.length_singleton]
          omega }

/-- Put records after the last one, in order. -/
def append (table : Table) (records : List Record) : Table :=
  records.foldl push table

/-- Put records after the last one if all of them have room. -/
def append? (table : Table) (records : List Record) : Option Table :=
  if table.hasRoom records.length then some (table.append records) else none

/-! ### Links -/

/-- Replace the link of a record that exists. -/
def setLink (table : Table) (index : Nat) (link : Link) : Table :=
  { geometry := table.geometry
    size := table.size
    chunks := table.chunks.modify (index / table.geometry.chunkSize) fun chunk =>
      chunk.modify (index % table.geometry.chunkSize) (·.withLink link)
    size_le := by rw [Array.size_modify]; exact table.size_le
    lt_size_add := by rw [Array.size_modify]; exact table.lt_size_add
    size_chunk := fun c hc => by
      rw [Array.size_modify] at hc
      rw [Array.getElem_modify]
      split
      · rw [Array.size_modify, table.size_chunk c hc]
      · rw [table.size_chunk c hc] }

/-! ### Views -/

/-- The records in order of their indices. -/
def toList (table : Table) : List Record :=
  (table.chunks.toList.map Array.toList).flatten

/-- A short description of the table. -/
def describe (table : Table) : String :=
  "NodeTable \x7b len: " ++ toString table.size ++ ", chunk_size: " ++
    toString table.geometry.chunkSize ++ ", allocated_chunks: " ++
    toString table.allocatedChunks ++ " \x7d"

/-! ### Laws -/

/-- The size of the chunk that an index falls into. -/
private theorem size_of_getElem? (table : Table) {c : Nat} {chunk : Array Record}
    (h : table.chunks[c]? = some chunk) :
    chunk.size = min table.geometry.chunkSize (table.size - c * table.geometry.chunkSize) := by
  obtain ⟨hc, rfl⟩ := Array.getElem?_eq_some_iff.1 h
  exact table.size_chunk c hc

/-- The indices below the size are those of records. -/
theorem isSome_get?_iff (table : Table) (index : Nat) :
    (table.get? index).isSome ↔ index < table.size := by
  have hk := table.geometry.chunkSize_pos
  have hi := Nat.div_add_mod' index table.geometry.chunkSize
  have hr := Nat.mod_lt index hk
  have hn := table.size_le
  have hm : index / table.geometry.chunkSize < table.chunks.size ∨
      table.size ≤ index / table.geometry.chunkSize * table.geometry.chunkSize := by
    by_cases h : index / table.geometry.chunkSize < table.chunks.size
    · exact .inl h
    · exact .inr (Nat.le_trans hn (Nat.mul_le_mul_right _ (Nat.le_of_not_lt h)))
  unfold get?
  cases h : table.chunks[index / table.geometry.chunkSize]? with
  | none =>
    have := Array.getElem?_eq_none_iff.1 h
    simp only [Option.bind_none, Option.isSome_none, Bool.false_eq_true, false_iff]
    omega
  | some chunk =>
    have := table.size_of_getElem? h
    simp only [Option.bind_some, isSome_getElem?]
    omega

/-- There is no record at the size of the table or beyond it. -/
theorem get?_eq_none_iff (table : Table) (index : Nat) :
    table.get? index = none ↔ table.size ≤ index := by
  rw [← Option.not_isSome_iff_eq_none, isSome_get?_iff, Nat.not_lt]

/-- A table without records has none. -/
theorem get?_empty (geometry : Geometry) (index : Nat) :
    (empty geometry).get? index = none := by
  simp [empty, get?]

/-- Appending a record adds one. -/
@[simp] theorem size_push (table : Table) (record : Record) :
    (table.push record).size = table.size + 1 := by
  unfold push; split <;> rfl

/-- Appending adds as many records as are given. -/
@[simp] theorem size_append (table : Table) (records : List Record) :
    (table.append records).size = table.size + records.length := by
  unfold append
  induction records generalizing table with
  | nil => rfl
  | cons record rest ih => simp only [List.foldl_cons, ih, size_push, List.length_cons]; omega

/-- Replacing a link adds no record. -/
@[simp] theorem size_setLink (table : Table) (index : Nat) (link : Link) :
    (table.setLink index link).size = table.size := rfl

/-- A record appended is the last one, and the others stay. -/
theorem get?_push (table : Table) (record : Record) (index : Nat) :
    (table.push record).get? index =
      if index = table.size then some record else table.get? index := by
  have hk := table.geometry.chunkSize_pos
  have hi := Nat.div_add_mod' index table.geometry.chunkSize
  have hs := Nat.div_add_mod' table.size table.geometry.chunkSize
  have hr := Nat.mod_lt table.size hk
  have hn := table.size_le
  unfold push
  split
  · next h =>
    simp only [get?, Array.getElem?_modify]
    split
    · next hq =>
      rw [← hq, Array.getElem?_eq_getElem h]
      simp only [Option.map_some, Option.bind_some, Array.getElem?_push, table.size_chunk]
      rw [← hq] at hi
      congr 1
      apply propext
      constructor <;> intro <;> omega
    · next hq =>
      rw [if_neg]
      rintro rfl
      exact hq rfl
  · next h =>
    have full := Nat.mul_le_mul_right table.geometry.chunkSize (Nat.le_of_not_lt h)
    have hm : table.chunks.size = table.size / table.geometry.chunkSize :=
      Nat.eq_of_mul_eq_mul_right hk (by omega)
    simp only [get?, Array.getElem?_push]
    split
    · next hq =>
      rw [hq, hm] at hi
      rw [hq, Array.getElem?_eq_none (Nat.le_refl _)]
      by_cases hz : index % table.geometry.chunkSize = 0
      · rw [if_pos (by omega), hz]; rfl
      · rw [if_neg (by omega)]
        exact Array.getElem?_eq_none (by simp; omega)
    · next hq =>
      rw [if_neg]
      rintro rfl
      exact hq hm.symm

/-- Records appended follow those that were there. -/
theorem get?_append (table : Table) (records : List Record) (index : Nat) :
    (table.append records).get? index =
      if index < table.size then table.get? index else records[index - table.size]? := by
  unfold append
  induction records generalizing table with
  | nil =>
    rw [List.foldl_nil, List.getElem?_nil]
    split
    · rfl
    · next h => exact (table.get?_eq_none_iff index).2 (Nat.le_of_not_lt h)
  | cons record rest ih =>
    rw [List.foldl_cons, ih, size_push, get?_push]
    rcases Nat.lt_trichotomy index table.size with h | rfl | h
    · rw [if_pos (by omega), if_neg (by omega), if_pos h]
    · rw [if_pos (by omega), if_pos rfl, if_neg (by omega), Nat.sub_self]; rfl
    · rw [if_neg (by omega), if_neg (by omega),
        show index - table.size = index - (table.size + 1) + 1 by omega, List.getElem?_cons_succ]

/-- A link replaced shows in its own record only. -/
theorem get?_setLink (table : Table) (index : Nat) (link : Link) (other : Nat) :
    (table.setLink index link).get? other =
      if other = index then (table.get? other).map (·.withLink link) else table.get? other := by
  have hi := Nat.div_add_mod' index table.geometry.chunkSize
  have ho := Nat.div_add_mod' other table.geometry.chunkSize
  simp only [setLink, get?, Array.getElem?_modify]
  split
  · next hq =>
    rw [← hq] at ho ⊢
    cases table.chunks[index / table.geometry.chunkSize]? with
    | none => simp
    | some chunk =>
      simp only [Option.map_some, Option.bind_some, Array.getElem?_modify]
      congr 1
      apply propext
      constructor <;> intro <;> omega
  · next hq =>
    rw [if_neg]
    rintro rfl
    exact hq rfl

/-- Chunks that are full up to the last one are read by quotient and remainder. -/
private theorem getElem?_flatten {α : Type} {k : Nat} (hk : 0 < k) (chunks : List (List α))
    (full : ∀ (c : Nat) (h : c + 1 < chunks.length), chunks[c].length = k)
    (le : ∀ chunk ∈ chunks, chunk.length ≤ k) (i : Nat) :
    chunks.flatten[i]? = chunks[i / k]?.bind fun chunk => chunk[i % k]? := by
  induction chunks generalizing i with
  | nil => rfl
  | cons chunk rest ih =>
    have hc := le chunk List.mem_cons_self
    rw [List.flatten_cons, List.getElem?_append]
    by_cases hi : i < k
    · rw [Nat.div_eq_of_lt hi, Nat.mod_eq_of_lt hi]
      simp only [List.getElem?_cons_zero, Option.bind_some]
      split
      · rfl
      · cases rest with
        | nil => rw [List.flatten_nil, List.getElem?_nil, List.getElem?_eq_none (by omega)]
        | cons next rest =>
          have := full 0 (by simp)
          simp only [List.getElem_cons_zero] at this
          omega
    · rw [if_neg (by omega), Nat.div_eq_sub_div hk (by omega), Nat.mod_eq_sub_mod (by omega),
        List.getElem?_cons_succ]
      cases rest with
      | nil => rfl
      | cons next rest =>
        have := full 0 (by simp)
        simp only [List.getElem_cons_zero] at this
        rw [this]
        exact ih (fun c h => full (c + 1) (Nat.succ_lt_succ h))
          (fun chunk h => le chunk (List.mem_cons_of_mem _ h)) (i - k)

/-- The list of records has the record with an index at that place. -/
theorem getElem?_toList (table : Table) (index : Nat) :
    table.toList[index]? = table.get? index := by
  have hk := table.geometry.chunkSize_pos
  unfold toList get?
  rw [getElem?_flatten hk]
  · simp only [List.getElem?_map, Array.getElem?_toList, Option.bind_map, Function.comp_def]
  · intro c h
    rw [List.length_map, Array.length_toList] at h
    have hm := table.lt_size_add
    have := Nat.mul_le_mul_right table.geometry.chunkSize (show c + 1 + 1 ≤ _ from h)
    simp only [Nat.succ_mul] at this
    simp only [List.getElem_map, Array.getElem_toList, Array.length_toList]
    rw [table.size_chunk]
    omega
  · intro chunk h
    obtain ⟨inner, hm, rfl⟩ := List.mem_map.1 h
    obtain ⟨c, hc, rfl⟩ := Array.mem_iff_getElem.1 (Array.mem_toList_iff.1 hm)
    rw [Array.length_toList, table.size_chunk c hc]
    exact Nat.min_le_left ..

end Table

end XmlTable.Node
