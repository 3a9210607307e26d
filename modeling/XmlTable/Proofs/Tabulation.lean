import Mathlib.Data.List.Forall2
import XmlTable.Node.Memory
import XmlTable.Node.Table

/-!
# Node tables are lists

Whatever is done to a node table, it is what would be done to a plain list of its records: a batch
is put at the end if it has room, and otherwise nothing changes; a link that is written shows in its
record. This is so of the table of records and of the table in memory, where a record is found by
the bits of its index. Chunks are allocated as far as there are records for them.
-/

namespace XmlTable.Node

variable {ρ ℓ σ σ' : Type}

/-! ### Operations -/

/-- What is done to a table that keeps records `ρ` with links `ℓ`. -/
inductive Operation (ρ ℓ : Type) where
  /-- Append a record. -/
  | append (record : ρ)
  /-- Append several records together. -/
  | appendBatch (records : List ρ)
  /-- Write the link of a record. -/
  | writeLink (index : Nat) (link : ℓ)

/-- What comes of an operation. -/
inductive Answer where
  /-- Records were appended, from this index on. -/
  | first (index : Nat)
  /-- Records were refused. -/
  | refused (cause : Failure)
  /-- A link was written. -/
  | written
  /-- The operation was a mistake of the caller. -/
  | mistaken (message : String)
  deriving DecidableEq, Repr

namespace Answer

/-- What comes of records that are to be appended. -/
def ofBatch : Except Failure Nat → Answer
  | .ok index => first index
  | .error cause => refused cause

end Answer

namespace Operation

/-- Records are put at the end of a list if there is room for all of them. -/
def extend (capacity : Nat) (records list : List ρ) : Answer × List ρ :=
  if list.length + records.length ≤ capacity then (.first list.length, list ++ records)
  else (.refused Memory.full, list)

/-- An operation on a list of at most so many records. -/
def onList (capacity : Nat) (relink : ρ → ℓ → ρ) : Operation ρ ℓ → List ρ → Answer × List ρ
  | append record, list => extend capacity [record] list
  | appendBatch records, list => extend capacity records list
  | writeLink index link, list =>
    if index < list.length then (.written, list.modify index (relink · link))
    else (.mistaken (Memory.unpublished index), list)

/-- The same operation on packed records. -/
def pack : Operation Record Link → Operation Words Int32
  | append record => append record.pack
  | appendBatch records => appendBatch (records.map Record.pack)
  | writeLink index link => writeLink index link.toRaw

end Operation

/-- An operation on a table in memory. -/
def Memory.perform : Operation Words Int32 → Memory → Answer × Memory
  | .append words, memory =>
    let (result, memory) := memory.append words
    (.ofBatch result, memory)
  | .appendBatch records, memory =>
    let (result, memory) := memory.appendBatch records
    (.ofBatch result, memory)
  | .writeLink index raw, memory =>
    match memory.writeLink index raw with
    | .ok memory => (.written, memory)
    | .error message => (.mistaken message, memory)

/-- Append records to a table if all of them have room. -/
def Table.extend (table : Table) (records : List Record) : Answer × Table :=
  match table.append? records with
  | some extended => (.first table.size, extended)
  | none => (.refused Memory.full, table)

/-- An operation on a table. -/
def Table.perform : Operation Record Link → Table → Answer × Table
  | .append record, table => table.extend [record]
  | .appendBatch records, table => table.extend records
  | .writeLink index link, table =>
    if index < table.size then (.written, table.setLink index link)
    else (.mistaken (Memory.unpublished index), table)

/-- What comes of operations that are done one after the other, each with what it leaves. -/
def responses (perform : Operation ρ ℓ → σ → Answer × σ) : List (Operation ρ ℓ) → σ →
    List (Answer × σ)
  | [], _ => []
  | operation :: rest, s =>
    perform operation s :: responses perform rest (perform operation s).2

/-- What each operation preserves, with the same answers, a sequence of operations does. -/
theorem responses_agree {R : σ → σ' → Prop} {perform : Operation ρ ℓ → σ → Answer × σ}
    {perform' : Operation ρ ℓ → σ' → Answer × σ'}
    (step : ∀ {s : σ} {s' : σ'} (operation : Operation ρ ℓ), R s s' →
      (perform operation s).1 = (perform' operation s').1 ∧
        R (perform operation s).2 (perform' operation s').2)
    (operations : List (Operation ρ ℓ)) {s : σ} {s' : σ'} (h : R s s') :
    List.Forall₂ (fun r r' => r.1 = r'.1 ∧ R r.2 r'.2) (responses perform operations s)
      (responses perform' operations s') := by
  induction operations generalizing s s' with
  | nil => exact .nil
  | cons operation rest ih => exact .cons (step operation h) (ih (step operation h).2)

/-! ### What can be seen of a table -/

/-- What can be seen of a table. -/
structure View (ρ ℓ : Type) where
  /-- The number of records. -/
  size : Nat
  /-- The record with an index. -/
  read : Nat → Option ρ
  /-- The link of the record with an index. -/
  link : Nat → Option ℓ
  /-- Whether a chunk is allocated. -/
  hasChunk : Nat → Bool
  /-- The number of chunks allocated. -/
  allocatedChunks : Nat

/-- What can be seen of a table in memory. -/
def Memory.view (memory : Memory) : View Words Int32 where
  size := memory.size
  read := memory.read
  link := memory.link?
  hasChunk c := (memory.chunk? c).isSome
  allocatedChunks := memory.allocatedChunks

/-- What can be seen of a table of records. -/
def Table.view (table : Table) : View Record Link where
  size := table.size
  read := table.get?
  link := table.link?
  hasChunk c := c < table.chunks.size
  allocatedChunks := table.allocatedChunks

/-- What is seen is a list: its records with their links, and the chunks that it needs. -/
structure View.Shows (view : View ρ ℓ) (chunkSize : Nat) (linkOf : ρ → Option ℓ) (list : List ρ) :
    Prop where
  /-- The records are those of the list. -/
  size : view.size = list.length
  /-- A record is the one at its place, and there are no more. -/
  read : ∀ index, view.read index = list[index]?
  /-- A link is that of the record. -/
  link : ∀ index, view.link index = list[index]?.bind linkOf
  /-- A chunk is allocated if a record falls into it. -/
  hasChunk : ∀ c, view.hasChunk c = true ↔ c * chunkSize < list.length
  /-- No more are allocated than the records need. -/
  allocatedChunks : view.allocatedChunks = (list.length + chunkSize - 1) / chunkSize

/-! ### Chunks -/

/-- The next record falls into the chunk of its index. -/
theorem mul_lt_succ_iff {k : Nat} (hk : 0 < k) (c n : Nat) :
    c * k < n + 1 ↔ c * k < n ∨ c = n / k := by
  have := Nat.div_mul_le_self n k
  constructor
  · intro h
    by_cases same : c * k = n
    · exact .inr (by rw [← same, Nat.mul_div_cancel c hk])
    · exact .inl (by omega)
  · rintro (h | rfl) <;> omega

/-- A record falls into a chunk exactly if the records need so many chunks. -/
theorem mul_lt_iff {k : Nat} (hk : 0 < k) (c n : Nat) : c * k < n ↔ c < (n + k - 1) / k := by
  rw [← Nat.succ_le_iff, ← Nat.succ_le_iff, Nat.le_div_iff_mul_le hk, Nat.succ_mul]
  omega

/-! ### Tables in memory -/

namespace Memory

variable {memory memory' : Memory} {list : List Words} {index : Nat}

theorem chunkIndex_eq (memory : Memory) (index : Nat) :
    memory.chunkIndex index = index / memory.geometry.chunkSize := by
  rw [chunkIndex, Nat.shiftRight_eq_div_pow, Geometry.chunkSize, Nat.one_shiftLeft]

theorem slotIndex_eq (memory : Memory) (index : Nat) :
    memory.slotIndex index = index % memory.geometry.chunkSize := by
  rw [slotIndex, Geometry.chunkSize, Nat.one_shiftLeft, Nat.and_two_pow_sub_one_eq_mod]

/-- Indices with the same chunk and the same slot are the same. -/
theorem eq_of_indices {other : Nat} (chunk : memory.chunkIndex other = memory.chunkIndex index)
    (slot : memory.slotIndex other = memory.slotIndex index) : other = index := by
  rw [chunkIndex_eq, chunkIndex_eq] at chunk
  rw [slotIndex_eq, slotIndex_eq] at slot
  rw [← Nat.div_add_mod' other memory.geometry.chunkSize, chunk, slot, Nat.div_add_mod']

theorem size_of_chunk? {c : Nat} {chunk : Array Words} (h : memory.chunk? c = some chunk) :
    chunk.size = memory.geometry.chunkSize :=
  memory.size_chunk c chunk (Option.join_eq_some_iff.1 h)

/-- An index has a slot as soon as its chunk is allocated. -/
theorem isSome_slot?_iff (memory : Memory) (index : Nat) :
    (memory.slot? index).isSome ↔ (memory.chunk? (memory.chunkIndex index)).isSome := by
  unfold slot?
  cases h : memory.chunk? (memory.chunkIndex index) with
  | none => simp
  | some chunk =>
    have := Nat.mod_lt index memory.geometry.chunkSize_pos
    simp [size_of_chunk? h, slotIndex_eq, this]

@[simp] theorem geometry_update (memory : Memory) (index : Nat) (change : Words → Words) :
    (memory.update index change).geometry = memory.geometry := rfl

@[simp] theorem size_update (memory : Memory) (index : Nat) (change : Words → Words) :
    (memory.update index change).size = memory.size := rfl

theorem chunk?_update (memory : Memory) (index : Nat) (change : Words → Words) (c : Nat) :
    (memory.update index change).chunk? c =
      if memory.chunkIndex index = c then
        (memory.chunk? c).map fun chunk => chunk.modify (memory.slotIndex index) change
      else memory.chunk? c := by
  simp only [chunk?, update, Array.getElem?_modify]
  split
  · cases memory.directory[c]? <;> simp
  · rfl

/-- A change shows in its own slot only. -/
theorem slot?_update (memory : Memory) (index : Nat) (change : Words → Words) (other : Nat) :
    (memory.update index change).slot? other =
      if other = index then (memory.slot? other).map change else memory.slot? other := by
  have place : (memory.update index change).chunkIndex other = memory.chunkIndex other := rfl
  have within : (memory.update index change).slotIndex other = memory.slotIndex other := rfl
  unfold slot?
  rw [place, within, chunk?_update]
  by_cases chunk : memory.chunkIndex index = memory.chunkIndex other
  · rw [if_pos chunk]
    cases memory.chunk? (memory.chunkIndex other) with
    | none => simp
    | some found =>
      simp only [Option.map_some, Option.bind_some, Array.getElem?_modify]
      by_cases slot : memory.slotIndex index = memory.slotIndex other
      · rw [if_pos slot, if_pos (eq_of_indices chunk.symm slot.symm)]
      · rw [if_neg slot, if_neg]
        rintro rfl
        exact slot rfl
  · rw [if_neg chunk, if_neg]
    rintro rfl
    exact chunk rfl

/-- The chunk for an index is allocated, and nothing else has changed. -/
structure Reserves (memory : Memory) (index : Nat) (memory' : Memory) : Prop where
  /-- The shape is the same. -/
  geometry : memory'.geometry = memory.geometry
  /-- No more records are published. -/
  size : memory'.size = memory.size
  /-- The chunk is there, and no other is new. -/
  isSome_chunk?_iff : ∀ c, (memory'.chunk? c).isSome ↔
    (memory.chunk? c).isSome ∨ c = memory.chunkIndex index
  /-- What was stored is still there. -/
  slot? : ∀ other, (memory.chunk? (memory.chunkIndex other)).isSome →
    memory'.slot? other = memory.slot? other

/-- A chunk is reserved if the directory has a place for it. -/
theorem exists_reserves (place : memory.chunkIndex index < memory.geometry.maxChunks) :
    ∃ memory', memory.reserve? index = some memory' ∧ memory.Reserves index memory' := by
  rw [← memory.size_directory] at place
  unfold reserve?
  rw [dif_pos place]
  split
  · next there =>
    refine ⟨memory, rfl, rfl, rfl, fun c => ?_, fun other _ => rfl⟩
    have found : (memory.chunk? (memory.chunkIndex index)).isSome := by
      simpa [chunk?, Array.getElem?_eq_getElem place] using there
    constructor
    · exact .inl
    · rintro (h | rfl)
      · exact h
      · exact found
  · next missing =>
    refine ⟨_, rfl, rfl, rfl, fun c => ?_, fun other allocated => ?_⟩
    · simp only [chunk?, Array.getElem?_set]
      by_cases own : memory.chunkIndex index = c
      · simp [own]
      · simp [own, Ne.symm own]
    · have old : memory.chunkIndex index ≠ memory.chunkIndex other := by
        intro same
        rw [← same, chunk?, Array.getElem?_eq_getElem place] at allocated
        exact missing (by simpa using allocated)
      simp only [slot?, chunk?, chunkIndex, slotIndex] at old ⊢
      rw [Array.getElem?_set, if_neg old]

/-- The slots of a table hold the records of a list, and those chunks are allocated that it
needs. -/
structure Holds (memory : Memory) (list : List Words) : Prop where
  /-- A slot holds the record with its index. -/
  slot? : ∀ index < list.length, memory.slot? index = list[index]?
  /-- A chunk is allocated if a record falls into it. -/
  isSome_chunk?_iff : ∀ c, (memory.chunk? c).isSome ↔ c * memory.geometry.chunkSize < list.length

theorem holds_empty (geometry : Geometry) : (empty geometry).Holds [] where
  slot? index h := absurd h (Nat.not_lt_zero index)
  isSome_chunk?_iff c := by
    have none : (empty geometry).chunk? c = none := by
      simp only [chunk?, empty, Array.getElem?_replicate]
      split <;> rfl
    simp [none]

/-- A record with room has a place in the directory. -/
theorem chunkIndex_lt (room : index < memory.geometry.capacity) :
    memory.chunkIndex index < memory.geometry.maxChunks := by
  rw [chunkIndex_eq, Nat.div_lt_iff_lt_mul memory.geometry.chunkSize_pos]
  exact Nat.lt_of_lt_of_le room (Nat.min_le_left ..)

/-- A record is written behind the others. -/
theorem Holds.write? (h : memory.Holds list) (room : list.length < memory.geometry.capacity)
    (words : Words) : ∃ memory', memory.write? list.length words = some memory' ∧
      memory'.Holds (list ++ [words]) ∧ memory'.geometry = memory.geometry ∧
        memory'.size = memory.size := by
  have hk := memory.geometry.chunkSize_pos
  obtain ⟨reserved, reserves, own⟩ := exists_reserves (chunkIndex_lt room)
  have allocated : ∀ c, (reserved.chunk? c).isSome ↔
      c * memory.geometry.chunkSize < list.length + 1 := by
    intro c
    rw [own.isSome_chunk?_iff, h.isSome_chunk?_iff, chunkIndex_eq, mul_lt_succ_iff hk]
  refine ⟨reserved.update list.length fun _ => words, ?_, ⟨?_, ?_⟩, own.geometry, own.size⟩
  · rw [Memory.write?, reserves, Option.map_some]
  · intro other less
    rw [List.length_append, List.length_singleton] at less
    rw [slot?_update]
    by_cases new : other = list.length
    · have there : (reserved.slot? list.length).isSome := by
        rw [isSome_slot?_iff, allocated, chunkIndex_eq, own.geometry]
        have := Nat.div_mul_le_self list.length memory.geometry.chunkSize
        omega
      obtain ⟨held, found⟩ := Option.isSome_iff_exists.1 there
      simp [new, found]
    · have old : other < list.length := by omega
      have known : (memory.chunk? (memory.chunkIndex other)).isSome := by
        rw [h.isSome_chunk?_iff, chunkIndex_eq]
        exact Nat.lt_of_le_of_lt (Nat.div_mul_le_self ..) old
      rw [if_neg new, own.slot? other known, h.slot? other old, List.getElem?_append_left old]
  · intro c
    have same : ((reserved.update list.length fun _ => words).chunk? c).isSome =
        (reserved.chunk? c).isSome := by
      rw [chunk?_update]
      split <;> simp
    rw [same, allocated, geometry_update, own.geometry, List.length_append, List.length_singleton]

/-- Records are written behind the others, one after the other, across chunks. -/
theorem Holds.writeFrom (h : memory.Holds list) (records : List Words)
    (room : list.length + records.length ≤ memory.geometry.capacity) :
    ∃ memory', memory.writeFrom list.length records = (.ok (), memory') ∧
      memory'.Holds (list ++ records) ∧ memory'.geometry = memory.geometry ∧
        memory'.size = memory.size := by
  induction records generalizing memory list with
  | nil => exact ⟨memory, rfl, by rwa [List.append_nil], rfl, rfl⟩
  | cons words rest ih =>
    rw [List.length_cons] at room
    obtain ⟨next, written, holds, geometry, size⟩ := h.write? (by omega) words
    have length : (list ++ [words]).length = list.length + 1 := List.length_append
    obtain ⟨last, more, holds, geometry', size'⟩ := ih holds (by rw [length, geometry]; omega)
    rw [length] at more
    refine ⟨last, ?_, ?_, geometry'.trans geometry, size'.trans size⟩
    · rw [Memory.writeFrom, written]
      exact more
    · rwa [List.append_assoc, List.singleton_append] at holds

/-- A table in memory is a list: its slots hold the records of the list, and these are
published. -/
structure IsList (geometry : Geometry) (memory : Memory) (list : List Words) : Prop where
  /-- The shape is as it was at first. -/
  geometry : memory.geometry = geometry
  /-- The records are in their slots. -/
  holds : memory.Holds list
  /-- They are published. -/
  size : memory.size = list.length

variable {geometry : Geometry}

theorem isList_empty (geometry : Geometry) : IsList geometry (empty geometry) [] :=
  ⟨rfl, holds_empty geometry, rfl⟩

theorem IsList.appendBatch (h : IsList geometry memory list) (records : List Words) :
    let response := memory.appendBatch records
    let expected := Operation.extend geometry.capacity records list
    Answer.ofBatch response.1 = expected.1 ∧ IsList geometry response.2 expected.2 := by
  intro response expected
  have sizes := h.size
  have shape := h.geometry
  by_cases room : list.length + records.length ≤ geometry.capacity
  · obtain ⟨written, writes, holds, geometry', size⟩ :=
      h.holds.writeFrom records (by rwa [shape])
    have appended : response = (.ok list.length, written.publish (list.length + records.length)) :=
      by
        have fits : ¬ memory.geometry.capacity < memory.size + records.length := by
          rw [shape, sizes]
          omega
        simp only [response]
        rw [Memory.appendBatch, if_neg fits, sizes, writes]
    have extended : expected = (.first list.length, list ++ records) := if_pos room
    rw [appended, extended]
    exact ⟨rfl, geometry'.trans shape, ⟨holds.slot?, holds.isSome_chunk?_iff⟩,
      List.length_append.symm⟩
  · have refused : response = (.error full, memory) := by
      have overfull : memory.geometry.capacity < memory.size + records.length := by
        rw [shape, sizes]
        omega
      exact if_pos overfull
    have same : expected = (.refused full, list) := if_neg room
    rw [refused, same]
    exact ⟨rfl, h⟩

/-- The link of a record is written, whatever the record is. -/
theorem IsList.update (h : IsList geometry memory list) (index : Nat)
    (change : Words → Words) : IsList geometry (memory.update index change)
      (list.modify index change) where
  geometry := h.geometry
  holds := {
    slot? := fun other less => by
      rw [List.length_modify] at less
      rw [slot?_update, h.holds.slot? other less, List.getElem?_modify]
      by_cases own : other = index
      · simp [own]
      · simp [own, Ne.symm own]
    isSome_chunk?_iff := fun c => by
      have same : ((memory.update index change).chunk? c).isSome = (memory.chunk? c).isSome := by
        rw [chunk?_update]
        split <;> simp
      rw [same, h.holds.isSome_chunk?_iff, List.length_modify, geometry_update] }
  size := by rw [size_update, h.size, List.length_modify]

/-- An operation on a table in memory is one on a list. -/
theorem IsList.perform (h : IsList geometry memory list) (operation : Operation Words Int32) :
    let response := Memory.perform operation memory
    let expected := operation.onList geometry.capacity Words.withRawLink list
    response.1 = expected.1 ∧ IsList geometry response.2 expected.2 := by
  cases operation with
  | append words => exact h.appendBatch [words]
  | appendBatch records => exact h.appendBatch records
  | writeLink index raw =>
    by_cases published : index < list.length
    · simp only [Memory.perform, Memory.writeLink, Operation.onList, h.size, if_pos published]
      exact ⟨trivial, h.update index _⟩
    · simp only [Memory.perform, Memory.writeLink, Operation.onList, h.size, if_neg published]
      exact ⟨trivial, h⟩

/-- As many chunks are allocated from the first one on as are allocated at all. -/
theorem length_takeWhile_isSome {α : Type} {count : Nat} (chunks : List (Option α))
    (h : ∀ c, (chunks[c]?.join).isSome ↔ c < count) :
    (chunks.takeWhile Option.isSome).length = count := by
  induction chunks generalizing count with
  | nil =>
    cases count with
    | zero => rfl
    | succ count => simpa using h 0
  | cons chunk rest ih =>
    cases chunk with
    | none =>
      have none : count = 0 := by simpa using h 0
      rw [none]
      rfl
    | some chunk =>
      have pos : 0 < count := (h 0).1 rfl
      have later := @ih (count - 1) fun c => by
        have same := h (c + 1)
        rw [List.getElem?_cons_succ] at same
        rw [same]
        omega
      rw [List.takeWhile_cons_of_pos rfl, List.length_cons, later]
      omega

theorem IsList.shows (h : IsList geometry memory list) :
    memory.view.Shows geometry.chunkSize (fun words => some words.rawLink) list where
  size := h.size
  read index := by
    by_cases published : index < list.length
    · simp [view, read, h.size, published, h.holds.slot? index published]
    · simp [view, read, h.size, published]
  link index := by
    by_cases published : index < list.length
    · simp [view, link?, h.size, published, h.holds.slot? index published]
    · simp [view, link?, h.size, published]
  hasChunk c := by
    rw [← h.geometry]
    exact h.holds.isSome_chunk?_iff c
  allocatedChunks := by
    rw [← h.geometry]
    apply length_takeWhile_isSome
    intro c
    rw [Array.getElem?_toList]
    exact (h.holds.isSome_chunk?_iff c).trans
      (mul_lt_iff memory.geometry.chunkSize_pos c list.length)

end Memory

/-! ### Tables of records -/

namespace Table

variable {table : Table} {list : List Record} {geometry : Geometry}

@[simp] theorem geometry_push (table : Table) (record : Record) :
    (table.push record).geometry = table.geometry := by
  unfold push
  split <;> rfl

@[simp] theorem geometry_append (table : Table) (records : List Record) :
    (table.append records).geometry = table.geometry := by
  unfold append
  induction records generalizing table with
  | nil => rfl
  | cons record rest ih => rw [List.foldl_cons, ih, geometry_push]

/-- A table is a list of records. -/
structure IsList (geometry : Geometry) (table : Table) (list : List Record) : Prop where
  /-- The shape is as it was at first. -/
  geometry : table.geometry = geometry
  /-- The records are those of the list. -/
  get? : ∀ index, table.get? index = list[index]?
  /-- There are as many. -/
  size : table.size = list.length

theorem isList_empty (geometry : Geometry) : IsList geometry (empty geometry) [] :=
  ⟨rfl, get?_empty geometry, rfl⟩

theorem IsList.extend (h : IsList geometry table list) (records : List Record) :
    let expected := Operation.extend geometry.capacity records list
    (table.extend records).1 = expected.1 ∧
      IsList geometry (table.extend records).2 expected.2 := by
  by_cases room : list.length + records.length ≤ geometry.capacity
  · have fits : table.hasRoom records.length = true := by
      simpa [hasRoom, capacity, h.geometry, h.size] using room
    simp only [Table.extend, append?, if_pos fits, Operation.extend, if_pos room]
    refine ⟨by rw [h.size], by rw [geometry_append, h.geometry], fun index => ?_, ?_⟩
    · rw [get?_append, h.size, h.get?, List.getElem?_append]
    · rw [size_append, h.size, List.length_append]
  · have overfull : ¬ table.hasRoom records.length = true := by
      simpa [hasRoom, capacity, h.geometry, h.size] using room
    simp only [Table.extend, append?, if_neg overfull, Operation.extend, if_neg room]
    exact ⟨trivial, h⟩

theorem IsList.setLink (h : IsList geometry table list) (index : Nat) (link : Link) :
    IsList geometry (table.setLink index link) (list.modify index (·.withLink link)) where
  geometry := h.geometry
  get? other := by
    rw [get?_setLink, h.get?, List.getElem?_modify]
    by_cases own : other = index
    · simp [own]
    · simp [own, Ne.symm own]
  size := by rw [size_setLink, h.size, List.length_modify]

/-- An operation on a table is one on a list. -/
theorem IsList.perform (h : IsList geometry table list) (operation : Operation Record Link) :
    let response := Table.perform operation table
    let expected := operation.onList geometry.capacity Record.withLink list
    response.1 = expected.1 ∧ IsList geometry response.2 expected.2 := by
  cases operation with
  | append record => exact h.extend [record]
  | appendBatch records => exact h.extend records
  | writeLink index link =>
    by_cases there : index < list.length
    · simp only [Table.perform, Operation.onList, h.size, if_pos there]
      exact ⟨trivial, h.setLink index link⟩
    · simp only [Table.perform, Operation.onList, h.size, if_neg there]
      exact ⟨trivial, h⟩

theorem IsList.shows (h : IsList geometry table list) :
    table.view.Shows geometry.chunkSize Record.link? list := by
  have hk := geometry.chunkSize_pos
  have room := table.size_le
  have needed := table.lt_size_add
  rw [h.geometry, h.size] at room needed
  -- The chunks that are begun are those that the records need.
  have count : table.chunks.size = (list.length + geometry.chunkSize - 1) / geometry.chunkSize := by
    apply Nat.le_antisymm
    · rw [Nat.le_div_iff_mul_le hk]
      omega
    · apply Nat.le_of_lt_succ
      rw [Nat.div_lt_iff_lt_mul hk, Nat.succ_mul]
      omega
  refine ⟨h.size, h.get?, fun index => ?_, fun c => ?_, count⟩
  · simp only [view, link?, h.get?]
  · rw [mul_lt_iff hk, ← count]
    simp [view]

end Table

/-! ### Packed records -/

namespace Operation

variable {list : List Record}

/-- The operation writes no link where there is a payload. -/
def Fits (list : List Record) : Operation Record Link → Prop
  | writeLink index _ => ∀ record, list[index]? = some record → record.link?.isSome = true
  | _ => True

/-- None of some operations writes a link where there is a payload. -/
def AllFit (capacity : Nat) : List (Operation Record Link) → List Record → Prop
  | [], _ => True
  | operation :: rest, list =>
    operation.Fits list ∧
      AllFit capacity rest (operation.onList capacity Record.withLink list).2

/-- The link of a record is written in its words. -/
theorem pack_withLink {record : Record} (h : record.link?.isSome = true) (link : Link) :
    (record.withLink link).pack = record.pack.withRawLink link.toRaw := by
  rcases record with ⟨_, _, _, _, _ | _, _⟩
  · rfl
  · cases h

/-- An operation on packed records does what it does on the records. -/
theorem onList_pack (capacity : Nat) {operation : Operation Record Link}
    (fits : operation.Fits list) :
    operation.pack.onList capacity Words.withRawLink (list.map Record.pack) =
      ((operation.onList capacity Record.withLink list).1,
        (operation.onList capacity Record.withLink list).2.map Record.pack) := by
  have extended : ∀ records : List Record,
      extend capacity (records.map Record.pack) (list.map Record.pack) =
        ((extend capacity records list).1, (extend capacity records list).2.map Record.pack) := by
    intro records
    by_cases room : list.length + records.length ≤ capacity <;> simp [extend, room]
  cases operation with
  | append record => exact extended [record]
  | appendBatch records => exact extended records
  | writeLink index link =>
    by_cases there : index < list.length
    · simp only [pack, onList, List.length_map, if_pos there, Prod.mk.injEq, true_and]
      apply List.ext_getElem?
      intro other
      rw [List.getElem?_modify, List.getElem?_map, List.getElem?_map, List.getElem?_modify]
      by_cases own : index = other
      · subst own
        have linked := fits _ (List.getElem?_eq_getElem there)
        simp [there, pack_withLink linked]
      · simp [own]
    · simp only [pack, onList, List.length_map, if_neg there]

end Operation

/-- A table and a table in memory have the same records. -/
def Packs (memory : Memory) (table : Table) : Prop :=
  ∀ index, memory.read index = (table.get? index).map Record.pack

/-- A table and a table in memory that the same is done to answer alike and have the same
records. -/
theorem responses_pack {geometry : Geometry} (operations : List (Operation Record Link))
    {list : List Record} {memory : Memory} {table : Table}
    (stored : memory.IsList geometry (list.map Record.pack)) (kept : table.IsList geometry list)
    (fit : Operation.AllFit geometry.capacity operations list) :
    List.Forall₂ (fun r r' => r.1 = r'.1 ∧ Packs r.2 r'.2)
      (responses Memory.perform (operations.map Operation.pack) memory)
      (responses Table.perform operations table) := by
  induction operations generalizing list memory table with
  | nil => exact .nil
  | cons operation rest ih =>
    have packed := stored.perform operation.pack
    have whole := kept.perform operation
    rw [Operation.onList_pack geometry.capacity fit.1] at packed
    refine .cons ⟨packed.1.trans whole.1.symm, fun index => ?_⟩ (ih packed.2 whole.2 fit.2)
    rw [whole.2.get?, ← List.getElem?_map]
    exact packed.2.shows.read index

/-! ### The shape of a table -/

theorem Geometry.capacity_clamp (chunkBits maxChunks : Nat) :
    let geometry := clamp chunkBits maxChunks
    geometry.capacity =
      min (max maxChunks 1) (indexBound / geometry.chunkSize) * geometry.chunkSize := by
  intro geometry
  have within : min (max maxChunks 1) (indexBound / geometry.chunkSize) * geometry.chunkSize ≤
      indexBound :=
    Nat.le_trans (Nat.mul_le_mul_right _ (Nat.min_le_right ..)) (Nat.div_mul_le_self ..)
  exact Nat.min_eq_left within

/-- A table answered as a list does, and what is seen of it is what the list says. -/
structure BehavesAs (view : σ → View ρ ℓ) (chunkSize : Nat) (linkOf : ρ → Option ℓ)
    (r : Answer × σ) (r' : Answer × List ρ) : Prop where
  /-- The answer is the same. -/
  answer : r.1 = r'.1
  /-- The list is seen. -/
  shows : (view r.2).Shows chunkSize linkOf r'.2

/-- Whatever shape of a table is asked for, it is moved to one that can be; and whatever is then
done to the table, in memory or as a table of records, it behaves as a list of so many records at
most. Both are the same, if no link is written where there is a payload. -/
theorem tables_are_lists (chunkBits maxChunks : Nat) :
    (Geometry.clamp chunkBits maxChunks).chunkSize = Nat.pow 2 (min (max chunkBits 1) 20) ∧
    let geometry := Geometry.clamp chunkBits maxChunks
    (geometry.capacity =
        min (max maxChunks 1) ((Nat.pow 2 31 - 1) / geometry.chunkSize) * geometry.chunkSize ∧
      geometry.capacity ≤ Nat.pow 2 31 - 1) ∧
    (∀ operations : List (Operation Words Int32),
      List.Forall₂ (BehavesAs Memory.view geometry.chunkSize fun words => some words.rawLink)
        (responses Memory.perform operations (.empty geometry))
        (responses (Operation.onList geometry.capacity Words.withRawLink) operations [])) ∧
    (∀ operations : List (Operation Record Link),
      List.Forall₂ (BehavesAs Table.view geometry.chunkSize Record.link?)
        (responses Table.perform operations (.empty geometry))
        (responses (Operation.onList geometry.capacity Record.withLink) operations [])) ∧
    ∀ operations : List (Operation Record Link), Operation.AllFit geometry.capacity operations [] →
      List.Forall₂ (fun r r' => r.1 = r'.1 ∧ Packs r.2 r'.2)
        (responses Memory.perform (operations.map Operation.pack) (.empty geometry))
        (responses Table.perform operations (.empty geometry)) := by
  refine ⟨Nat.one_shiftLeft _, ?_⟩
  intro geometry
  refine ⟨⟨Geometry.capacity_clamp chunkBits maxChunks, geometry.capacity_le⟩,
    fun operations => ?_, fun operations => ?_, fun operations fit => ?_⟩
  · have alike := responses_agree (R := Memory.IsList geometry)
      (fun operation h => h.perform operation) operations (Memory.isList_empty geometry)
    exact alike.imp fun _ _ h => ⟨h.1, h.2.shows⟩
  · have alike := responses_agree (R := Table.IsList geometry)
      (fun operation h => h.perform operation) operations (Table.isList_empty geometry)
    exact alike.imp fun _ _ h => ⟨h.1, h.2.shows⟩
  · exact responses_pack operations (Memory.isList_empty geometry) (Table.isList_empty geometry) fit

/-- A batch over the border of a chunk, a link that is written, and a record without room. -/
theorem tables_are_lists_of_full_table :
    let geometry := Geometry.clamp 0 2
    let operations : List (Operation Record Link) := [.append .document, .appendBatch [],
      .appendBatch [.linked .element 0 0 1 .pending, .valueNode 1 5, .valueNode 1 6],
      .writeLink 1 .last, .append (.valueNode 1 7)]
    Operation.AllFit geometry.capacity operations [] ∧
      (responses Table.perform operations (.empty geometry)).map (·.1) =
        [.first 0, .first 1, .first 1, .written, .refused Memory.full] ∧
      List.Forall₂ (fun r r' => r.1 = r'.1 ∧ Packs r.2 r'.2)
        (responses Memory.perform (operations.map Operation.pack) (.empty geometry))
        (responses Table.perform operations (.empty geometry)) := by
  intro geometry operations
  have fit : Operation.AllFit geometry.capacity operations [] := by
    refine ⟨trivial, trivial, trivial, ?_, trivial, trivial⟩
    rintro _ ⟨⟩
    rfl
  exact ⟨fit, by decide +kernel, (tables_are_lists 0 2).2.2.2.2 operations fit⟩

end XmlTable.Node
