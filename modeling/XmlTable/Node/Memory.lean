import XmlTable.Failure
import XmlTable.Node.Geometry
import XmlTable.Node.Packing

/-!
# Node tables in memory

A node table is laid out so that a record never moves. A directory has a place for each chunk that
there may ever be; a chunk is allocated with all of its slots when a record is first written to it.
The lower bits of an index give the slot in a chunk, the upper ones the place of the chunk. Slots
are written first and published then, all at once, by the number of records.
-/

namespace XmlTable.Node

namespace Words

/-- What a slot holds that nothing was written to. -/
def blank : Words := ⟨0, 0, 0, 0⟩

/-- The number in the word of the link. -/
def rawLink (words : Words) : Int32 :=
  words.link.toInt32

/-- A record with another number in the word of the link, whatever the word means. -/
def withRawLink (words : Words) (raw : Int32) : Words :=
  { words with link := raw.toUInt32 }

@[simp] theorem rawLink_withRawLink (words : Words) (raw : Int32) :
    (words.withRawLink raw).rawLink = raw := by
  simp [rawLink, withRawLink]

end Words

/-- A node table in memory. -/
structure Memory where
  /-- The shape of the table. -/
  geometry : Geometry
  /-- The chunks, each at its place, as far as they are allocated. -/
  directory : Array (Option (Array Words))
  /-- The number of records that are published. -/
  size : Nat := 0
  /-- Every chunk has a place. -/
  size_directory : directory.size = geometry.maxChunks
  /-- A chunk has all of its slots. -/
  size_chunk : ∀ (c : Nat) (chunk : Array Words), directory[c]? = some (some chunk) →
    chunk.size = geometry.chunkSize
  deriving DecidableEq

namespace Memory

/-- The table without records; no chunk is allocated. -/
def empty (geometry : Geometry) : Memory where
  geometry
  directory := Array.replicate geometry.maxChunks none
  size_directory := Array.size_replicate
  size_chunk c chunk h := by
    rw [Array.getElem?_replicate] at h
    split at h <;> simp at h

/-- The place of the chunk for an index. -/
def chunkIndex (memory : Memory) (index : Nat) : Nat :=
  index >>> memory.geometry.chunkBits

/-- The slot for an index in its chunk. -/
def slotIndex (memory : Memory) (index : Nat) : Nat :=
  index &&& (memory.geometry.chunkSize - 1)

/-- The chunk at a place, if it is allocated. -/
def chunk? (memory : Memory) (c : Nat) : Option (Array Words) :=
  memory.directory[c]?.join

/-- The number of chunks allocated, from the first one on. -/
def allocatedChunks (memory : Memory) : Nat :=
  (memory.directory.toList.takeWhile Option.isSome).length

/-- What the slot for an index holds, if its chunk is allocated. -/
def slot? (memory : Memory) (index : Nat) : Option Words :=
  (memory.chunk? (memory.chunkIndex index)).bind fun chunk => chunk[memory.slotIndex index]?

/-! ### Writing -/

/-- Allocate the chunk for an index unless it is allocated. There may be no place for it. -/
def reserve? (memory : Memory) (index : Nat) : Option Memory :=
  if h : memory.chunkIndex index < memory.directory.size then
    if memory.directory[memory.chunkIndex index].isSome then some memory
    else
      some { memory with
        directory := memory.directory.set (memory.chunkIndex index)
          (some (Array.replicate memory.geometry.chunkSize .blank))
        size_directory := by rw [Array.size_set, memory.size_directory]
        size_chunk := fun c chunk hc => by
          rw [Array.getElem?_set] at hc
          split at hc
          · obtain rfl := Option.some.inj (Option.some.inj hc)
            exact Array.size_replicate
          · exact memory.size_chunk c chunk hc }
  else none

/-- Change what the slot for an index holds. -/
def update (memory : Memory) (index : Nat) (change : Words → Words) : Memory :=
  { memory with
    directory := memory.directory.modify (memory.chunkIndex index)
      (Option.map fun chunk => chunk.modify (memory.slotIndex index) change)
    size_directory := by rw [Array.size_modify, memory.size_directory]
    size_chunk := fun c chunk hc => by
      rw [Array.getElem?_modify] at hc
      split at hc
      · simp only [Option.map_eq_some_iff] at hc
        obtain ⟨_, before, chunk, rfl, rfl⟩ := hc
        rw [Array.size_modify, memory.size_chunk c chunk before]
      · exact memory.size_chunk c chunk hc }

/-- Write a record to the slot for an index. -/
def write? (memory : Memory) (index : Nat) (words : Words) : Option Memory :=
  (memory.reserve? index).map fun memory => memory.update index fun _ => words

/-- There is no room for a record. -/
def full : Failure := .capacity "node table is full"

/-- Write records to the slots from an index on. What was written stays if one has no place. -/
def writeFrom (memory : Memory) (index : Nat) : List Words → Except Failure Unit × Memory
  | [] => (.ok (), memory)
  | words :: rest =>
    match memory.write? index words with
    | some memory => memory.writeFrom (index + 1) rest
    | none => (.error full, memory)

/-- Publish so many records. -/
def publish (memory : Memory) (size : Nat) : Memory :=
  { memory with size }

/-- Append several records and publish them together; the answer is the index of the first. -/
def appendBatch (memory : Memory) (records : List Words) : Except Failure Nat × Memory :=
  if memory.geometry.capacity < memory.size + records.length then (.error full, memory)
  else
    match memory.writeFrom memory.size records with
    | (.ok (), written) => (.ok memory.size, written.publish (memory.size + records.length))
    | (.error cause, written) => (.error cause, written)

/-- Append a record. -/
def append (memory : Memory) (words : Words) : Except Failure Nat × Memory :=
  memory.appendBatch [words]

/-! ### Reading -/

/-- The published record with an index. -/
def read (memory : Memory) (index : Nat) : Option Words :=
  if index < memory.size then memory.slot? index else none

/-- The number in the link of a published record. -/
def link? (memory : Memory) (index : Nat) : Option Int32 :=
  if index < memory.size then (memory.slot? index).map Words.rawLink else none

/-- The message when the link of a record is written that is not published. -/
def unpublished (index : Nat) : String :=
  "write_link on unpublished node " ++ toString index

/-- Write the link of a record, which must be published. -/
def writeLink (memory : Memory) (index : Nat) (raw : Int32) : Except String Memory :=
  if index < memory.size then .ok (memory.update index (·.withRawLink raw))
  else .error (unpublished index)

end Memory

end XmlTable.Node
