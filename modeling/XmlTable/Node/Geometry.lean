import XmlTable.Config
import XmlTable.Node.Record

/-!
# The shape of a node table

A table keeps its records in chunks of one size, a power of two, and has at most so many chunks. A
shape asked for outside the bounds is moved to the nearest one inside.
-/

namespace XmlTable.Node

/-- The shape of a node table. -/
structure Geometry where
  /-- A chunk holds `1 <<< chunkBits` records. -/
  chunkBits : Nat
  /-- The most chunks. -/
  maxChunks : Nat
  deriving DecidableEq, Repr

namespace Geometry

/-- The shape nearest to the one wanted: a chunk holds from 2 to 2^20 records, there is a chunk,
and no more than have indices below `indexBound`. -/
def clamp (chunkBits maxChunks : Nat) : Geometry :=
  let bits := min (max chunkBits 1) maxChunkBits
  ⟨bits, min (max maxChunks 1) (indexBound / (1 <<< bits))⟩

/-- The number of records in a chunk. -/
def chunkSize (g : Geometry) : Nat :=
  1 <<< g.chunkBits

/-- The most records of a table. -/
def capacity (g : Geometry) : Nat :=
  min (g.maxChunks * g.chunkSize) indexBound

/-- A chunk holds a record. -/
theorem chunkSize_pos (g : Geometry) : 0 < g.chunkSize := by
  rw [chunkSize, Nat.one_shiftLeft]
  exact Nat.two_pow_pos g.chunkBits

/-- No table has more records than there are indices. -/
theorem capacity_le (g : Geometry) : g.capacity ≤ indexBound :=
  Nat.min_le_right ..

end Geometry

end XmlTable.Node
