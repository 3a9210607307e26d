import XmlTable.Text.Duration

/-!
# Settings of a document

How a document is stored, built and waited for. Limits that a table or a producer needs to be
sensible are kept by the type: a setter moves its argument to the nearest value allowed.
-/

namespace XmlTable

/-- How text payloads are stored. -/
inductive TextStorage where
  /-- Equal texts share one symbol. -/
  | interned
  /-- Every text gets a symbol of its own. -/
  | appended
  deriving DecidableEq, Repr

/-- When a document is handed out. -/
inductive BuildMode where
  /-- Once it is complete. -/
  | synchronous
  /-- At once, while it is being built. -/
  | streaming
  deriving DecidableEq, Repr

/-- The most binary digits of an index within a chunk of the node table. -/
def maxChunkBits : Nat := 20

/-- The settings of a document. -/
structure Config where
  /-- How many records may be published before readers are woken. -/
  wakeInterval : Nat := 10
  /-- A chunk of the node table holds `1 <<< chunkBits` records. -/
  chunkBits : Nat := 10
  /-- The most chunks of the node table. -/
  maxChunks : Nat := 65536
  /-- The longest wait of a reader, if bounded. -/
  waitTimeout : Option Duration := none
  /-- How text payloads are stored. -/
  storage : TextStorage := .interned
  /-- When the document is handed out. -/
  mode : BuildMode := .synchronous
  /-- Whether white space between elements is dropped where the declarations allow it. -/
  stripIgnorable : Bool := false
  /-- The most bytes of entity replacement text that a document may expand. -/
  expansionLimit : Nat := 1048576
  /-- Readers are woken after some record. -/
  one_le_wakeInterval : 1 ≤ wakeInterval := by decide
  /-- A chunk holds two records at least. -/
  one_le_chunkBits : 1 ≤ chunkBits := by decide
  /-- A chunk is not larger than an index within it can say. -/
  chunkBits_le : chunkBits ≤ maxChunkBits := by decide
  /-- There is a chunk. -/
  one_le_maxChunks : 1 ≤ maxChunks := by decide
  deriving DecidableEq

namespace Config

/-- The settings by default. -/
def standard : Config := {}

/-- The settings by default for a document that is handed out at once. -/
def streaming : Config := { mode := .streaming }

/-- Set the number of records between two wake-ups; it is at least one. -/
def withWakeInterval (config : Config) (records : Nat) : Config :=
  { config with
    wakeInterval := max records 1
    one_le_wakeInterval := Nat.le_max_right .. }

/-- Set the size of a chunk, moved into the range from one to `maxChunkBits`. -/
def withChunkBits (config : Config) (bits : Nat) : Config :=
  { config with
    chunkBits := min (max bits 1) maxChunkBits
    one_le_chunkBits := by simp only [maxChunkBits]; omega
    chunkBits_le := Nat.min_le_right .. }

/-- Set the number of chunks; it is at least one. -/
def withMaxChunks (config : Config) (chunks : Nat) : Config :=
  { config with
    maxChunks := max chunks 1
    one_le_maxChunks := Nat.le_max_right .. }

/-- Bound the waits of readers. -/
def withWaitTimeout (config : Config) (limit : Duration) : Config :=
  { config with waitTimeout := some limit }

/-- Set how text payloads are stored. -/
def withStorage (config : Config) (storage : TextStorage) : Config :=
  { config with storage }

/-- Set when the document is handed out. -/
def withMode (config : Config) (mode : BuildMode) : Config :=
  { config with mode }

/-- Set whether ignorable white space is dropped. -/
def withStripIgnorable (config : Config) (strip : Bool) : Config :=
  { config with stripIgnorable := strip }

/-- Bound the replacement text that a document may expand. -/
def withExpansionLimit (config : Config) (bytes : Nat) : Config :=
  { config with expansionLimit := bytes }

/-- The number of records in a chunk. -/
def chunkSize (config : Config) : Nat :=
  1 <<< config.chunkBits

end Config

end XmlTable
