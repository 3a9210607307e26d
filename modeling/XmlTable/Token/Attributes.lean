import XmlTable.Token.Basic

/-!
# The attributes of a tag

After its name a tag has attributes, each a key, an equals sign and a value in quotes. They are read
one at a time up to the first fault, so that what precedes a fault is still seen. Positions are
counted from the start of the tag's content. Almost anything is accepted as a key: it runs up to an
equals sign or white space, and its first byte may be any.
-/

namespace XmlTable

namespace Tag

/-- Why the attributes of a tag cannot be read on. -/
inductive Fault where
  /-- A key has no equals sign. -/
  | missingEquals (position : Nat)
  /-- A key occurred before. -/
  | duplicated (position earlier : Nat)
  /-- Nothing follows the equals sign. -/
  | missingValue (position : Nat)
  /-- A value has no quotes. -/
  | unquoted (position : Nat)
  /-- A value has no closing quote. -/
  | unclosed (quote : UInt8) (position : Nat)
  deriving DecidableEq, Repr

/-- The wording of a fault. -/
def Fault.message : Fault → String
  | missingEquals position =>
    "position " ++ toString position ++
      ": attribute key must be directly followed by `=` or space"
  | duplicated position earlier =>
    "position " ++ toString position ++
      ": duplicated attribute, previous declaration at position " ++ toString earlier
  | missingValue position =>
    "position " ++ toString position ++ ": `=` must be followed by an attribute value"
  | unquoted position =>
    "position " ++ toString position ++
      ": attribute value must be enclosed in `\x22` or `\x27`"
  | unclosed quote position =>
    "position " ++ toString position ++ ": missing closing quote `" ++
      String.singleton (Char.ofNat quote.toNat) ++ "` in attribute value"

/-- An attribute as written. -/
structure Attribute where
  /-- The key. -/
  key : Bytes
  /-- What is between the quotes. -/
  value : Bytes
  deriving DecidableEq, Repr

/-- The attributes of a tag, up to the fault that ends them early. -/
structure Attributes where
  /-- The attributes in order. -/
  list : List Attribute
  /-- The fault after them. -/
  fault : Option Fault
  deriving DecidableEq, Repr

/-- One attribute, or none. -/
inductive Next where
  /-- No attribute is left. -/
  | finished
  /-- The next attribute is at fault. -/
  | fault (fault : Fault)
  /-- An attribute with the position of its key, and what comes after it at its position. -/
  | found (attr : Attribute) (start : Nat) (rest : Bytes) (position : Nat)
  deriving DecidableEq, Repr

/-- The position of the equals sign after a key, with the bytes after the sign. White space may
stand before the sign. -/
def findEquals (rest : Bytes) (position : Nat) : Except Fault (Bytes × Nat) :=
  let space := rest.takeWhile Bytes.isSpace
  match rest.dropWhile Bytes.isSpace with
  | [] => .error (.missingEquals (position + space.length))
  | b :: rest =>
    if b = Bytes.ofChar '=' then .ok (rest, position + space.length + 1)
    else .error (.missingEquals (position + space.length))

/-- The value after an equals sign, with the bytes after it and their position. -/
def readValue (rest : Bytes) (position : Nat) : Except Fault (Bytes × Bytes × Nat) :=
  let start := position + (rest.takeWhile Bytes.isSpace).length
  match rest.dropWhile Bytes.isSpace with
  | [] => .error (.missingValue start)
  | quote :: body =>
    if quote = Bytes.ofChar '\x22' ∨ quote = Bytes.ofChar '\x27' then
      let value := body.takeWhile (· ≠ quote)
      match body.dropWhile (· ≠ quote) with
      | _ :: rest => .ok (value, rest, start + value.length + 2)
      | [] => .error (.unclosed quote (start + 1 + value.length))
    else .error (.unquoted start)

/-- Read the next attribute at a position; the keys before it are given with their positions. -/
def readAttribute (earlier : List (Bytes × Nat)) (rest : Bytes) (position : Nat) : Next :=
  let start := position + (rest.takeWhile Bytes.isSpace).length
  match rest.dropWhile Bytes.isSpace with
  | [] => .finished
  | first :: rest =>
    let inKey := fun b => b ≠ Bytes.ofChar '=' && !Bytes.isSpace b
    let key := first :: rest.takeWhile inKey
    match findEquals (rest.dropWhile inKey) (start + key.length) with
    | .error fault => .fault fault
    | .ok (rest, position) =>
      match earlier.lookup key with
      | some before => .fault (.duplicated start before)
      | none =>
        match readValue rest position with
        | .error fault => .fault fault
        | .ok (value, rest, position) => .found ⟨key, value⟩ start rest position

/-- Read attributes up to the first fault; those read already are in `done`, last one first. Every
attribute takes a byte, so that the number of bytes is enough `fuel`. -/
def readAttributes : Nat → List (Bytes × Nat) → Bytes → Nat → List Attribute → Attributes
  | 0, _, _, _, done => ⟨done.reverse, none⟩
  | fuel + 1, earlier, rest, position, done =>
    match readAttribute earlier rest position with
    | .finished => ⟨done.reverse, none⟩
    | .fault fault => ⟨done.reverse, some fault⟩
    | .found attr start rest position =>
      readAttributes fuel ((attr.key, start) :: earlier) rest position (attr :: done)

/-- The attributes of a tag. -/
def attributes (tag : Tag) : Attributes :=
  let rest := tag.content.drop tag.nameLength
  readAttributes (rest.length + 1) [] rest tag.nameLength []

end Tag

end XmlTable
