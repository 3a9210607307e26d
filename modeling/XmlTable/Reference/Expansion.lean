import XmlTable.Entity
import XmlTable.Failure
import XmlTable.Reference.Segment
import XmlTable.Text.CharClass
import XmlTable.Text.Numeral

/-!
# Expanding references

Character references and references to predefined entities are replaced by a character each, those
to declared entities by the replacement text, in which references are expanded in turn. A reference
to any other entity cannot be expanded and is handed out as it is, so the result of an expansion is
a sequence of pieces: text, and references between two texts.

Two bounds keep entities from being a means of attack. Expansions may be nested to a fixed depth,
and the replacement texts that are put in draw on a budget which all expansions of a document
share. Each piece is given with the budget at the moment when it is complete, since whoever takes
the pieces may stop there.
-/

namespace XmlTable.Reference

/-- Why a text cannot be expanded. -/
inductive Fault where
  /-- Expansions are nested too deeply. -/
  | tooDeep
  /-- The replacement texts exceed the budget. -/
  | overLimit (limit : Nat)
  /-- A character reference denotes no legal character. -/
  | invalidCharacter (name : String)
  deriving DecidableEq, Repr

/-- The wording of a fault. -/
def Fault.message : Fault → String
  | tooDeep => "entity expansion nested too deeply (recursive entity?)"
  | overLimit limit => "entity expansion exceeds the limit of " ++ toString limit ++ " bytes"
  | invalidCharacter name => "invalid character reference '&" ++ name ++ ";'"

/-- The failure of a construction that a fault is. -/
def Fault.failure (fault : Fault) : Failure :=
  .construction fault.message

/-- The bytes of replacement text that a document may expand. -/
structure Budget where
  /-- What there was at first. -/
  limit : Nat
  /-- What there is left. -/
  remaining : Nat
  deriving DecidableEq, Repr

namespace Budget

/-- A budget of which nothing is spent. -/
def full (limit : Nat) : Budget := ⟨limit, limit⟩

/-- Spend some bytes, as far as they are there. -/
def spend? (budget : Budget) (bytes : Nat) : Option Budget :=
  if bytes ≤ budget.remaining then some { budget with remaining := budget.remaining - bytes }
  else none

/-- What was spent and what is left make up what there was. -/
theorem spend?_eq_some {budget left : Budget} {bytes : Nat} (h : budget.spend? bytes = some left) :
    left.limit = budget.limit ∧ left.remaining + bytes = budget.remaining := by
  unfold spend? at h
  split at h
  · simp only [Option.some.injEq] at h
    subst h
    exact ⟨rfl, Nat.sub_add_cancel ‹_›⟩
  · simp at h

end Budget

/-- A piece of an expanded text. -/
inductive Piece where
  /-- Text without references. -/
  | text (content : String)
  /-- A reference to an entity without a known value. -/
  | reference (name : String)
  deriving DecidableEq, Repr

/-- A piece as it is written in a text. -/
def Piece.written : Piece → String
  | text content => content
  | reference name => "&" ++ name ++ ";"

/-- An expansion under way. -/
structure Progress where
  /-- The pieces that are complete, each with the budget at that moment. -/
  pieces : Array (Piece × Budget) := #[]
  /-- The text of the piece at hand. -/
  pending : String := ""
  /-- What is left of the budget. -/
  budget : Budget
  deriving DecidableEq, Repr

namespace Progress

/-- Put characters to the piece at hand. -/
def addText (progress : Progress) (text : String) : Progress :=
  { progress with pending := progress.pending ++ text }

/-- Complete the piece at hand, unless it is empty. -/
def flush (progress : Progress) : Progress :=
  if progress.pending.isEmpty then progress
  else
    { progress with
      pieces := progress.pieces.push (.text progress.pending, progress.budget)
      pending := "" }

/-- Complete the piece at hand and put a reference after it. -/
def addReference (progress : Progress) (name : String) : Progress :=
  let flushed := progress.flush
  { flushed with pieces := flushed.pieces.push (.reference name, flushed.budget) }

end Progress

/-- Work on an expansion. What was done remains when a fault is met. -/
abbrev Expanding := ExceptT Fault (StateM Progress)

/-- The character of a character reference, given what follows the number sign. -/
def characterOf? (digits : List Char) : Option Char :=
  let code? := match digits with
    | 'x' :: hex | 'X' :: hex => Text.hexWord? hex
    | _ => Text.decimalWord? digits
  code?.bind Text.legalChar?

/-- Put the replacement text of a declared entity, which is paid for first. How to put its segments
is given. -/
def putEntity (putNested : List Segment → Expanding Unit) (value : String) : Expanding Unit := do
  let budget := (← get).budget
  match budget.spend? value.utf8ByteSize with
  | none => throw (.overLimit budget.limit)
  | some left =>
    modify fun progress => { progress with budget := left }
    putNested (segments value.toList)

/-- Put one segment of a text. How to put those of a replacement text is given. -/
def putSegment (declared : String → Option String) (putNested : List Segment → Expanding Unit) :
    Segment → Expanding Unit
  | .text cs => modify (·.addText (String.ofList cs))
  | .reference ('#' :: digits) =>
    match characterOf? digits with
    | some c => modify (·.addText (String.singleton c))
    | none => throw (.invalidCharacter (String.ofList ('#' :: digits)))
  | .reference chars =>
    let name := String.ofList chars
    match Entity.predefined.lookup name, declared name with
    | some value, _ => modify (·.addText value)
    | none, some value => putEntity putNested value
    | none, none => modify (·.addReference name)

/-- Put some segments in order. -/
def putAll (put : Segment → Expanding Unit) : List Segment → Expanding Unit
  | [] => pure ()
  | segment :: rest => do
    put segment
    putAll put rest

/-- Put the segments of a text, with replacement texts nested at most `levels` deep. -/
def expand (declared : String → Option String) : Nat → List Segment → Expanding Unit
  | 0 => putAll (putSegment declared fun _ => throw .tooDeep)
  | levels + 1 => putAll (putSegment declared (expand declared levels))

/-- Replacement texts are nested so many times at most. -/
def maxDepth : Nat := 16

/-- What came of an expansion. -/
structure Expansion where
  /-- The pieces in order, each with the budget when it was complete. -/
  pieces : List (Piece × Budget)
  /-- What is left of the budget. -/
  budget : Budget
  /-- The fault that ended the expansion early. -/
  fault : Option Fault
  deriving DecidableEq, Repr

/-- Expand the references of a text. No piece is empty text, and between two texts there is a
reference. -/
def decode (declared : String → Option String) (budget : Budget) (text : String) : Expansion :=
  match (expand declared maxDepth (segments text.toList)).run.run { budget } with
  | (.ok (), progress) => ⟨progress.flush.pieces.toList, progress.budget, none⟩
  | (.error fault, progress) => ⟨progress.pieces.toList, progress.budget, some fault⟩

/-- The text that pieces make up, references being written as they are. -/
def writtenText (pieces : List (Piece × Budget)) : String :=
  pieces.foldl (fun text piece => text ++ piece.1.written) ""

/-- Expand the references of a text into one text, in which references without a value stay as they
are written. What is left of the budget is given whether this succeeds or not. -/
def decodeToString (declared : String → Option String) (budget : Budget) (text : String) :
    Except Fault String × Budget :=
  let expansion := decode declared budget text
  match expansion.fault with
  | none => (.ok (writtenText expansion.pieces), expansion.budget)
  | some fault => (.error fault, expansion.budget)

end XmlTable.Reference
