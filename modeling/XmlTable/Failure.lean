import XmlTable.Text.Duration

/-!
# Failures

One type covers everything that can go wrong while a document is read, built or waited for. A
failure is a value: it is stored with the document it ended, handed to the error handler and
returned to the caller, and its wording is fixed in one place. That a node does not exist is no
failure.
-/

namespace XmlTable

/-- What ended a construction or a wait. -/
inductive Failure where
  /-- The source is not acceptable XML at a byte position. -/
  | parse (position : Nat) (message : String)
  /-- The events do not describe a document. -/
  | construction (message : String)
  /-- An event arrived in a state that does not take it. -/
  | protocol (state event : String)
  /-- A fixed limit of the storage was reached. -/
  | capacity (what : String)
  /-- A wait lasted as long as it may. -/
  | timeout (limit : Duration)
  /-- A wait was cancelled. -/
  | cancelled
  /-- The source could not be read. -/
  | io (message : String)
  /-- A part of the source is not UTF-8. -/
  | utf8 (part : String)
  deriving DecidableEq, Repr

namespace Failure

/-- The wording of a failure. -/
def message : Failure → String
  | parse position message =>
    "XML parse error at position " ++ toString position ++ ": " ++ message
  | construction message => "document construction failed: " ++ message
  | protocol state event =>
    "event '" ++ event ++ "' not allowed in builder state " ++ state
  | capacity what => "capacity exceeded: " ++ what
  | timeout limit => "timed out after " ++ limit.text ++ " waiting for the document builder"
  | cancelled => "wait cancelled"
  | io message => "I/O error: " ++ message
  | utf8 part => "invalid UTF-8 in " ++ part

/-- A failure of a wait, which says nothing about the document. -/
def isWait : Failure → Bool
  | timeout _ | cancelled => true
  | _ => false

/-- A failure of construction is placed at a position of the source; others keep their kind. -/
def locate (position : Nat) : Failure → Failure
  | construction message => parse position message
  | failure => failure

/-- No failure of construction is left after placing it. -/
theorem locate_ne_construction (position : Nat) (failure : Failure) (message : String) :
    failure.locate position ≠ construction message := by
  cases failure <;> simp [locate]

end Failure

end XmlTable
