import XmlTable.Report
import XmlTable.Subset.Reading

/-!
# Scanning an internal subset

The subset is a sequence of items: declarations, comments, processing instructions and references to
parameter entities, with white space between them. An item that cannot be read is reported with its
position; if the error handler recovers, the item is skipped. Anything else between items is
reported as well and skipped up to the next less-than sign. That sign may be the very place of the
report, and then the report is made again, for as long as the handler recovers: the scan of a stray
less-than sign ends by the handler's decision alone. How often a report may be repeated without
progress before the scan is given up is its `patience`.
-/

namespace XmlTable

/-- Why work that reports to an error handler ended early. -/
inductive Stop where
  /-- By a failure. -/
  | failure (cause : Failure)
  /-- It was given up, since it did not come to an end. -/
  | unfinished
  deriving DecidableEq, Repr

namespace Subset

/-- Work that reports to an error handler. -/
abbrev Scanning := ExceptT Stop (StateM Journal)

theorem Scanning.run_bind {α β : Type} (work : Scanning α) (next : α → Scanning β)
    (journal : Journal) : (work >>= next).run.run journal =
      match work.run.run journal with
      | (.ok a, journal') => (next a).run.run journal'
      | (.error stop, journal') => (.error stop, journal') := by
  change (match work.run.run journal with | (r, j) => (ExceptT.bindCont next r).run j) = _
  rcases work.run.run journal with ⟨_ | _, _⟩ <;> rfl

/-- Tell a warning, if there is one. -/
def warn : Option String → Scanning Unit
  | some message => modify (·.warn message)
  | none => pure ()

/-- Report a fault at a position; go on if the handler recovers. -/
def report (position : Nat) (fault : Fault) : Scanning Unit := do
  let failure := Failure.parse position fault.message
  match ← modifyGet (·.error failure) with
  | .proceed => pure ()
  | .abort => throw (.failure failure)

/-- Read a declaration, given what follows its opening mark. What comes after it is given unless it
does not end; a declaration that says nothing is reported at its position. -/
def scanDeclaration (position : Unit → Nat) (declarations : Declarations) (cs : List Char) :
    Scanning (Declarations × Option (List Char)) := do
  let keyword := String.ofList (cs.takeWhile isNameChar)
  match splitBody none [] (cs.dropWhile isNameChar) with
  | none =>
    report (position ()) .unclosedDeclaration
    return (declarations, none)
  | some (body, rest) =>
    match declare keyword body declarations with
    | .ok declared =>
      warn declared.warning
      return (declared.declarations, some rest)
    | .error fault =>
      report (position ()) fault
      return (declarations, some rest)

/-- Pass over an item up to the end of a pattern. -/
def scanPast (position : Unit → Nat) (pattern : String) (fault : Fault)
    (declarations : Declarations) (cs : List Char) :
    Scanning (Declarations × Option (List Char)) := do
  match Text.after? pattern.toList cs with
  | some rest => return (declarations, some rest)
  | none =>
    report (position ()) fault
    return (declarations, none)

/-- Read the item at the start of a text. What comes after it is given, unless the scan ends with
it. -/
def scanItem (position : Unit → Nat) (declarations : Declarations) (cs : List Char) :
    Scanning (Declarations × Option (List Char)) := do
  if Text.startsWith cs "<!--" then scanPast position "-->" .unclosedComment declarations cs
  else if Text.startsWith cs "<?" then
    scanPast position "?>" .unclosedInstruction declarations cs
  else if Text.startsWith cs "<!" then scanDeclaration position declarations (cs.drop 2)
  else if Text.startsWith cs "%" then scanPast position ";" .unclosedReference declarations cs
  else
    report (position ()) .strayContent
    match cs.dropWhile (· ≠ '<') with
    | [] => return (declarations, none)
    | rest => return (declarations, some rest)

/-- Scan the rest `cs` of a subset that takes `total` bytes from position `base` on. At most `fuel`
items and reports are read. -/
def scanFrom (base total : Nat) : Nat → Declarations → List Char → Scanning Declarations
  | 0, _, _ => throw .unfinished
  | fuel + 1, declarations, cs =>
    match skipSpace cs with
    | [] => return declarations
    | cs => do
      let position := fun _ => base + (total - Text.byteLength cs)
      match ← scanItem position declarations cs with
      | (declarations, some rest) => scanFrom base total fuel declarations rest
      | (declarations, none) => return declarations

/-- The declarations of an internal subset that begins at position `base`. -/
def scan (patience base : Nat) (subset : String) : Scanning Declarations :=
  let cs := subset.toList
  scanFrom base (Text.byteLength cs) (cs.length + patience + 1) .none cs

end Subset

end XmlTable
