import XmlTable.Event
import XmlTable.Reference.Expansion
import XmlTable.Subset.Scan
import XmlTable.Text.LineEnds
import XmlTable.Text.Whitespace
import XmlTable.Token.Attributes
import XmlTable.Token.Lexer

/-!
# From tokens to events

The reader turns the tokens of a source into construction events. It decodes the bytes of tokens,
normalizes line ends and white space, expands references, applies the declarations of the internal
subset to attributes and to white space, and sees to it that there is one document element with
everything else around it in place. What it meets that is wrong ends the reading, and the receiver
of the events is told.
-/

namespace XmlTable

open Reference (Budget Expansion Piece decode writtenText)
open Subset (AttributeDefinition Declarations)

/-- What a reader knows of the document so far. -/
structure Reader where
  /-- The declarations of the internal subset. -/
  declarations : Declarations := .none
  /-- For each open element, innermost first, whether it is declared to contain elements only. -/
  openElements : List Bool := []
  /-- The document element has begun. -/
  seenRoot : Bool := false
  /-- The replacement text that may still be expanded. -/
  budget : Budget
  deriving DecidableEq, Repr

/-- Work of a reader that delivers to a receiver with a state of its own. Everything remains as it
is when the work ends early. -/
abbrev Delivery (σ : Type) := ExceptT Stop (StateT Reader (StateM (σ × Journal)))

namespace Reader

variable {σ : Type}

/-- End the reading with a failure. -/
def abandon {α : Type} (cause : Failure) : Delivery σ α :=
  throw (.failure cause)

/-- End the reading because of something at a position. -/
def abandonAt {α : Type} (position : Nat) (message : String) : Delivery σ α :=
  abandon (.parse position message)

/-- Do work that reports, and learn how it ended. -/
def attempt {α : Type} (work : Reporting σ α) : Delivery σ (Except Failure α) :=
  (work.run : StateM (σ × Journal) (Except Failure α))

/-- Deliver an event; if it is refused the reading ends with the receiver's failure. -/
def deliver (sink : Sink σ) (event : Event) : Delivery σ Unit := do
  match ← attempt (sink.accept event) with
  | .ok () => pure ()
  | .error cause => abandon cause

/-- Deliver an event that belongs to a position; a failure of construction is placed there. -/
def deliverAt (sink : Sink σ) (position : Nat) (event : Event) : Delivery σ Unit := do
  match ← attempt (sink.accept event) with
  | .ok () => pure ()
  | .error cause => abandon (cause.locate position)

/-- Report a failure; go on if the handler recovers. -/
def report (cause : Failure) : Delivery σ Unit := do
  match ← attempt (Reporting.report cause : Reporting σ Unit) with
  | .ok () => pure ()
  | .error cause => abandon cause

/-- Scan an internal subset. -/
def scanSubset (patience base : Nat) (subset : String) : Delivery σ Declarations := do
  let scanned ← (modifyGet fun (state, journal) =>
    let (result, journal) := (Subset.scan patience base subset).run.run journal
    (result, state, journal) : StateM (σ × Journal) (Except Stop Declarations))
  match scanned with
  | .ok declarations => return declarations
  | .error stop => throw stop

/-- The text of a part of the source, which must be UTF-8. -/
def decodeBytes (part : String) (bytes : Bytes) : Delivery σ String :=
  match bytes.utf8? with
  | some text => pure text
  | none => abandon (.utf8 part)

/-- Leave so much of the budget. -/
def setBudget (budget : Budget) : Delivery σ Unit :=
  modify fun reader => { reader with budget }

/-- The expansion of the references in a text, which draws on the budget. -/
def expansionOf (text : String) : Delivery σ Expansion := do
  let reader ← get
  return decode reader.declarations.entity? reader.budget text

/-- End the reading if an expansion met a fault. -/
def requireFaultless (position : Nat) (expansion : Expansion) : Delivery σ Unit :=
  match expansion.fault with
  | some fault => abandon (fault.failure.locate position)
  | none => pure ()

/-- A text with its references expanded as far as possible. -/
def expandText (position : Nat) (text : String) : Delivery σ (String × Expansion) := do
  let expansion ← expansionOf text
  setBudget expansion.budget
  requireFaultless position expansion
  return (writtenText expansion.pieces, expansion)

/-! ## Attributes -/

/-- The first reference among some pieces. -/
def firstReference? (pieces : List (Piece × Budget)) : Option String :=
  pieces.findSome? fun piece =>
    match piece.1 with
    | .reference name => some name
    | .text _ => none

/-- The value of an attribute as written. A reference that cannot be expanded is reported, once for
the value. -/
def attributeValue (position : Nat) (written : String) : Delivery σ String := do
  let (value, expansion) ← expandText position (Text.normalizeAttribute written)
  match firstReference? expansion.pieces with
  | some name =>
    report (.parse position ("undeclared entity '" ++ name ++ "' in attribute value"))
  | none => pure ()
  return value

/-- The name that makes any attribute an identifier. -/
def idName : String := "xml:id"

/-- The attributes of an element that its tag has; those read already are in `done`, last one
first. -/
def writtenAttributes (position : Nat) (element : String) :
    List Tag.Attribute → List Event.Attribute → Delivery σ (List Event.Attribute)
  | [], done => return done.reverse
  | attr :: rest, done => do
    let name ← decodeBytes "attribute name" attr.key
    let written ← decodeBytes "attribute value" attr.value
    let value ← attributeValue position written
    let isId := name = idName || (← get).declarations.isId element name
    writtenAttributes position element rest (⟨name, value, isId⟩ :: done)

/-- The attributes of an element with those that have a value by default. -/
def withDefaults (position : Nat) :
    List (AttributeDefinition × String) → List Event.Attribute →
    Delivery σ (List Event.Attribute)
  | [], attributes => return attributes
  | (definition, literal) :: rest, attributes => do
    if attributes.any (·.name = definition.name) then withDefaults position rest attributes
    else
      let (value, _) ← expandText position literal
      let attr : Event.Attribute := ⟨definition.name, value, definition.type = .id⟩
      withDefaults position rest (attributes ++ [attr])

/-! ## Tokens -/

/-- Begin an element; its name is the answer. There is one element that no other contains. -/
def startElement (sink : Sink σ) (position : Nat) (tag : Tag) : Delivery σ String := do
  let reader ← get
  if reader.openElements.isEmpty then
    if reader.seenRoot then abandonAt position "more than one document element"
    modify fun reader => { reader with seenRoot := true }
  let name ← decodeBytes "element name" tag.name
  let found := tag.attributes
  let written ← writtenAttributes position name found.list []
  match found.fault with
  | some fault => abandonAt position fault.message
  | none => pure ()
  let defaults := (← get).declarations.defaults name
  let attributes ← withDefaults position defaults written
  deliver sink (.startElement name attributes)
  return name

/-- The flags of characters in an element: white space can be ignored where elements only are
declared. -/
def textFlags (elementsOnly : Bool) (text : String) : Node.TextFlags :=
  { ignorable := elementsOnly && Text.isAllSpace text }

/-- The event for a piece of character data. -/
def pieceEvent (elementsOnly : Bool) : Piece → Event
  | .text content => .characters content (textFlags elementsOnly content)
  | .reference name => .entityReference name

/-- Deliver the pieces of character data at a position. -/
def deliverPieces (sink : Sink σ) (position : Nat) (elementsOnly : Bool) :
    List (Piece × Budget) → Delivery σ Unit
  | [] => pure ()
  | (piece, budget) :: rest => do
    setBudget budget
    deliverAt sink position (pieceEvent elementsOnly piece)
    deliverPieces sink position elementsOnly rest

/-- Deliver character data. Outside the document element there may be white space only. -/
def characters (sink : Sink σ) (position : Nat) (written : String) : Delivery σ Unit := do
  match (← get).openElements with
  | [] =>
    if !Text.isAllSpace written then
      abandonAt position "text outside the document element"
  | elementsOnly :: _ =>
    let expansion ← expansionOf (Text.normalizeLineEnds written)
    deliverPieces sink position elementsOnly expansion.pieces
    setBudget expansion.budget
    requireFaultless position expansion

/-- The target and the data of a processing instruction: the target ends at the first white space,
and the data begin after it. -/
def splitInstruction (content : String) : String × String :=
  let cs := content.toList
  let isTarget := fun c => !Text.isAsciiSpace c
  (String.ofList (cs.takeWhile isTarget),
    String.ofList (Text.trimStart (cs.dropWhile isTarget)))

/-- The internal subset in the content of a document type declaration, with its place there in
bytes. It begins after the first opening bracket and ends before the last closing one. -/
def internalSubset? (content : String) : Option (Nat × String) :=
  let cs := content.toList
  let outside := cs.takeWhile (· ≠ '[')
  match cs.dropWhile (· ≠ '[') with
  | [] => none
  | _ :: inside =>
    let subset :=
      if inside.contains ']' then ((inside.reverse.dropWhile (· ≠ ']')).drop 1).reverse
      else inside
    some (Text.byteLength outside + 1, String.ofList subset)

/-- Deliver the declared entities, with the references in their values expanded. -/
def deliverEntities (sink : Sink σ) (position : Nat) :
    List (String × String) → Delivery σ Unit
  | [] => pure ()
  | (name, literal) :: rest => do
    let (value, _) ← expandText position literal
    deliver sink (.entityDeclaration name value)
    deliverEntities sink position rest

/-- Read a document type declaration. Its internal subset replaces the declarations known before. -/
def doctype (sink : Sink σ) (patience position : Nat) (content : String) : Delivery σ Unit := do
  match internalSubset? content with
  | none => pure ()
  | some (start, subset) =>
    let declarations ← scanSubset patience (position + start) subset
    modify fun reader => { reader with declarations }
    deliverEntities sink position declarations.entities

/-- Read one token. -/
def readToken (sink : Sink σ) (patience position : Nat) : Token → Delivery σ Unit
  | .start tag => do
    let name ← startElement sink position tag
    modify fun reader =>
      { reader with
        openElements := reader.declarations.isElementOnly name :: reader.openElements }
  | .empty tag => do
    let _ ← startElement sink position tag
    deliver sink .endElement
  | .close _ => do
    modify fun reader => { reader with openElements := reader.openElements.tail }
    deliver sink .endElement
  | .text content => do
    characters sink position (← decodeBytes "text" content)
  | .cdata content => do
    let text ← decodeBytes "CDATA section" content
    if (← get).openElements.isEmpty then
      abandonAt position "CDATA section outside the document element"
    deliver sink (.characters (Text.normalizeLineEnds text) { cdata := true })
  | .comment content => do
    let text ← decodeBytes "comment" content
    deliver sink (.comment (Text.normalizeLineEnds text))
  | .instruction content => do
    let text ← decodeBytes "processing instruction" content
    let (target, data) := splitInstruction text
    deliver sink (.instruction target (Text.normalizeLineEnds data))
  | .doctype content => do
    if (← get).seenRoot then abandonAt position "DOCTYPE after the document element"
    doctype sink patience position (← decodeBytes "DOCTYPE" content)
  | .declaration => pure ()

/-- Read tokens in order. -/
def readTokens (sink : Sink σ) (patience : Nat) : List (Nat × Token) → Delivery σ Unit
  | [] => pure ()
  | (position, token) :: rest => do
    readToken sink patience position token
    readTokens sink patience rest

/-- Read the end of the tokens. At the end of the source there was a document element and none is
open. -/
def finish (sink : Sink σ) : Token.Ending → Delivery σ Unit
  | .malformed position fault => abandonAt position fault.message
  | .unreadable message => abandon (.io message)
  | .complete position => do
    let reader ← get
    if !reader.openElements.isEmpty then
      abandonAt position ("unexpected end of input: " ++ toString reader.openElements.length ++
        " unclosed elements")
    if !reader.seenRoot then abandonAt position "no document element"
    deliver sink .endDocument

/-- Deliver the events of a document from its start to its end. -/
def readDocument (sink : Sink σ) (patience : Nat) (stream : Token.Stream) : Delivery σ Unit := do
  deliver sink .startDocument
  readTokens sink patience stream.tokens
  finish sink stream.ending

/-- Deliver the events of a document. If the reading fails, the receiver is told with a last
event. -/
def read (sink : Sink σ) (patience : Nat) (stream : Token.Stream) : Delivery σ Unit :=
  tryCatch (readDocument sink patience stream) fun stop => do
    match stop with
    | .failure cause => let _ ← attempt (sink.accept (.fatalError cause))
    | .unfinished => pure ()
    throw stop

/-- The reader before it has read anything, with a bound on the replacement text. -/
def start (expansionLimit : Nat) : Reader :=
  { budget := .full expansionLimit }

/-- What came of a reading. -/
structure Result (σ : Type) where
  /-- How it ended. -/
  outcome : Except Stop Unit
  /-- The reader at the end. -/
  reader : Reader
  /-- The receiver at the end. -/
  state : σ
  /-- What was reported. -/
  journal : Journal

/-- Read the document of a source and deliver its events to a receiver. -/
def run (sink : Sink σ) (patience expansionLimit : Nat) (source : Source) (state : σ)
    (journal : Journal) : Result σ :=
  let ((outcome, reader), state, journal) :=
    ((read sink patience source.tokens).run.run (start expansionLimit)).run (state, journal)
  ⟨outcome, reader, state, journal⟩

end Reader

end XmlTable
