import XmlTable.Node.Record
import XmlTable.Report

/-!
# Construction events

A document is described by a sequence of events: the start of the document, the start of an
element with its attributes, characters, and so on to the end of the document. Whoever reads a
source delivers events to a sink; the sink may refuse one, and shares the journal of reports with
the one who delivers.
-/

namespace XmlTable

namespace Event

/-- An attribute of a start event. -/
structure Attribute where
  /-- The qualified name. -/
  name : String
  /-- The value, with references expanded. -/
  value : String
  /-- The value identifies the element. -/
  isId : Bool := false
  deriving DecidableEq, Repr

namespace Attribute

/-- The start of the names that declare a prefix. -/
def declarationLead : List Char := "xmlns:".toList

/-- The prefix that an attribute declares, empty for the default namespace; nothing for an
attribute that declares no namespace. -/
def declaredPrefix? (attr : Attribute) : Option String :=
  if attr.name = "xmlns" then some ""
  else if declarationLead.isPrefixOf attr.name.toList then
    some (String.ofList (attr.name.toList.drop declarationLead.length))
  else none

/-- The attribute declares a namespace. -/
def declaresNamespace (attr : Attribute) : Bool :=
  attr.declaredPrefix?.isSome

end Attribute

end Event

/-- One step in the description of a document. -/
inductive Event where
  /-- The document begins. -/
  | startDocument
  /-- The document ends. -/
  | endDocument
  /-- An element begins. -/
  | startElement (name : String) (attributes : List Event.Attribute)
  /-- The innermost open element ends. -/
  | endElement
  /-- Character data; adjacent runs belong together. -/
  | characters (text : String) (flags : Node.TextFlags)
  /-- A comment. -/
  | comment (text : String)
  /-- A processing instruction. -/
  | instruction (target data : String)
  /-- A general entity is declared. -/
  | entityDeclaration (name value : String)
  /-- An entity without a known value is referred to. -/
  | entityReference (name : String)
  /-- The description ends with a failure. -/
  | fatalError (cause : Failure)
  deriving DecidableEq, Repr

/-- The name of an event in a failure. -/
def Event.label : Event → String
  | startDocument => "start_document"
  | endDocument => "end_document"
  | startElement .. => "start_element"
  | endElement => "end_element"
  | characters .. => "characters"
  | comment .. => "comment"
  | instruction .. => "processing_instruction"
  | entityDeclaration .. => "entity_decl"
  | entityReference .. => "entity_reference"
  | fatalError .. => "fatal_error"

/-- Work on a state that reports to the shared journal and may fail; the state and the journal
remain when it does. -/
abbrev Reporting (σ : Type) := ExceptT Failure (StateM (σ × Journal))

namespace Reporting

variable {σ : Type}

/-- Tell a warning. -/
def warn (message : String) : Reporting σ Unit :=
  modify fun (state, journal) => (state, journal.warn message)

/-- Tell the failure that ended the construction. -/
def fatal (failure : Failure) : Reporting σ Unit :=
  modify fun (state, journal) => (state, journal.fatal failure)

/-- Report a failure; go on if the handler recovers from it. -/
def report (failure : Failure) : Reporting σ Unit := do
  let recovery ← modifyGet fun (state, journal) =>
    let (recovery, journal) := journal.error failure
    (recovery, state, journal)
  match recovery with
  | .proceed => pure ()
  | .abort => throw failure

end Reporting

/-- A receiver of events with a state of its own. -/
structure Sink (σ : Type) where
  /-- Take an event or refuse it. -/
  accept : Event → Reporting σ Unit

namespace Sink

/-- The sink that collects all events, and refuses the one with a given number if asked to. -/
def recorder (refusal : Option (Nat × Failure)) : Sink (Array Event) where
  accept event := do
    let count ← modifyGet fun (events, journal) => (events.size, events.push event, journal)
    match refusal with
    | some (index, failure) => if count = index then throw failure
    | none => pure ()

end Sink

end XmlTable
