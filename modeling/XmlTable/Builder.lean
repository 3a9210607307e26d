import XmlTable.Document
import XmlTable.Event
import XmlTable.Text.Whitespace

/-!
# Building a document

The builder is the only producer of a document. It turns events into changes of the document,
which it publishes one after the other: records are appended in document order, and the link of a
record to its next sibling is filled in when the sibling arrives or the parent ends.

No stack of open elements is kept besides the namespaces in scope. The parent of what comes next is
a node, the cursor; when an element ends the cursor moves to the parent that the element's record
names. Adjacent runs of characters are held back until they are complete. Any event that fails ends
the construction, and the document keeps the failure for its readers.
-/

namespace XmlTable

open Node

/-- What a builder has seen of its document. -/
inductive Stage where
  /-- Nothing yet. -/
  | idle
  /-- The start, so that content is accepted. -/
  | documentOpen
  /-- The end; nothing changes any more. -/
  | documentClosed
  /-- A failure; nothing changes any more. -/
  | failed
  deriving DecidableEq, Repr

/-- The name of a stage in a failure. -/
def Stage.label : Stage → String
  | idle => "Idle"
  | documentOpen => "DocumentOpen"
  | documentClosed => "DocumentClosed"
  | failed => "Failed"

/-- The producer of a document. -/
structure Builder where
  /-- The document as published so far. -/
  document : Document
  /-- The changes published so far, in order. -/
  history : Array Change := #[]
  /-- What was seen of the document. -/
  stage : Stage := .idle
  /-- The parent of what is appended next. -/
  cursor : NodeId := documentId
  /-- The last node under the cursor, with its kind. -/
  previous : Option (NodeId × Kind) := none
  /-- The last declared entity. -/
  lastEntity : Option NodeId := none
  /-- No entity may be declared any more. -/
  entitiesClosed : Bool := false
  /-- The namespaces in scope. -/
  scopes : Namespace.Scopes :=
    .ofReserved Document.xmlId Document.xmlNamespace Document.xmlnsId Document.xmlnsNamespace
  /-- Characters that are not appended yet. -/
  pending : Option (String × TextFlags) := none

namespace Builder

/-- The builder of a fresh document. -/
def start (config : Config) : Builder :=
  { document := .initial config }

/-- Publish a change of the document. -/
def record (builder : Builder) (change : Change) : Builder :=
  { builder with
    document := builder.document.apply change
    history := builder.history.push change }

/-- Change the builder itself; nothing is published. -/
def update (f : Builder → Builder) : Reporting Builder Unit :=
  modify fun (builder, journal) => (f builder, journal)

/-- A fact about the builder. -/
def observe {α : Type} (f : Builder → α) : Reporting Builder α :=
  return f (← get).1

/-- Publish a change of the document. -/
def publish (change : Change) : Reporting Builder Unit :=
  update (·.record change)

/-! ## Failure -/

/-- End the construction with a failure, unless it has ended already. -/
def fail (cause : Failure) : Reporting Builder Unit := do
  match ← observe (·.stage) with
  | .failed | .documentClosed => pure ()
  | _ =>
    update fun builder => { builder with stage := .failed }
    Reporting.fatal cause
    publish (.fail cause)

/-- A failure of the work ends the construction. -/
def guarded (work : Reporting Builder Unit) : Reporting Builder Unit :=
  tryCatch work fun cause => do
    fail cause
    throw cause

/-- Refuse an event unless content is accepted. -/
def requireOpen (event : Event) : Reporting Builder Unit := do
  let stage ← observe (·.stage)
  if stage ≠ .documentOpen then throw (.protocol stage.label event.label)

/-! ## Symbols -/

/-- Store a name. -/
def storeName (name : String) : Reporting Builder SymbolId := do
  let id ← observe (·.document.names.symbolFor name)
  publish (.name name)
  return id

/-- Store a text payload. -/
def storeText (text : String) : Reporting Builder SymbolId := do
  let id ← observe (·.document.texts.symbolFor text)
  publish (.text text)
  return id

/-- The largest number of a namespace that a record can name. -/
def maxNamespaceId : NamespaceId := 16777215

/-- Store the name of a namespace; the empty name stands for no namespace. -/
def storeNamespace (uri : String) : Reporting Builder NamespaceId := do
  if uri.isEmpty then return 0
  let id ← observe (·.document.namespaceUris.symbolFor uri)
  publish (.namespaceUri uri)
  if maxNamespaceId < id then throw (.capacity "namespace table is full")
  return id

/-- The namespace of a name by its prefix; names without a prefix have the one given. -/
def resolveName (name : String) (unprefixed : NamespaceId) : Reporting Builder NamespaceId := do
  let lead := QName.lead name
  if lead.isEmpty then return unprefixed
  match ← observe fun b => (b.document.names.lookup lead).bind b.scopes.resolve with
  | some target => return target
  | none =>
    Reporting.report (.construction ("undeclared namespace prefix '" ++ lead ++ "'"))
    return 0

/-! ## Records and links -/

/-- Publish records together; the answer is the node of the first. -/
def append (records : List Record) : Reporting Builder NodeId := do
  let first ← observe (·.document.nodes.size)
  let fits ← observe (·.document.nodes.hasRoom records.length)
  if !fits then throw (.capacity "node table is full")
  publish (.append records)
  return first

/-- A node becomes the next sibling of the last one under the cursor. Records without a link need
none: their next sibling is found by its place. -/
def linkPrevious (node : NodeId) (kind : Kind) : Reporting Builder Unit := do
  match ← observe (·.previous) with
  | some (previous, previousKind) =>
    if previousKind.isLinked then publish (.link previous (.next node))
  | none => pure ()
  update fun builder => { builder with previous := some (node, kind) }

/-- The last node under the cursor has no next sibling. -/
def closeSiblings : Reporting Builder Unit := do
  match ← observe (·.previous) with
  | some (previous, kind) =>
    let isPending ← observe fun b => b.document.nodes.link? previous == some .pending
    if kind.isLinked && isPending then publish (.link previous .last)
  | none => pure ()

/-- No entity is declared after the last one. -/
def closeEntities : Reporting Builder Unit := do
  if ← observe (·.entitiesClosed) then return
  match ← observe (·.lastEntity) with
  | some entity => publish (.link entity .last)
  | none => pure ()
  update fun builder => { builder with entitiesClosed := true }
  publish .closeEntities

/-- Append a record under the cursor after its siblings. -/
def appendChild (record : Record) : Reporting Builder Unit := do
  let node ← append [record]
  linkPrevious node record.kind

/-- Append the characters held back, unless they are ignorable and to be stripped. -/
def flushText : Reporting Builder Unit := do
  match ← observe (·.pending) with
  | none => pure ()
  | some (text, flags) =>
    update fun builder => { builder with pending := none }
    if flags.ignorable && (← observe (·.document.config.stripIgnorable)) then return
    let payload ← storeText text
    let parent ← observe (·.cursor)
    appendChild (.leaf .text flags parent payload 0)

/-! ## The start of an element -/

/-- The bindings that the attributes of an element declare. The reserved prefixes are not bound
anew. -/
def declaredFrame : List Event.Attribute → Namespace.Frame →
    Reporting Builder Namespace.Frame
  | [], frame => return frame
  | attr :: rest, frame => do
    match attr.declaredPrefix? with
    | none => declaredFrame rest frame
    | some declared =>
      let id ← if declared.isEmpty then pure Symbol.emptyId else storeName declared
      if id = Document.xmlId ∨ id = Document.xmlnsId then declaredFrame rest frame
      else
        let target ← storeNamespace attr.value
        declaredFrame rest (frame.declare id target)

/-- The records of the attributes of an element, each followed by its value. The attribute that
comes first has the node `node`, and `done` holds the records before it, last one first. -/
def attributeRecords (element : NodeId) : NodeId → List Event.Attribute → List Record →
    Reporting Builder (List Record)
  | _, [], done => return done.reverse
  | node, attr :: rest, done => do
    let link := if rest.isEmpty then Link.last else Link.next (node + 2)
    let namespaceId ←
      if attr.declaresNamespace then pure Document.xmlnsNamespace else resolveName attr.name 0
    let name ← storeName attr.name
    let payload ← storeText attr.value
    attributeRecords element (node + 2) rest
      (.valueNode node payload :: .linked .attr namespaceId element name link :: done)

/-- Let the identifiers among the attributes name their element. An identifier that is taken is
ignored with a warning. -/
def identify (element : NodeId) : List Event.Attribute → Reporting Builder Unit
  | [] => pure ()
  | attr :: rest => do
    if attr.isId then
      let value ← storeName attr.value
      let isTaken ← observe fun b => (b.document.identifiers.get? value).isSome
      if isTaken then
        Reporting.warn ("duplicate ID value '" ++ attr.value ++ "' ignored")
      else publish (.identifier value element)
    identify element rest

/-- Open an element. It is published together with its attributes. -/
def startElement (name : String) (attributes : List Event.Attribute) :
    Reporting Builder Unit := do
  flushText
  closeEntities
  let frame ← declaredFrame attributes .empty
  update fun builder => { builder with scopes := builder.scopes.push frame }
  let element ← observe (·.document.nodes.size)
  let unprefixed ← observe (·.scopes.resolveDefault)
  let namespaceId ← resolveName name unprefixed
  let nameId ← storeName name
  let parent ← observe (·.cursor)
  let own : Record := .linked .element namespaceId parent nameId .pending
  let records ← attributeRecords element (element + 1) attributes [own]
  let _ ← append records
  linkPrevious element .element
  identify element attributes
  update fun builder => { builder with cursor := element, previous := none }

/-! ## The other events -/

/-- Begin the document. -/
def startDocument : Reporting Builder Unit := do
  let stage ← observe (·.stage)
  if stage ≠ .idle then throw (.protocol stage.label Event.startDocument.label)
  let _ ← append [.document]
  update fun builder => { builder with stage := .documentOpen, cursor := documentId }

/-- End the document, which must have no open element. -/
def endDocument : Reporting Builder Unit := do
  flushText
  let cursor ← observe (·.cursor)
  if cursor ≠ documentId then
    throw (.construction ("document ended with element " ++ toString cursor ++ " still open"))
  closeSiblings
  closeEntities
  update fun builder => { builder with stage := .documentClosed }
  publish .finish

/-- Close the innermost open element. -/
def endElement : Reporting Builder Unit := do
  flushText
  let closed ← observe (·.cursor)
  if closed = documentId then
    throw (.construction "end_element without a matching start_element")
  closeSiblings
  update fun builder =>
    { builder with
      cursor := ((builder.document.nodes.get? closed).bind (·.parent)).getD documentId
      scopes := builder.scopes.pop
      previous := some (closed, .element) }

/-- Hold characters back for the next text node. Outside the document element there may be white
space only. -/
def characters (text : String) (flags : TextFlags) : Reporting Builder Unit := do
  if text.isEmpty then return
  if (← observe (·.cursor)) = documentId then
    if !Text.isAllSpace text then
      throw (.construction "character data outside the document element")
  else
    update fun builder =>
      { builder with
        pending :=
          match builder.pending with
          | some (before, earlier) => some (before ++ text, earlier.merge flags)
          | none => some (text, flags) }

/-- Append a comment. -/
def comment (text : String) : Reporting Builder Unit := do
  flushText
  let payload ← storeText text
  let parent ← observe (·.cursor)
  appendChild (.leaf .comment {} parent payload 0)

/-- Append a processing instruction. -/
def instruction (target data : String) : Reporting Builder Unit := do
  flushText
  let payload ← storeText data
  let name ← storeName target
  let parent ← observe (·.cursor)
  appendChild (.leaf .instruction {} parent payload name)

/-- Declare an entity, together with its value. Entities are declared before the document element
only; of a name that is known the first declaration stays. -/
def entityDeclaration (name value : String) : Reporting Builder Unit := do
  flushText
  let isLate ← observe fun b => b.entitiesClosed || b.cursor ≠ documentId
  if isLate then
    throw (.protocol "ElementOpen" (Event.entityDeclaration name value).label)
  if ← observe (·.document.entities.contains name) then
    Reporting.warn ("entity '" ++ name ++ "' already declared; keeping the first")
  else
    let nameId ← storeName name
    let payload ← storeText value
    let entity ← observe (·.document.nodes.size)
    let _ ← append
      [.linked .entity 0 documentId nameId .pending, .valueNode entity payload]
    match ← observe (·.lastEntity) with
    | some before => publish (.link before (.next entity))
    | none => pure ()
    update fun builder => { builder with lastEntity := some entity }
    publish (.entity name value entity)

/-- Append a reference to an entity without a known value. -/
def entityReference (name : String) : Reporting Builder Unit := do
  flushText
  let nameId ← storeName name
  let parent ← observe (·.cursor)
  appendChild (.linked .reference 0 parent nameId .pending)

/-- What an event does, when nothing goes wrong. -/
def perform : Event → Reporting Builder Unit
  | .startDocument => startDocument
  | .fatalError cause => fail cause
  | event => do
    requireOpen event
    match event with
    | .endDocument => endDocument
    | .startElement name attributes => startElement name attributes
    | .endElement => endElement
    | .characters text flags => characters text flags
    | .comment text => comment text
    | .instruction target data => instruction target data
    | .entityDeclaration name value => entityDeclaration name value
    | .entityReference name => entityReference name
    | _ => pure ()

/-- Take an event. Any failure ends the construction. -/
def accept (event : Event) : Reporting Builder Unit :=
  guarded (perform event)

/-- The builder as a receiver of events. -/
def sink : Sink Builder := ⟨accept⟩

/-- Take events in order, up to the first that fails. -/
def acceptAll : List Event → Reporting Builder Unit
  | [] => pure ()
  | event :: rest => do
    accept event
    acceptAll rest

/-- Give the builder up. A document that is not complete has failed. -/
def drop : Reporting Builder Unit := do
  match ← observe (·.stage) with
  | .idle | .documentOpen =>
    fail (.construction "builder dropped before the end of the document")
  | _ => pure ()

/-- A short description of the builder. -/
def describe (builder : Builder) : String :=
  let previous := match builder.previous with
    | some (node, kind) => "Some((" ++ toString node ++ ", " ++ kind.name ++ "))"
    | none => "None"
  "Builder \x7b state: " ++ builder.stage.label ++ ", cursor: " ++ toString builder.cursor ++
    ", prev_sibling: " ++ previous ++ ", depth: " ++ toString builder.scopes.depth ++ " \x7d"

end Builder

end XmlTable
