import XmlTable.Entity
import XmlTable.Failure
import XmlTable.Identifier
import XmlTable.Namespace
import XmlTable.Node.Table
import XmlTable.Symbol.Store

/-!
# Documents

A document is what its producer has made known so far: the node table, the symbols that records
refer to, the index of identifiers, the entities, and how far the construction has come. Readers
look at a document while it grows, so it changes in small steps, each of which is one value of
`Change`. What a reader may ever see is the document after some of the changes of a run.
-/

namespace XmlTable

/-- How far a construction has come. -/
inductive Progress where
  /-- More may be published. -/
  | building
  /-- Everything is published. -/
  | done
  /-- Nothing more will be published, because of this failure. -/
  | failed (cause : Failure)
  deriving DecidableEq, Repr

/-- What is known of a document. -/
structure Document where
  /-- The settings. -/
  config : Config
  /-- The records. -/
  nodes : Node.Table
  /-- Qualified names, prefixes, targets of processing instructions and identifiers. -/
  names : Symbol.ContentPool
  /-- Text payloads. -/
  texts : Symbol.Store
  /-- The names of namespaces; the number of a namespace is its symbol. -/
  namespaceUris : Symbol.ContentPool
  /-- Elements by identifier. -/
  identifiers : Identifier.Index
  /-- Known entities. -/
  entities : Entity.Table
  /-- How far the construction has come. -/
  progress : Progress
  /-- Waits are cancelled. -/
  isCancelled : Bool

/-- One step in the growth of a document. -/
inductive Change where
  /-- Records are published together. -/
  | append (records : List Node.Record)
  /-- The next sibling of a record becomes known. -/
  | link (node : NodeId) (link : Node.Link)
  /-- A name is stored. -/
  | name (name : String)
  /-- A text payload is stored. -/
  | text (text : String)
  /-- The name of a namespace is stored. -/
  | namespaceUri (uri : String)
  /-- An element gets an identifier. -/
  | identifier (value : SymbolId) (element : NodeId)
  /-- An entity is declared. -/
  | entity (name value : String) (node : NodeId)
  /-- No further entities will be declared. -/
  | closeEntities
  /-- The construction is complete. -/
  | finish
  /-- The construction has failed. -/
  | fail (cause : Failure)
  /-- Current and later waits are cancelled. -/
  | cancel

namespace Document

/-- The symbol of the prefix that is reserved for the language itself. -/
def xmlId : SymbolId := 1

/-- The symbol of the prefix that is reserved for namespace declarations. -/
def xmlnsId : SymbolId := 2

/-- The namespace of the language itself. -/
def xmlNamespace : NamespaceId := 1

/-- The namespace of namespace declarations. -/
def xmlnsNamespace : NamespaceId := 2

/-- The names stored before the construction begins. -/
def reservedNames : Symbol.ContentPool :=
  (Symbol.Pool.empty.insert "xml").insert "xmlns"

/-- The document before its construction: the reserved names are stored and nothing else. -/
def initial (config : Config) : Document where
  config := config
  nodes := .empty (.clamp config.chunkBits config.maxChunks)
  names := reservedNames
  texts := .ofStorage config.storage
  namespaceUris := (Symbol.Pool.empty.insert xmlUri).insert xmlnsUri
  identifiers := .empty
  entities := .initial
  progress := .building
  isCancelled := false

/-- The document after a change. The first failure is the one that is kept. -/
def apply (doc : Document) : Change → Document
  | .append records => { doc with nodes := doc.nodes.append records }
  | .link node link => { doc with nodes := doc.nodes.setLink node link }
  | .name name => { doc with names := doc.names.insert name }
  | .text text => { doc with texts := doc.texts.insert text }
  | .namespaceUri uri => { doc with namespaceUris := doc.namespaceUris.insert uri }
  | .identifier value element =>
    { doc with identifiers := doc.identifiers.insert value element }
  | .entity name value node => { doc with entities := doc.entities.declare name value node }
  | .closeEntities => { doc with entities := doc.entities.close }
  | .finish => { doc with progress := .done }
  | .fail cause =>
    match doc.progress with
    | .failed _ => doc
    | _ => { doc with progress := .failed cause }
  | .cancel => { doc with isCancelled := true }

/-- The number of records published. -/
def nodeCount (doc : Document) : Nat :=
  doc.nodes.size

/-- The construction is complete. -/
def isDone (doc : Document) : Bool :=
  doc.progress matches .done

/-- The construction has failed. -/
def isFailed (doc : Document) : Bool :=
  doc.progress matches .failed _

/-- The failure that ended the construction. -/
def failure? (doc : Document) : Option Failure :=
  match doc.progress with
  | .failed cause => some cause
  | _ => none

/-- The name with a symbol, empty for a number that is none. -/
def name (doc : Document) (id : SymbolId) : String :=
  (doc.names.resolve id).getD ""

/-- The text payload with a symbol, empty for a number that is none. -/
def text (doc : Document) (id : SymbolId) : String :=
  doc.texts.get id

/-- The name of a namespace; there is none for namespace 0. -/
def namespaceUri? (doc : Document) (id : NamespaceId) : Option String :=
  if id = 0 then none else doc.namespaceUris.resolve id

/-- A short description of the document. -/
def describe (doc : Document) : String :=
  "Document \x7b nodes: " ++ toString doc.nodeCount ++ ", done: " ++ toString doc.isDone ++
    ", failed: " ++ toString doc.isFailed ++ " \x7d"

/-- The reserved names have the symbols that stand for them. -/
theorem lookup_reservedNames :
    reservedNames.lookup "xml" = some xmlId ∧ reservedNames.lookup "xmlns" = some xmlnsId := by
  decide

/-- A failure that is known stays the failure of the document. -/
theorem failure?_apply_fail {doc : Document} {cause : Failure} (h : doc.failure? = some cause)
    (later : Failure) : (doc.apply (.fail later)).failure? = some cause := by
  unfold failure? at h
  split at h
  · next heq => simp_all [apply, failure?]
  · simp at h

end Document

end XmlTable
