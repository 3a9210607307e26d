import XmlTable.Builder
import XmlTable.Reader

/-!
# Building a document from a source

A construction runs a source of events against a fresh builder and sees to it that the document
ends up complete or failed. In the synchronous mode a failed construction hands out its failure
instead of a document; in the streaming mode the document is handed out in any case, its readers
meet the failure themselves, and whoever joins the construction learns how it ended.
-/

namespace XmlTable

/-- A source of events for a builder. -/
abbrev EventSource := ExceptT Stop (StateM (Builder × Journal)) Unit

/-- The source that delivers some events, up to the first that is refused, and then ends as it is
told. -/
def EventSource.ofEvents (events : List Event) (ending : Option Failure) : EventSource := do
  match ← (((Builder.acceptAll events).run :) :
      StateM (Builder × Journal) (Except Failure Unit)) with
  | .ok () =>
    match ending with
    | some cause => throw (.failure cause)
    | none => pure ()
  | .error cause => throw (.failure cause)

/-- The source that reads a document. -/
def EventSource.ofSource (patience expansionLimit : Nat) (source : Source) : EventSource :=
  fun (builder, journal) =>
    let result := Reader.run Builder.sink patience expansionLimit source builder journal
    (result.outcome, result.state, result.journal)

/-- What came of a construction. -/
structure Construction where
  /-- How it ended. -/
  outcome : Except Stop Unit
  /-- The builder at the end. -/
  builder : Builder
  /-- What was reported. -/
  journal : Journal

namespace Construction

/-- End a construction: a failure of the source is the failure of the document, and a source that
stops before the end of the document has failed. -/
def settle (outcome : Except Stop Unit) : EventSource := do
  match outcome with
  | .error (.failure cause) =>
    let _ ← ((Builder.fail cause).run : StateM (Builder × Journal) (Except Failure Unit))
    throw (.failure cause)
  | .error .unfinished => throw .unfinished
  | .ok () =>
    let stage := (← get).1.stage
    if stage ≠ .documentClosed then
      let cause := Failure.construction ("event source stopped in builder state " ++ stage.label)
      let _ ← ((Builder.fail cause).run : StateM (Builder × Journal) (Except Failure Unit))
      throw (.failure cause)

/-- Run a source of events against a fresh builder. -/
def run (config : Config) (handler : Handler) (source : EventSource) : Construction :=
  let (outcome, state) := source.run.run (.start config, { handler })
  let (outcome, builder, journal) := (settle outcome).run.run state
  ⟨outcome, builder, journal⟩

/-- Build the document that a source describes. -/
def ofSource (config : Config) (handler : Handler) (patience : Nat) (source : Source) :
    Construction :=
  run config handler (.ofSource patience config.expansionLimit source)

/-- What a construction hands out. -/
inductive Product where
  /-- The failure of the construction. -/
  | refused (cause : Failure)
  /-- The document, and how its construction ended. -/
  | document (document : Document) (joined : Except Failure Unit)
  /-- Nothing yet: the construction does not come to an end. -/
  | unfinished

/-- What a construction hands out in a mode. -/
def product (construction : Construction) (mode : BuildMode) : Product :=
  match construction.outcome with
  | .ok () => .document construction.builder.document (.ok ())
  | .error .unfinished => .unfinished
  | .error (.failure cause) =>
    match mode with
    | .synchronous => .refused cause
    | .streaming => .document construction.builder.document (.error cause)

end Construction

end XmlTable
