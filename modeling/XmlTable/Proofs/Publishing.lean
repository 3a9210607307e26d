import XmlTable.Proofs.Growth
import XmlTable.Proofs.Outcomes

/-!
# What a builder leaves alone

Some relations between two states of a builder hold across every single thing that a builder does,
or across all but the few that enter something under a name, tell a warning, change the namespaces
in scope or report a recoverable failure. Such a relation holds across whole events, also across
those that fail on the way. That what is published stays published is one such relation; that
identifiers and entities stay as they are is another.
-/

namespace XmlTable

open Node

namespace Journal

/-- The warnings that were told, in order. -/
def warnings (journal : Journal) : List String :=
  journal.reports.toList.filterMap fun
    | .warning message => some message
    | _ => none

@[simp] theorem warnings_warn (journal : Journal) (message : String) :
    (journal.warn message).warnings = journal.warnings ++ [message] := by
  simp [warnings, warn]

@[simp] theorem warnings_fatal (journal : Journal) (cause : Failure) :
    (journal.fatal cause).warnings = journal.warnings := by
  simp [warnings, fatal]

@[simp] theorem warnings_error (journal : Journal) (cause : Failure) :
    (journal.error cause).2.warnings = journal.warnings := by
  simp [warnings, error]

end Journal

/-- The change enters nothing under a name. -/
def Change.isPlain : Change → Bool
  | .identifier .. | .entity .. => false
  | _ => true

namespace Builder

open Reporting

/-- The relation holds across whatever publishes plain changes only, leaves the namespaces in scope
as they are and reports nothing but the end of the construction, and from step to step. -/
class SpansPlain (R : Builder × Journal → Builder × Journal → Prop) : Prop where
  /-- Nothing was done. -/
  refl : ∀ s, R s s
  /-- One thing was done after another. -/
  trans : ∀ {s s' s''}, R s s' → R s' s'' → R s s''
  /-- A plain change was published. -/
  plain : ∀ s change, change.isPlain = true → R s (s.1.record change, s.2)
  /-- The builder remembers something else. -/
  own : ∀ s b, b.document = s.1.document → b.history = s.1.history → b.scopes = s.1.scopes →
    R s (b, s.2)
  /-- The failure that ended the construction was told. -/
  fatal : ∀ s cause, R s (s.1, s.2.fatal cause)

/-- The relation holds across whatever leaves the namespaces in scope as they are and reports no
recoverable failure. -/
class Spans (R : Builder × Journal → Builder × Journal → Prop) : Prop extends SpansPlain R where
  /-- A change was published. -/
  publish : ∀ s change, R s (s.1.record change, s.2)
  /-- A warning was told. -/
  warn : ∀ s message, R s (s.1, s.2.warn message)
  plain := fun s change _ => publish s change

/-- The relation also holds across a change of the namespaces in scope. -/
class SpansScopes (R : Builder × Journal → Builder × Journal → Prop) : Prop extends
    SpansPlain R where
  /-- Other namespaces are in scope. -/
  scopes : ∀ s scopes, R s ({ s.1 with scopes }, s.2)

/-- The relation also holds across the report of a recoverable failure. -/
class SpansReports (R : Builder × Journal → Builder × Journal → Prop) : Prop extends
    SpansScopes R where
  /-- A recoverable failure was reported. -/
  report : ∀ s cause, R s (s.1, (s.2.error cause).2)

/-- The relation holds across whatever a builder does. -/
class SpansAll (R : Builder × Journal → Builder × Journal → Prop) : Prop extends
    SpansReports R, Spans R

/-- The relation holds across the work, also when it fails. -/
def Across {α : Type} (R : Builder × Journal → Builder × Journal → Prop)
    (work : Reporting Builder α) : Prop :=
  ∀ s, work.Meets s (fun _ s' => R s s') fun _ s' => R s s'

variable {R : Builder × Journal → Builder × Journal → Prop}

namespace Across

variable {α β : Type}

section

variable [SpansPlain R]

theorem pure (a : α) : Across R (Pure.pure a) := SpansPlain.refl

theorem throw (cause : Failure) :
    Across R (MonadExcept.throw cause : Reporting Builder α) := SpansPlain.refl

theorem observe (f : Builder → α) : Across R (observe f) := SpansPlain.refl

theorem plain {change : Change} (hc : change.isPlain = true) : Across R (publish change) := fun s =>
  SpansPlain.plain s change hc

theorem update {f : Builder → Builder} (hf : ∀ b, (f b).document = b.document ∧
    (f b).history = b.history ∧ (f b).scopes = b.scopes) : Across R (update f) := fun s =>
  SpansPlain.own s (f s.1) (hf _).1 (hf _).2.1 (hf _).2.2

theorem bind {work : Reporting Builder α} {next : α → Reporting Builder β} (hw : Across R work)
    (hn : ∀ a, Across R (next a)) : Across R (work >>= next) := fun s => by
  rw [meets_bind]
  exact (hw s).imp fun a s' first =>
    (hn a s').mono (fun _ _ later => SpansPlain.trans first later)
      fun _ _ later => SpansPlain.trans first later

theorem tryCatch {work : Reporting Builder α} {handle : Failure → Reporting Builder α}
    (hw : Across R work) (hh : ∀ cause, Across R (handle cause)) :
    Across R (MonadExcept.tryCatch work handle) := fun s => by
  rw [meets_tryCatch]
  exact (hw s).mono (fun _ _ first => first) fun cause s' first =>
    (hh cause s').mono (fun _ _ later => SpansPlain.trans first later)
      fun _ _ later => SpansPlain.trans first later

theorem fatal (cause : Failure) : Across R (Reporting.fatal cause) := fun s =>
  SpansPlain.fatal s cause

end

theorem publish [Spans R] (change : Change) : Across R (publish change) := fun s =>
  Spans.publish s change

theorem warn [Spans R] (message : String) : Across R (Reporting.warn message) := fun s =>
  Spans.warn s message

theorem updateScopes [SpansScopes R] {f : Builder → Builder}
    (hf : ∀ b, (f b).document = b.document ∧ (f b).history = b.history) :
    Across R (Builder.update f) := fun s =>
  SpansPlain.trans (SpansScopes.scopes s (f s.1).scopes)
    (SpansPlain.own ({ s.1 with scopes := (f s.1).scopes }, s.2) (f s.1) (hf _).1 (hf _).2 rfl)

theorem report [SpansReports R] (cause : Failure) : Across R (Reporting.report cause) := fun s => by
  rw [meets_report]
  split <;> exact SpansReports.report s cause

end Across

/-- What comes after such work may assume that the relation holds up to there, and has to keep it
only if it fails. -/
theorem Across.bind_meets {α β : Type} [SpansPlain R] {work : Reporting Builder α}
    {next : α → Reporting Builder β} (hw : Across R work) {s₀ s : Builder × Journal} (hs : R s₀ s)
    {onOk : β → Builder × Journal → Prop}
    (hn : ∀ a s', R s₀ s' → (next a).Meets s' onOk fun _ s'' => R s₀ s'') :
    (work >>= next).Meets s onOk fun _ s' => R s₀ s' := by
  rw [meets_bind]
  exact (hw s).mono (fun a s' first => hn a s' (SpansPlain.trans hs first))
    fun _ _ first => SpansPlain.trans hs first

/-! ### The declaration of an entity in parts -/

/-- Publish the records of an entity as those of a declared one: the last one leads to it. -/
def publishEntity (entity : NodeId) (name value : String) : Reporting Builder Unit := do
  match ← observe (·.lastEntity) with
  | some before => publish (.link before (.next entity))
  | none => pure ()
  update fun builder => { builder with lastEntity := some entity }
  publish (.entity name value entity)

/-- Append the records of an entity and publish it. -/
def appendEntity (name value : String) (nameId payload : SymbolId) : Reporting Builder Unit := do
  let entity ← observe (·.document.nodes.size)
  let _ ← append [.linked .entity 0 documentId nameId .pending, .valueNode entity payload]
  publishEntity entity name value

/-- Declare an entity where entities may be declared. -/
def declareEntity (name value : String) : Reporting Builder Unit := do
  if ← observe (·.document.entities.contains name) then
    Reporting.warn ("entity '" ++ name ++ "' already declared; keeping the first")
  else
    let nameId ← storeName name
    let payload ← storeText value
    appendEntity name value nameId payload

/-- The declaration of an entity is refused where it comes late. -/
theorem entityDeclaration_eq (name value : String) : entityDeclaration name value = (do
    flushText
    if ← observe fun b => b.entitiesClosed || b.cursor ≠ documentId then
      throw (.protocol "ElementOpen" (Event.entityDeclaration name value).label)
    declareEntity name value) :=
  rfl

section

variable [SpansPlain R]

theorem across_fail (cause : Failure) : Across R (fail cause) := by
  unfold fail
  refine .bind (.observe _) fun stage => ?_
  have publishes : Across R (do
      update fun builder => { builder with stage := .failed }
      Reporting.fatal cause
      publish (.fail cause)) :=
    .bind (.update fun _ => ⟨rfl, rfl, rfl⟩) fun _ => .bind (.fatal _) fun _ => .plain rfl
  cases stage
  case idle => exact publishes
  case documentOpen => exact publishes
  all_goals exact .pure _

theorem across_requireOpen (event : Event) : Across R (requireOpen event) := by
  refine .bind (.observe _) fun stage => ?_
  split
  · exact .throw _
  · exact .pure _

theorem across_storeName (name : String) : Across R (storeName name) :=
  .bind (.observe _) fun _ => .bind (.plain rfl) fun _ => .pure _

theorem across_storeText (text : String) : Across R (storeText text) :=
  .bind (.observe _) fun _ => .bind (.plain rfl) fun _ => .pure _

theorem across_storeNamespace (uri : String) : Across R (storeNamespace uri) := by
  unfold storeNamespace
  split
  · exact .pure _
  · refine .bind (.observe _) fun id => .bind (.plain rfl) fun _ => ?_
    dsimp only
    split
    · exact .bind (.throw _) fun _ => .pure _
    · exact .pure _

theorem across_append (records : List Record) : Across R (append records) := by
  refine .bind (.observe _) fun _ => .bind (.observe _) fun _ => ?_
  dsimp only
  split
  · exact .bind (.throw _) fun _ => .bind (.plain rfl) fun _ => .pure _
  · exact .bind (.plain rfl) fun _ => .pure _

theorem across_linkPrevious (node : Nat) (kind : Kind) : Across R (linkPrevious node kind) := by
  refine .bind (.observe _) fun previous => ?_
  dsimp only
  split
  · split
    · exact .bind (.plain rfl) fun _ => .update fun _ => ⟨rfl, rfl, rfl⟩
    · exact .update fun _ => ⟨rfl, rfl, rfl⟩
  · exact .update fun _ => ⟨rfl, rfl, rfl⟩

theorem across_closeSiblings : Across R closeSiblings := by
  refine .bind (.observe _) fun previous => ?_
  split
  · refine .bind (.observe _) fun _ => ?_
    split
    · exact .plain rfl
    · exact .pure _
  · exact .pure _

theorem across_closeEntities : Across R closeEntities := by
  refine .bind (.observe _) fun closed => ?_
  dsimp only
  split
  · exact .pure _
  · refine .bind (.observe _) fun last => ?_
    have closes : Across R (do
        update fun builder => { builder with entitiesClosed := true }
        publish .closeEntities) := .bind (.update fun _ => ⟨rfl, rfl, rfl⟩) fun _ => .plain rfl
    split
    · exact .bind (.plain rfl) fun _ => closes
    · exact closes

theorem across_appendChild (own : Record) : Across R (appendChild own) :=
  .bind (across_append _) fun _ => across_linkPrevious _ _

theorem across_flushText : Across R flushText := by
  refine .bind (.observe _) fun pending => ?_
  split
  · exact .pure _
  · refine .bind (.update fun _ => ⟨rfl, rfl, rfl⟩) fun _ => .bind (.observe _) fun _ => ?_
    split
    · exact .pure _
    · exact .bind (across_storeText _) fun _ => .bind (.observe _) fun _ => across_appendChild _

theorem across_declaredFrame (attributes : List Event.Attribute) (frame : Namespace.Frame) :
    Across R (declaredFrame attributes frame) := by
  induction attributes generalizing frame with
  | nil => exact .pure _
  | cons attr rest ih =>
    have after : ∀ id : SymbolId, Across R (if id = Document.xmlId ∨ id = Document.xmlnsId then
        declaredFrame rest frame else do
          let target ← storeNamespace attr.value
          declaredFrame rest (frame.declare id target)) := by
      intro id
      split
      · exact ih _
      · exact .bind (across_storeNamespace _) fun _ => ih _
    rw [declaredFrame]
    split
    · exact ih _
    · dsimp only
      split
      · exact .bind (.pure _) after
      · exact .bind (across_storeName _) after

theorem across_startDocument : Across R startDocument := by
  refine .bind (.observe _) fun stage => ?_
  dsimp only
  split
  · exact .bind (.throw _) fun _ => .bind (across_append _) fun _ =>
      .update fun _ => ⟨rfl, rfl, rfl⟩
  · exact .bind (across_append _) fun _ => .update fun _ => ⟨rfl, rfl, rfl⟩

theorem across_endDocument : Across R endDocument := by
  refine .bind across_flushText fun _ => .bind (.observe _) fun cursor => ?_
  have closes : Across R (do
      closeSiblings
      closeEntities
      update fun builder => { builder with stage := .documentClosed }
      publish .finish) :=
    .bind across_closeSiblings fun _ => .bind across_closeEntities fun _ =>
      .bind (.update fun _ => ⟨rfl, rfl, rfl⟩) fun _ => .plain rfl
  dsimp only
  split
  · exact .bind (.throw _) fun _ => closes
  · exact closes

theorem across_characters (text : String) (flags : TextFlags) :
    Across R (characters text flags) := by
  unfold characters
  split
  · exact .pure _
  · refine .bind (.observe _) fun cursor => ?_
    split
    · split
      · exact .throw _
      · exact .pure _
    · exact .update fun _ => ⟨rfl, rfl, rfl⟩

theorem across_comment (text : String) : Across R (comment text) :=
  .bind across_flushText fun _ => .bind (across_storeText _) fun _ => .bind (.observe _) fun _ =>
    across_appendChild _

theorem across_instruction (target data : String) : Across R (instruction target data) :=
  .bind across_flushText fun _ => .bind (across_storeText _) fun _ =>
    .bind (across_storeName _) fun _ => .bind (.observe _) fun _ => across_appendChild _

theorem across_entityReference (name : String) : Across R (entityReference name) :=
  .bind across_flushText fun _ => .bind (across_storeName _) fun _ => .bind (.observe _) fun _ =>
    across_appendChild _

theorem across_drop : Across R drop := by
  refine .bind (.observe _) fun stage => ?_
  cases stage
  case idle => exact across_fail _
  case documentOpen => exact across_fail _
  all_goals exact .pure _

end

theorem across_endElement [SpansScopes R] : Across R endElement := by
  refine .bind across_flushText fun _ => .bind (.observe _) fun closed => ?_
  dsimp only
  split
  · exact .bind (.throw _) fun _ => .bind across_closeSiblings fun _ =>
      .updateScopes fun _ => ⟨rfl, rfl⟩
  · exact .bind across_closeSiblings fun _ => .updateScopes fun _ => ⟨rfl, rfl⟩

section

variable [SpansReports R]

theorem across_resolveName (name : String) (unprefixed : NamespaceId) :
    Across R (resolveName name unprefixed) := by
  unfold resolveName
  dsimp only
  split
  · exact .pure _
  · refine .bind (.observe _) fun found => ?_
    split
    · exact .pure _
    · exact .bind (.report _) fun _ => .pure _

theorem across_attributeRecords (element : Nat) (attributes : List Event.Attribute) (node : Nat)
    (done : List Record) : Across R (attributeRecords element node attributes done) := by
  induction attributes generalizing node done with
  | nil => exact .pure _
  | cons attr rest ih =>
    rw [attributeRecords]
    dsimp only
    split
    · exact .bind (.pure _) fun _ => .bind (across_storeName _) fun _ =>
        .bind (across_storeText _) fun _ => ih _ _
    · exact .bind (across_resolveName _ _) fun _ => .bind (across_storeName _) fun _ =>
        .bind (across_storeText _) fun _ => ih _ _

end

section

variable [Spans R]

theorem across_identify (element : Nat) (attributes : List Event.Attribute) :
    Across R (identify element attributes) := by
  induction attributes with
  | nil => exact .pure _
  | cons attr rest ih =>
    rw [identify]
    dsimp only
    split
    · refine .bind (across_storeName _) fun _ => .bind (.observe _) fun _ => ?_
      split
      · exact .bind (.warn _) fun _ => ih
      · exact .bind (.publish _) fun _ => ih
    · exact ih

theorem across_publishEntity (entity : NodeId) (name value : String) :
    Across R (publishEntity entity name value) := by
  refine .bind (.observe _) fun last => ?_
  have ends : Across R (do
      update fun builder => { builder with lastEntity := some entity }
      publish (.entity name value entity)) :=
    .bind (.update fun _ => ⟨rfl, rfl, rfl⟩) fun _ => .publish _
  cases last with
  | some before => exact .bind (.publish _) fun _ => ends
  | none => exact ends

theorem across_declareEntity (name value : String) : Across R (declareEntity name value) := by
  refine .bind (.observe _) fun known => ?_
  split
  · exact .warn _
  · exact .bind (across_storeName _) fun _ => .bind (across_storeText _) fun _ =>
      .bind (.observe _) fun _ => .bind (across_append _) fun _ =>
      across_publishEntity _ name value

theorem across_entityDeclaration (name value : String) :
    Across R (entityDeclaration name value) := by
  rw [entityDeclaration_eq]
  refine .bind across_flushText fun _ => .bind (.observe _) fun late => ?_
  split
  · exact .bind (.throw _) fun _ => across_declareEntity name value
  · exact across_declareEntity name value

end

section

variable [SpansAll R]

theorem across_startElement (name : String) (attributes : List Event.Attribute) :
    Across R (startElement name attributes) :=
  .bind across_flushText fun _ => .bind across_closeEntities fun _ =>
    .bind (across_declaredFrame _ _) fun _ => .bind (.updateScopes fun _ => ⟨rfl, rfl⟩) fun _ =>
    .bind (.observe _) fun _ => .bind (.observe _) fun _ =>
    .bind (across_resolveName _ _) fun _ => .bind (across_storeName _) fun _ =>
    .bind (.observe _) fun _ => .bind (across_attributeRecords _ _ _ _) fun _ =>
    .bind (across_append _) fun _ => .bind (across_linkPrevious _ _) fun _ =>
    .bind (across_identify _ _) fun _ => .update fun _ => ⟨rfl, rfl, rfl⟩

theorem across_perform (event : Event) : Across R (perform event) := by
  cases event with
  | startDocument => exact across_startDocument
  | endDocument => exact .bind (across_requireOpen _) fun _ => across_endDocument
  | startElement name attributes =>
    exact .bind (across_requireOpen _) fun _ => across_startElement name attributes
  | endElement => exact .bind (across_requireOpen _) fun _ => across_endElement
  | characters text flags =>
    exact .bind (across_requireOpen _) fun _ => across_characters text flags
  | comment text => exact .bind (across_requireOpen _) fun _ => across_comment text
  | instruction target data =>
    exact .bind (across_requireOpen _) fun _ => across_instruction target data
  | entityDeclaration name value =>
    exact .bind (across_requireOpen _) fun _ => across_entityDeclaration name value
  | entityReference name => exact .bind (across_requireOpen _) fun _ => across_entityReference name
  | fatalError cause => exact across_fail cause

theorem across_accept (event : Event) : Across R (accept event) :=
  .tryCatch (across_perform event) fun cause =>
    .bind (across_fail cause) fun _ => .throw cause

end

/-- What was published is published still. -/
def Published (s s' : Builder × Journal) : Prop :=
  s.1.history.toList <+: s'.1.history.toList

instance : SpansAll Published where
  refl s := List.prefix_refl _
  trans := List.IsPrefix.trans
  publish s change := by
    show s.1.history.toList <+: (s.1.history.push change).toList
    rw [Array.toList_push]
    exact List.prefix_append ..
  own s b _ hh _ := ⟨[], by rw [List.append_nil, hh]⟩
  warn s _ := List.prefix_refl _
  fatal s _ := List.prefix_refl _
  scopes s _ := List.prefix_refl _
  report s _ := List.prefix_refl _

/-- What is entered under a name stays as it is, names keep their symbols, and no warning is
told. -/
structure Steady (s s' : Builder × Journal) : Prop where
  /-- Names keep their symbols. -/
  names : ∀ {id : SymbolId} {name : String}, s.1.document.names.resolve id = some name →
    s'.1.document.names.resolve id = some name
  /-- The elements by identifier. -/
  identifiers : s'.1.document.identifiers = s.1.document.identifiers
  /-- The entries of entities. -/
  entries : s'.1.document.entities.entries = s.1.document.entities.entries
  /-- The warnings. -/
  warnings : s'.2.warnings = s.2.warnings

instance : SpansReports Steady where
  refl _ := ⟨id, rfl, rfl, rfl⟩
  trans h h' := ⟨fun hn => h'.names (h.names hn), h'.identifiers.trans h.identifiers,
    h'.entries.trans h.entries, h'.warnings.trans h.warnings⟩
  plain s change hc := by
    cases change with
    | identifier => cases hc
    | entity => cases hc
    | name name => exact ⟨Symbol.Pool.resolve_insert_of_some _ name, rfl, rfl, rfl⟩
    | fail cause =>
      unfold record Document.apply
      dsimp only
      split <;> exact ⟨id, rfl, rfl, rfl⟩
    | _ => exact ⟨id, rfl, rfl, rfl⟩
  own s b hd _ _ := ⟨by rw [hd]; exact id, by rw [hd], by rw [hd], rfl⟩
  fatal _ _ := ⟨id, rfl, rfl, Journal.warnings_fatal ..⟩
  scopes _ _ := ⟨id, rfl, rfl, rfl⟩
  report _ _ := ⟨id, rfl, rfl, Journal.warnings_error ..⟩

theorem Steady.contains {s s' : Builder × Journal} (h : Steady s s') (name : String) :
    s'.1.document.entities.contains name = s.1.document.entities.contains name := by
  rw [Entity.Table.contains, Entity.Table.get?, h.entries]
  rfl

end Builder

end XmlTable
