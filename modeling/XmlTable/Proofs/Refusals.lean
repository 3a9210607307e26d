import XmlTable.Proofs.Contracts
import XmlTable.Proofs.Runs

/-!
# Why a builder refuses an event

The work of a builder fails because something is full, or because a prefix is not declared and the
error handler does not recover from that; and it may find an event out of place. Only the failure of
the construction itself is reported as fatal. Here the work is looked at piece by piece; what is out
of place is left to those who know what came before.
-/

namespace XmlTable

open Node

namespace Reporting

variable {σ α β : Type}

/-- From a state the work reports nothing fatal beyond a journal, and if it fails, then for one of
some reasons. -/
def FailsFor (reasons : Failure → Prop) (journal : Journal) (work : Reporting σ α)
    (s : σ × Journal) : Prop :=
  work.Meets s (fun _ s' => journal.Continues s'.2)
    fun cause s' => journal.Continues s'.2 ∧ reasons cause

/-- The work reports nothing fatal and fails for some reasons only. -/
def FailsOnly (reasons : Failure → Prop) (work : Reporting σ α) : Prop :=
  ∀ (s : σ × Journal) (journal : Journal), journal.Continues s.2 →
    FailsFor reasons journal work s

variable {reasons : Failure → Prop} {journal : Journal} {s : σ × Journal}

/-- After work of its own, work goes on from where that leads. -/
theorem FailsOnly.andThen {work : Reporting σ α} {next : α → Reporting σ β}
    (h : FailsOnly reasons work) (hs : journal.Continues s.2) {P : α → σ × Journal → Prop}
    (leads : work.Meets s P fun _ _ => True)
    (hn : ∀ a s', P a s' → journal.Continues s'.2 → FailsFor reasons journal (next a) s') :
    FailsFor reasons journal (work >>= next) s := by
  unfold FailsFor
  rw [meets_bind]
  exact (leads.and (h s journal hs)).mono (fun a s' hp => hn a s' hp.1 hp.2) fun _ _ hf => hf.2

namespace FailsOnly

theorem pure (a : α) : FailsOnly reasons (Pure.pure a : Reporting σ α) := fun _ _ h => h

theorem throw {cause : Failure} (h : reasons cause) :
    FailsOnly reasons (MonadExcept.throw cause : Reporting σ α) := fun _ _ hs => ⟨hs, h⟩

theorem bind {work : Reporting σ α} {next : α → Reporting σ β} (h : FailsOnly reasons work)
    (hn : ∀ a, FailsOnly reasons (next a)) : FailsOnly reasons (work >>= next) :=
  fun s journal hs => h.andThen (P := fun _ _ => True) hs
    (Meets.mono (h s journal hs) (fun _ _ _ => trivial) fun _ _ _ => trivial)
    fun a s' _ told => hn a s' journal told

theorem warn (message : String) :
    FailsOnly reasons (Reporting.warn message : Reporting σ Unit) := fun s _ hs =>
  hs.trans (s.2.continues_warn message)

theorem report {cause : Failure} (h : reasons cause) :
    FailsOnly reasons (Reporting.report cause : Reporting σ Unit) := fun s _ hs => by
  have told := hs.trans (s.2.continues_error cause)
  unfold FailsFor
  rw [meets_report]
  split
  · exact told
  · exact ⟨told, h⟩

theorem observe (f : Builder → α) : FailsOnly reasons (Builder.observe f) := fun _ _ h => h

theorem update (f : Builder → Builder) : FailsOnly reasons (Builder.update f) := fun _ _ h => h

theorem publish (change : Change) : FailsOnly reasons (Builder.publish change) := fun _ _ h => h

end FailsOnly

end Reporting

namespace Builder

open Reporting

variable {reasons : Failure → Prop} {journal : Journal} {s : Builder × Journal}

/-! ### Names and texts -/

theorem failsOnly_storeName (name : String) : FailsOnly reasons (storeName name) :=
  .bind (.observe _) fun _ => .bind (.publish _) fun _ => .pure _

theorem failsOnly_storeText (text : String) : FailsOnly reasons (storeText text) :=
  .bind (.observe _) fun _ => .bind (.publish _) fun _ => .pure _

theorem failsOnly_linkPrevious (node : NodeId) (kind : Kind) :
    FailsOnly reasons (linkPrevious node kind) := by
  refine .bind (.observe _) fun previous => ?_
  dsimp only
  split
  · split
    · exact .bind (.publish _) fun _ => .update _
    · exact .update _
  · exact .update _

theorem failsOnly_closeSiblings : FailsOnly reasons closeSiblings := by
  refine .bind (.observe _) fun previous => ?_
  split
  · refine .bind (.observe _) fun _ => ?_
    split
    · exact .publish _
    · exact .pure _
  · exact .pure _

theorem failsOnly_closeEntities : FailsOnly reasons closeEntities := by
  refine .bind (.observe _) fun closed => ?_
  dsimp only
  split
  · exact .pure _
  · refine .bind (.observe _) fun last => ?_
    have closes : FailsOnly reasons (do
        update fun builder => { builder with entitiesClosed := true }
        publish .closeEntities) := .bind (.update _) fun _ => .publish _
    split
    · exact .bind (.publish _) fun _ => closes
    · exact closes

theorem failsOnly_identify (element : NodeId) (attributes : List Event.Attribute) :
    FailsOnly reasons (identify element attributes) := by
  induction attributes with
  | nil => exact .pure _
  | cons attr rest ih =>
    rw [identify]
    dsimp only
    split
    · refine .bind (failsOnly_storeName _) fun _ => .bind (.observe _) fun _ => ?_
      split
      · exact .bind (.warn _) fun _ => ih
      · exact .bind (.publish _) fun _ => ih
    · exact ih

/-! ### What may be full -/

section

variable (full : ∀ what, reasons (.capacity what))
include full

theorem failsOnly_storeNamespace (uri : String) : FailsOnly reasons (storeNamespace uri) := by
  unfold storeNamespace
  split
  · exact .pure _
  · refine .bind (.observe _) fun id => .bind (.publish _) fun _ => ?_
    dsimp only
    split
    · exact .bind (.throw (full _)) fun _ => .pure _
    · exact .pure _

theorem failsOnly_append (records : List Record) : FailsOnly reasons (append records) := by
  refine .bind (.observe _) fun _ => .bind (.observe _) fun _ => ?_
  dsimp only
  split
  · exact .bind (.throw (full _)) fun _ => .bind (.publish _) fun _ => .pure _
  · exact .bind (.publish _) fun _ => .pure _

theorem failsOnly_appendChild (own : Record) : FailsOnly reasons (appendChild own) :=
  .bind (failsOnly_append full _) fun _ => failsOnly_linkPrevious _ _

theorem failsOnly_flushText : FailsOnly reasons flushText := by
  refine .bind (.observe _) fun pending => ?_
  split
  · exact .pure _
  · refine .bind (.update _) fun _ => .bind (.observe _) fun _ => ?_
    split
    · exact .pure _
    · exact .bind (failsOnly_storeText _) fun _ => .bind (.observe _) fun _ =>
        failsOnly_appendChild full _

theorem failsOnly_declaredFrame (attributes : List Event.Attribute) (frame : Namespace.Frame) :
    FailsOnly reasons (declaredFrame attributes frame) := by
  induction attributes generalizing frame with
  | nil => exact .pure _
  | cons attr rest ih =>
    have after : ∀ id : SymbolId,
        FailsOnly reasons (if id = Document.xmlId ∨ id = Document.xmlnsId then
          declaredFrame rest frame else do
            let target ← storeNamespace attr.value
            declaredFrame rest (frame.declare id target)) := by
      intro id
      split
      · exact ih _
      · exact .bind (failsOnly_storeNamespace full _) fun _ => ih _
    rw [declaredFrame]
    split
    · exact ih _
    · dsimp only
      split
      · exact .bind (.pure _) after
      · exact .bind (failsOnly_storeName _) after

theorem failsOnly_comment (text : String) : FailsOnly reasons (comment text) :=
  .bind (failsOnly_flushText full) fun _ => .bind (failsOnly_storeText _) fun _ =>
    .bind (.observe _) fun _ => failsOnly_appendChild full _

theorem failsOnly_instruction (target data : String) :
    FailsOnly reasons (instruction target data) :=
  .bind (failsOnly_flushText full) fun _ => .bind (failsOnly_storeText _) fun _ =>
    .bind (failsOnly_storeName _) fun _ => .bind (.observe _) fun _ => failsOnly_appendChild full _

theorem failsOnly_entityReference (name : String) : FailsOnly reasons (entityReference name) :=
  .bind (failsOnly_flushText full) fun _ => .bind (failsOnly_storeName _) fun _ =>
    .bind (.observe _) fun _ => failsOnly_appendChild full _

/-! ### What may be out of place -/

/-- The document begins once. -/
theorem startDocument_failsFor (hs : s.1.stage = .idle) (told : journal.Continues s.2) :
    FailsFor reasons journal startDocument s := by
  have begins : FailsOnly reasons (do
      let _ ← append [.document]
      update fun builder => { builder with stage := .documentOpen, cursor := documentId }) :=
    .bind (failsOnly_append full _) fun _ => .update _
  unfold startDocument FailsFor
  rw [meets_observe_bind, if_neg (not_not.2 hs)]
  exact begins s journal told

variable {config : Config}

/-- There is an element to end. -/
theorem endElement_failsFor (h : s.1.Open config) (inside : s.1.cursor ≠ documentId)
    (told : journal.Continues s.2) : FailsFor reasons journal endElement s := by
  refine (failsOnly_flushText full).andThen told
    ((flushText_meets h False.elim).mono (fun _ _ hp => hp) fun _ _ _ => trivial) ?_
  rintro _ s₁ ⟨texts, flushes⟩ told
  have closes : FailsOnly reasons (do
      closeSiblings
      update fun builder =>
        { builder with
          cursor := ((builder.document.nodes.get? s₁.1.cursor).bind (·.parent)).getD documentId
          scopes := builder.scopes.pop
          previous := some (s₁.1.cursor, .element) }) :=
    .bind failsOnly_closeSiblings fun _ => .update _
  unfold FailsFor
  rw [meets_observe_bind, if_neg (by rwa [flushes.cursor])]
  exact closes s₁ journal told

/-- No element is open at the end of the document. -/
theorem endDocument_failsFor (h : s.1.Open config) (outside : s.1.cursor = documentId)
    (told : journal.Continues s.2) : FailsFor reasons journal endDocument s := by
  refine (failsOnly_flushText full).andThen told
    ((flushText_meets h False.elim).mono (fun _ _ hp => hp) fun _ _ _ => trivial) ?_
  rintro _ s₁ ⟨texts, flushes⟩ told
  have closes : FailsOnly reasons (do
      closeSiblings
      closeEntities
      update fun builder => { builder with stage := .documentClosed }
      publish .finish) :=
    .bind failsOnly_closeSiblings fun _ => .bind failsOnly_closeEntities fun _ =>
      .bind (.update _) fun _ => .publish _
  unfold FailsFor
  rw [meets_observe_bind, if_neg (not_not.2 (flushes.cursor.trans outside))]
  exact closes s₁ journal told

omit full in
theorem failsOnly_publishEntity (entity : NodeId) (name value : String) :
    FailsOnly reasons (publishEntity entity name value) := by
  refine .bind (.observe _) fun last => ?_
  have ends : FailsOnly reasons (do
      update fun builder => { builder with lastEntity := some entity }
      publish (.entity name value entity)) :=
    .bind (.update _) fun _ => .publish _
  cases last with
  | some before => exact .bind (.publish _) fun _ => ends
  | none => exact ends

theorem failsOnly_declareEntity (name value : String) :
    FailsOnly reasons (declareEntity name value) := by
  refine .bind (.observe _) fun known => ?_
  split
  · exact .warn _
  · exact .bind (failsOnly_storeName _) fun _ => .bind (failsOnly_storeText _) fun _ =>
      .bind (.observe _) fun _ => .bind (failsOnly_append full _) fun _ =>
      failsOnly_publishEntity _ name value

/-- Entities may be declared still. -/
theorem entityDeclaration_failsFor (h : s.1.Open config) (outside : s.1.cursor = documentId)
    (early : s.1.entitiesClosed = false) (name value : String) (told : journal.Continues s.2) :
    FailsFor reasons journal (entityDeclaration name value) s := by
  rw [entityDeclaration_eq]
  refine (failsOnly_flushText full).andThen told
    ((flushText_meets h False.elim).mono (fun _ _ hp => hp) fun _ _ _ => trivial) ?_
  rintro _ s₁ ⟨texts, flushes⟩ told
  have inTime : ¬ (s₁.1.entitiesClosed || decide (s₁.1.cursor ≠ documentId)) = true := by
    rw [flushes.entitiesClosed, early, flushes.cursor, outside]
    exact Bool.false_ne_true
  unfold FailsFor
  rw [meets_observe_bind, if_neg inTime]
  exact failsOnly_declareEntity full name value s₁ journal told

omit full in
/-- Characters may be held back in an element. -/
theorem characters_failsFor (inside : s.1.cursor ≠ documentId) (text : String) (flags : TextFlags)
    (told : journal.Continues s.2) : FailsFor reasons journal (characters text flags) s := by
  unfold characters FailsFor
  split
  · exact told
  · rw [meets_observe_bind, if_neg inside]
    exact told

/-! ### Prefixes -/

variable (undeclared : ∀ lead,
  reasons (.construction ("undeclared namespace prefix '" ++ lead ++ "'")))
include undeclared

omit full in
theorem failsOnly_resolveName (name : String) (unprefixed : NamespaceId) :
    FailsOnly reasons (resolveName name unprefixed) := by
  unfold resolveName
  dsimp only
  split
  · exact .pure _
  · refine .bind (.observe _) fun found => ?_
    split
    · exact .pure _
    · exact .bind (.report (undeclared _)) fun _ => .pure _

omit full in
theorem failsOnly_attributeRecords (element : NodeId) (attributes : List Event.Attribute)
    (node : NodeId) (done : List Record) :
    FailsOnly reasons (attributeRecords element node attributes done) := by
  induction attributes generalizing node done with
  | nil => exact .pure _
  | cons attr rest ih =>
    rw [attributeRecords]
    dsimp only
    split
    · exact .bind (.pure _) fun _ => .bind (failsOnly_storeName _) fun _ =>
        .bind (failsOnly_storeText _) fun _ => ih _ _
    · exact .bind (failsOnly_resolveName undeclared _ _) fun _ =>
        .bind (failsOnly_storeName _) fun _ => .bind (failsOnly_storeText _) fun _ => ih _ _

theorem failsOnly_startElement (name : String) (attributes : List Event.Attribute) :
    FailsOnly reasons (startElement name attributes) :=
  .bind (failsOnly_flushText full) fun _ => .bind failsOnly_closeEntities fun _ =>
    .bind (failsOnly_declaredFrame full _ _) fun _ => .bind (.update _) fun _ =>
    .bind (.observe _) fun _ => .bind (.observe _) fun _ =>
    .bind (failsOnly_resolveName undeclared _ _) fun _ => .bind (failsOnly_storeName _) fun _ =>
    .bind (.observe _) fun _ => .bind (failsOnly_attributeRecords undeclared _ _ _ _) fun _ =>
    .bind (failsOnly_append full _) fun _ => .bind (failsOnly_linkPrevious _ _) fun _ =>
    .bind (failsOnly_identify _ _) fun _ => .update _

end

end Builder

end XmlTable
