import XmlTable.Proofs.Runs
import XmlTable.Proofs.Tandem

/-!
# Builders that take the same events

Whatever event twins take, they stay twins and answer alike. No event depends on more of a document
than what looks the same in both: the symbols of text payloads go into records and are not looked
at again.
-/

namespace XmlTable

open Node

namespace Builder.Pairing

open Reporting

variable {P : Pairing} {held : SymbolId → SymbolId → Prop}

/-- Twins that do the same work stay twins and get the same answer. -/
abbrev Steady {α : Type} (P : Pairing) (held : SymbolId → SymbolId → Prop)
    (work : Reporting Builder α) : Prop :=
  P.Tandem held work work fun _ => Eq

/-! ### Failure -/

theorem tandem_fail (cause : Failure) :
    P.Steady held (fail cause) := by
  unfold fail
  refine Tandem.bind_eq (.observe_own fun _ _ _ => rfl) fun held' stage _ => ?_
  have publishes : P.Steady held' (do
      update fun builder => { builder with stage := .failed }
      Reporting.fatal cause
      publish (.fail cause)) :=
    .bind_eq (.update (fun _ _ _ _ => rfl) fun _ => ⟨rfl, rfl⟩) fun _ _ _ =>
      .bind_eq (.fatal _) fun _ _ _ => .publish (.same nofun)
  cases stage
  case idle => exact publishes
  case documentOpen => exact publishes
  all_goals exact .pure rfl

theorem tandem_requireOpen (event : Event) :
    P.Steady held (requireOpen event) := by
  refine Tandem.bind_eq (.observe_own fun _ _ _ => rfl) fun held' stage _ => ?_
  split
  · exact .throw _
  · exact .pure rfl

/-! ### Symbols -/

theorem tandem_storeName (name : String) :
    P.Steady held (storeName name) := by
  refine Tandem.bind_eq (.observe fun s s' hs => ?_) fun _ _ _ =>
    .bind_eq (.publish (.same nofun)) fun _ _ _ => .pure rfl
  rw [hs.lockstep.tallies.names]

/-- The symbols that twins get for a text payload stand for the same text from then on. -/
theorem tandem_storeText (text : String) :
    P.Tandem held (storeText text) (storeText text) fun held' => held' := by
  intro s s' hs
  have published := hs.publish (c := .text text) (.same nofun)
  let p := s.1.document.texts.symbolFor text
  let p' := s'.1.document.texts.symbolFor text
  refine .ok ⟨fun q q' => held q q' ∨ q = p ∧ q' = p', fun _ _ => .inl, ?_, .inr ⟨rfl, rfl⟩⟩
  refine { published with held := ?_ }
  rintro q q' (same | ⟨rfl, rfl⟩)
  · exact published.held q q' same
  · exact ⟨text, s.1.document.texts.resolve_insert_symbolFor text,
      s'.1.document.texts.resolve_insert_symbolFor text⟩

theorem tandem_storeNamespace (uri : String) :
    P.Steady held (storeNamespace uri) := by
  unfold storeNamespace
  split
  · exact .pure rfl
  · refine Tandem.bind_eq (.observe fun s s' hs => ?_) fun _ id _ =>
      .bind_eq (.publish (.same nofun)) fun _ _ _ => ?_
    · rw [hs.lockstep.tallies.namespaceUris]
    · dsimp only
      split
      · exact .bind_eq (.throw _) fun _ _ _ => .pure rfl
      · exact .pure rfl

theorem tandem_resolveName (name : String) (unprefixed : NamespaceId) :
    P.Steady held (resolveName name unprefixed) := by
  unfold resolveName
  dsimp only
  split
  · exact .pure rfl
  · refine Tandem.bind_eq (.observe fun s s' hs => ?_) fun _ found _ => ?_
    · rw [hs.own, hs.lockstep.tallies.names]
    · split
      · exact .pure rfl
      · exact .bind_eq (.report _) fun _ _ _ => .pure rfl

/-! ### Records and links -/

/-- Records that look the same are appended alike, unless only one of the tables has room. -/
theorem tandem_append {records records' : List Record}
    (hrs : List.Forall₂ (Record.Resembles held) records records') :
    P.Tandem held (append records) (append records') fun _ => Eq := by
  intro s s' hs
  have run : ∀ (rs : List Record) (t : Builder × Journal), (append rs).run.run t =
      if t.1.document.nodes.hasRoom rs.length then
        (.ok t.1.document.nodes.size, t.1.record (.append rs), t.2)
      else (.error tableFull, t) := by
    intro rs t
    show (if !t.1.document.nodes.hasRoom rs.length then _ else _ :
      Reporting Builder NodeId).run.run t = _
    cases t.1.document.nodes.hasRoom rs.length <;> rfl
  have same : P.loose ∨ s'.1.document.nodes.hasRoom records'.length =
      s.1.document.nodes.hasRoom records.length :=
    hs.capacity.imp_right fun capacity => by
      rw [Table.hasRoom, Table.hasRoom, capacity, hs.lockstep.tallies.size, hrs.length_eq]
  rw [run, run, hs.lockstep.tallies.size]
  rcases Bool.eq_false_or_eq_true (s.1.document.nodes.hasRoom records.length) with hr | hr <;>
    rcases Bool.eq_false_or_eq_true (s'.1.document.nodes.hasRoom records'.length) with hr' | hr'
  · rw [hr, hr', if_pos rfl, if_pos rfl]
    exact .ok ⟨held, fun _ _ same => same, hs.publish (.append hrs), rfl⟩
  · rw [hr, hr'] at same
    rw [hr', if_neg Bool.false_ne_true]
    exact .right ⟨same.resolve_right Bool.false_ne_true, rfl⟩
  · rw [hr, hr'] at same
    rw [hr, if_neg Bool.false_ne_true]
    exact .left ⟨same.resolve_right Bool.false_ne_true.symm, rfl⟩
  · rw [hr, hr', if_neg Bool.false_ne_true, if_neg Bool.false_ne_true]
    exact .fail hs

theorem tandem_linkPrevious (node : NodeId) (kind : Kind) :
    P.Steady held (linkPrevious node kind) := by
  have remembers : ∀ held', P.Steady held'
      (update fun builder => { builder with previous := some (node, kind) }) :=
    fun _ => .update (fun _ _ _ _ => rfl) fun _ => ⟨rfl, rfl⟩
  refine Tandem.bind_eq (.observe_own fun _ _ _ => rfl) fun _ previous _ => ?_
  dsimp only
  split
  · split
    · exact .bind_eq (.publish (.same nofun)) fun _ _ _ => remembers _
    · exact remembers _
  · exact remembers _

theorem tandem_closeSiblings : P.Steady held closeSiblings := by
  refine Tandem.bind_eq (.observe_own fun _ _ _ => rfl) fun _ previous _ => ?_
  split
  · refine Tandem.bind_eq (.observe fun s s' hs => ?_) fun _ isPending _ => ?_
    · rw [hs.lockstep.tallies.link?_eq]
    · split
      · exact .publish (.same nofun)
      · exact .pure rfl
  · exact .pure rfl

theorem tandem_closeEntities : P.Steady held closeEntities := by
  refine Tandem.bind_eq (.observe_own fun _ _ _ => rfl) fun _ closed _ => ?_
  dsimp only
  split
  · exact .pure rfl
  · refine Tandem.bind_eq (.observe_own fun _ _ _ => rfl) fun _ last _ => ?_
    have closes : ∀ held', P.Steady held' (do
          update fun builder => { builder with entitiesClosed := true }
          publish .closeEntities) := fun _ =>
      .bind_eq (.update (fun _ _ _ _ => rfl) fun _ => ⟨rfl, rfl⟩) fun _ _ _ =>
        .publish (.same nofun)
    split
    · exact .bind_eq (.publish (.same nofun)) fun _ _ _ => closes _
    · exact closes _

theorem tandem_appendChild {own own' : Record} (same : own.Resembles held own') :
    P.Tandem held (appendChild own) (appendChild own') fun _ => Eq := by
  unfold appendChild
  rw [same.kind]
  exact .bind_eq (tandem_append (.cons same .nil)) fun _ _ _ => tandem_linkPrevious _ _

/-- A payload is stored and then appended with a leaf. -/
theorem tandem_appendLeaf {p p' : SymbolId} (same : held p p') (kind : Kind) (flags : TextFlags)
    (name : SymbolId) :
    P.Tandem held
      (do let parent ← observe (·.cursor); appendChild (.leaf kind flags parent p name))
      (do let parent ← observe (·.cursor); appendChild (.leaf kind flags parent p' name))
      fun _ => Eq :=
  .bind_eq (.observe_own fun _ _ _ => rfl) fun _ _ le =>
    tandem_appendChild (.leaf (le _ _ same) kind flags _ name)

theorem tandem_flushText : P.Steady held flushText := by
  refine Tandem.bind_eq (.observe_own fun _ _ _ => rfl) fun _ pending _ => ?_
  split
  · exact .pure rfl
  · refine Tandem.bind_eq (.update (fun _ _ _ _ => rfl) fun _ => ⟨rfl, rfl⟩) fun _ _ _ => ?_
    refine Tandem.bind_eq (.observe fun s s' hs => ?_) fun _ strips _ => ?_
    · exact hs.lockstep.tallies.stripIgnorable.symm
    · split
      · exact .pure rfl
      · exact .bind (tandem_storeText _) fun _ _ _ _ same => tandem_appendLeaf same _ _ _

/-! ### The start of an element -/

theorem tandem_declaredFrame (attributes : List Event.Attribute) (frame : Namespace.Frame) :
    P.Steady held (declaredFrame attributes frame) := by
  induction attributes generalizing held frame with
  | nil => exact .pure rfl
  | cons attr rest ih =>
    have after : ∀ held' (id : SymbolId), P.Steady held'
        (if id = Document.xmlId ∨ id = Document.xmlnsId then declaredFrame rest frame else do
          let target ← storeNamespace attr.value
          declaredFrame rest (frame.declare id target)) := by
      intro held' id
      split
      · exact ih _
      · exact .bind_eq (tandem_storeNamespace _) fun _ _ _ => ih _
    rw [declaredFrame]
    split
    · exact ih _
    · dsimp only
      split
      · exact .bind_eq (.pure rfl) fun _ _ _ => after _ _
      · exact .bind_eq (tandem_storeName _) fun _ _ _ => after _ _

/-- The records of attributes look the same if those before them do. -/
theorem tandem_attributeRecords (element : NodeId) (attributes : List Event.Attribute)
    (node : NodeId) {done done' : List Record}
    (same : List.Forall₂ (Record.Resembles held) done done') :
    P.Tandem held (attributeRecords element node attributes done)
      (attributeRecords element node attributes done')
      fun held' => List.Forall₂ (Record.Resembles held') := by
  induction attributes generalizing held node done done' with
  | nil => exact .pure (List.forall₂_reverse_iff.2 same)
  | cons attr rest ih =>
    let after (namespaceId : NamespaceId) (done : List Record) : Reporting Builder _ := do
      let name ← storeName attr.name
      let payload ← storeText attr.value
      attributeRecords element (node + 2) rest
        (.valueNode node payload :: .linked .attr namespaceId element name
          (if rest.isEmpty then Link.last else Link.next (node + 2)) :: done)
    have records : ∀ held' namespaceId, (∀ p p', held p p' → held' p p') →
        P.Tandem held' (after namespaceId done) (after namespaceId done')
          fun held' => List.Forall₂ (Record.Resembles held') := by
      intro held' namespaceId le
      refine Tandem.bind_eq (tandem_storeName _) fun held₁ name le₁ => ?_
      refine Tandem.bind (tandem_storeText _) fun held₂ p p' le₂ payload => ?_
      refine ih _ (.cons (.leaf payload _ _ _ _) (.cons (.rfl_of (.inl rfl)) ?_))
      exact same.imp fun _ _ same => same.mono fun p p' h => le₂ p p' (le₁ p p' (le p p' h))
    rw [attributeRecords, attributeRecords]
    dsimp only
    split
    · exact .bind_eq (.pure rfl) fun _ _ le => records _ _ le
    · exact .bind_eq (tandem_resolveName _ _) fun _ _ le => records _ _ le

theorem tandem_identify (element : NodeId) (attributes : List Event.Attribute) :
    P.Steady held (identify element attributes) := by
  induction attributes generalizing held with
  | nil => exact .pure rfl
  | cons attr rest ih =>
    rw [identify]
    dsimp only
    split
    · refine Tandem.bind_eq (tandem_storeName _) fun _ value _ => ?_
      refine Tandem.bind_eq (.observe fun s s' hs => ?_) fun _ isTaken _ => ?_
      · rw [hs.lockstep.tallies.identifiers]
      · split
        · exact .bind_eq (.warn _) fun _ _ _ => ih
        · exact .bind_eq (.publish (.same (by simp))) fun _ _ _ => ih
    · exact ih

theorem tandem_startElement (name : String) (attributes : List Event.Attribute) :
    P.Steady held (startElement name attributes) := by
  refine Tandem.bind_eq tandem_flushText fun _ _ _ => ?_
  refine Tandem.bind_eq tandem_closeEntities fun _ _ _ => ?_
  refine Tandem.bind_eq (tandem_declaredFrame _ _) fun _ frame _ => ?_
  refine Tandem.bind_eq (.update (fun _ _ _ _ => rfl) fun _ => ⟨rfl, rfl⟩) fun _ _ _ => ?_
  refine Tandem.bind_eq (.observe fun s s' hs => hs.lockstep.tallies.size.symm)
    fun _ element _ => ?_
  refine Tandem.bind_eq (.observe_own fun _ _ _ => rfl) fun _ unprefixed _ => ?_
  refine Tandem.bind_eq (tandem_resolveName _ _) fun _ namespaceId _ => ?_
  refine Tandem.bind_eq (tandem_storeName _) fun _ nameId _ => ?_
  refine Tandem.bind_eq (.observe_own fun _ _ _ => rfl) fun _ parent _ => ?_
  refine Tandem.bind (tandem_attributeRecords _ _ _ (.cons (.rfl_of (.inl rfl)) .nil))
    fun _ records records' _ same => ?_
  refine Tandem.bind_eq (tandem_append same) fun _ _ _ => ?_
  refine Tandem.bind_eq (tandem_linkPrevious _ _) fun _ _ _ => ?_
  refine Tandem.bind_eq (tandem_identify _ _) fun _ _ _ => ?_
  exact .update (fun _ _ _ _ => rfl) fun _ => ⟨rfl, rfl⟩

/-! ### The other events -/

theorem tandem_startDocument : P.Steady held startDocument := by
  have starts : ∀ held', P.Steady held' (do
        let _ ← append [.document]
        update fun builder => { builder with stage := .documentOpen, cursor := documentId }) :=
    fun _ => .bind_eq (tandem_append (.cons (.rfl_of (.inr rfl)) .nil)) fun _ _ _ =>
      .update (fun _ _ _ _ => rfl) fun _ => ⟨rfl, rfl⟩
  refine Tandem.bind_eq (.observe_own fun _ _ _ => rfl) fun _ stage _ => ?_
  dsimp only
  split
  · exact .bind_eq (.throw _) fun _ _ _ => starts _
  · exact starts _

theorem tandem_endDocument : P.Steady held endDocument := by
  have closes : ∀ held', P.Steady held' (do
        closeSiblings
        closeEntities
        update fun builder => { builder with stage := .documentClosed }
        publish .finish) := fun _ =>
    .bind_eq tandem_closeSiblings fun _ _ _ => .bind_eq tandem_closeEntities fun _ _ _ =>
      .bind_eq (.update (fun _ _ _ _ => rfl) fun _ => ⟨rfl, rfl⟩) fun _ _ _ =>
        .publish (.same nofun)
  refine Tandem.bind_eq tandem_flushText fun _ _ _ => ?_
  refine Tandem.bind_eq (.observe_own fun _ _ _ => rfl) fun _ cursor _ => ?_
  dsimp only
  split
  · exact .bind_eq (.throw _) fun _ _ _ => closes _
  · exact closes _

theorem tandem_endElement : P.Steady held endElement := by
  refine Tandem.bind_eq tandem_flushText fun _ _ _ => ?_
  refine Tandem.bind_eq (.observe_own fun _ _ _ => rfl) fun _ closed _ => ?_
  have closes : ∀ held', P.Steady held' (do
        closeSiblings
        update fun builder =>
          { builder with
            cursor := ((builder.document.nodes.get? closed).bind (·.parent)).getD documentId
            scopes := builder.scopes.pop
            previous := some (closed, .element) }) := by
    refine fun _ => .bind_eq tandem_closeSiblings fun _ _ _ =>
      .update (fun b d history same => ?_) fun _ => ⟨rfl, rfl⟩
    have parent : (d.nodes.get? closed).bind (·.parent) =
        (b.document.nodes.get? closed).bind (·.parent) := by
      rcases same.get?_cases closed with ⟨r, r', hr, hr', same⟩ | ⟨hr, hr'⟩
      · rw [hr, hr', Option.bind_some, Option.bind_some, same.parent]
      · rw [hr, hr']
    rw [parent]
  dsimp only
  split
  · exact .bind_eq (.throw _) fun _ _ _ => closes _
  · exact closes _

theorem tandem_characters (text : String) (flags : TextFlags) :
    P.Steady held (characters text flags) := by
  unfold characters
  split
  · exact .pure rfl
  · refine Tandem.bind_eq (.observe_own fun _ _ _ => rfl) fun _ cursor _ => ?_
    split
    · split
      · exact .throw _
      · exact .pure rfl
    · exact .update (fun _ _ _ _ => rfl) fun _ => ⟨rfl, rfl⟩

theorem tandem_comment (text : String) :
    P.Steady held (comment text) :=
  .bind_eq tandem_flushText fun _ _ _ => .bind (tandem_storeText _) fun _ _ _ _ same =>
    tandem_appendLeaf same _ _ _

theorem tandem_instruction (target data : String) :
    P.Steady held (instruction target data) :=
  .bind_eq tandem_flushText fun _ _ _ => .bind (tandem_storeText _) fun _ _ _ _ same =>
    .bind_eq (tandem_storeName _) fun _ _ le => tandem_appendLeaf (le _ _ same) _ _ _

theorem tandem_entityReference (name : String) :
    P.Steady held (entityReference name) :=
  .bind_eq tandem_flushText fun _ _ _ => .bind_eq (tandem_storeName _) fun _ _ _ =>
    .bind_eq (.observe_own fun _ _ _ => rfl) fun _ _ _ =>
      tandem_appendChild (.rfl_of (.inl rfl))

theorem tandem_publishEntity (entity : NodeId) (name value : String) :
    P.Steady held (publishEntity entity name value) := by
  refine Tandem.bind_eq (.observe_own fun _ _ _ => rfl) fun held' last _ => ?_
  have ends : ∀ held'', P.Steady held'' (do
      update fun builder => { builder with lastEntity := some entity }
      publish (.entity name value entity)) := fun _ =>
    .bind_eq (.update (fun _ _ _ _ => rfl) fun _ => ⟨rfl, rfl⟩) fun _ _ _ =>
      .publish (.same nofun)
  cases last with
  | some before => exact .bind_eq (.publish (.same nofun)) fun _ _ _ => ends _
  | none => exact ends _

theorem tandem_appendEntity (name value : String) (nameId : SymbolId) {p p' : SymbolId}
    (same : held p p') :
    P.Tandem held (appendEntity name value nameId p) (appendEntity name value nameId p')
      fun _ => Eq := by
  refine Tandem.bind_eq (.observe fun s s' hs => hs.lockstep.tallies.size.symm)
    fun _ entity le => ?_
  refine Tandem.bind_eq (tandem_append (.cons (.rfl_of (.inl rfl))
    (.cons (.leaf (le _ _ same) _ _ _ _) .nil))) fun _ _ _ => ?_
  exact tandem_publishEntity entity name value

theorem tandem_declareEntity (name value : String) :
    P.Steady held (declareEntity name value) := by
  refine .bind_eq (.observe fun s s' hs => ?_) fun _ known _ => ?_
  · rw [hs.lockstep.tallies.entities]
  · split
    · exact .warn _
    · exact .bind_eq (tandem_storeName _) fun _ nameId _ =>
        .bind (tandem_storeText _) fun _ _ _ _ same =>
        tandem_appendEntity name value nameId same

theorem tandem_entityDeclaration (name value : String) :
    P.Steady held (entityDeclaration name value) := by
  rw [Steady, entityDeclaration_eq]
  refine Tandem.bind_eq tandem_flushText fun _ _ _ => ?_
  refine Tandem.bind_eq (.observe_own fun _ _ _ => rfl) fun _ late _ => ?_
  split
  · exact .bind_eq (.throw _) fun _ _ _ => tandem_declareEntity name value
  · exact tandem_declareEntity name value

theorem tandem_perform (event : Event) :
    P.Steady held (perform event) := by
  have first : P.Steady held (requireOpen event) :=
    tandem_requireOpen event
  cases event with
  | startDocument => exact tandem_startDocument
  | endDocument => exact first.bind_eq fun _ _ _ => tandem_endDocument
  | startElement name attributes =>
    exact first.bind_eq fun _ _ _ => tandem_startElement name attributes
  | endElement => exact first.bind_eq fun _ _ _ => tandem_endElement
  | characters text flags => exact first.bind_eq fun _ _ _ => tandem_characters text flags
  | comment text => exact first.bind_eq fun _ _ _ => tandem_comment text
  | instruction target data => exact first.bind_eq fun _ _ _ => tandem_instruction target data
  | entityDeclaration name value =>
    exact first.bind_eq fun _ _ _ => tandem_entityDeclaration name value
  | entityReference name => exact first.bind_eq fun _ _ _ => tandem_entityReference name
  | fatalError cause => exact tandem_fail cause

/-- A builder that fails while it takes an event refuses it with that failure. -/
private theorem run_refuse (cause : Failure) (s : Builder × Journal) :
    (do fail cause; throw cause : Reporting Builder Unit).run.run s =
      (.error cause, failed cause s) := by
  have meets : (do fail cause; throw cause : Reporting Builder Unit).Meets s (fun _ _ => False)
      fun other s' => other = cause ∧ s' = failed cause s := by
    rw [meets_bind, fail_meets, meets_throw]
    exact ⟨rfl, rfl⟩
  rcases hr : (do fail cause; throw cause : Reporting Builder Unit).run.run s with ⟨_ | _, s'⟩
  · obtain ⟨rfl, rfl⟩ := meets.of_error hr
    rfl
  · exact (meets.of_ok hr).elim

/-- Twins stay twins whatever event they take, and answer alike. -/
theorem tandem_accept (event : Event) :
    P.Steady held (accept event) := by
  intro s s' hs
  rw [accept, guarded, run_tryCatch, run_tryCatch]
  have performed : EndAlike _ _ _ _ _ := tandem_perform event s s' hs
  generalize (perform event).run.run s = r, (perform event).run.run s' = r' at performed ⊢
  have handled : ∀ cause, P.Steady held (do fail cause; throw cause : Reporting Builder Unit) :=
    fun cause => (tandem_fail cause).bind_eq fun _ _ _ => .throw _
  cases performed with
  | ok h => exact .ok h
  | fail h => exact handled _ _ _ h
  | @left cause t _ h =>
    show EndAlike _ _ _ ((do fail cause; throw cause : Reporting Builder Unit).run.run t) _
    rw [run_refuse]
    exact .left h
  | @right cause t _ h =>
    show EndAlike _ _ _ _ ((do fail cause; throw cause : Reporting Builder Unit).run.run t)
    rw [run_refuse]
    exact .right h

end Builder.Pairing

end XmlTable
