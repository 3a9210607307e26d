import XmlTable.Proofs.Events
import XmlTable.Proofs.Publishing

/-!
# Runs of a builder

A builder takes events in any order, also after one has failed, and may be given up. Whatever is
done with it, a builder that started fresh is consistent: it is sound, while it accepts content its
frontier is that of the table, and once it has seen the end its document is complete. What it has
published stays published.
-/

namespace XmlTable

open Node

/-- The kinds of the nodes that an event may append. -/
def Event.kinds : Event → List Kind
  | .startDocument => [.document]
  | .endDocument | .endElement => [.text]
  | .startElement .. => [.text, .element, .attr]
  | .comment _ => [.text, .comment]
  | .instruction .. => [.text, .instruction]
  | .entityDeclaration .. => [.text, .entity]
  | .entityReference _ => [.text, .reference]
  | .characters .. | .fatalError _ => []

/-- What comes up to the first end of a document. -/
def Event.upToEnd (events : List Event) : List Event :=
  events.takeWhile (· ≠ .endDocument) ++ [.endDocument]

namespace Builder

open Reporting

variable {config : Config} {b : Builder} {s s' s'' : Builder × Journal} {clear : Prop}

/-! ### The start of the document -/

/-- A builder that has seen nothing. -/
structure Idle (config : Config) (b : Builder) : Prop extends b.Active config where
  /-- There are no nodes. -/
  size : b.document.nodes.size = 0
  /-- There is no last child. -/
  previous : b.previous = none
  /-- There is no last entity. -/
  lastEntity : b.lastEntity = none
  /-- Entities may come. -/
  entitiesClosed : b.entitiesClosed = false
  /-- The document knows that too. -/
  isSealed : b.document.entities.isSealed = false
  /-- No characters are held back. -/
  pending : b.pending = none
  /-- The namespaces in scope have names. -/
  known : b.scopes.Known b.document.namespaceUris

theorem idle_start (config : Config) : (start config).Idle config where
  sound := sound_start config
  building := rfl
  stage := .inl rfl
  size := rfl
  previous := rfl
  lastEntity := rfl
  entitiesClosed := rfl
  isSealed := rfl
  pending := rfl
  known := by
    have root : ((Namespace.Frame.empty.declare Document.xmlId Document.xmlNamespace).declare
        Document.xmlnsId Document.xmlnsNamespace).Known (start config).document.namespaceUris := by
      refine (Namespace.Frame.known_empty.declare _ fun _ => ?_).declare _ fun _ => ?_
      · show ((Document.initial config).namespaceUris.resolve 1).isSome
        rw [Symbol.Pool.resolve, Document.entries_namespaceUris_initial]
        rfl
      · exact Option.isSome_iff_exists.2 ⟨xmlnsUri, Document.resolve_xmlnsNamespace⟩
    intro frame hf
    obtain rfl := List.mem_singleton.1 hf
    exact root

/-- What comes of the start of the document. -/
structure StartsDocument (config : Config) (s s' : Builder × Journal) : Prop where
  /-- Content is accepted. -/
  isOpen : s'.1.Open config
  /-- The document grew. -/
  keeps : Keeps [] s s'
  /-- There is the document node. -/
  holds : s'.1.document.Holds documentId .document
  /-- There is nothing else. -/
  size : s'.1.document.nodes.size = 1
  /-- The cursor is on it. -/
  cursor : s'.1.cursor = documentId
  /-- No characters are held back. -/
  pending : s'.1.pending = none
  /-- Entities may come. -/
  entitiesClosed : s'.1.entitiesClosed = false
  /-- The namespaces in scope stay, and nothing is reported. -/
  quiet : Quiet s s'

theorem startDocument_meets (h : s.1.Idle config) (hs : s.1.stage = .idle)
    (room : clear → 1 ≤ s.1.document.nodes.capacity) :
    startDocument.Meets s (fun _ s' => StartsDocument config s s')
      fun _ s' => s' = s ∧ ¬ clear := by
  unfold startDocument
  rw [meets_observe_bind]
  dsimp only
  rw [if_neg (by rw [hs]; exact fun hne => hne rfl), meets_bind]
  refine append_meets (fun hc => ?_) fun hroom => ?_
  · rw [h.size]
    exact room hc
  rw [meets_update]
  have g : s.1.document.Grows (s.1.document.apply (.append [.document])) := by
    refine Document.grows_append h.sound.wellFormed h.building (Table.layout_document h.size)
      (Table.linked_document h.size) ?_ hroom fun {n e} he _ _ => ?_
    · intro r hr
      obtain rfl := List.mem_singleton.1 hr
      exact ⟨isSome_resolve_zero _, fun hne => absurd rfl hne, fun hne => absurd rfl hne⟩
    · rw [h.size] at he
      exact absurd he (Nat.not_lt_zero e)
  have frontier := Table.frontier_document h.size
  have size : (s.1.document.nodes.append [.document]).size = 1 := by
    rw [Table.size_append, h.size]
    rfl
  have holds : (s.1.document.nodes.append [.document]).get? documentId = some .document := by
    rw [Table.get?_append, h.size]
    rfl
  have sound := h.sound.record g
  exact
    { isOpen :=
        { sound := ⟨sound.grows, sound.document_eq⟩
          building := h.building
          stage := .inr rfl
          open_stage := rfl
          frontier := by
            show (s.1.document.nodes.append [.document]).Frontier documentId s.1.previous
              s.1.lastEntity s.1.entitiesClosed
            rw [h.previous, h.lastEntity, h.entitiesClosed]
            exact frontier
          isSealed := h.isSealed.trans h.entitiesClosed.symm
          known := h.known }
      keeps := ⟨g.extension, fun _ hu => .inl hu, Table.capacity_append .., rfl⟩
      holds := .of_get? holds
      size := size
      cursor := rfl
      pending := h.pending
      entitiesClosed := h.entitiesClosed
      quiet := ⟨rfl, rfl⟩ }

/-! ### Content -/

/-- What comes of an event that is content, but no element: leaves and entities are appended. -/
structure AddsContent (config : Config) (s s' : Builder × Journal) : Prop where
  /-- No elements and no attributes are appended. -/
  adds : ∃ records, Adds config [] records s s' ∧
    ∀ r ∈ records, r.kind ≠ .element ∧ r.kind ≠ .attr
  /-- The cursor stays. -/
  cursor : s'.1.cursor = s.1.cursor
  /-- The namespaces in scope stay, and nothing is reported. -/
  quiet : Quiet s s'

/-- Nothing comes after all records that are appended. -/
theorem Adds.lt_of_kind? {uris : List String} {records : List Record}
    (h : Adds config uris records s s') {n : Nat} {k : Kind}
    (hk : s'.1.document.nodes.kind? n = some k) :
    n < s.1.document.nodes.size + records.length :=
  h.size ▸ Table.lt_size_of_kind? hk

/-- A new node has the kind of one of the records that were appended. -/
theorem Adds.exists_record {uris : List String} {records : List Record}
    (h : Adds config uris records s s') {n : Nat} (hn : s.1.document.nodes.size ≤ n) {k : Kind}
    (hk : s'.1.document.nodes.kind? n = some k) : ∃ r ∈ records, r.kind = k := by
  have hlt := h.lt_of_kind? hk
  have hi : n - s.1.document.nodes.size < records.length := by omega
  have held := h.holds (List.getElem?_eq_getElem hi)
  rw [Nat.add_sub_cancel' hn] at held
  exact ⟨_, List.getElem_mem hi, Option.some.inj (held.kind?.symm.trans hk)⟩

theorem TextRecords.kind {d : Document} {c : Nat} {text : Option (String × TextFlags)}
    {records : List Record} (h : TextRecords d c text records) : ∀ r ∈ records, r.kind = .text := by
  intro r hr
  rcases text with _ | ⟨text, flags⟩
  · obtain rfl : records = [] := h
    cases hr
  · obtain ⟨payload, rfl, -⟩ := h
    obtain rfl := List.mem_singleton.1 hr
    rfl

/-- Characters are appended under the node that was at hand. -/
theorem TextRecords.parent {d : Document} {c : Nat} {text : Option (String × TextFlags)}
    {records : List Record} (h : TextRecords d c text records) :
    ∀ r ∈ records, r.parent = some c := by
  intro r hr
  rcases text with _ | ⟨text, flags⟩
  · obtain rfl : records = [] := h
    cases hr
  · obtain ⟨payload, rfl, -⟩ := h
    obtain rfl := List.mem_singleton.1 hr
    rfl

theorem Flushes.addsContent {texts own : List Record} (h : Flushes config texts own s s')
    (plain : ∀ r ∈ own, r.kind ≠ .element ∧ r.kind ≠ .attr) (quiet : Quiet s s') :
    AddsContent config s s' where
  adds := by
    refine ⟨texts ++ own, h.adds, fun r hr => ?_⟩
    rcases List.mem_append.1 hr with hr | hr
    · rw [h.text.kind r hr]
      exact ⟨nofun, nofun⟩
    · exact plain r hr
  cursor := h.cursor
  quiet := quiet

theorem AddsLeaf.addsContent {event : Event} (h : AddsLeaf config event s s') (quiet : Quiet s s') :
    AddsContent config s s' := by
  obtain ⟨texts, own, flushes, leaf⟩ := h
  refine flushes.addsContent (fun r hr => ?_) quiet
  obtain rfl := List.mem_singleton.1 hr
  cases leaf <;> exact ⟨nofun, nofun⟩

theorem DeclaresEntity.addsContent {name value : String}
    (h : DeclaresEntity config name value s s') (quiet : Quiet s s') : AddsContent config s s' := by
  cases h with
  | known flushes => exact flushes.addsContent nofun quiet
  | new flushes _ records =>
    obtain ⟨id, payload, rfl, -⟩ := records
    refine flushes.addsContent (fun r hr => ?_) quiet
    rcases List.mem_cons.1 hr with rfl | hr
    · exact ⟨nofun, nofun⟩
    · obtain rfl := List.mem_singleton.1 hr
      exact ⟨nofun, nofun⟩

theorem Open.afterCharacters (h : s.1.Open config) (text : String) (flags : TextFlags) :
    AddsContent config s (s.1.afterCharacters text flags, s.2) := by
  have nothing : Adds config [] [] s s := .ofStores h (.refl h.toActive)
  unfold Builder.afterCharacters
  split
  · exact ⟨⟨[], nothing, nofun⟩, rfl, rfl, rfl⟩
  · have adds : Adds config [] [] s ({ s.1 with pending := holding s.1.pending text flags }, s.2) :=
      ⟨h.of_pending _, ⟨.refl _, fun _ hu => .inl hu, rfl, rfl⟩, rfl, nofun⟩
    exact ⟨⟨[], adds, nofun⟩, rfl, rfl, rfl⟩

/-- What comes of an event that is content and starts or ends no element. -/
inductive Contributes (config : Config) (s s' : Builder × Journal) : Event → Prop
  /-- Characters are held back, or dropped. -/
  | characters {text : String} {flags : TextFlags} :
      s' = (s.1.afterCharacters text flags, s.2) →
      Contributes config s s' (.characters text flags)
  /-- A leaf is appended. -/
  | leaf {event : Event} : AddsLeaf config event s s' → Contributes config s s' event
  /-- An entity is declared. -/
  | entity {name value : String} : DeclaresEntity config name value s s' →
      Contributes config s s' (.entityDeclaration name value)

theorem Contributes.addsContent {event : Event} (h : Contributes config s s' event)
    (ho : s.1.Open config) (quiet : Quiet s s') : AddsContent config s s' := by
  cases h with
  | characters same =>
    rw [same]
    exact ho.afterCharacters ..
  | leaf adds => exact adds.addsContent quiet
  | entity declares => exact declares.addsContent quiet

theorem Contributes.other {event : Event} (h : Contributes config s s' event) (name : String)
    (attributes : List Event.Attribute) : event ≠ .startElement name attributes := by
  rintro rfl
  cases h with
  | leaf adds =>
    obtain ⟨_, _, _, leaf⟩ := adds
    cases leaf

/-- No content is the end of an element or of the document. -/
theorem Contributes.not_end {event : Event} (h : Contributes config s s' event) :
    event ≠ .endElement ∧ event ≠ .endDocument := by
  cases h with
  | characters | entity => exact ⟨Event.noConfusion, Event.noConfusion⟩
  | leaf adds =>
    obtain ⟨_, _, _, leaf⟩ := adds
    cases leaf <;> exact ⟨Event.noConfusion, Event.noConfusion⟩

/-! ### Consistent builders -/

/-- What is true of a builder at every stage. -/
structure Consistent (config : Config) (b : Builder) : Prop where
  /-- The builder is sound. -/
  sound : b.Sound config
  /-- Nothing was seen at first. -/
  idle : b.stage = .idle → b.Idle config
  /-- Then content is accepted. -/
  isOpen : b.stage = .documentOpen → b.Open config
  /-- At the end the document is complete. -/
  closed : b.stage = .documentClosed → b.document.isDone = true
  /-- When the construction has failed it is not. -/
  unfinished : b.stage = .failed → b.document.isDone = false
  /-- A node whose next sibling is not known has none yet. -/
  upToDate : b.document.nodes.UpToDate

theorem Idle.consistent (h : b.Idle config) (hs : b.stage = .idle) : b.Consistent config where
  sound := h.sound
  idle _ := h
  isOpen ho := by cases ho.symm.trans hs
  closed hc := by cases hc.symm.trans hs
  unfinished hf := by cases hf.symm.trans hs
  upToDate n m hp := by
    have := Table.lt_size_of_link? hp
    rw [h.size] at this
    exact absurd this (Nat.not_lt_zero n)

/-- A consistent builder that has seen nothing is at the first stage. -/
theorem Idle.stage_eq (h : b.Idle config) (hb : b.Consistent config) : b.stage = .idle :=
  h.stage.resolve_right fun hopen => by
    have := (hb.isOpen hopen).frontier.cursor_lt
    rw [h.size] at this
    exact Nat.not_lt_zero _ this

theorem consistent_start (config : Config) : (start config).Consistent config :=
  (idle_start config).consistent rfl

theorem Open.consistent (h : b.Open config) : b.Consistent config where
  sound := h.sound
  idle hs := by cases h.open_stage.symm.trans hs
  isOpen _ := h
  closed hs := by cases h.open_stage.symm.trans hs
  unfinished hs := by cases h.open_stage.symm.trans hs
  upToDate := h.frontier.upToDate h.layout h.linked

theorem EndsDocument.consistent {texts : List Record} (h : EndsDocument config texts s s') :
    s'.1.Consistent config where
  sound := h.sound
  idle hs := by cases h.stage.symm.trans hs
  isOpen hs := by cases h.stage.symm.trans hs
  closed _ := h.isDone
  unfinished hs := by cases h.stage.symm.trans hs
  upToDate n m hp := absurd hp (h.sound.wellFormed.settled h.isDone n)

/-! ### Failures -/

/-- What becomes of a builder with a failure, which ends the construction unless it has ended. -/
def failed (cause : Failure) (s : Builder × Journal) : Builder × Journal :=
  match s.1.stage with
  | .failed | .documentClosed => s
  | _ => (({ s.1 with stage := .failed } : Builder).record (.fail cause), s.2.fatal cause)

theorem fail_meets (cause : Failure) {onOk : Unit → Builder × Journal → Prop}
    {onFail : Failure → Builder × Journal → Prop} :
    (fail cause).Meets s onOk onFail ↔ onOk () (failed cause s) := by
  unfold fail failed
  rw [meets_observe_bind]
  cases s.1.stage <;> rfl

/-- A failure changes nothing but the stage of the builder and what is known of the document. -/
theorem failed_cases (cause : Failure) (s : Builder × Journal) :
    failed cause s = s ∨ (s.1.stage = .idle ∨ s.1.stage = .documentOpen) ∧ failed cause s =
      (({ s.1 with stage := .failed } : Builder).record (.fail cause), s.2.fatal cause) := by
  unfold failed
  cases s.1.stage
  case idle => exact .inr ⟨.inl rfl, rfl⟩
  case documentOpen => exact .inr ⟨.inr rfl, rfl⟩
  all_goals exact .inl rfl

theorem nodes_failed (cause : Failure) (s : Builder × Journal) :
    (failed cause s).1.document.nodes = s.1.document.nodes := by
  rcases failed_cases cause s with h | ⟨-, h⟩
  · rw [h]
  · rw [h]
    show (s.1.document.apply (.fail cause)).nodes = _
    unfold Document.apply
    dsimp only
    split <;> rfl

/-- After a failure no content is accepted. -/
theorem stage_failed (cause : Failure) (s : Builder × Journal) :
    (failed cause s).1.stage ≠ .documentOpen := by
  unfold failed
  cases hs : s.1.stage <;> simp [hs, record]

/-- A construction that has not failed had ended before the failure. -/
theorem failed_of_stage {cause : Failure} (h : (failed cause s).1.stage ≠ .failed) :
    s.1.stage = .documentClosed ∧ failed cause s = s := by
  unfold failed at h ⊢
  cases hs : s.1.stage <;> simp_all [record]

/-- A document only grows by a failure. -/
theorem Consistent.extends_failed (h : s.1.Consistent config) (cause : Failure) :
    s.1.document.Extends (failed cause s).1.document := by
  rcases failed_cases cause s with same | ⟨hs, same⟩
  · rw [same]
    exact .refl _
  · have active : s.1.Active config :=
      hs.elim (fun hs => (h.idle hs).toActive) fun hs => (h.isOpen hs).toActive
    rw [same]
    exact (Document.grows_fail active.sound.wellFormed active.building cause).extension

/-- Failing leaves a consistent builder. -/
theorem Consistent.failed (h : s.1.Consistent config) (cause : Failure) :
    (failed cause s).1.Consistent config := by
  have nodes := nodes_failed cause s
  rcases failed_cases cause s with same | ⟨hs, same⟩
  · rw [same]
    exact h
  · have active : s.1.Active config :=
      hs.elim (fun hs => (h.idle hs).toActive) fun hs => (h.isOpen hs).toActive
    have sound := active.sound.record
      (Document.grows_fail active.sound.wellFormed active.building cause)
    rw [same] at nodes ⊢
    refine ⟨⟨sound.grows, sound.document_eq⟩, nofun, nofun, nofun, fun _ => ?_, ?_⟩
    · show (s.1.document.apply (.fail cause)).isDone = false
      rw [Document.apply, active.building]
      rfl
    · rw [nodes]
      exact h.upToDate

/-! ### Events -/

/-- What comes of an event that is taken. -/
inductive Effect (config : Config) (s s' : Builder × Journal) : Event → Prop
  /-- The document begins. -/
  | startDocument : s.1.Idle config → StartsDocument config s s' →
      Effect config s s' .startDocument
  /-- The document ends. -/
  | endDocument {texts : List Record} : s.1.Open config → EndsDocument config texts s s' →
      Effect config s s' .endDocument
  /-- An element begins. -/
  | startElement {name : String} {attributes : List Event.Attribute} {texts : List Record}
      {own : Record} {stored : List StoredAttribute} : s.1.Open config →
      StartsElement config name attributes texts own stored s s' →
      Effect config s s' (.startElement name attributes)
  /-- An element ends. -/
  | endElement {texts : List Record} : s.1.Open config → EndsElement config texts s s' →
      Effect config s s' .endElement
  /-- Anything else is content. -/
  | content {event : Event} : s.1.Open config → Contributes config s s' event → Quiet s s' →
      Effect config s s' event
  /-- The construction ends with a failure. -/
  | fatalError {cause : Failure} : s' = failed cause s → Effect config s s' (.fatalError cause)

/-- The state in which an event is refused: nothing was done, or content was accepted and at most
the characters held back were appended. -/
def Refuses (config : Config) (s s' : Builder × Journal) : Prop :=
  s' = s ∨ s.1.Open config ∧ Breaks config False s s'

theorem Refuses.consistent (h : Refuses config s s') (hs : s.1.Consistent config) :
    s'.1.Consistent config := by
  rcases h with rfl | ⟨-, h⟩
  · exact hs
  · obtain ⟨_, _, adds, -⟩ := h.adds
    exact adds.isOpen.consistent

theorem Refuses.active (h : Refuses config s s') (hs : s.1.Active config) :
    s'.1.Active config := by
  rcases h with rfl | ⟨-, breaks⟩
  · exact hs
  · obtain ⟨_, _, adds, -⟩ := breaks.adds
    exact adds.isOpen.toActive

/-- If the failure changed nothing, the construction had ended and nothing was done. -/
theorem Refuses.of_ended (h : Refuses config s s') {cause : Failure}
    (ended : (failed cause s').1.stage ≠ .failed) :
    s.1.stage = .documentClosed ∧ failed cause s' = s := by
  obtain ⟨closed, same⟩ := failed_of_stage ended
  rcases h with rfl | ⟨-, breaks⟩
  · exact ⟨closed, same⟩
  · obtain ⟨_, _, adds, -⟩ := breaks.adds
    exact absurd closed adds.isOpen.not_closed

theorem Effect.consistent {event : Event} (h : Effect config s s' event)
    (hs : s.1.Consistent config) : s'.1.Consistent config := by
  cases h with
  | startDocument _ starts => exact starts.isOpen.consistent
  | endDocument _ ends => exact ends.consistent
  | startElement _ starts => exact starts.adds.isOpen.consistent
  | endElement _ ends => exact ends.adds.isOpen.consistent
  | content ho contributes quiet =>
    obtain ⟨_, adds, -⟩ := (contributes.addsContent ho quiet).adds
    exact adds.isOpen.consistent
  | fatalError same =>
    rw [same]
    exact hs.failed _

/-- The document grew, and by nodes of some kinds only. -/
structure GrowsBy (kinds : List Kind) (s s' : Builder × Journal) : Prop where
  /-- The document grew. -/
  extension : s.1.document.Extends s'.1.document
  /-- New nodes are of these kinds. -/
  kind_mem : ∀ {n : Nat} {k : Kind}, s.1.document.nodes.size ≤ n →
    s'.1.document.nodes.kind? n = some k → k ∈ kinds

namespace GrowsBy

variable {kinds : List Kind}

theorem refl (s : Builder × Journal) : GrowsBy kinds s s where
  extension := .refl _
  kind_mem hn hk := absurd (Table.lt_size_of_kind? hk) (Nat.not_lt.2 hn)

theorem ofAdds {uris : List String} {records : List Record} (h : Adds config uris records s s')
    (of_mem : ∀ r ∈ records, r.kind ∈ kinds) : GrowsBy kinds s s' where
  extension := h.keeps.extension
  kind_mem hn hk := by
    obtain ⟨r, hr, rfl⟩ := h.exists_record hn hk
    exact of_mem r hr

/-- Nothing but characters is appended. -/
theorem ofTexts {uris : List String} {records : List Record} {c : Nat} {d : Document}
    {text : Option (String × TextFlags)} (h : Adds config uris records s s')
    (texts : TextRecords d c text records) : GrowsBy [.text] s s' :=
  .ofAdds h fun r hr => List.mem_singleton.2 (texts.kind r hr)

theorem ofFlushes {texts own : List Record} (h : Flushes config texts own s s')
    (of_mem : ∀ r ∈ own, r.kind ∈ kinds) : GrowsBy (.text :: kinds) s s' :=
  .ofAdds h.adds fun r hr => by
    rcases List.mem_append.1 hr with hr | hr
    · rw [h.text.kind r hr]
      exact List.mem_cons_self
    · exact List.mem_cons_of_mem _ (of_mem r hr)

/-- What is done later without new nodes changes nothing about that. -/
theorem trans_size (h : GrowsBy kinds s s') (he : s'.1.document.Extends s''.1.document)
    (size : s''.1.document.nodes.size = s'.1.document.nodes.size) : GrowsBy kinds s s'' where
  extension := h.extension.trans he
  kind_mem {n k} hn hk := by
    have hlt := Table.lt_size_of_kind? hk
    rw [size] at hlt
    rw [(he.continues n hlt).1] at hk
    exact h.kind_mem hn hk

theorem failed (h : GrowsBy kinds s s') (hs : s'.1.Consistent config) (cause : Failure) :
    GrowsBy kinds s (failed cause s') :=
  h.trans_size (hs.extends_failed cause) (congrArg Table.size (nodes_failed cause s'))

end GrowsBy

/-- Whatever is refused, at most the characters held back were appended. -/
theorem Refuses.growsBy (h : Refuses config s s') : GrowsBy [.text] s s' := by
  rcases h with rfl | ⟨-, h⟩
  · exact .refl _
  · obtain ⟨_, _, adds, rfl | texts⟩ := h.adds
    · exact .ofAdds adds nofun
    · exact .ofTexts adds texts

theorem StartsElement.growsBy {name : String} {attributes : List Event.Attribute}
    {texts : List Record} {own : Record} {stored : List StoredAttribute}
    (h : StartsElement config name attributes texts own stored s s') :
    GrowsBy [.text, .element, .attr] s s' :=
  .ofAdds h.adds fun r hr => by
    rcases List.mem_append.1 hr with hr | hr
    · simp [h.text.kind r hr]
    rcases List.mem_cons.1 hr with rfl | hr
    · obtain ⟨_, _, rfl, -⟩ := h.own
      simp [Record.linked]
    · obtain ⟨j, hj⟩ := List.getElem?_of_mem hr
      obtain ⟨i, attr, -, ⟨-, rfl⟩ | ⟨-, rfl⟩⟩ := (getElem?_attributePairs ..).1 hj
      · simp [attributeRecord, Record.linked]
      · simp [Record.valueNode, Record.leaf]

theorem Contributes.growsBy {event : Event} (h : Contributes config s s' event) :
    GrowsBy event.kinds s s' := by
  cases h with
  | @characters text flags same =>
    subst same
    refine ⟨?_, fun {n k} hn hk => ?_⟩
    · rw [document_afterCharacters]
      exact .refl _
    · rw [document_afterCharacters] at hk
      exact absurd (Table.lt_size_of_kind? hk) (Nat.not_lt.2 hn)
  | leaf adds =>
    obtain ⟨texts, own, flushes, leaf⟩ := adds
    cases leaf
    all_goals
      refine .ofFlushes flushes fun r hr => ?_
      rw [List.mem_singleton.1 hr]
      exact List.mem_cons_self
  | entity declares =>
    cases declares with
    | known flushes => exact .ofFlushes flushes nofun
    | new flushes _ records =>
      obtain ⟨id, payload, rfl, -⟩ := records
      refine .ofAdds flushes.adds fun r hr => ?_
      rcases List.mem_append.1 hr with hr | hr
      · rw [flushes.text.kind r hr]
        exact List.mem_cons_self
      rcases List.mem_cons.1 hr with rfl | hr
      · exact List.mem_cons_of_mem _ List.mem_cons_self
      · rw [List.mem_singleton.1 hr]
        exact List.mem_cons_self

/-- An event that is taken appends nodes of its own kinds only. -/
theorem Effect.growsBy {event : Event} (h : Effect config s s' event)
    (hs : s.1.Consistent config) : GrowsBy event.kinds s s' := by
  cases h with
  | startDocument idle starts =>
    refine ⟨starts.keeps.extension, fun {n k} _ hk => ?_⟩
    have hn := Table.lt_size_of_kind? hk
    rw [starts.size, Nat.lt_one_iff] at hn
    subst hn
    exact List.mem_singleton.2 ((starts.isOpen.layout hk).document_iff.2 rfl)
  | endDocument _ ends =>
    obtain ⟨s₁, flushes, extension, size, -⟩ := ends.flushed
    have adds := flushes.adds
    rw [List.append_nil] at adds
    have flushed : GrowsBy [.text] s s₁ := .ofTexts adds flushes.text
    exact flushed.trans_size extension size
  | startElement _ starts => exact starts.growsBy
  | endElement _ ends => exact .ofTexts ends.adds ends.text
  | content _ contributes => exact contributes.growsBy
  | fatalError same =>
    rw [same]
    exact (GrowsBy.refl s).failed hs _

/-- The document grew, and by no elements and no attributes. -/
structure GrowsPlain (s s' : Builder × Journal) : Prop where
  /-- The document grew. -/
  extension : s.1.document.Extends s'.1.document
  /-- New nodes are of other kinds. -/
  kind : ∀ {n : Nat} {k : Kind}, s.1.document.nodes.size ≤ n →
    s'.1.document.nodes.kind? n = some k → k ≠ .element ∧ k ≠ .attr

theorem GrowsBy.plain {kinds : List Kind} (h : GrowsBy kinds s s') (element : Kind.element ∉ kinds)
    (attr : Kind.attr ∉ kinds) : GrowsPlain s s' where
  extension := h.extension
  kind hn hk := by
    have known := h.kind_mem hn hk
    exact ⟨fun same => element (same ▸ known), fun same => attr (same ▸ known)⟩

theorem GrowsPlain.failed (h : GrowsPlain s s') (hs : s'.1.Consistent config) (cause : Failure) :
    GrowsPlain s (failed cause s') where
  extension := h.extension.trans (hs.extends_failed cause)
  kind hn hk := by
    rw [nodes_failed] at hk
    exact h.kind hn hk

theorem GrowsPlain.refl (s : Builder × Journal) : GrowsPlain s s :=
  GrowsBy.plain (.refl s) List.not_mem_nil List.not_mem_nil

theorem Refuses.growsPlain (h : Refuses config s s') : GrowsPlain s s' :=
  h.growsBy.plain (by decide) (by decide)

/-- Only the start of an element appends elements and attributes. -/
theorem Effect.growsPlain {event : Event} (h : Effect config s s' event)
    (hs : s.1.Consistent config)
    (other : ∀ name attributes, event ≠ .startElement name attributes) : GrowsPlain s s' := by
  have grows := h.growsBy hs
  cases event with
  | startElement name attributes => exact absurd rfl (other name attributes)
  | _ => exact grows.plain (by simp [Event.kinds]) (by simp [Event.kinds])

theorem requireOpen_bind_meets (event : Event) (next : Unit → Reporting Builder Unit)
    {onOk : Unit → Builder × Journal → Prop} {onFail : Failure → Builder × Journal → Prop} :
    (requireOpen event >>= next).Meets s onOk onFail ↔
      if s.1.stage = .documentOpen then (next ()).Meets s onOk onFail
      else onFail (.protocol s.1.stage.label event.label) s := by
  unfold requireOpen
  rw [meets_bind, meets_observe_bind]
  by_cases hs : s.1.stage = .documentOpen
  · rw [if_neg (fun hne => hne hs), if_pos hs]
    rfl
  · rw [if_pos hs, if_neg hs]
    rfl

/-- An event is taken, or it is refused. -/
theorem perform_meets (h : s.1.Consistent config) (event : Event) :
    (perform event).Meets s (fun _ s' => Effect config s s' event)
      fun _ s' => Refuses config s s' := by
  -- An event that is content is refused, unless content is accepted.
  have content : ∀ {event : Event} {next : Unit → Reporting Builder Unit},
      (s.1.Open config → (next ()).Meets s (fun _ s' => Effect config s s' event)
        fun _ s' => Breaks config False s s') →
      (requireOpen event >>= next).Meets s (fun _ s' => Effect config s s' event)
        fun _ s' => Refuses config s s' := by
    intro event next hn
    rw [requireOpen_bind_meets]
    split
    · next hs =>
      exact (hn (h.isOpen hs)).mono (fun _ _ hp => hp) fun _ _ hb => .inr ⟨h.isOpen hs, hb⟩
    · exact .inl rfl
  cases event with
  | startDocument =>
    unfold perform
    by_cases hs : s.1.stage = .idle
    · exact (startDocument_meets (h.idle hs) hs False.elim).mono
        (fun _ s' hp => .startDocument (h.idle hs) hp) fun _ _ hf => .inl hf.1
    · unfold startDocument
      rw [meets_observe_bind]
      dsimp only
      rw [if_pos hs, meets_bind, meets_throw]
      exact .inl rfl
  | fatalError cause => exact (fail_meets cause).2 (.fatalError rfl)
  | endDocument =>
    refine content fun ho => (endDocument_meets ho False.elim False.elim).imp ?_
    rintro _ s' ⟨texts, hp⟩
    exact .endDocument ho hp
  | startElement name attributes =>
    refine content fun ho => (startElement_meets ho name attributes [] False.elim
      False.elim False.elim).imp ?_
    rintro _ s' ⟨texts, own, stored, hp⟩
    exact .startElement ho hp
  | endElement =>
    refine content fun ho => (endElement_meets ho False.elim False.elim).imp ?_
    rintro _ s' ⟨texts, hp⟩
    exact .endElement ho hp
  | characters text flags =>
    refine content fun ho => (characters_meets ho text flags False.elim).imp ?_
    rintro _ s' rfl
    exact .content ho (.characters rfl) (ho.afterCharacters text flags).quiet
  | comment text =>
    exact content fun ho => ((comment_meets ho False.elim text).and
      (across_comment (R := Quiet) text s)).mono
      (fun _ s' hp => .content ho (.leaf hp.1) hp.2) fun _ _ hb => hb.1
  | instruction target data =>
    exact content fun ho => ((instruction_meets ho False.elim target data).and
      (across_instruction (R := Quiet) target data s)).mono
      (fun _ s' hp => .content ho (.leaf hp.1) hp.2) fun _ _ hb => hb.1
  | entityDeclaration name value =>
    exact content fun ho => ((entityDeclaration_meets ho name value False.elim False.elim).and
      (across_entityDeclaration (R := Quiet) name value s)).mono
      (fun _ s' hp => .content ho (.entity hp.1) hp.2) fun _ _ hb => hb.1
  | entityReference name =>
    exact content fun ho => ((entityReference_meets ho False.elim name).and
      (across_entityReference (R := Quiet) name s)).mono
      (fun _ s' hp => .content ho (.leaf hp.1) hp.2) fun _ _ hb => hb.1

/-- An event that is refused ends the construction. -/
theorem accept_meets (h : s.1.Consistent config) (event : Event) :
    (accept event).Meets s (fun _ s' => Effect config s s' event)
      fun cause s' => ∃ s₁, Refuses config s s₁ ∧ s' = failed cause s₁ := by
  unfold accept guarded
  rw [meets_tryCatch]
  refine (perform_meets h event).mono (fun _ _ hp => hp) fun cause s₁ hp => ?_
  rw [meets_bind, fail_meets, meets_throw]
  exact ⟨s₁, hp, rfl⟩

/-- A builder that is given up fails, unless the construction has ended. -/
theorem drop_run (s : Builder × Journal) : (drop.run.run s).2 =
    failed (.construction "builder dropped before the end of the document") s := by
  have meets : drop.Meets s (fun _ s' => s' =
      failed (.construction "builder dropped before the end of the document") s)
      fun _ s' => s' =
        failed (.construction "builder dropped before the end of the document") s := by
    unfold drop
    rw [meets_observe_bind]
    split
    · exact (fail_meets _).2 rfl
    · exact (fail_meets _).2 rfl
    · next hi ho =>
      rw [meets_pure]
      rcases failed_cases (.construction "builder dropped before the end of the document") s with
        h | ⟨h, -⟩
      · exact h.symm
      · exact (h.elim hi ho).elim
  exact meets.state

/-! ### Everything that can be done with a builder -/

/-- One state of a builder and its journal is reached from another by events, whether they fail or
not, and by giving the builder up. -/
inductive Reaches : Builder × Journal → Builder × Journal → Prop
  | refl {s : Builder × Journal} : Reaches s s
  | accept {s s' : Builder × Journal} : Reaches s s' → (event : Event) →
      Reaches s ((accept event).run.run s').2
  | drop {s s' : Builder × Journal} : Reaches s s' → Reaches s (drop.run.run s').2

theorem Reaches.trans (h : Reaches s s') (h' : Reaches s' s'') : Reaches s s'' := by
  induction h' with
  | refl => exact h
  | accept _ event ih => exact .accept ih event
  | drop _ ih => exact .drop ih

/-- A builder stays consistent. -/
theorem Reaches.consistent (h : Reaches s s') (hs : s.1.Consistent config) :
    s'.1.Consistent config := by
  induction h with
  | refl => exact hs
  | accept _ event ih =>
    refine Meets.state ((accept_meets ih event).mono (fun _ _ hp => hp.consistent ih) ?_)
    rintro cause _ ⟨s₁, hr, rfl⟩
    exact (hr.consistent ih).failed cause
  | drop _ ih =>
    rw [drop_run]
    exact ih.failed _

/-- Nothing that was published is taken back. -/
theorem Reaches.history (h : Reaches s s') :
    s.1.history.toList <+: s'.1.history.toList := by
  induction h with
  | refl => exact List.prefix_refl _
  | accept _ event ih => exact ih.trans (across_accept (R := Published) event _).state
  | drop _ ih => exact ih.trans (across_drop (R := Published) _).state

/-- One state of a builder and its journal is reached from another, and the events that were taken
on the way, those that were refused left out. -/
inductive Takes (s : Builder × Journal) : List Event → Builder × Journal → Prop
  | refl : Takes s [] s
  | accept {events : List Event} {s' s'' : Builder × Journal} {event : Event} : Takes s events s' →
      (accept event).run.run s' = (.ok (), s'') → Takes s (events ++ [event]) s''
  | refuse {events : List Event} {s' s'' : Builder × Journal} {event : Event} {cause : Failure} :
      Takes s events s' → (accept event).run.run s' = (.error cause, s'') → Takes s events s''
  | drop {events : List Event} {s' : Builder × Journal} : Takes s events s' →
      Takes s events (drop.run.run s').2

theorem Takes.reaches {events : List Event} (h : Takes s events s') : Reaches s s' := by
  induction h with
  | refl => exact .refl
  | @accept _ s' _ event _ run ih =>
    have := Reaches.accept ih event
    rwa [run] at this
  | @refuse _ s' _ event _ _ run ih =>
    have := Reaches.accept ih event
    rwa [run] at this
  | drop _ ih => exact .drop ih

theorem Takes.trans {events later : List Event} (h : Takes s events s') (h' : Takes s' later s'') :
    Takes s (events ++ later) s'' := by
  induction h' with
  | refl => rwa [List.append_nil]
  | accept _ run ih =>
    rw [← List.append_assoc]
    exact .accept ih run
  | refuse _ run ih => exact .refuse ih run
  | drop _ ih => exact .drop ih

/-- Events that are all taken, one after the other. -/
theorem takes_acceptAll {events : List Event} (h : (acceptAll events).run.run s = (.ok (), s')) :
    Takes s events s' := by
  induction events generalizing s with
  | nil =>
    cases h
    exact .refl
  | cons event rest ih =>
    rw [acceptAll, run_bind] at h
    rcases run : (Builder.accept event).run.run s with ⟨_ | _, s₁⟩
    · rw [run] at h
      cases h
    · rw [run] at h
      exact (Takes.accept .refl run).trans (ih h)

theorem takes_of_ok {events : List Event} (h : ((acceptAll events).run.run s).1 = .ok ()) :
    Takes s events ((acceptAll events).run.run s).2 :=
  takes_acceptAll (Prod.ext h rfl)

/-- Whatever is reached is reached by some events. -/
theorem Reaches.exists_takes (h : Reaches s s') : ∃ events, Takes s events s' := by
  induction h with
  | refl => exact ⟨[], .refl⟩
  | @accept s' _ event ih =>
    obtain ⟨events, ih⟩ := ih
    rcases run : (Builder.accept event).run.run s' with ⟨_ | _, s''⟩
    · exact ⟨events, .refuse ih run⟩
    · exact ⟨events ++ [event], .accept ih run⟩
  | drop _ ih =>
    obtain ⟨events, ih⟩ := ih
    exact ⟨events, .drop ih⟩

/-- What is true of a consistent builder, and stays true when an event is taken and when the
construction fails, is true of whatever is reached. -/
theorem Takes.induct {events : List Event} (h : Takes s events s') (hs : s.1.Consistent config)
    {P : List Event → Builder × Journal → Prop} (start : P [] s)
    (took : ∀ {events : List Event} {s' s'' : Builder × Journal} {event : Event},
      s'.1.Consistent config → Effect config s' s'' event → P events s' →
      P (events ++ [event]) s'')
    (fails : ∀ {events : List Event} {s' s'' : Builder × Journal} (cause : Failure),
      s'.1.Consistent config → Refuses config s' s'' → P events s' →
      P events (failed cause s'')) : P events s' := by
  induction h with
  | refl => exact start
  | accept before run ih =>
    have consistent := before.reaches.consistent hs
    exact took consistent ((accept_meets consistent _).of_ok run) ih
  | refuse before run ih =>
    have consistent := before.reaches.consistent hs
    obtain ⟨s₁, refuses, rfl⟩ := (accept_meets consistent _).of_error run
    exact fails _ consistent refuses ih
  | drop before ih =>
    rw [drop_run]
    exact fails _ (before.reaches.consistent hs) (.inl rfl) ih

/-- The document of a consistent builder only grows. -/
theorem Reaches.extension (h : Reaches s s') (hs : s.1.Consistent config) :
    s.1.document.Extends s'.1.document := by
  have hs' := h.consistent hs
  obtain ⟨rest, hrest⟩ := h.history
  have first : s.1.document =
      (Document.initial config).moment s'.1.history.toList s.1.history.toList.length := by
    rw [Document.moment, ← hrest, List.take_left, hs.sound.document_eq]
  have last : s'.1.document =
      (Document.initial config).moment s'.1.history.toList s'.1.history.toList.length := by
    rw [Document.moment, List.take_length, hs'.sound.document_eq]
  rw [first, last]
  exact hs'.sound.grows.extension h.history.length_le

/-- Taking events in order, up to the first that fails, is one way to go on. -/
theorem reaches_acceptAll (events : List Event) (s : Builder × Journal) :
    Reaches s ((acceptAll events).run.run s).2 := by
  induction events generalizing s with
  | nil => exact .refl
  | cons event rest ih =>
    have step : Reaches s ((accept event).run.run s).2 := .accept .refl event
    rw [acceptAll, run_bind]
    rcases hr : (accept event).run.run s with ⟨_ | _, s'⟩
    · rw [hr] at step
      exact step
    · rw [hr] at step
      exact step.trans (ih s')

/-! ### Runs to the end -/

/-- The builder of a complete document has seen the end. -/
theorem Consistent.stage_eq (h : b.Consistent config) (done : b.document.isDone = true) :
    b.stage = .documentClosed := by
  have inactive : ¬ b.Active config := fun active => by
    rw [Document.isDone, active.building] at done
    cases done
  cases hs : b.stage with
  | idle => exact absurd (h.idle hs).toActive inactive
  | documentOpen => exact absurd (h.isOpen hs).toActive inactive
  | documentClosed => rfl
  | failed =>
    rw [h.unfinished hs] at done
    cases done

/-- After the end nothing is done any more. -/
theorem accept_of_closed (h : s.1.Consistent config) (closed : s.1.stage = .documentClosed)
    (event : Event) : ((accept event).run.run s).2 = s := by
  have shut : ¬ s.1.Open config := fun ho => ho.not_closed closed
  have ended : ∀ cause, failed cause s = s := fun cause => by rw [failed, closed]
  have meets : (accept event).Meets s (fun _ s' => s' = s) fun _ s' => s' = s := by
    refine (accept_meets h event).mono (fun _ s' effect => ?_) ?_
    · cases effect with
      | startDocument idle => cases closed.symm.trans (idle.stage_eq h)
      | endDocument ho => exact absurd ho shut
      | startElement ho => exact absurd ho shut
      | endElement ho => exact absurd ho shut
      | content ho => exact absurd ho shut
      | fatalError same => rw [same, ended]
    · rintro cause _ ⟨s₁, rfl | ⟨ho, -⟩, rfl⟩
      · exact ended cause
      · exact absurd ho shut
  exact meets.state

theorem acceptAll_of_closed (h : s.1.Consistent config) (closed : s.1.stage = .documentClosed)
    (events : List Event) : ((acceptAll events).run.run s).2 = s := by
  induction events with
  | nil => rfl
  | cons event rest ih =>
    have same := accept_of_closed h closed event
    rw [acceptAll, run_bind]
    rcases run : (accept event).run.run s with ⟨_ | _, s'⟩
    · rw [run] at same
      exact same
    · rw [run] at same
      obtain rfl : s' = s := same
      exact ih

/-- Only the end of the document leads to the end. -/
theorem Effect.closed_iff {s' : Builder × Journal} (h : Effect config s s' event)
    (going : s.1.stage ≠ .documentClosed) :
    s'.1.stage = .documentClosed ↔ event = .endDocument := by
  have opened : ∀ {s' : Builder × Journal}, s'.1.Open config → event ≠ .endDocument →
      (s'.1.stage = .documentClosed ↔ event = .endDocument) := fun ho other =>
    iff_of_false ho.not_closed other
  cases h with
  | startDocument _ starts => exact opened starts.isOpen Event.noConfusion
  | endDocument _ ends => exact iff_of_true ends.stage rfl
  | startElement _ starts => exact opened starts.adds.isOpen Event.noConfusion
  | endElement _ ends => exact opened ends.adds.isOpen Event.noConfusion
  | content ho contributes quiet =>
    obtain ⟨_, adds, -⟩ := (contributes.addsContent ho quiet).adds
    exact opened adds.isOpen contributes.not_end.2
  | fatalError same =>
    refine iff_of_false (fun closed => ?_) Event.noConfusion
    rw [same] at closed
    exact going (failed_of_stage fun failed => by cases closed.symm.trans failed).1

/-- What completes a document are the events up to the first end, and these are all taken. -/
theorem takes_upToEnd (h : s.1.Consistent config) (going : s.1.stage ≠ .documentClosed)
    (closed : ((acceptAll events).run.run s).2.1.stage = .documentClosed) :
    Takes s (Event.upToEnd events) ((acceptAll events).run.run s).2 := by
  induction events generalizing s with
  | nil => exact absurd closed going
  | cons event rest ih =>
    rw [acceptAll, run_bind] at closed ⊢
    rcases run : (accept event).run.run s with ⟨cause | _, s'⟩
    · -- A builder that refused an event has failed.
      rw [run] at closed
      obtain ⟨s₁, refuses, same⟩ := (accept_meets h event).of_error run
      have closed : s'.1.stage = .documentClosed := closed
      rw [same] at closed
      exact absurd (refuses.of_ended fun failed => by cases closed.symm.trans failed).1 going
    · rw [run] at closed
      have effect := (accept_meets h event).of_ok run
      have consistent := effect.consistent h
      by_cases last : event = .endDocument
      · have ends := (effect.closed_iff going).2 last
        subst last
        have rest := acceptAll_of_closed consistent ends rest
        show Takes s [.endDocument] ((acceptAll _).run.run s').2
        rw [rest]
        exact .accept (.refl (s := s)) run
      · have step : Takes s [event] s' := .accept (.refl (s := s)) run
        have later := ih consistent (mt (effect.closed_iff going).1 last) closed
        have split : Event.upToEnd (event :: rest) = [event] ++ Event.upToEnd rest := by
          unfold Event.upToEnd
          rw [List.takeWhile_cons_of_pos (by simpa using last)]
          rfl
        rw [split]
        exact step.trans later

/-! ### Changes of runs -/

/-- The changes of a run: those that a builder makes to a fresh document, with cancelled waits at
any places among them. -/
def IsRun (config : Config) (changes : List Change) : Prop :=
  ∃ (journal : Journal) (s : Builder × Journal), Reaches (start config, journal) s ∧
    changes.filter (fun c => !c.isCancel) = s.1.history.toList

/-- The document grows along every run. -/
theorem IsRun.grows {changes : List Change} (h : IsRun config changes) :
    (Document.initial config).GrowsAlong changes := by
  obtain ⟨journal, s, reached, same⟩ := h
  have consistent : s.1.Consistent config := reached.consistent (consistent_start config)
  have grows := consistent.sound.grows
  rw [← same] at grows
  have cancelled := fun x => grows.ofFilter (Document.wellFormed_initial config) x
  generalize Document.initial config = d at cancelled ⊢
  exact cancelled d.isCancelled

end Builder

end XmlTable
