import XmlTable.Proofs.Settlement
import XmlTable.Proofs.SiblingLinks

/-!
# What is left of an event that fails

An event does all that may fail before it publishes anything of its own. So if it fails, the
characters that were held back may have been appended, and it may be known that no entity comes any
more; besides that only strings were stored. Work is sorted accordingly: some of it leaves the nodes
alone, some never fails, and an event is work of the first kind up to a step that appends, and of
the second kind from there.
-/

namespace XmlTable

open Node

namespace Node

/-- A link that is not known can be filled in. -/
theorem Record.link?_withLink_of_pending {r : Record} (h : r.link? = some .pending) (l : Link) :
    (r.withLink l).link? = some l := by
  rcases r with ⟨_, _, _, _, field, _⟩
  cases field with
  | sibling => rfl
  | payload => cases h

namespace Table

variable {t t' : Table} {n : Nat} {r : Record} {previous : Option (Nat × Kind)} {l : Link}

/-- A link that is filled in shows in one record. -/
theorem get?_settle_cases (hr : t.get? n = some r) (previous : Option (Nat × Kind)) (l : Link) :
    (t.settle previous l).get? n = some r ∨
      ∃ k, previous = some (n, k) ∧ k.isLinked = true ∧
        (t.settle previous l).get? n = some (r.withLink l) := by
  rcases settle_cases t previous l with ⟨m, k, hp, hk, hs⟩ | ⟨-, hs⟩
  · rw [hs, get?_setLink, hr]
    split
    · next same =>
      subst same
      exact .inr ⟨k, hp, hk, rfl⟩
    · exact .inl rfl
  · rw [hs]
    exact .inl hr

/-- The table grew by the records of characters at most, which are linked to as siblings are. -/
structure GrowsByText (texts : List Record) (t t' : Table) : Prop where
  /-- There are no other new records. -/
  size : t'.size = t.size + texts.length
  /-- The new records come last. -/
  new : ∀ {i : Nat} {r : Record}, texts[i]? = some r → t'.get? (t.size + i) = some r
  /-- An old record is the same, unless its link was not known. It may lead to the characters now,
  which are its next sibling, and of the last entity it may say that there is no other. -/
  kept : ∀ {n : Nat} {r : Record}, t.get? n = some r → t'.get? n = some r ∨
    r.link? = some .pending ∧
      (texts ≠ [] ∧ t'.IsNext n t.size ∧ t'.get? n = some (r.withLink (.next t.size)) ∨
        t.IsLastEntity n ∧ t'.get? n = some (r.withLink .last))
  /-- The link of a sibling before the characters leads to them. -/
  linked : texts ≠ [] → ∀ {n : Nat} {k : Kind}, t'.IsNext n t.size → t'.kind? n = some k →
    k.isLinked = true → t'.link? n = some (.next t.size)

/-- A link of a table that is up to date leads to the next sibling. -/
theorem UpToDate.link?_of_isNext (h : t.UpToDate) (hl : t.Linked) {m : Nat} {k : Kind}
    (next : t.IsNext n m) (hk : t.kind? n = some k) (linked : k.isLinked = true) :
    t.link? n = some (.next m) := by
  have truth := hl hk
  obtain ⟨link, found⟩ := Option.isSome_iff_exists.1 (truth.isSome_link?.trans linked)
  cases link with
  | pending => exact absurd next.1 (h found)
  | last => exact absurd next.1 (truth.last found m)
  | next m' => rw [found, next.unique (truth.next found)]

end Table

end Node

namespace Builder

open Reporting

variable {config : Config} {journal : Journal} {b : Builder} {s s' s'' : Builder × Journal}
  {α β : Type}

/-! ### Work that publishes nothing, and work that never fails -/

/-- Of the document only strings are new. -/
structure Spared (s s' : Builder × Journal) : Prop where
  /-- The nodes are the same. -/
  nodes : s'.1.document.nodes = s.1.document.nodes
  /-- Texts keep their symbols. -/
  texts : ∀ {id : SymbolId} {text : String}, s.1.document.texts.resolve id = some text →
    s'.1.document.texts.resolve id = some text
  /-- The elements by identifier are the same. -/
  identifiers : s'.1.document.identifiers = s.1.document.identifiers
  /-- The entries of entities are the same. -/
  entries : s'.1.document.entities.entries = s.1.document.entities.entries

theorem Spared.of_document (h : s'.1.document = s.1.document) : Spared s s' :=
  ⟨by rw [h], by rw [h]; exact id, by rw [h], by rw [h]⟩

theorem Spared.trans (h : Spared s s') (h' : Spared s' s'') : Spared s s'' :=
  ⟨h'.nodes.trans h.nodes, fun ht => h'.texts (h.texts ht),
    h'.identifiers.trans h.identifiers, h'.entries.trans h.entries⟩

/-- The work leaves the document alone, but for strings. -/
def Spares (work : Reporting Builder α) : Prop :=
  ∀ s, work.Meets s (fun _ s' => Spared s s') fun _ s' => Spared s s'

/-- The work leaves the document alone, but for strings, if it fails. -/
def Withholds (work : Reporting Builder α) : Prop :=
  ∀ s, work.Meets s (fun _ _ => True) fun _ s' => Spared s s'

/-- The work never fails. -/
def Sure (work : Reporting Builder α) : Prop :=
  ∀ s, work.Meets s (fun _ _ => True) fun _ _ => False

namespace Spares

theorem pure (a : α) : Spares (Pure.pure a) := fun _ => .of_document rfl

theorem throw (cause : Failure) : Spares (MonadExcept.throw cause : Reporting Builder α) :=
  fun _ => .of_document rfl

theorem observe (f : Builder → α) : Spares (observe f) := fun _ => .of_document rfl

theorem update {f : Builder → Builder} (hf : ∀ b, (f b).document = b.document) :
    Spares (update f) := fun _ => .of_document (hf _)

theorem report (cause : Failure) : Spares (report cause) := fun s => by
  rw [meets_report]
  split <;> exact .of_document rfl

theorem bind {work : Reporting Builder α} {next : α → Reporting Builder β} (hw : Spares work)
    (hn : ∀ a, Spares (next a)) : Spares (work >>= next) := fun s => by
  rw [meets_bind]
  exact (hw s).imp fun a s' first =>
    (hn a s').mono (fun _ _ later => first.trans later) fun _ _ later => first.trans later

theorem withholds {work : Reporting Builder α} (h : Spares work) : Withholds work := fun s =>
  (h s).mono (fun _ _ _ => trivial) fun _ _ hp => hp

/-- What may fail and publishes nothing comes before what publishes something. -/
theorem andThen {work : Reporting Builder α} {next : α → Reporting Builder β} (hw : Spares work)
    (hn : ∀ a, Withholds (next a)) : Withholds (work >>= next) := fun s => by
  rw [meets_bind]
  exact (hw s).imp fun a s' first => (hn a s').mono (fun _ _ _ => trivial)
    fun _ _ later => first.trans later

end Spares

namespace Sure

theorem pure (a : α) : Sure (Pure.pure a) := fun _ => trivial

theorem observe (f : Builder → α) : Sure (observe f) := fun _ => trivial

theorem update (f : Builder → Builder) : Sure (update f) := fun _ => trivial

theorem publish (change : Change) : Sure (publish change) := fun _ => trivial

theorem warn (message : String) : Sure (warn message : Reporting Builder Unit) := fun _ => trivial

theorem bind {work : Reporting Builder α} {next : α → Reporting Builder β} (hw : Sure work)
    (hn : ∀ a, Sure (next a)) : Sure (work >>= next) := fun s => by
  rw [meets_bind]
  exact (hw s).imp fun a s' _ => hn a s'

theorem withholds {work : Reporting Builder α} (h : Sure work) : Withholds work := fun s =>
  (h s).mono (fun _ _ hp => hp) fun _ _ hf => hf.elim

end Sure

/-- What comes after the last step that may fail plays no part. -/
theorem Withholds.andThen {work : Reporting Builder α} {next : α → Reporting Builder β}
    (hw : Withholds work) (hn : ∀ a, Sure (next a)) : Withholds (work >>= next) := fun s => by
  rw [meets_bind]
  exact (hw s).imp fun a s' _ => (hn a s').mono (fun _ _ hp => hp) fun _ _ hf => hf.elim

/-! ### The parts of events -/

theorem spares_storeName (name : String) : Spares (storeName name) :=
  .bind (.observe _) fun _ => .bind (fun _ => ⟨rfl, id, rfl, rfl⟩) fun _ => .pure _

theorem spares_storeText (text : String) : Spares (storeText text) :=
  .bind (.observe _) fun _ =>
    .bind (fun s => ⟨rfl, s.1.document.texts.resolve_insert_of_some text, rfl, rfl⟩) fun _ =>
      .pure _

theorem spares_storeNamespace (uri : String) : Spares (storeNamespace uri) := by
  unfold storeNamespace
  split
  · exact .pure _
  · refine .bind (.observe _) fun id => .bind (fun _ => ⟨rfl, fun ht => ht, rfl, rfl⟩) fun _ => ?_
    dsimp only
    split
    · exact .bind (.throw _) fun _ => .pure _
    · exact .pure _

theorem spares_declaredFrame (attributes : List Event.Attribute) (frame : Namespace.Frame) :
    Spares (declaredFrame attributes frame) := by
  induction attributes generalizing frame with
  | nil => exact .pure _
  | cons attr rest ih =>
    have after : ∀ id : SymbolId, Spares (if id = Document.xmlId ∨ id = Document.xmlnsId then
        declaredFrame rest frame else do
          let target ← storeNamespace attr.value
          declaredFrame rest (frame.declare id target)) := by
      intro id
      split
      · exact ih _
      · exact .bind (spares_storeNamespace _) fun _ => ih _
    rw [declaredFrame]
    split
    · exact ih _
    · dsimp only
      split
      · exact .bind (.pure _) after
      · exact .bind (spares_storeName _) after

theorem spares_resolveName (name : String) (unprefixed : NamespaceId) :
    Spares (resolveName name unprefixed) := by
  unfold resolveName
  dsimp only
  split
  · exact .pure _
  · refine .bind (.observe _) fun found => ?_
    split
    · exact .pure _
    · exact .bind (.report _) fun _ => .pure _

theorem spares_attributeRecords (element : NodeId) (attributes : List Event.Attribute)
    (node : NodeId) (done : List Record) :
    Spares (attributeRecords element node attributes done) := by
  induction attributes generalizing node done with
  | nil => exact .pure _
  | cons attr rest ih =>
    rw [attributeRecords]
    dsimp only
    split
    · exact .bind (.pure _) fun _ => .bind (spares_storeName _) fun _ =>
        .bind (spares_storeText _) fun _ => ih _ _
    · exact .bind (spares_resolveName _ _) fun _ => .bind (spares_storeName _) fun _ =>
        .bind (spares_storeText _) fun _ => ih _ _

theorem sure_linkPrevious (node : NodeId) (kind : Kind) : Sure (linkPrevious node kind) := by
  refine .bind (.observe _) fun previous => ?_
  dsimp only
  split
  · split
    · exact .bind (.publish _) fun _ => .update _
    · exact .update _
  · exact .update _

theorem sure_closeSiblings : Sure closeSiblings := by
  refine .bind (.observe _) fun previous => ?_
  split
  · refine .bind (.observe _) fun _ => ?_
    split
    · exact .publish _
    · exact .pure _
  · exact .pure _

theorem sure_closeEntities : Sure closeEntities := fun _ => closeEntities_meets.2 trivial

theorem sure_identify (element : NodeId) (attributes : List Event.Attribute) :
    Sure (identify element attributes) := by
  induction attributes with
  | nil => exact .pure _
  | cons attr rest ih =>
    rw [identify]
    dsimp only
    split
    · refine .bind (.bind (.observe _) fun _ => .bind (.publish _) fun _ => .pure _) fun _ =>
        .bind (.observe _) fun _ => ?_
      split
      · exact .bind (.warn _) fun _ => ih
      · exact .bind (.publish _) fun _ => ih
    · exact ih

theorem sure_publishEntity (entity : NodeId) (name value : String) :
    Sure (publishEntity entity name value) := by
  refine .bind (.observe _) fun last => ?_
  have ends : Sure (do
      update fun builder => { builder with lastEntity := some entity }
      publish (.entity name value entity)) :=
    .bind (.update _) fun _ => .publish _
  cases last with
  | some before => exact .bind (.publish _) fun _ => ends
  | none => exact ends

theorem withholds_append (records : List Record) : Withholds (append records) := by
  refine Spares.andThen (.observe _) fun _ => Spares.andThen (.observe _) fun _ => ?_
  have publishes : ∀ first : NodeId, Withholds (do
      publish (.append records)
      return first) := fun _ => (Sure.bind (.publish _) fun _ => .pure _).withholds
  dsimp only
  split
  · exact Spares.andThen (.throw _) fun _ => publishes _
  · exact publishes _

theorem withholds_appendChild (own : Record) : Withholds (appendChild own) :=
  (withholds_append _).andThen fun _ => sure_linkPrevious _ _

theorem withholds_declareEntity (name value : String) : Withholds (declareEntity name value) := by
  refine Spares.andThen (.observe _) fun known => ?_
  split
  · exact (Sure.warn _).withholds
  · exact Spares.andThen (spares_storeName _) fun _ => Spares.andThen (spares_storeText _) fun _ =>
      Spares.andThen (.observe _) fun _ => (withholds_append _).andThen fun _ =>
        sure_publishEntity _ name value

/-! ### Characters that are appended -/

/-- The characters held back are out of the way: they are to be dropped, or they are appended under
the cursor. -/
structure Clears (s s' : Builder × Journal) : Prop where
  /-- What became of them. -/
  nodes : s.1.held = none ∧ s'.1.document.nodes = s.1.document.nodes ∨
    ∃ text flags payload, s.1.held = some (text, flags) ∧
      s'.1.document.texts.resolve payload = some text ∧ s'.1.document.nodes =
        s.1.document.nodes.addChild (.leaf .text flags s.1.cursor payload 0) [] s.1.previous
  /-- The elements by identifier are the same. -/
  identifiers : s'.1.document.identifiers = s.1.document.identifiers
  /-- The entries of entities are the same. -/
  entries : s'.1.document.entities.entries = s.1.document.entities.entries
  /-- The last entity is the same. -/
  lastEntity : s'.1.lastEntity = s.1.lastEntity
  /-- It stays as it is whether entities may be declared. -/
  entitiesClosed : s'.1.entitiesClosed = s.1.entitiesClosed

/-- Characters are appended, or nothing is. -/
theorem flushText_clears (s : Builder × Journal) :
    flushText.Meets s (fun _ s' => Clears s s') fun _ s' => Spared s s' := by
  unfold flushText
  rw [meets_observe_bind]
  split
  · next hp =>
    have hheld : s.1.held = none := by rw [held, hp, Option.filter_none]
    exact ⟨.inl ⟨hheld, rfl⟩, rfl, rfl, rfl, rfl⟩
  · next text flags hp =>
    rw [meets_update_bind, meets_observe_bind]
    split
    · next hstrip =>
      have hheld : s.1.held = none := by
        rw [held, hp, Option.filter_some, if_neg (by simpa using hstrip)]
      exact ⟨.inl ⟨hheld, rfl⟩, rfl, rfl, rfl, rfl⟩
    · next hstrip =>
      have hheld : s.1.held = some (text, flags) := by
        rw [held, hp, Option.filter_some, if_pos]
        simpa only [Bool.not_eq_true', Bool.not_eq_true] using hstrip
      unfold storeText
      rw [bind_assoc, meets_observe_bind, bind_assoc, meets_publish_bind, pure_bind,
        meets_observe_bind]
      unfold appendChild
      rw [meets_bind]
      refine Meets.mono (append_meets (@False.elim _) fun _ => ?_) (fun _ _ hp => hp) ?_
      · rw [linkPrevious_meets]
        let stored : Builder := Builder.record { s.1 with pending := none } (.text text)
        let own : Record :=
          .leaf .text flags s.1.cursor (s.1.document.texts.symbolFor text) 0
        show Clears s ({ stored.afterChild own [] with previous := _ }, s.2)
        rw [afterChild_eq]
        exact ⟨.inr ⟨text, flags, _, hheld, s.1.document.texts.resolve_insert_symbolFor text, rfl⟩,
          rfl, rfl, rfl, rfl⟩
      · rintro _ _ ⟨rfl, -⟩
        exact ⟨rfl, s.1.document.texts.resolve_insert_of_some text, rfl, rfl⟩

/-! ### Events that fail -/

/-- What is left of an event that fails: nothing was done, or the characters held back were put out
of the way, and then it may have become known that no entity comes any more. -/
inductive Remains (s s' : Builder × Journal) : Prop
  /-- Only strings were stored. -/
  | spared : Spared s s' → Remains s s'
  /-- The characters held back are out of the way. -/
  | cleared {s₁ : Builder × Journal} : Clears s s₁ → Spared s₁ s' → Remains s s'
  /-- No entity comes any more, either. -/
  | sealed {s₁ : Builder × Journal} : Clears s s₁ → Spared (s₁.1.sealEntities, s₁.2) s' →
    Remains s s'

theorem flushText_andThen {next : Reporting Builder Unit} (hn : Withholds next) :
    (do flushText; next).Meets s (fun _ _ => True) fun _ s' => Remains s s' := by
  rw [meets_bind]
  exact (flushText_clears s).mono
    (fun _ s₁ clears => (hn s₁).mono (fun _ _ hp => hp) fun _ _ spared => .cleared clears spared)
    fun _ _ spared => .spared spared

theorem startElement_remains (name : String) (attributes : List Event.Attribute) :
    (startElement name attributes).Meets s (fun _ _ => True) fun _ s' => Remains s s' := by
  have makes : Withholds (do
      let frame ← declaredFrame attributes .empty
      update fun builder => { builder with scopes := builder.scopes.push frame }
      let element ← observe (·.document.nodes.size)
      let unprefixed ← observe (·.scopes.resolveDefault)
      let namespaceId ← resolveName name unprefixed
      let nameId ← storeName name
      let parent ← observe (·.cursor)
      let records ← attributeRecords element (element + 1) attributes
        [.linked .element namespaceId parent nameId .pending]
      let _ ← append records
      linkPrevious element .element
      identify element attributes
      update fun builder => { builder with cursor := element, previous := none }) :=
    Spares.andThen (spares_declaredFrame _ _) fun _ => Spares.andThen (.update fun _ => rfl)
      fun _ => Spares.andThen (.observe _) fun _ => Spares.andThen (.observe _) fun _ =>
      Spares.andThen (spares_resolveName _ _) fun _ => Spares.andThen (spares_storeName _) fun _ =>
      Spares.andThen (.observe _) fun _ => Spares.andThen (spares_attributeRecords _ _ _ _)
      fun _ => (withholds_append _).andThen fun _ => .bind (sure_linkPrevious _ _) fun _ =>
      .bind (sure_identify _ _) fun _ => .update _
  unfold startElement
  rw [meets_bind]
  refine (flushText_clears s).mono (fun _ s₁ clears => ?_) fun _ _ spared => .spared spared
  rw [meets_bind, closeEntities_meets]
  exact (makes (s₁.1.sealEntities, s₁.2)).mono (fun _ _ hp => hp)
    fun _ _ spared => .sealed clears spared

theorem endDocument_remains :
    endDocument.Meets s (fun _ _ => True) fun _ s' => Remains s s' := by
  refine flushText_andThen (Spares.andThen (.observe _) fun cursor => ?_)
  have closes : Withholds (do
      closeSiblings
      closeEntities
      update fun builder => { builder with stage := .documentClosed }
      publish .finish) :=
    (Sure.bind sure_closeSiblings fun _ => .bind sure_closeEntities fun _ =>
      .bind (.update _) fun _ => .publish _).withholds
  dsimp only
  split
  · exact Spares.andThen (.throw _) fun _ => closes
  · exact closes

theorem endElement_remains :
    endElement.Meets s (fun _ _ => True) fun _ s' => Remains s s' := by
  refine flushText_andThen (Spares.andThen (.observe _) fun closed => ?_)
  dsimp only
  split
  · exact Spares.andThen (.throw _) fun _ =>
      (Sure.bind sure_closeSiblings fun _ => .update _).withholds
  · exact (Sure.bind sure_closeSiblings fun _ => .update _).withholds

theorem withholds_characters (text : String) (flags : TextFlags) :
    Withholds (characters text flags) := by
  unfold characters
  split
  · exact (Sure.pure _).withholds
  · refine Spares.andThen (.observe _) fun cursor => ?_
    split
    · split
      · exact (Spares.throw _).withholds
      · exact (Sure.pure _).withholds
    · exact (Sure.update _).withholds

theorem entityDeclaration_remains (name value : String) :
    (entityDeclaration name value).Meets s (fun _ _ => True) fun _ s' => Remains s s' := by
  rw [entityDeclaration_eq]
  refine flushText_andThen (Spares.andThen (.observe _) fun late => ?_)
  split
  · exact Spares.andThen (.throw _) fun _ => withholds_declareEntity name value
  · exact withholds_declareEntity name value

/-- An event that fails leaves nothing of its own. -/
theorem perform_remains (event : Event) :
    (perform event).Meets s (fun _ _ => True) fun _ s' => Remains s s' := by
  -- An event that is refused for its place alone leaves nothing at all.
  have placed : ∀ {event : Event} {next : Unit → Reporting Builder Unit},
      (next ()).Meets s (fun _ _ => True) (fun _ s' => Remains s s') →
      (requireOpen event >>= next).Meets s (fun _ _ => True) fun _ s' => Remains s s' := by
    intro event next hn
    rw [requireOpen_bind_meets]
    split
    · exact hn
    · exact .spared (.of_document rfl)
  have plain : ∀ {work : Reporting Builder Unit}, Withholds work →
      work.Meets s (fun _ _ => True) fun _ s' => Remains s s' := fun hw =>
    (hw s).mono (fun _ _ hp => hp) fun _ _ spared => .spared spared
  cases event with
  | startDocument =>
    refine plain (Spares.andThen (.observe _) fun stage => ?_)
    have begins : Withholds (do
        let _ ← append [.document]
        update fun builder => { builder with stage := .documentOpen, cursor := documentId }) :=
      (withholds_append _).andThen fun _ => .update _
    dsimp only
    split
    · exact Spares.andThen (.throw _) fun _ => begins
    · exact begins
  | endDocument => exact placed endDocument_remains
  | startElement name attributes => exact placed (startElement_remains name attributes)
  | endElement => exact placed endElement_remains
  | characters text flags => exact placed (plain (withholds_characters text flags))
  | comment text =>
    exact placed (flushText_andThen (Spares.andThen (spares_storeText _) fun _ =>
      Spares.andThen (.observe _) fun _ => withholds_appendChild _))
  | instruction target data =>
    exact placed (flushText_andThen (Spares.andThen (spares_storeText _) fun _ =>
      Spares.andThen (spares_storeName _) fun _ =>
      Spares.andThen (.observe _) fun _ => withholds_appendChild _))
  | entityDeclaration name value => exact placed (entityDeclaration_remains name value)
  | entityReference name =>
    exact placed (flushText_andThen (Spares.andThen (spares_storeName _) fun _ =>
      Spares.andThen (.observe _) fun _ => withholds_appendChild _))
  | fatalError cause => exact (fail_meets cause).2 trivial

/-! ### The records that are left -/

theorem nodes_sealEntities (b : Builder) : b.sealEntities.document.nodes = b.sealedNodes := by
  unfold sealEntities sealedNodes
  split
  · rfl
  · rw [settle_eq]
    rfl

theorem spared_sealEntities (s : Builder × Journal) :
    (s.1.sealEntities.document.identifiers = s.1.document.identifiers ∧
      s.1.sealEntities.document.entities.entries = s.1.document.entities.entries) ∧
    s.1.sealEntities.document.texts = s.1.document.texts := by
  unfold sealEntities
  split
  · exact ⟨⟨rfl, rfl⟩, rfl⟩
  · rw [settle_eq]
    exact ⟨⟨rfl, rfl⟩, rfl⟩

/-- The tables of names and entities are left as they are. -/
theorem Remains.entered (h : Remains s s') :
    s'.1.document.identifiers = s.1.document.identifiers ∧
      s'.1.document.entities.entries = s.1.document.entities.entries := by
  cases h with
  | spared spared => exact ⟨spared.identifiers, spared.entries⟩
  | cleared clears spared =>
    exact ⟨spared.identifiers.trans clears.identifiers, spared.entries.trans clears.entries⟩
  | @sealed s₁ clears spared =>
    obtain ⟨⟨identifiers, entries⟩, -⟩ := spared_sealEntities s₁
    exact ⟨spared.identifiers.trans (identifiers.trans clears.identifiers),
      spared.entries.trans (entries.trans clears.entries)⟩

theorem size_sealedNodes (b : Builder) : b.sealedNodes.size = b.document.nodes.size := by
  unfold sealedNodes
  split <;> simp

/-- What becomes of the records when the characters held back are out of the way. -/
theorem Clears.records (h : Clears s s') (ho : s.1.Open config) :
    ∃ texts, TextRecords s'.1.document s.1.cursor s.1.held texts ∧
      s'.1.document.nodes.size = s.1.document.nodes.size + texts.length ∧
      (∀ {i : Nat} {r : Record}, texts[i]? = some r →
        s'.1.document.nodes.get? (s.1.document.nodes.size + i) = some r) ∧
      ∀ {n : Nat} {r : Record}, s.1.document.nodes.get? n = some r →
        s'.1.document.nodes.get? n = some r ∨ r.link? = some .pending ∧ texts ≠ [] ∧
          (∀ e, s.1.lastEntity = some e → n ≠ e) ∧
          s'.1.document.nodes.get? n = some (r.withLink (.next s.1.document.nodes.size)) := by
  obtain ⟨hheld, nodes⟩ | ⟨text, flags, payload, hheld, resolves, nodes⟩ := h.nodes
  · refine ⟨[], by rw [hheld]; rfl, by rw [nodes]; rfl, nofun, fun hr => .inl ?_⟩
    rw [nodes, hr]
  have f := ho.frontier
  refine ⟨[.leaf .text flags s.1.cursor payload 0], ?_, ?_, fun {i r} hr => ?_, fun {n r} hr => ?_⟩
  · rw [hheld]
    exact ⟨payload, rfl, resolves⟩
  · rw [nodes, Table.addChild, Table.size_settle, Table.size_append]
    rfl
  · rw [nodes]
    obtain ⟨l, found⟩ := @Table.get?_append_settle s.1.document.nodes _ _ _ hr s.1.previous
      (.next s.1.document.nodes.size)
    obtain rfl : r = .leaf .text flags s.1.cursor payload 0 :=
      List.mem_singleton.1 (List.mem_of_getElem? hr)
    exact found
  · have hlt := Table.lt_size_of_get? hr
    have old : (s.1.document.nodes.append (s.1.document.nodes.childBatch
        (.leaf .text flags s.1.cursor payload 0) [])).get? n = some r := by
      rw [Table.get?_append, if_pos hlt, hr]
    rw [nodes]
    rcases Table.get?_settle_cases old s.1.previous (.next s.1.document.nodes.size) with
      same | ⟨k, hp, hk, changed⟩
    · exact .inl same
    · refine .inr ⟨?_, List.cons_ne_nil _ _, ?_, changed⟩
      · rw [← Table.link?_of_get? hr]
        exact f.child_pending hp hk
      · rintro e he rfl
        have kind := f.child_kind hp
        rw [Option.some.inj ((f.child hp).2.symm.trans (f.lastEntity_kind he))] at kind
        cases kind

/-- Old records and characters are all that is left, if nothing happens to them later but that the
last entity is known to be the last. -/
theorem Clears.growsByText {s₁ : Builder × Journal} (h : Clears s s₁) (ho : s.1.Open config)
    (hs' : s'.1.Consistent config)
    (resolves : ∀ {id : SymbolId} {text : String}, s₁.1.document.texts.resolve id = some text →
      s'.1.document.texts.resolve id = some text)
    (size : s'.1.document.nodes.size = s₁.1.document.nodes.size)
    (later : ∀ {n : Nat} {r : Record}, s₁.1.document.nodes.get? n = some r →
      s'.1.document.nodes.get? n = some r ∨ s₁.1.entitiesClosed = false ∧
        s₁.1.lastEntity = some n ∧ s'.1.document.nodes.get? n = some (r.withLink .last)) :
    ∃ texts, TextRecords s'.1.document s.1.cursor s.1.held texts ∧
      s.1.document.nodes.GrowsByText texts s'.1.document.nodes := by
  obtain ⟨texts, text, size₁, new, old⟩ := h.records ho
  have f := ho.frontier
  have linked := hs'.sound.wellFormed.linked
  rw [h.lastEntity, h.entitiesClosed] at later
  refine ⟨texts, text.mono resolves, size.trans size₁, fun {i r} hr => ?_,
    fun {n r} hr => ?_, fun _ _ _ next hk hl => hs'.upToDate.link?_of_isNext linked next hk hl⟩
  · rcases later (new hr) with same | ⟨-, he, -⟩
    · exact same
    · exact absurd (Table.lt_size_of_kind? (f.lastEntity_kind he)) (by omega)
  · rcases old hr with same | ⟨pending, hne, other, changed⟩
    · rcases later same with same | ⟨closed, he, changed⟩
      · exact .inl same
      · refine .inr ⟨?_, .inr ⟨f.isLastEntity_iff.2 he, changed⟩⟩
        rw [← Table.link?_of_get? hr]
        exact (f.entity (f.lastEntity_kind he)).2 ⟨closed, he⟩
    · rcases later changed with changed | ⟨-, he, -⟩
      · refine .inr ⟨pending, .inl ⟨hne, ?_, changed⟩⟩
        -- What the link says at the end is true.
        refine (linked (Table.kind?_of_get? changed)).next ?_
        rw [Table.link?_of_get? changed]
        exact Record.link?_withLink_of_pending pending _
      · exact absurd rfl (other n he)

/-- What is left of an event that fails are the records that there were, and characters. -/
theorem Remains.growsByText (h : Remains s s') (ho : s.1.Open config)
    (hs' : s'.1.Consistent config) : ∃ texts,
    (texts = [] ∨ TextRecords s'.1.document s.1.cursor s.1.held texts) ∧
      s.1.document.nodes.GrowsByText texts s'.1.document.nodes := by
  cases h with
  | spared spared =>
    refine ⟨[], .inl rfl, by rw [spared.nodes]; rfl, nofun, fun hr => .inl ?_, fun hne => ?_⟩
    · rw [spared.nodes, hr]
    · exact absurd rfl hne
  | cleared clears spared =>
    obtain ⟨texts, text, grows⟩ := clears.growsByText ho hs' spared.texts
      (by rw [spared.nodes]) fun hr => .inl (by rw [spared.nodes, hr])
    exact ⟨texts, .inr text, grows⟩
  | @sealed s₁ clears spared =>
    have nodes := spared.nodes.trans (nodes_sealEntities s₁.1)
    obtain ⟨texts, text, grows⟩ := clears.growsByText ho hs'
      (fun ht => spared.texts (by rw [(spared_sealEntities s₁).2, ht]))
      (by rw [nodes, size_sealedNodes]) fun {n r} hr => by
        rw [nodes]
        unfold sealedNodes
        split
        · exact .inl hr
        · next going =>
          rcases Table.get?_settle_cases hr (s₁.1.lastEntity.map (·, .entity)) .last with
            same | ⟨k, last, -, changed⟩
          · exact .inl same
          · obtain ⟨e, he, hn⟩ := Option.map_eq_some_iff.1 last
            obtain ⟨rfl, -⟩ := Prod.mk.inj hn
            exact .inr ⟨Bool.eq_false_iff.2 going, he, changed⟩
    exact ⟨texts, .inr text, grows⟩

/-! ### Events that are refused -/

/-- What is true after an event that failed. -/
structure PublishesNothing (s : Builder × Journal) (cause : Failure) (s' : Builder × Journal) :
    Prop where
  /-- The builder has failed. -/
  stage : s'.1.stage = .failed
  /-- The document keeps the failure. -/
  failure : s'.1.document.failure? = some cause
  /-- No identifier is new. -/
  identifiers : s'.1.document.identifiers = s.1.document.identifiers
  /-- No entity is new. -/
  entries : s'.1.document.entities.entries = s.1.document.entities.entries
  /-- No record is new but that of the characters that were held back, and no other record has
  changed but for a link. -/
  nodes : ∃ texts, (texts = [] ∨ TextRecords s'.1.document s.1.cursor s.1.held texts) ∧
    s.1.document.nodes.GrowsByText texts s'.1.document.nodes

/-- An event that fails while content is accepted, for whatever reason, publishes nothing of its
own. -/
theorem refused_event_publishes_nothing (reached : Reaches (start config, journal) s)
    (going : s.1.stage = .documentOpen) {event : Event} {cause : Failure}
    (run : (accept event).run.run s = (.error cause, s')) : PublishesNothing s cause s' := by
  have consistent := reached.consistent (consistent_start config)
  have ho := consistent.isOpen going
  have meets : (accept event).Meets s (fun _ _ => True) fun cause s' =>
      ∃ s₁, Refuses config s s₁ ∧ Remains s s₁ ∧ s' = failed cause s₁ := by
    unfold accept guarded
    rw [meets_tryCatch]
    refine ((perform_meets consistent event).and (perform_remains event)).mono
      (fun _ _ _ => trivial) ?_
    rintro cause s₁ ⟨refuses, remains⟩
    rw [meets_bind, fail_meets, meets_throw]
    exact ⟨s₁, refuses, remains, rfl⟩
  obtain ⟨s₁, refuses, remains, rfl⟩ := meets.of_error run
  have active := refuses.active ho.toActive
  obtain ⟨identifiers, entries⟩ := remains.entered
  have nodes := remains.growsByText ho (refuses.consistent consistent)
  have refused : Refused config s₁.2 cause (failed cause s₁) := ⟨s₁, active, .refl _, rfl⟩
  have document : (failed cause s₁).1.document =
      { s₁.1.document with progress := .failed cause } := by
    rw [active.failed_eq]
    show s₁.1.document.apply (.fail cause) = _
    rw [Document.apply, active.building]
  exact
    { stage := by rw [active.failed_eq]; rfl
      failure := refused.failure?
      identifiers := by rw [document]; exact identifiers
      entries := by rw [document]; exact entries
      nodes := by rw [document]; exact nodes }

/-- The table has room for the text, but not for the element and its attributes behind it. -/
theorem refused_event_publishes_nothing_of_full_table :
    let config := (Config.standard.withChunkBits 1).withMaxChunks 2
    let events : List Event := [.startDocument, .startElement "a" [], .startElement "b" [],
      .endElement, .characters "text" {}]
    let s := ((acceptAll events).run.run (start config, { handler := .lenient })).2
    let last := (accept (.startElement "c" [⟨"id", "x", true⟩])).run.run s
    s.1.stage = .documentOpen ∧ last.1 = .error (.capacity "node table is full") ∧
      PublishesNothing s (.capacity "node table is full") last.2 := by
  intro config events s last
  have going : s.1.stage = .documentOpen := by decide +kernel
  have refused : last.1 = .error (.capacity "node table is full") := by decide +kernel
  exact ⟨going, refused,
    refused_event_publishes_nothing (reaches_acceptAll _ _) going (Prod.ext refused rfl)⟩

end Builder

end XmlTable
