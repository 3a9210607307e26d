import XmlTable.Proofs.Building

/-!
# What becomes of an event

One statement for each of the larger events: the start and the end of the document and of an
element, characters, and the declaration of an entity. Together they say that a builder stays
consistent whatever events it takes, so that this is true of every builder that is ever reached.
-/

namespace XmlTable

open Node

namespace Builder

open Reporting

variable {config : Config} {b : Builder} {s s' s'' : Builder × Journal} {clear : Prop}

/-! ### The start of an element -/

/-- The record that stands for an element. -/
def IsElementRecord (d : Document) (c : Nat) (name : String) (own : Record) : Prop :=
  ∃ namespaceId id, own = .linked .element namespaceId c id .pending ∧
    d.names.resolve id = some name

/-- An element is entered: the characters held back are appended, no entity comes any more, and what
the attributes of the element declare is in scope. -/
structure EntersElement (config : Config) (attributes : List Event.Attribute)
    (texts : List Record) (s s' : Builder × Journal) : Prop where
  /-- The records of the characters. -/
  text : TextRecords s'.1.document s.1.cursor s.1.held texts
  /-- They are appended. -/
  adds : Adds config (declaredUris attributes) texts s s'
  /-- The cursor stays. -/
  cursor : s'.1.cursor = s.1.cursor
  /-- No characters are held back. -/
  pending : s'.1.pending = none
  /-- No entity comes any more. -/
  entitiesClosed : s'.1.entitiesClosed = true
  /-- The declarations are in scope. -/
  scopes : ∃ frame, s'.1.scopes = s.1.scopes.push frame ∧
    s'.1.document.Binds frame.get? (Namespace.Declared.nothing.addAll attributes)
  /-- Nothing is reported. -/
  errors : s'.2.errors = s.2.errors

/-- The record of an element and what is stored of its attributes name their namespaces, and what is
reported are the prefixes for which nothing is declared. -/
structure NamesElement (declared : Namespace.Declared) (name : String)
    (attributes : List Event.Attribute) (own : Record) (stored : List StoredAttribute)
    (before : Journal) (s : Builder × Journal) : Prop where
  /-- What is reported. -/
  errors : s.2.errors = before.errors ++
    (declared.complaints name ++ attributes.flatMap declared.attributeComplaints)
  /-- The namespace of the element. -/
  own : s.1.document.Numbers own.namespaceId (declared.ofElement name)
  /-- The namespaces of the attributes. -/
  attributes : NumbersFor s.1.document declared stored attributes

theorem NamesElement.mono {declared : Namespace.Declared} {name : String}
    {attributes : List Event.Attribute} {own : Record} {stored : List StoredAttribute}
    {before : Journal} (h : NamesElement declared name attributes own stored before s)
    (he : s.1.document.Extends s'.1.document) (hq : s'.2.errors = s.2.errors) :
    NamesElement declared name attributes own stored before s' :=
  ⟨hq.trans h.errors, h.own.mono he, h.attributes.mono he⟩

/-- The records of an element are made: its name and its attributes are stored. -/
structure MakesElement (config : Config) (name : String) (attributes : List Event.Attribute)
    (own : Record) (stored : List StoredAttribute) (s s' : Builder × Journal) : Prop where
  /-- Strings are stored. -/
  stores : Stores config [] s s'
  /-- The namespace of the element is known. -/
  known : own.namespaceId ≠ 0 → (s'.1.document.namespaceUris.resolve own.namespaceId).isSome
  /-- The namespaces of the element and the attributes are those in scope. -/
  names : ∀ {declared : Namespace.Declared}, s.1.document.Binds s.1.scopes.resolve declared →
    NamesElement declared name attributes own stored s.2 s'
  /-- The record of the element. -/
  own : IsElementRecord s'.1.document s.1.cursor name own
  /-- What is stored of the attributes. -/
  attributes : StandFor s'.1.document stored attributes

/-- An element is published with its attributes, and the cursor is on it. -/
structure OpensElement (config : Config) (own : Record) (stored : List StoredAttribute)
    (s s' : Builder × Journal) : Prop where
  /-- The records are appended. -/
  adds : Adds config [] (s.1.document.nodes.childBatch own stored) s s'
  /-- The cursor is on the element. -/
  cursor : s'.1.cursor = s.1.document.nodes.size
  /-- What is held back stays. -/
  pending : s'.1.pending = s.1.pending
  /-- It stays as it is whether entities may be declared. -/
  entitiesClosed : s'.1.entitiesClosed = s.1.entitiesClosed
  /-- The namespaces in scope stay, and nothing is reported. -/
  quiet : Quiet s s'

/-- What comes of the start of an element: the characters held back, then the element with its
attributes, are appended, and the cursor is on the element. -/
structure StartsElement (config : Config) (name : String) (attributes : List Event.Attribute)
    (texts : List Record) (own : Record) (stored : List StoredAttribute)
    (s s' : Builder × Journal) : Prop where
  /-- The records of the characters. -/
  text : TextRecords s'.1.document s.1.cursor s.1.held texts
  /-- All records are appended. -/
  adds : Adds config (declaredUris attributes)
    (texts ++ own :: attributePairs s'.1.cursor (s'.1.cursor + 1) stored) s s'
  /-- The cursor is on the element. -/
  cursor : s'.1.cursor = s.1.document.nodes.size + texts.length
  /-- What the attributes declare is in scope. -/
  scopes : ∃ frame, s'.1.scopes = s.1.scopes.push frame ∧
    s'.1.document.Binds frame.get? (Namespace.Declared.nothing.addAll attributes)
  /-- The namespaces of the element and the attributes are those declared in and around it. -/
  names : ∀ {declared : Namespace.Declared}, s.1.document.Binds s.1.scopes.resolve declared →
    NamesElement ((Namespace.Declared.nothing.addAll attributes).shadowing declared) name
      attributes own stored s.2 s'
  /-- The record of the element. -/
  own : IsElementRecord s'.1.document s.1.cursor name own
  /-- The records of the attributes. -/
  attributes : StandFor s'.1.document stored attributes
  /-- No characters are held back. -/
  pending : s'.1.pending = none
  /-- No entity comes any more. -/
  entitiesClosed : s'.1.entitiesClosed = true

/-- Content is accepted still in a new element, whose identifiers may have been stored. -/
theorem Open.adds_element (h : s.1.Open config) (hc : s.1.entitiesClosed = true) {own : Record}
    {stored : List StoredAttribute} (child : Table.IsChildRecord own s.1.cursor stored)
    (hk : own.kind = .element)
    (resolves : ∀ r ∈ s.1.document.nodes.childBatch own stored, s.1.document.Resolves r)
    (room : s.1.document.nodes.hasRoom (s.1.document.nodes.childBatch own stored).length = true)
    (hs : Stores config [] ({ s.1.afterChild own stored with
      previous := some (s.1.document.nodes.size, .element) }, s.2) s') :
    Adds config [] (s.1.document.nodes.childBatch own stored) s
      ({ s'.1 with cursor := s.1.document.nodes.size, previous := none }, s'.2) := by
  have extension := (h.afterChild child resolves room).2.trans hs.extension
  have f := h.frontier
  rw [hc] at f
  have frontier := f.addElement h.layout h.linked child hk
  have eq := afterChild_eq s.1 own stored
  have same := hs.same
  rw [eq] at same
  have nodes := hs.nodes
  rw [eq] at nodes
  exact
    { isOpen :=
        { toActive := hs.active.of_eq rfl rfl rfl
          open_stage := by rw [same]; exact h.open_stage
          frontier := by
            rw [same, hc]
            exact frontier
          isSealed := by rw [same]; exact h.isSealed
          known := by
            rw [same]
            exact h.known.mono extension.namespaceUri }
      keeps :=
        { extension := extension
          uris := fun u hu => .inl (by
            rcases hs.uris u hu with hu | hu
            · rw [eq] at hu
              exact hu
            · exact absurd hu List.not_mem_nil)
          capacity := by
            show s'.1.document.nodes.capacity = _
            rw [nodes]
            simp [Table.addChild]
          handler := hs.handler }
      size := by
        show s'.1.document.nodes.size = _
        rw [nodes]
        simp [Table.addChild]
      holds := fun hr => (holds_afterChild hr).mono hs.extension }

/-- An element is published with its attributes, and the cursor goes to it. -/
private theorem openElement_meets (h : s.1.Open config) (hc : s.1.entitiesClosed = true)
    {own : Record} {stored : List StoredAttribute} {name : String}
    {attributes : List Event.Attribute} (hown : IsElementRecord s.1.document s.1.cursor name own)
    (known : own.namespaceId ≠ 0 → (s.1.document.namespaceUris.resolve own.namespaceId).isSome)
    (hstored : StandFor s.1.document stored attributes)
    (room : clear →
      s.1.document.nodes.size + 1 + 2 * attributes.length ≤ s.1.document.nodes.capacity) :
    (do
      let _ ← append (s.1.document.nodes.childBatch own stored)
      linkPrevious s.1.document.nodes.size .element
      identify s.1.document.nodes.size attributes
      update fun builder =>
        { builder with cursor := s.1.document.nodes.size, previous := none }).Meets s
      (fun _ s' => OpensElement config own stored s s')
      fun _ s' => s' = s ∧ ¬ clear := by
  obtain ⟨namespaceId, id, rfl, hid⟩ := hown
  have child : Table.IsChildRecord (.linked .element namespaceId s.1.cursor id .pending)
      s.1.cursor stored :=
    { kind := ⟨nofun, rfl⟩
      parent := rfl
      link := rfl
      attrs := fun _ => rfl }
  rw [meets_bind]
  refine append_meets ?_ fun hroom => ?_
  · rw [Table.length_childBatch, hstored.length_eq, ← Nat.add_assoc]
    exact room
  rw [meets_bind, linkPrevious_meets, meets_bind]
  have resolves : ∀ r ∈ s.1.document.nodes.childBatch
      (.linked .element namespaceId s.1.cursor id .pending) stored, s.1.document.Resolves r := by
    intro r hm
    rcases List.mem_cons.1 hm with rfl | hm
    · exact resolves_linked (Option.isSome_iff_exists.2 ⟨_, hid⟩) known
    · exact resolves_attributePairs hstored _ _ r hm
  obtain ⟨active, -⟩ := h.afterChild child resolves hroom
  have identified := (identify_meets s.1.document.nodes.size attributes
    (s := ({ s.1.afterChild (.linked .element namespaceId s.1.cursor id .pending) stored with
      previous := some (s.1.document.nodes.size, .element) }, s.2))
    (active.of_eq rfl rfl rfl)).and (across_identify (R := Quiet) ..)
  refine identified.mono (fun _ s₂ h₂ => ?_) fun _ _ h₂ => h₂.1.elim
  rw [meets_update]
  have same := h₂.1.same
  rw [afterChild_eq] at same
  exact
    { adds := h.adds_element hc child rfl resolves hroom h₂.1
      cursor := rfl
      pending := by rw [same]
      entitiesClosed := by rw [same]
      quiet := ⟨by rw [same], h₂.2.errors⟩ }

/-- Before an element is made it is entered. -/
private theorem enterElement_meets (h : s.1.Open config) (attributes : List Event.Attribute)
    (allowed : List String) (ha : clear → Ample allowed s)
    (hu : clear → ∀ u ∈ declaredUris attributes, u ∈ allowed)
    (room : clear →
      s.1.document.nodes.size + s.1.held.toList.length ≤ s.1.document.nodes.capacity)
    {next : Reporting Builder Unit} {onOk : Unit → Builder × Journal → Prop}
    (hn : ∀ texts s', EntersElement config attributes texts s s' →
      next.Meets s' onOk fun _ s'' => Breaks config clear s s'') :
    (do
      flushText
      closeEntities
      let frame ← declaredFrame attributes .empty
      update fun builder => { builder with scopes := builder.scopes.push frame }
      next).Meets s onOk fun _ s' => Breaks config clear s s' := by
  rw [meets_bind]
  refine ((flushText_meets h room).and (across_flushText (R := Quiet) s)).mono ?_
    fun _ _ hb => hb.1
  rintro _ s₁ ⟨⟨texts, h₁⟩, quiet₁⟩
  rw [meets_bind, closeEntities_meets, meets_bind]
  have hseal := sealEntities_eq h₁.adds.isOpen.isSealed
  have h₂ := h₁.adds.isOpen.sealEntities
  have ample₂ : clear → Ample allowed (s₁.1.sealEntities, s₁.2) := fun hc =>
    h₁.adds.isOpen.adds_sealEntities.keeps.ample (h₁.adds.keeps.ample (ha hc) nofun) nofun
  have flushed : Adds config (declaredUris attributes) (texts ++ [] ++ []) s
      (s₁.1.sealEntities, s₁.2) :=
    (h₁.adds.mono nofun).trans (h₁.adds.isOpen.adds_sealEntities.mono nofun)
  rw [List.append_nil, List.append_nil] at flushed
  have text₂ : TextRecords s₁.1.sealEntities.document s.1.cursor s.1.held texts :=
    h₁.text.mono h₁.adds.isOpen.adds_sealEntities.keeps.extension.text
  refine (((declaredFrame_meets attributes h₂.toActive Namespace.Frame.known_empty ample₂ hu).and
    (declaredFrame_binds attributes h₂.toActive (Document.Binds.empty _))).and
    (across_declaredFrame (R := Quiet) attributes _ _)).mono ?_ ?_
  · rintro frame s₃ ⟨⟨⟨h₃, hframe⟩, hbinds⟩, quiet₃⟩
    rw [meets_update_bind]
    have open₃ := h₂.stores h₃
    have h₄ : Open config { s₃.1 with scopes := s₃.1.scopes.push frame } :=
      { toActive := open₃.toActive.of_eq rfl rfl rfl
        open_stage := open₃.open_stage
        frontier := open₃.frontier
        isSealed := open₃.isSealed
        known := open₃.known.push hframe }
    have adds := flushed.trans (.ofStores h₂ h₃)
    rw [List.append_nil] at adds
    refine hn texts ({ s₃.1 with scopes := s₃.1.scopes.push frame }, s₃.2)
      { text := text₂.mono h₃.extension.text
        adds :=
          { isOpen := h₄
            keeps := ⟨adds.keeps.extension, adds.keeps.uris, adds.keeps.capacity,
              adds.keeps.handler⟩
            size := adds.size
            holds := adds.holds }
        cursor := ?_
        pending := ?_
        entitiesClosed := ?_
        scopes := ⟨frame, ?_, hbinds⟩
        errors := quiet₃.errors.trans quiet₁.errors }
    · show s₃.1.cursor = _
      rw [h₃.same, hseal]
      exact h₁.cursor
    · show s₃.1.pending = _
      rw [h₃.same, hseal]
      exact h₁.pending
    · show s₃.1.entitiesClosed = _
      rw [h₃.same, hseal]
    · show s₃.1.scopes.push frame = _
      rw [quiet₃.scopes, hseal]
      show s₁.1.scopes.push frame = _
      rw [quiet₁.scopes]
  · rintro _ s₃ ⟨⟨h₃, -⟩, -⟩
    exact h₃.breaks flushed text₂ fun _ hu => hu

/-- Before an element is published its records are made. -/
private theorem makeElement_meets (h : s.1.Open config) (name : String)
    (attributes : List Event.Attribute) {allowed : List String} (ha : clear → Ample allowed s)
    {next : List Record → Reporting Builder Unit} {onOk : Unit → Builder × Journal → Prop}
    {onFail : Failure → Builder × Journal → Prop}
    (hn : ∀ own stored s', MakesElement config name attributes own stored s s' →
      (next (own :: attributePairs s.1.document.nodes.size (s.1.document.nodes.size + 1)
        stored)).Meets s' onOk onFail)
    (hf : ∀ cause s', Halts config [] clear s s' → onFail cause s') :
    (do
      let unprefixed ← observe (·.scopes.resolveDefault)
      let namespaceId ← resolveName name unprefixed
      let nameId ← storeName name
      let parent ← observe (·.cursor)
      let own : Record := .linked .element namespaceId parent nameId .pending
      let records ← attributeRecords s.1.document.nodes.size (s.1.document.nodes.size + 1)
        attributes [own]
      next records).Meets s onOk onFail := by
  rw [meets_observe_bind, meets_bind]
  refine ((resolveName_meets h.toActive h.known name h.known.resolveDefault ha).and
    (Meets.all fun declared => Meets.all fun hb : s.1.document.Binds s.1.scopes.resolve declared =>
      resolveName_numbers hb name hb.resolveDefault)).mono ?_ fun cause s' hh => hf cause s' hh.1
  rintro namespaceId s₁ ⟨⟨h₁, hnamespace⟩, numbers₁⟩
  rw [meets_bind]
  refine ((storeName_meets h₁.active name).and (across_storeName (R := Quiet) name s₁)).mono ?_
    fun _ _ hh => hh.1.elim
  rintro id s₂ ⟨⟨h₂, hid⟩, quiet₂⟩
  rw [meets_observe_bind]
  dsimp only
  rw [meets_bind]
  have stores₂ := h₁.trans h₂
  have open₂ := h.stores stores₂
  have cursor : s₂.1.cursor = s.1.cursor := by rw [stores₂.same]
  have binds : ∀ {declared : Namespace.Declared}, s.1.document.Binds s.1.scopes.resolve declared →
      s₂.1.document.Binds s₂.1.scopes.resolve declared := fun hb => by
    rw [stores₂.scopes]
    exact hb.mono stores₂.extension
  refine ((attributeRecords_meets _ attributes _ _ open₂.toActive open₂.known fun hc =>
    stores₂.ample (ha hc) nofun).and (Meets.all fun declared =>
      Meets.all fun hb : s.1.document.Binds s.1.scopes.resolve declared =>
        attributeRecords_numbers _ attributes _ _ open₂.toActive (binds hb))).mono ?_
    fun cause s' hh => hf cause s' (hh.1.after stores₂ nofun)
  rintro records s₃ ⟨⟨h₃, stored, hstored, rfl⟩, numbers₃⟩
  have later := h₂.extension.trans h₃.extension
  refine hn (.linked .element namespaceId s₂.1.cursor id .pending) stored s₃
    { stores := stores₂.trans h₃
      known := fun hne => Symbol.isSome_of_kept later.namespaceUri (hnamespace hne)
      own := ⟨namespaceId, id, by rw [cursor], h₃.extension.name hid⟩
      attributes := hstored
      names := fun {declared} hb => ?_ }
  obtain ⟨-, own, told⟩ := numbers₁ declared hb
  obtain ⟨-, ⟨stored', numbers, -, same⟩, told'⟩ := numbers₃ declared hb
  obtain rfl := attributePairs_inj (List.append_cancel_left same)
  refine ⟨?_, ?_, numbers⟩
  · rw [told', quiet₂.errors, told, List.append_assoc]
  · have found : (if QName.lead name = "" then declared "" else declared (QName.lead name)) =
        declared.ofElement name := by
      unfold Namespace.Declared.ofElement
      split
      · next hl => rw [hl]
      · rfl
    rw [found] at own
    exact Document.Numbers.mono own later

theorem startElement_meets (h : s.1.Open config) (name : String)
    (attributes : List Event.Attribute) (allowed : List String) (ha : clear → Ample allowed s)
    (hu : clear → ∀ u ∈ declaredUris attributes, u ∈ allowed)
    (room : clear → s.1.document.nodes.size + s.1.held.toList.length + 1 + 2 * attributes.length ≤
      s.1.document.nodes.capacity) :
    (startElement name attributes).Meets s
      (fun _ s' => ∃ texts own stored, StartsElement config name attributes texts own stored s s')
      fun _ s' => Breaks config clear s s' := by
  unfold startElement
  refine enterElement_meets h attributes allowed ha hu (fun hc => by have := room hc; omega) ?_
  intro texts s₁ enters
  have h₁ := enters.adds.isOpen
  rw [meets_observe_bind]
  refine makeElement_meets h₁ name attributes
    (fun hc => enters.adds.keeps.ample (ha hc) (hu hc)) ?_ ?_
  · intro own stored s₂ makes
    have before := enters.adds.trans (.ofStores h₁ (makes.stores.mono nofun))
    rw [List.append_nil] at before
    obtain ⟨cursor, pending, closed, scopes⟩ : s₂.1.cursor = s₁.1.cursor ∧
        s₂.1.pending = s₁.1.pending ∧ s₂.1.entitiesClosed = s₁.1.entitiesClosed ∧
        s₂.1.scopes = s₁.1.scopes := by
      rw [makes.stores.same]
      exact ⟨rfl, rfl, rfl, rfl⟩
    have open₂ := before.isOpen
    have own₂ := makes.own
    rw [← cursor] at own₂
    have key := openElement_meets open₂ (closed.trans enters.entitiesClosed) own₂ makes.known
      makes.attributes (?_ : clear → _)
    · rw [Table.childBatch, makes.stores.nodes] at key
      refine key.mono (fun _ s₃ opens => ⟨texts, own, stored, ?_⟩) fun _ s₃ hh => ?_
      · have ext := opens.adds.keeps.extension
        have place : s₃.1.cursor = s.1.document.nodes.size + texts.length := by
          rw [opens.cursor, before.size]
        obtain ⟨namespaceId, id, same, hid⟩ := makes.own
        obtain ⟨frame, pushed, binds⟩ := enters.scopes
        refine
          { text := (enters.text.mono makes.stores.extension.text).mono ext.text
            adds := ?_
            cursor := place
            scopes := ⟨frame, ?_, (binds.mono makes.stores.extension).mono ext⟩
            names := fun {declared} hb => ?_
            own := ⟨namespaceId, id, by rw [same, enters.cursor], ext.name hid⟩
            attributes := makes.attributes.mono ext
            pending := opens.pending.trans (pending.trans enters.pending)
            entitiesClosed := opens.entitiesClosed.trans (closed.trans enters.entitiesClosed) }
        · have all := before.trans (opens.adds.mono nofun)
          rwa [Table.childBatch, ← opens.cursor] at all
        · rw [opens.quiet.scopes, scopes, pushed]
        · have inner : s₁.1.document.Binds s₁.1.scopes.resolve
              ((Namespace.Declared.nothing.addAll attributes).shadowing declared) := by
            rw [pushed]
            exact binds.push (hb.mono enters.adds.keeps.extension)
          have named := (makes.names inner).mono ext opens.quiet.errors
          exact ⟨by rw [named.errors, enters.errors], named.own, named.attributes⟩
      · rw [hh.1]
        exact ⟨⟨_, texts, before, .inr (enters.text.mono makes.stores.extension.text)⟩, hh.2⟩
    · rw [before.size, before.keeps.capacity, enters.text.length_eq]
      exact room
  · intro _ s₂ halts
    exact halts.breaks enters.adds enters.text nofun

/-! ### The ends of elements and of the document -/

/-- What comes of the end of an element. -/
structure EndsElement (config : Config) (texts : List Record) (s s' : Builder × Journal) :
    Prop where
  /-- The records of the characters held back. -/
  text : TextRecords s'.1.document s.1.cursor s.1.held texts
  /-- They are appended. -/
  adds : Adds config [] texts s s'
  /-- The cursor was on an element. -/
  kind : s'.1.document.nodes.kind? s.1.cursor = some .element
  /-- It goes to the parent. -/
  parent : s'.1.document.nodes.parent? s.1.cursor = some s'.1.cursor
  /-- The declarations of the element are in scope no more. -/
  scopes : s'.1.scopes = s.1.scopes.pop
  /-- Nothing is reported. -/
  errors : s'.2.errors = s.2.errors
  /-- No characters are held back. -/
  pending : s'.1.pending = none
  /-- It stays as it is whether entities may be declared. -/
  entitiesClosed : s'.1.entitiesClosed = s.1.entitiesClosed

/-- An element was open, so the cursor was not on the document node. -/
theorem EndsElement.inside {texts : List Record} (h : EndsElement config texts s s') :
    s.1.cursor ≠ documentId := by
  intro outside
  have element := h.kind
  rw [outside] at element
  cases (h.adds.isOpen.layout element).document_iff.2 rfl

/-- The builder after an element was ended, with the cursor on a node above it. -/
def afterElement (b : Builder) (p : Nat) : Builder :=
  { b.settle b.previous .last with
    cursor := p
    scopes := (b.settle b.previous .last).scopes.pop
    previous := some (b.cursor, .element) }

/-- Content is accepted still after an element. -/
theorem Open.adds_afterElement (h : s.1.Open config)
    (hk : s.1.document.nodes.kind? s.1.cursor = some .element) {p : Nat}
    (hp : s.1.document.nodes.parent? s.1.cursor = some p) :
    Adds config [] [] s (s.1.afterElement p, s.2) := by
  obtain ⟨active, extension⟩ := h.settle_last
  have frontier := h.frontier.closeElement h.layout hk hp
  have eq := settle_eq s.1 s.1.previous .last
  exact
    { isOpen :=
        { toActive := active.of_eq rfl rfl rfl
          open_stage := by rw [afterElement, eq]; exact h.open_stage
          frontier := by rw [afterElement, eq]; exact frontier
          isSealed := by rw [afterElement, eq]; exact h.isSealed
          known := by rw [afterElement, eq]; exact h.known.pop }
      keeps :=
        { extension := extension
          uris := fun u hu => by
            rw [afterElement, eq] at hu
            exact .inl hu
          capacity := by
            rw [afterElement, eq]
            simp
          handler := rfl }
      size := by
        rw [afterElement, eq]
        simp
      holds := nofun }

theorem endElement_meets (h : s.1.Open config)
    (room : clear →
      s.1.document.nodes.size + s.1.held.toList.length ≤ s.1.document.nodes.capacity)
    (inside : clear → s.1.cursor ≠ documentId) :
    endElement.Meets s (fun _ s' => ∃ texts, EndsElement config texts s s')
      fun _ s' => Breaks config clear s s' := by
  unfold endElement
  rw [meets_bind]
  refine ((flushText_meets h room).and (across_flushText (R := Quiet) s)).mono ?_
    fun _ _ hb => hb.1
  rintro _ s₁ ⟨⟨texts, h₁⟩, quiet⟩
  have adds := h₁.adds
  rw [List.append_nil] at adds
  have h₂ := adds.isOpen
  have f := h₂.frontier
  rw [meets_observe_bind]
  dsimp only
  split
  · next hc =>
    rw [meets_bind, meets_throw]
    exact h₁.breaks fun hclear => inside hclear (by rw [← h₁.cursor, hc])
  · next hc =>
    rw [meets_bind, closeSiblings_meets h₂, meets_update]
    have kind : s₁.1.document.nodes.kind? s₁.1.cursor = some .element := by
      apply f.cursor.resolve_left
      intro hk
      exact hc ((h₂.layout hk).document_iff.1 rfl)
    obtain ⟨p, hp⟩ := h₂.layout.exists_parent? f.cursor_lt hc
    have parent : (s₁.1.settle s₁.1.previous .last).document.nodes.parent? s₁.1.cursor =
        some p := by
      rw [settle_eq]
      show (s₁.1.document.nodes.settle _ _).parent? _ = _
      rw [(Table.alike_settle ..).2, hp]
    have cursor : (((s₁.1.settle s₁.1.previous .last).document.nodes.get? s₁.1.cursor).bind
        (·.parent)).getD documentId = p := congrArg (·.getD documentId) parent
    have last := h₂.adds_afterElement kind hp
    rw [cursor]
    have all := adds.trans last
    rw [List.append_nil] at all
    refine ⟨texts, h₁.text.mono last.keeps.extension.text, all, ?_, ?_, ?_, quiet.errors, ?_, ?_⟩
    · rw [← h₁.cursor]
      exact last.keeps.extension.continues.kind? kind
    · rw [← h₁.cursor]
      exact parent
    · rw [settle_eq, ← quiet.scopes]
    · rw [settle_eq]
      exact h₁.pending
    · rw [settle_eq]
      exact h₁.entitiesClosed

/-- A builder stands where another does. -/
structure SamePlace (b b' : Builder) : Prop where
  /-- Things come under the same node. -/
  cursor : b'.cursor = b.cursor
  /-- They come after the same child. -/
  previous : b'.previous = b.previous
  /-- The same namespaces are in scope. -/
  scopes : b'.scopes = b.scopes
  /-- The same characters are held back. -/
  pending : b'.pending = b.pending

/-- What comes of the end of the document. -/
structure EndsDocument (config : Config) (texts : List Record) (s s' : Builder × Journal) :
    Prop where
  /-- The builder is sound. -/
  sound : s'.1.Sound config
  /-- The end was seen. -/
  stage : s'.1.stage = .documentClosed
  /-- The document is complete. -/
  isDone : s'.1.document.isDone = true
  /-- No element is open. -/
  outside : s.1.cursor = documentId
  /-- It is the document that there was after the characters held back. -/
  flushed : ∃ s₁, Flushes config texts [] s s₁ ∧ s₁.1.document.Extends s'.1.document ∧
    s'.1.document.nodes.size = s₁.1.document.nodes.size ∧ SamePlace s₁.1 s'.1
  /-- The namespaces in scope stay. -/
  scopes : s'.1.scopes = s.1.scopes
  /-- The handler is the same. -/
  handler : s'.2.handler = s.2.handler
  /-- Nothing is reported. -/
  errors : s'.2.errors = s.2.errors

/-- Once the last child of the document and the last entity are known, so are all links. -/
theorem Open.afterContent (h : b.Open config) (hc : b.cursor = documentId) :
    (b.settle b.previous .last).sealEntities.Active config ∧
      b.document.Extends (b.settle b.previous .last).sealEntities.document ∧
      (b.settle b.previous .last).sealEntities.document.nodes.size = b.document.nodes.size ∧
      ∀ n, (b.settle b.previous .last).sealEntities.document.nodes.link? n ≠ some .pending := by
  have f := h.frontier
  rw [hc] at f
  obtain ⟨active, extension⟩ := h.settle_last
  have eq := settle_eq b b.previous .last
  obtain ⟨active', extension', chain⟩ := active.sealEntities
    (by rw [eq]; exact f.chain_settle .last)
  have nodes : (b.settle b.previous .last).document.nodes =
      b.document.nodes.settle b.previous .last := by rw [eq]
  rw [sealEntities_eq (by rw [eq]; exact h.isSealed)] at active' extension' ⊢
  refine ⟨active', extension.trans extension', ?_, fun n hp => ?_⟩
  · show (b.settle b.previous .last).sealedNodes.size = _
    unfold sealedNodes
    split <;> simp [nodes]
  have hp : (b.settle b.previous .last).sealedNodes.link? n = some .pending := hp
  obtain ⟨k, hk⟩ := Table.exists_kind?_iff.2 (Table.lt_size_of_link? hp)
  have old := link?_of_link?_sealedNodes hp
  rw [(alike_sealedNodes _).1] at hk
  have link := active.sound.wellFormed.linked hk
  rw [nodes] at old hk
  cases k
  case element =>
    rw [(Table.alike_settle ..).1] at hk
    exact f.closeDocument h.layout (.inl hk) old
  case reference =>
    rw [(Table.alike_settle ..).1] at hk
    exact f.closeDocument h.layout (.inr hk) old
  case attr => exact link.attr rfl (by rw [nodes]; exact old)
  case entity =>
    have hk : (b.settle b.previous .last).sealedNodes.kind? n = some .entity := by
      rw [(alike_sealedNodes _).1, nodes, hk]
    cases ((chain.entity hk).1 hp).1
  all_goals
    have := link.isSome_link?
    rw [nodes, old] at this
    cases this

/-- Filling in these links leaves the builder where it is. -/
theorem Open.samePlace_afterContent (h : b.Open config) :
    SamePlace b (b.settle b.previous .last).sealEntities := by
  have isSealed : (b.settle b.previous .last).document.entities.isSealed =
      (b.settle b.previous .last).entitiesClosed := by
    rw [settle_eq]
    exact h.isSealed
  rw [sealEntities_eq isSealed, settle_eq]
  exact ⟨rfl, rfl, rfl, rfl⟩

theorem endDocument_meets (h : s.1.Open config)
    (room : clear →
      s.1.document.nodes.size + s.1.held.toList.length ≤ s.1.document.nodes.capacity)
    (outside : clear → s.1.cursor = documentId) :
    endDocument.Meets s (fun _ s' => ∃ texts, EndsDocument config texts s s')
      fun _ s' => Breaks config clear s s' := by
  unfold endDocument
  rw [meets_bind]
  refine ((flushText_meets h room).and (across_flushText (R := Quiet) s)).mono ?_
    fun _ _ hb => hb.1
  rintro _ s₁ ⟨⟨texts, h₁⟩, quiet⟩
  have h₂ := h₁.adds.isOpen
  have f := h₂.frontier
  rw [meets_observe_bind]
  dsimp only
  split
  · next hc =>
    rw [meets_bind, meets_throw]
    exact h₁.breaks fun hclear => hc (by rw [h₁.cursor, outside hclear])
  · next hc =>
    rw [meets_bind, closeSiblings_meets h₂, meets_bind, closeEntities_meets, meets_update_bind,
      meets_publish]
    obtain ⟨active, extension, size, settled⟩ := h₂.afterContent (Classical.not_not.1 hc)
    have nonempty : 0 < (s₁.1.settle s₁.1.previous .last).sealEntities.document.nodes.size :=
      Nat.lt_of_lt_of_le (Nat.zero_lt_of_lt f.cursor_lt) extension.size_le
    have g := Document.grows_finish active.sound.wellFormed active.building settled nonempty
    have sound := active.sound.record g
    have place := h₂.samePlace_afterContent
    exact
      ⟨texts,
        { sound := ⟨sound.grows, sound.document_eq⟩
          stage := rfl
          isDone := rfl
          outside := h₁.cursor.symm.trans (Classical.not_not.1 hc)
          flushed := ⟨s₁, h₁, extension.trans g.extension, size, place.cursor, place.previous,
            place.scopes, place.pending⟩
          scopes := place.scopes.trans quiet.scopes
          handler := h₁.adds.keeps.handler
          errors := quiet.errors }⟩

/-! ### Characters -/

/-- What is held back after more characters. -/
def holding (pending : Option (String × TextFlags)) (text : String) (flags : TextFlags) :
    Option (String × TextFlags) :=
  if text.isEmpty then pending
  else
    match pending with
    | some (before, earlier) => some (before ++ text, earlier.merge flags)
    | none => some (text, flags)

/-- The builder after characters: those outside the document element are white space, which is
dropped. -/
def afterCharacters (b : Builder) (text : String) (flags : TextFlags) : Builder :=
  if b.cursor = documentId then b else { b with pending := holding b.pending text flags }

@[simp] theorem document_afterCharacters (b : Builder) (text : String) (flags : TextFlags) :
    (b.afterCharacters text flags).document = b.document := by
  unfold afterCharacters
  split <;> rfl

theorem characters_meets (h : s.1.Open config) (text : String) (flags : TextFlags)
    (inside : clear → s.1.cursor ≠ documentId) :
    (characters text flags).Meets s (fun _ s' => s' = (s.1.afterCharacters text flags, s.2))
      fun _ s' => Breaks config clear s s' := by
  unfold characters
  split
  · next he =>
    have same : holding s.1.pending text flags = s.1.pending := if_pos he
    rw [meets_pure, afterCharacters, same, ite_self]
  · next he =>
    rw [meets_observe_bind]
    split
    · next hc =>
      split
      · rw [meets_throw]
        exact .refl h fun hclear => inside hclear hc
      · rw [meets_pure, afterCharacters, if_pos hc]
    · next hc =>
      rw [meets_update, afterCharacters, if_neg hc]
      exact congrArg (fun pending => ({ s.1 with pending }, s.2)) (if_neg he).symm

/-! ### The declaration of an entity -/

/-- The builder after an entity was published with its value, and the entity before it was linked
to it. -/
def afterEntity (b : Builder) (name payload : SymbolId) : Builder :=
  (b.record (.append (b.document.nodes.entityBatch name payload))).settle
    (b.lastEntity.map (·, .entity)) (.next b.document.nodes.size)

theorem afterEntity_eq (b : Builder) (name payload : SymbolId) :
    b.afterEntity name payload =
      { b with
        document :=
          { b.document with nodes := b.document.nodes.addEntity name payload b.lastEntity }
        history := (b.afterEntity name payload).history } :=
  settle_eq ..

/-- The document grows by an entity. -/
theorem Open.afterEntity (h : b.Open config) (hc : b.entitiesClosed = false)
    {name payload : SymbolId} (hn : (b.document.names.resolve name).isSome)
    (hp : (b.document.texts.resolve payload).isSome)
    (room : b.document.nodes.hasRoom 2 = true) :
    (b.afterEntity name payload).Active config ∧
      b.document.Extends (b.afterEntity name payload).document := by
  have f := h.frontier
  rw [hc] at f
  have g : b.document.Grows
      (b.document.apply (.append (b.document.nodes.entityBatch name payload))) := by
    refine Document.grows_append h.sound.wellFormed h.building
      (h.layout.appendEntity (f.takesEntities rfl)) (h.linked.appendEntity h.layout
        (f.takesEntities rfl)) ?_ room fun {n e} he hk hp => Nat.lt_of_not_le fun hn => ?_
    · intro r hm
      rcases List.mem_cons.1 hm with rfl | hm
      · exact resolves_linked hn fun hne => absurd rfl hne
      · obtain rfl := List.mem_singleton.1 hm
        exact resolves_leaf hp (isSome_resolve_zero _)
    · rcases Table.entityBatch_cases hn hk with ⟨-, hk, -⟩ | ⟨-, hk, -⟩ <;> cases hk
  have first : (b.record (.append (b.document.nodes.entityBatch name payload))).Active config :=
    ⟨h.sound.record g, h.building, h.stage⟩
  obtain ⟨active, extension⟩ := first.settle (b.lastEntity.map (·, .entity))
    (.next b.document.nodes.size) nofun fun {n k} hn _ => by
      obtain ⟨e, he, hn⟩ := Option.map_eq_some_iff.1 hn
      rw [(Prod.mk.inj hn).1] at he
      have hk := f.lastEntity_kind he
      exact
        { old := by
            show (b.document.nodes.append _).link? n = _
            rw [Table.link?_append, if_pos (Table.lt_size_of_kind? hk)]
            exact (f.entity hk).2 ⟨rfl, he⟩
          next := fun he' => by
            obtain rfl := Link.next.inj he'
            exact f.toEntityChain.isNext h.layout he
          last := nofun }
  exact ⟨active, g.extension.trans extension⟩

/-- Content is accepted still after an entity. -/
theorem Open.adds_entity (h : s.1.Open config) (hc : s.1.entitiesClosed = false)
    {id payload : SymbolId} (hn : (s.1.document.names.resolve id).isSome)
    (hp : (s.1.document.texts.resolve payload).isSome)
    (room : s.1.document.nodes.hasRoom 2 = true) (name value : String) :
    Adds config [] (s.1.document.nodes.entityBatch id payload) s
      (Builder.record
        { s.1.afterEntity id payload with lastEntity := some s.1.document.nodes.size }
        (.entity name value s.1.document.nodes.size), s.2) := by
  obtain ⟨active, extension⟩ := h.afterEntity hc hn hp room
  have g := Document.grows_entity active.sound.wellFormed active.building name value
    s.1.document.nodes.size
  have f := h.frontier
  rw [hc] at f
  have frontier : (s.1.document.nodes.addEntity id payload s.1.lastEntity).Frontier _ _ _ _ :=
    f.addEntity h.layout
  have eq := afterEntity_eq s.1 id payload
  have last : Active config
      { s.1.afterEntity id payload with lastEntity := some s.1.document.nodes.size } :=
    active.of_eq rfl rfl rfl
  exact
    { isOpen :=
        { sound := last.sound.record g
          building := active.building
          stage := active.stage
          open_stage := by
            show (s.1.afterEntity id payload).stage = _
            rw [eq]
            exact h.open_stage
          frontier := by
            show ((s.1.afterEntity id payload).document.nodes).Frontier
              (s.1.afterEntity id payload).cursor (s.1.afterEntity id payload).previous
              (some s.1.document.nodes.size) (s.1.afterEntity id payload).entitiesClosed
            rw [eq]
            dsimp only
            rw [hc]
            exact frontier
          isSealed := by
            show ((s.1.afterEntity id payload).document.entities.declare _ _ _).isSealed =
              (s.1.afterEntity id payload).entitiesClosed
            rw [eq, ← h.isSealed, Entity.Table.declare]
            split <;> rfl
          known := by
            show (s.1.afterEntity id payload).scopes.Known
              (s.1.afterEntity id payload).document.namespaceUris
            rw [eq]
            exact h.known }
      keeps :=
        { extension := extension.trans g.extension
          uris := fun u hu => by
            have hu : u ∈ (s.1.afterEntity id payload).document.namespaceUris.entries := hu
            rw [eq] at hu
            exact .inl hu
          capacity := by
            show (s.1.afterEntity id payload).document.nodes.capacity = _
            rw [eq]
            simp [Table.addEntity]
          handler := rfl }
      size := by
        show (s.1.afterEntity id payload).document.nodes.size = _
        rw [eq]
        simp [Table.addEntity]
      holds := fun {i r} hr => by
        show (s.1.afterEntity id payload).document.Holds _ _
        rw [eq]
        exact Table.get?_append_settle hr }

/-- The records that stand for an entity. -/
def EntityRecords (d : Document) (n : Nat) (name value : String) (records : List Record) : Prop :=
  ∃ id payload, records = [.linked .entity 0 documentId id .pending, .valueNode n payload] ∧
    d.names.resolve id = some name ∧ d.texts.resolve payload = some value

/-- The warning about the declaration of an entity that is known. -/
def entityWarning (name : String) : String :=
  "entity '" ++ name ++ "' already declared; keeping the first"

/-- What comes of the declaration of an entity. -/
inductive DeclaresEntity (config : Config) (name value : String) (s s' : Builder × Journal) : Prop
  /-- The name is known, which is told. -/
  | known {texts : List Record} : Flushes config texts [] s s' → s.1.cursor = documentId →
      s.1.document.entities.contains name = true →
      s'.1.document.entities.entries = s.1.document.entities.entries →
      s'.1.document.identifiers = s.1.document.identifiers →
      s'.2.warnings = s.2.warnings ++ [entityWarning name] → DeclaresEntity config name value s s'
  /-- The entity is appended, and known from now on. -/
  | new {texts own : List Record} : Flushes config texts own s s' → s.1.cursor = documentId →
      EntityRecords s'.1.document (s.1.document.nodes.size + texts.length) name value own →
      s.1.document.entities.contains name = false →
      s'.1.document.entities.entries = s.1.document.entities.entries ++
        [(name, ⟨value, some (s.1.document.nodes.size + texts.length)⟩)] →
      s'.1.document.identifiers = s.1.document.identifiers →
      s'.2.warnings = s.2.warnings → DeclaresEntity config name value s s'

/-- A published entity is linked to and declared. -/
private theorem publishEntity_meets (id payload : SymbolId) (name value : String)
    {onOk : Unit → Builder × Journal → Prop} {onFail : Failure → Builder × Journal → Prop} :
    (publishEntity s.1.document.nodes.size name value).Meets
        (s.1.record (.append (s.1.document.nodes.entityBatch id payload)), s.2) onOk onFail ↔
      onOk () (Builder.record
        { s.1.afterEntity id payload with lastEntity := some s.1.document.nodes.size }
        (.entity name value s.1.document.nodes.size), s.2) := by
  have same : (s.1.record (.append (s.1.document.nodes.entityBatch id payload))).lastEntity =
      s.1.lastEntity := rfl
  unfold publishEntity afterEntity settle
  rw [meets_observe_bind, same]
  cases s.1.lastEntity <;> exact Iff.rfl

section Declare

variable {texts : List Record} (flushed : Flushes config texts [] s s') (steady : Steady s s')
  (closed : s'.1.entitiesClosed = false) (outside : s.1.cursor = documentId) (name value : String)
  (room : clear →
    s.1.document.nodes.size + s.1.held.toList.length + 2 ≤ s.1.document.nodes.capacity)
include flushed steady closed outside room

/-- An entity of a name that is not known is appended after the characters. -/
private theorem appendEntity_meets {id payload : SymbolId}
    (named : s'.1.document.names.resolve id = some name)
    (valued : s'.1.document.texts.resolve payload = some value)
    (unknown : s'.1.document.entities.contains name = false) :
    (appendEntity name value id payload).Meets s'
      (fun _ s'' => DeclaresEntity config name value s s'')
      fun _ s'' => Breaks config clear s s'' := by
  have h := flushed.adds.isOpen
  have size := flushed.size
  rw [appendEntity, meets_observe_bind, meets_bind]
  refine (append_meets (?_ : clear → _) fun hroom => ?_).mono (fun _ _ hp => hp)
    fun _ _ hh => by rw [hh.1]; exact flushed.breaks hh.2
  · rw [size, flushed.adds.keeps.capacity]
    exact room
  have adds := h.adds_entity closed (Option.isSome_iff_exists.2 ⟨_, named⟩)
    (Option.isSome_iff_exists.2 ⟨_, valued⟩) hroom name value
  have ext := adds.keeps.extension
  have all := flushed.adds.trans adds
  rw [List.append_nil] at all
  have place : s'.1.document.nodes.size = s.1.document.nodes.size + texts.length := by
    rw [size, flushed.text.length_eq]
    rfl
  have accepts : s'.1.document.entities.accepts name = true := by
    rw [Entity.Table.accepts, h.isSealed, closed, unknown]
    rfl
  obtain ⟨cursor, pending, still⟩ : (s'.1.afterEntity id payload).cursor = s'.1.cursor ∧
      (s'.1.afterEntity id payload).pending = s'.1.pending ∧
      (s'.1.afterEntity id payload).entitiesClosed = s'.1.entitiesClosed := by
    rw [afterEntity_eq]
    exact ⟨rfl, rfl, rfl⟩
  apply (publishEntity_meets id payload name value).2
  refine .new ⟨flushed.text.mono ext.text, all, ?_, ?_, ?_⟩ outside ⟨id, payload, ?_⟩
    (steady.contains name ▸ unknown) ?_ ?_ steady.warnings
  · exact cursor.trans flushed.cursor
  · exact pending.trans flushed.pending
  · exact still.trans flushed.entitiesClosed
  · rw [Table.entityBatch, place]
    exact ⟨rfl, ext.name named, ext.text valued⟩
  · show ((s'.1.afterEntity id payload).document.entities.declare _ _ _).entries = _
    rw [afterEntity_eq, ← place, ← steady.entries, Entity.Table.declare, if_pos accepts]
  · show (s'.1.afterEntity id payload).document.identifiers = _
    rw [afterEntity_eq, ← steady.identifiers]

/-- An entity is declared where entities may be declared: it is appended, or its name is known. -/
private theorem declareEntity_meets :
    (declareEntity name value).Meets s' (fun _ s'' => DeclaresEntity config name value s s'')
      fun _ s'' => Breaks config clear s s'' := by
  have h := flushed.adds.isOpen
  rw [declareEntity, meets_observe_bind]
  split
  · next hknown =>
    rw [meets_warn]
    refine .known (flushed.stores (.reported h.toActive rfl)) outside
      (steady.contains name ▸ hknown) steady.entries steady.identifiers ?_
    rw [← steady.warnings]
    exact Journal.warnings_warn ..
  · next hknown =>
    rw [meets_bind]
    refine ((storeName_meets h.toActive name).and (across_storeName (R := Steady) name s')).mono
      ?_ fun _ _ hh => hh.1.elim
    rintro id s₁ ⟨⟨h₁, hid⟩, steady₁⟩
    rw [meets_bind]
    refine ((storeText_meets h₁.active value).and (across_storeText (R := Steady) value s₁)).mono
      ?_ fun _ _ hh => hh.1.elim
    rintro payload s₂ ⟨⟨h₂, hpayload⟩, steady₂⟩
    have steady' := SpansPlain.trans steady₁ steady₂
    have flushed' := flushed.stores (h₁.trans h₂)
    refine appendEntity_meets flushed' (SpansPlain.trans steady steady') ?_ outside name value room
      (h₂.extension.name hid) hpayload ?_
    · rw [flushed'.entitiesClosed, ← flushed.entitiesClosed, closed]
    · rw [steady'.contains, Bool.eq_false_iff.2 hknown]

end Declare

theorem entityDeclaration_meets (h : s.1.Open config) (name value : String)
    (before : clear → s.1.entitiesClosed = false)
    (room : clear →
      s.1.document.nodes.size + s.1.held.toList.length + 2 ≤ s.1.document.nodes.capacity) :
    (entityDeclaration name value).Meets s (fun _ s' => DeclaresEntity config name value s s')
      fun _ s' => Breaks config clear s s' := by
  rw [entityDeclaration_eq, meets_bind]
  refine ((flushText_meets h fun hc => by have := room hc; omega).and
    (across_flushText (R := Steady) s)).mono ?_ fun _ _ hb => hb.1
  rintro _ s₁ ⟨⟨texts, flushed⟩, steady⟩
  have h₁ := flushed.adds.isOpen
  rw [meets_observe_bind]
  split
  · next hlate =>
    rw [meets_bind, meets_throw]
    refine flushed.breaks fun hc => ?_
    have f := h₁.frontier
    rw [flushed.entitiesClosed, before hc] at f hlate
    rw [f.cursor_eq h₁.layout rfl] at hlate
    cases hlate
  · next hlate =>
    obtain ⟨closed, outside⟩ : s₁.1.entitiesClosed = false ∧ s₁.1.cursor = documentId := by
      simpa using hlate
    rw [flushed.cursor] at outside
    exact declareEntity_meets flushed steady closed outside name value room

end Builder

end XmlTable
