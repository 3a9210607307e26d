import XmlTable.Proofs.Growth
import XmlTable.Proofs.Outcomes

/-!
# What a builder stores

A builder is sound if its document grew, change by change, from a fresh one by what its history
says. Before it appends a record it stores the strings that the record refers to. That leaves the
nodes and the builder itself as they are, and fails only for want of room for namespaces or because
the error handler refuses to go on.
-/

namespace XmlTable

open Node

namespace Symbol.Pool

/-- A pool that holds no strings but those of a list is no longer than the list. -/
theorem size_le_of_subset {hash : String → UInt64} {pool : Pool hash} {allowed : List String}
    (h : ∀ u ∈ pool.entries, u ∈ allowed) : pool.size ≤ allowed.length := by
  rw [size, ← Array.length_toList]
  exact pool.nodup.length_le_of_subset fun u hu => h u (Array.mem_toList_iff.1 hu)

/-- Storing a string adds no other. -/
theorem mem_entries_insert {hash : String → UInt64} {pool : Pool hash} {s u : String}
    (h : u ∈ (pool.insert s).entries) : u ∈ pool.entries ∨ u = s := by
  unfold insert at h
  split at h
  · exact .inl h
  · exact Array.mem_push.1 h

theorem entries_insert_of_lookup {hash : String → UInt64} {pool : Pool hash} {s : String}
    (h : pool.lookup s = none) : (pool.insert s).entries = pool.entries.push s := by
  unfold insert
  rw [dif_neg (by rw [h]; exact nofun)]

end Symbol.Pool

/-- The reserved namespaces are known from the start. -/
theorem Document.entries_namespaceUris_initial (config : Config) :
    (initial config).namespaceUris.entries = #["", xmlUri, xmlnsUri] := by
  have first : (Symbol.Pool.empty.insert xmlUri : Symbol.ContentPool).entries = #["", xmlUri] := by
    rw [Symbol.Pool.entries_insert_of_lookup ((Symbol.Pool.lookup_eq_none_iff ..).2 _)]
    · rfl
    · simp [Symbol.Pool.empty, xmlUri]
  show ((Symbol.Pool.empty.insert xmlUri).insert xmlnsUri : Symbol.ContentPool).entries = _
  rw [Symbol.Pool.entries_insert_of_lookup ((Symbol.Pool.lookup_eq_none_iff ..).2 _), first]
  · rfl
  · rw [first]
    simp [xmlUri, xmlnsUri]

theorem Document.resolve_xmlnsNamespace {config : Config} :
    (initial config).namespaceUris.resolve xmlnsNamespace = some xmlnsUri := by
  rw [Symbol.Pool.resolve, entries_namespaceUris_initial]
  rfl

/-! ### Namespaces in scope that are known -/

namespace Namespace

/-- The namespaces that a frame binds have names. -/
def Frame.Known (uris : Symbol.ContentPool) (frame : Frame) : Prop :=
  ∀ id target, frame.get? id = some target → target ≠ 0 → (uris.resolve target).isSome

/-- The namespaces in scope have names. -/
def Scopes.Known (uris : Symbol.ContentPool) (scopes : Scopes) : Prop :=
  ∀ frame ∈ scopes.root :: scopes.frames, frame.Known uris

variable {uris uris' : Symbol.ContentPool} {frame : Frame} {scopes : Scopes}

theorem Frame.known_empty : Frame.empty.Known uris := by
  intro id target h
  cases h

theorem Frame.Known.mono (h : frame.Known uris)
    (kept : ∀ {id s}, uris.resolve id = some s → uris'.resolve id = some s) :
    frame.Known uris' :=
  fun id target hget hne => Symbol.isSome_of_kept kept (h id target hget hne)

theorem Frame.Known.declare (h : frame.Known uris) (id : SymbolId) {target : NamespaceId}
    (ht : target ≠ 0 → (uris.resolve target).isSome) : (frame.declare id target).Known uris := by
  intro other found hget hne
  rw [Frame.get?_declare] at hget
  split at hget
  · obtain rfl := Option.some.inj hget
    exact ht hne
  · exact h other found hget hne

theorem Scopes.Known.mono (h : scopes.Known uris)
    (kept : ∀ {id s}, uris.resolve id = some s → uris'.resolve id = some s) :
    scopes.Known uris' :=
  fun frame hf => (h frame hf).mono kept

theorem Scopes.Known.push (h : scopes.Known uris) (hf : frame.Known uris) :
    (scopes.push frame).Known uris := by
  intro other ho
  rcases List.mem_cons.1 ho with rfl | ho
  · exact h _ List.mem_cons_self
  · rcases List.mem_cons.1 ho with rfl | ho
    · exact hf
    · exact h other (List.mem_cons_of_mem _ ho)

theorem Scopes.Known.pop (h : scopes.Known uris) : scopes.pop.Known uris := by
  intro other ho
  rcases List.mem_cons.1 ho with rfl | ho
  · exact h _ List.mem_cons_self
  · exact h other (List.mem_cons_of_mem _ (List.mem_of_mem_tail ho))

/-- The namespace that a prefix stands for has a name. -/
theorem Scopes.Known.resolve (h : scopes.Known uris) {id : SymbolId} {target : NamespaceId}
    (ht : scopes.resolve id = some target) (hne : target ≠ 0) :
    (uris.resolve target).isSome := by
  unfold Scopes.resolve at ht
  rcases Option.or_eq_some_iff.1 ht with hs | ⟨-, hr⟩
  · obtain ⟨frame, hf, hget⟩ := List.exists_of_findSome?_eq_some hs
    exact h frame (List.mem_cons_of_mem _ hf) id target hget hne
  · exact h _ List.mem_cons_self id target hr hne

theorem Scopes.Known.resolveDefault (h : scopes.Known uris) (hne : scopes.resolveDefault ≠ 0) :
    (uris.resolve scopes.resolveDefault).isSome := by
  unfold Scopes.resolveDefault at hne ⊢
  cases hr : scopes.resolve Symbol.emptyId with
  | none =>
    rw [hr] at hne
    exact absurd rfl hne
  | some target =>
    rw [hr] at hne
    exact h.resolve hr hne

end Namespace

namespace Builder

open Reporting

variable {config : Config} {b : Builder} {s s' s'' : Builder × Journal}

/-! ### Builders whose history is the growth of their document -/

/-- The document of a builder is a fresh one after the changes of its history, each of which is a
step in its growth. -/
structure Sound (config : Config) (b : Builder) : Prop where
  /-- Every change is a step in the growth of the document. -/
  grows : (Document.initial config).GrowsAlong b.history.toList
  /-- The document is what the changes make of a fresh one. -/
  document_eq : b.document = (Document.initial config).applyAll b.history.toList

theorem sound_start (config : Config) : (start config).Sound config :=
  ⟨trivial, rfl⟩

theorem Sound.wellFormed (h : b.Sound config) : b.document.WellFormed := by
  rw [h.document_eq, ← Document.moment_of_length_le (Nat.le_refl _)]
  exact h.grows.wellFormed (Document.wellFormed_initial config) _

theorem Sound.extension (h : b.Sound config) : (Document.initial config).Extends b.document := by
  rw [h.document_eq, ← Document.moment_of_length_le (Nat.le_refl _)]
  exact h.grows.extension (Nat.zero_le _)

/-- The document is well formed at every moment of its history. -/
theorem Sound.wellFormed_moment (h : b.Sound config) (j : Nat) :
    ((Document.initial config).moment b.history.toList j).WellFormed :=
  h.grows.wellFormed (Document.wellFormed_initial config) j

/-- The document extends every moment of its history. -/
theorem Sound.extends_moment (h : b.Sound config) (j : Nat) :
    ((Document.initial config).moment b.history.toList j).Extends b.document := by
  have later := h.grows.extension (Nat.le_max_left j b.history.toList.length)
  rwa [Document.moment_of_length_le (Nat.le_max_right j b.history.toList.length),
    ← h.document_eq] at later

/-- A builder stays sound when it publishes a step in the growth of its document. -/
theorem Sound.record (h : b.Sound config) {change : Change}
    (g : b.document.Grows (b.document.apply change)) : (b.record change).Sound config where
  grows := by
    rw [Builder.record, Array.toList_push, Document.growsAlong_append, ← h.document_eq]
    exact ⟨h.grows, g, trivial⟩
  document_eq := by
    rw [Builder.record, Array.toList_push, Document.applyAll, List.foldl_append]
    exact congrArg (·.apply change) h.document_eq

/-- A sound builder whose document is still being built. -/
structure Active (config : Config) (b : Builder) : Prop where
  /-- The builder is sound. -/
  sound : b.Sound config
  /-- The document is being built. -/
  building : b.document.progress = .building
  /-- The end was not seen. -/
  stage : b.stage = .idle ∨ b.stage = .documentOpen

/-- What a builder remembers for itself plays no part. -/
theorem Active.of_eq {b' : Builder} (h : b.Active config) (hd : b'.document = b.document)
    (hh : b'.history = b.history) (hs : b'.stage = b.stage) : b'.Active config where
  sound := ⟨by rw [hh]; exact h.sound.grows, by rw [hd, hh]; exact h.sound.document_eq⟩
  building := by rw [hd]; exact h.building
  stage := by rw [hs]; exact h.stage

/-! ### Storing strings -/

/-- Enough was provided for the work at hand: the error handler goes on whatever happens, and there
is room for the names of the namespaces that are allowed for. -/
structure Ample (allowed : List String) (s : Builder × Journal) : Prop where
  /-- The handler goes on. -/
  proceeds : ∀ reports cause, s.2.handler.decide reports cause = .proceed
  /-- No other namespaces are known. -/
  uris : ∀ u ∈ s.1.document.namespaceUris.entries, u ∈ allowed
  /-- There is room for all of them. -/
  room : allowed.length ≤ maxNamespaceId + 1

/-- Only strings and identifiers were stored, and of the names of namespaces only those given. -/
structure Stores (config : Config) (uris : List String) (s s' : Builder × Journal) : Prop where
  /-- The document is still being built. -/
  active : s'.1.Active config
  /-- The builder and the document differ in the strings and identifiers stored. -/
  same : s'.1 =
    { s.1 with
      document :=
        { s.1.document with
          names := s'.1.document.names
          texts := s'.1.document.texts
          namespaceUris := s'.1.document.namespaceUris
          identifiers := s'.1.document.identifiers }
      history := s'.1.history }
  /-- Strings keep their symbols. -/
  extension : s.1.document.Extends s'.1.document
  /-- No other names of namespaces were stored. -/
  uris : ∀ u ∈ s'.1.document.namespaceUris.entries,
    u ∈ s.1.document.namespaceUris.entries ∨ u ∈ uris
  /-- The handler is the same. -/
  handler : s'.2.handler = s.2.handler

namespace Stores

variable {uris uris' : List String}

theorem refl (h : s.1.Active config) : Stores config uris s s :=
  ⟨h, rfl, .refl _, fun _ hu => .inl hu, rfl⟩

/-- What is reported is no part of the builder. -/
theorem reported (h : s.1.Active config) {journal : Journal}
    (hj : journal.handler = s.2.handler) : Stores config uris s (s.1, journal) :=
  ⟨h, rfl, .refl _, fun _ hu => .inl hu, hj⟩

theorem mono (h : Stores config uris s s') (hu : ∀ u ∈ uris, u ∈ uris') :
    Stores config uris' s s' :=
  ⟨h.active, h.same, h.extension, fun u hm => (h.uris u hm).imp_right (hu u), h.handler⟩

theorem trans (h : Stores config uris s s') (h' : Stores config uris s' s'') :
    Stores config uris s s'' where
  active := h'.active
  same := by rw [h'.same, h.same]
  extension := h.extension.trans h'.extension
  uris u hm := (h'.uris u hm).elim (h.uris u) .inr
  handler := h'.handler.trans h.handler

theorem nodes (h : Stores config uris s s') : s'.1.document.nodes = s.1.document.nodes := by
  rw [h.same]

theorem scopes (h : Stores config uris s s') : s'.1.scopes = s.1.scopes := by
  rw [h.same]

/-- What was enough stays enough if the names that were stored are allowed for. -/
theorem ample (h : Stores config uris s s') {allowed : List String} (ha : Ample allowed s)
    (hu : ∀ u ∈ uris, u ∈ allowed) : Ample allowed s' where
  proceeds := by
    rw [h.handler]
    exact ha.proceeds
  uris u hm := (h.uris u hm).elim (ha.uris u) (hu u)
  room := ha.room

end Stores

/-- The construction goes wrong after some strings and identifiers were stored, which it does not if
enough was provided. -/
structure Halts (config : Config) (uris : List String) (clear : Prop)
    (s s' : Builder × Journal) : Prop where
  /-- What was stored up to there. -/
  stores : Stores config uris s s'
  /-- Too little was provided. -/
  unclear : ¬ clear

/-- Work that goes wrong after other work does so after all of it. -/
theorem Halts.after {uris uris' : List String} {clear : Prop} (first : Stores config uris s s')
    (h : Halts config uris' clear s' s'') (hu : ∀ u ∈ uris', u ∈ uris) :
    Halts config uris clear s s'' :=
  ⟨first.trans (h.stores.mono hu), h.unclear⟩

theorem Halts.mono {uris uris' : List String} {clear : Prop} (h : Halts config uris clear s s')
    (hu : ∀ u ∈ uris, u ∈ uris') : Halts config uris' clear s s' :=
  ⟨h.stores.mono hu, h.unclear⟩

/-- Publishing a string or an identifier stores it and nothing else. -/
private theorem stores_record (h : s.1.Active config) {change : Change}
    (g : s.1.document.Grows (s.1.document.apply change)) {names : Symbol.ContentPool}
    {texts : Symbol.Store} {pool : Symbol.ContentPool} {identifiers : Identifier.Index}
    {uris : List String} (same : s.1.document.apply change =
      { s.1.document with names, texts, namespaceUris := pool, identifiers })
    (hu : ∀ u ∈ pool.entries, u ∈ s.1.document.namespaceUris.entries ∨ u ∈ uris) :
    Stores config uris s (s.1.record change, s.2) where
  active :=
    { sound := h.sound.record g
      building := by
        show (s.1.document.apply change).progress = _
        rw [same]
        exact h.building
      stage := h.stage }
  same := by rw [record, same]
  extension := g.extension
  uris u hm := by
    have hm : u ∈ (s.1.document.apply change).namespaceUris.entries := hm
    rw [same] at hm
    exact hu u hm
  handler := rfl

theorem storeName_meets (h : s.1.Active config) (name : String) :
    (storeName name).Meets s
      (fun id s' => Stores config [] s s' ∧ s'.1.document.names.resolve id = some name)
      fun _ _ => False := by
  unfold storeName
  rw [meets_observe_bind, meets_publish_bind, meets_pure]
  exact ⟨stores_record h (Document.grows_name h.sound.wellFormed h.building name) rfl
    fun _ hu => .inl hu, Symbol.Pool.resolve_insert_symbolFor ..⟩

theorem storeText_meets (h : s.1.Active config) (text : String) :
    (storeText text).Meets s
      (fun id s' => Stores config [] s s' ∧ s'.1.document.texts.resolve id = some text)
      fun _ _ => False := by
  unfold storeText
  rw [meets_observe_bind, meets_publish_bind, meets_pure]
  exact ⟨stores_record h (Document.grows_text h.sound.wellFormed h.building text) rfl
    fun _ hu => .inl hu, Symbol.Store.resolve_insert_symbolFor ..⟩

/-- A namespace is numbered, unless there are more than a record can name. -/
theorem storeNamespace_meets (h : s.1.Active config) (uri : String) {clear : Prop}
    {allowed : List String} (ha : clear → Ample allowed s) (hu : clear → uri ∈ allowed) :
    (storeNamespace uri).Meets s
      (fun id s' => Stores config [uri] s s' ∧
        (id ≠ 0 → (s'.1.document.namespaceUris.resolve id).isSome))
      fun _ s' => Halts config [uri] clear s s' := by
  have stored : Stores config [uri] s (s.1.record (.namespaceUri uri), s.2) := by
    apply stores_record h (Document.grows_namespaceUri h.sound.wellFormed h.building uri) rfl
    intro u hm
    exact (Symbol.Pool.mem_entries_insert hm).imp_right List.mem_singleton.2
  have resolved := s.1.document.namespaceUris.resolve_insert_symbolFor uri
  unfold storeNamespace
  split
  · rw [meets_pure]
    exact ⟨.refl h, fun hne => absurd rfl hne⟩
  · rw [meets_observe_bind, meets_publish_bind]
    dsimp only
    split
    · next hfull =>
      rw [meets_bind, meets_throw]
      refine ⟨stored, fun hc => ?_⟩
      have ample := stored.ample (ha hc) fun u hm => by
        rw [List.mem_singleton.1 hm]
        exact hu hc
      have hle : (s.1.document.namespaceUris.insert uri).size ≤ allowed.length :=
        Symbol.Pool.size_le_of_subset ample.uris
      have hlt : s.1.document.namespaceUris.symbolFor uri <
        (s.1.document.namespaceUris.insert uri).size := (Array.getElem?_eq_some_iff.1 resolved).1
      have fits : s.1.document.namespaceUris.symbolFor uri ≤ maxNamespaceId :=
        Nat.le_of_lt_succ (Nat.lt_of_lt_of_le hlt (Nat.le_trans hle ample.room))
      exact absurd hfull (Nat.not_lt.2 fits)
    · rw [meets_pure]
      exact ⟨stored, fun _ => Option.isSome_iff_exists.2 ⟨uri, resolved⟩⟩

/-- A name gets the namespace of its prefix, and none if its prefix is not declared and the handler
goes on. -/
theorem resolveName_meets (h : s.1.Active config)
    (hk : s.1.scopes.Known s.1.document.namespaceUris) (name : String) {unprefixed : NamespaceId}
    (hn : unprefixed ≠ 0 → (s.1.document.namespaceUris.resolve unprefixed).isSome) {clear : Prop}
    {allowed : List String} (ha : clear → Ample allowed s) :
    (resolveName name unprefixed).Meets s
      (fun id s' => Stores config [] s s' ∧
        (id ≠ 0 → (s'.1.document.namespaceUris.resolve id).isSome))
      fun _ s' => Halts config [] clear s s' := by
  unfold resolveName
  dsimp only
  split
  · rw [meets_pure]
    exact ⟨.refl h, hn⟩
  · rw [meets_observe_bind]
    split
    · next target ht =>
      rw [meets_pure]
      obtain ⟨id, -, ht⟩ := Option.bind_eq_some_iff.1 ht
      exact ⟨.refl h, hk.resolve ht⟩
    · rw [meets_bind, meets_report]
      split
      · rw [meets_pure]
        exact ⟨.reported h rfl, fun hne => absurd rfl hne⟩
      · next habort =>
        refine ⟨.reported h rfl, fun hc => ?_⟩
        rw [Journal.error, (ha hc).proceeds] at habort
        cases habort

/-- The names of the namespaces that some attributes declare. -/
def declaredUris (attributes : List Event.Attribute) : List String :=
  (attributes.filter (·.declaresNamespace)).map (·.value)

/-- The namespaces that the attributes of an element declare get numbers. -/
theorem declaredFrame_meets {clear : Prop} {allowed : List String}
    (attributes : List Event.Attribute) {frame : Namespace.Frame} (h : s.1.Active config)
    (hf : frame.Known s.1.document.namespaceUris) (ha : clear → Ample allowed s)
    (hu : clear → ∀ u ∈ declaredUris attributes, u ∈ allowed) :
    (declaredFrame attributes frame).Meets s
      (fun frame' s' => Stores config (declaredUris attributes) s s' ∧
        frame'.Known s'.1.document.namespaceUris)
      fun _ s' => Halts config (declaredUris attributes) clear s s' := by
  induction attributes generalizing s frame with
  | nil =>
    rw [declaredFrame, meets_pure]
    exact ⟨.refl h, hf⟩
  | cons attr rest ih =>
    have skip : ∀ u ∈ declaredUris rest, u ∈ declaredUris (attr :: rest) := by
      intro u hm
      rw [declaredUris, List.filter_cons]
      split
      · exact List.mem_cons_of_mem _ hm
      · exact hm
    have hrest : clear → ∀ u ∈ declaredUris rest, u ∈ allowed := fun hc u hm => hu hc u (skip u hm)
    rw [declaredFrame]
    split
    · exact (ih h hf ha hrest).mono (fun _ _ hp => ⟨hp.1.mono skip, hp.2⟩)
        fun _ _ hh => hh.mono skip
    · next declared hd =>
      have hdecl : attr.declaresNamespace = true := by
        rw [Event.Attribute.declaresNamespace, hd]
        rfl
      have head : ∀ u ∈ [attr.value], u ∈ declaredUris (attr :: rest) := by
        intro u hm
        rw [List.mem_singleton.1 hm, declaredUris, List.filter_cons, if_pos hdecl]
        exact List.mem_cons_self
      have after : ∀ (id : SymbolId) (s₁ : Builder × Journal), Stores config [] s s₁ →
          (if id = Document.xmlId ∨ id = Document.xmlnsId then declaredFrame rest frame
          else do
            let target ← storeNamespace attr.value
            declaredFrame rest (frame.declare id target)).Meets s₁
          (fun frame' s' =>
            Stores config (declaredUris (attr :: rest)) s s' ∧
              frame'.Known s'.1.document.namespaceUris)
          fun _ s' => Halts config (declaredUris (attr :: rest)) clear s s' := by
        intro id s₁ h₁
        have hs₁ : Stores config (declaredUris (attr :: rest)) s s₁ := h₁.mono nofun
        have ha₁ : clear → Ample allowed s₁ := fun hc => h₁.ample (ha hc) nofun
        split
        · exact (ih h₁.active (hf.mono h₁.extension.namespaceUri) ha₁ hrest).mono
            (fun _ _ hp => ⟨hs₁.trans (hp.1.mono skip), hp.2⟩) fun _ _ hh => hh.after hs₁ skip
        · rw [meets_bind]
          refine (storeNamespace_meets h₁.active attr.value ha₁ fun hc =>
            hu hc _ (head _ List.mem_cons_self)).mono (fun target s₂ h₂ => ?_)
              fun _ _ hh => hh.after hs₁ head
          have ha₂ : clear → Ample allowed s₂ := fun hc => h₂.1.ample (ha₁ hc) fun u hm =>
            hu hc u (head u hm)
          have hf₂ := (hf.mono h₁.extension.namespaceUri).mono h₂.1.extension.namespaceUri
          have hs₂ := hs₁.trans (h₂.1.mono head)
          exact (ih h₂.1.active (hf₂.declare id h₂.2) ha₂ hrest).mono
            (fun _ _ hp => ⟨hs₂.trans (hp.1.mono skip), hp.2⟩) fun _ _ hh => hh.after hs₂ skip
      dsimp only
      split
      · rw [meets_bind, meets_pure]
        exact after _ s (.refl h)
      · rw [meets_bind]
        exact (storeName_meets h declared).of_sure fun id s₁ hp => after id s₁ hp.1

/-! ### The attributes of an element -/

/-- What is stored of an attribute stands for it. -/
structure StandsFor (d : Document) (stored : StoredAttribute) (attr : Event.Attribute) : Prop where
  /-- The name. -/
  name : d.names.resolve stored.2.1 = some attr.name
  /-- The value. -/
  value : d.texts.resolve stored.2.2 = some attr.value
  /-- The namespace is known. -/
  namespaceId : stored.1 ≠ 0 → (d.namespaceUris.resolve stored.1).isSome

/-- What is stored of some attributes stands for them, one by one. -/
def StandFor (d : Document) : List StoredAttribute → List Event.Attribute → Prop
  | [], [] => True
  | stored :: rest, attr :: attrs => StandsFor d stored attr ∧ StandFor d rest attrs
  | _, _ => False

theorem StandsFor.mono {d d' : Document} {stored : StoredAttribute} {attr : Event.Attribute}
    (h : StandsFor d stored attr) (he : d.Extends d') : StandsFor d' stored attr where
  name := he.name h.name
  value := he.text h.value
  namespaceId hne := Symbol.isSome_of_kept he.namespaceUri (h.namespaceId hne)

theorem StandFor.mono {d d' : Document} {stored : List StoredAttribute}
    {attrs : List Event.Attribute} (h : StandFor d stored attrs) (he : d.Extends d') :
    StandFor d' stored attrs := by
  induction stored generalizing attrs with
  | nil =>
    cases attrs with
    | nil => trivial
    | cons _ _ => exact h
  | cons _ _ ih =>
    cases attrs with
    | nil => exact h
    | cons _ _ => exact ⟨h.1.mono he, ih h.2⟩

theorem StandFor.length_eq {d : Document} {stored : List StoredAttribute}
    {attrs : List Event.Attribute} (h : StandFor d stored attrs) :
    stored.length = attrs.length := by
  induction stored generalizing attrs with
  | nil =>
    cases attrs with
    | nil => rfl
    | cons _ _ => exact h.elim
  | cons _ _ ih =>
    cases attrs with
    | nil => exact h.elim
    | cons _ _ => rw [List.length_cons, List.length_cons, ih h.2]

/-- What is stored of one of the attributes stands for it. -/
theorem StandFor.standsFor {d : Document} {stored : List StoredAttribute}
    {attrs : List Event.Attribute} (h : StandFor d stored attrs) {i : Nat}
    {first : StoredAttribute} {attr : Event.Attribute} (hs : stored[i]? = some first)
    (ha : attrs[i]? = some attr) : StandsFor d first attr := by
  induction stored generalizing attrs i with
  | nil => cases hs
  | cons _ _ ih =>
    cases attrs with
    | nil => exact h.elim
    | cons _ _ =>
      cases i with
      | zero =>
        obtain rfl := Option.some.inj hs
        obtain rfl := Option.some.inj ha
        exact h.1
      | succ i => exact ih h.2 hs ha

/-- The records of attributes are those of what is stored of them. -/
theorem attributeRecords_meets {clear : Prop} {allowed : List String} (element : Nat)
    (attributes : List Event.Attribute) (node : Nat) (done : List Record)
    (h : s.1.Active config) (hk : s.1.scopes.Known s.1.document.namespaceUris)
    (ha : clear → Ample allowed s) :
    (attributeRecords element node attributes done).Meets s
      (fun records s' => Stores config [] s s' ∧ ∃ stored,
        StandFor s'.1.document stored attributes ∧
          records = done.reverse ++ attributePairs element node stored)
      fun _ s' => Halts config [] clear s s' := by
  induction attributes generalizing s node done with
  | nil =>
    rw [attributeRecords, meets_pure]
    exact ⟨.refl h, [], trivial, (List.append_nil _).symm⟩
  | cons attr rest ih =>
    have after : ∀ (id : NamespaceId) (s₁ : Builder × Journal), Stores config [] s s₁ ∧
        (id ≠ 0 → (s₁.1.document.namespaceUris.resolve id).isSome) →
        (do
          let name ← storeName attr.name
          let payload ← storeText attr.value
          attributeRecords element (node + 2) rest
            (.valueNode node payload ::
              .linked .attr id element name
                (if rest.isEmpty then Link.last else Link.next (node + 2)) :: done)).Meets s₁
        (fun records s' => Stores config [] s s' ∧ ∃ stored,
          StandFor s'.1.document stored (attr :: rest) ∧
            records = done.reverse ++ attributePairs element node stored)
        fun _ s' => Halts config [] clear s s' := by
      rintro id s₁ ⟨h₁, hid⟩
      rw [meets_bind]
      apply (storeName_meets h₁.active attr.name).of_sure
      intro name s₂ h₂
      rw [meets_bind]
      apply (storeText_meets h₂.1.active attr.value).of_sure
      intro payload s₃ h₃
      have hs := (h₁.trans h₂.1).trans h₃.1
      refine (ih (node + 2) _ h₃.1.active ?_ fun hc => hs.ample (ha hc) nofun).mono
        (fun records s₄ h₄ => ?_) fun _ _ hh => hh.after hs nofun
      · rw [hs.scopes]
        exact hk.mono hs.extension.namespaceUri
      · obtain ⟨h₄, stored, hstored, rfl⟩ := h₄
        have head : StandsFor s₃.1.document (id, name, payload) attr :=
          { name := h₃.1.extension.name h₂.2
            value := h₃.2
            namespaceId := fun hne => Symbol.isSome_of_kept
              (h₂.1.extension.trans h₃.1.extension).namespaceUri (hid hne) }
        refine ⟨hs.trans h₄, (id, name, payload) :: stored,
          ⟨head.mono h₄.extension, hstored⟩, ?_⟩
        have same : stored.isEmpty = rest.isEmpty := by
          have := hstored.length_eq
          cases stored <;> cases rest <;> simp_all
        rw [attributePairs, same]
        simp
    rw [attributeRecords]
    dsimp only
    split
    · rw [meets_bind, meets_pure]
      refine after _ s ⟨.refl h, fun _ => ?_⟩
      exact Option.isSome_iff_exists.2
        ⟨xmlnsUri, h.sound.extension.namespaceUri Document.resolve_xmlnsNamespace⟩
    · rw [meets_bind]
      exact (resolveName_meets h hk attr.name (fun hne => absurd rfl hne) ha).imp after

/-- The identifiers of an element are stored. -/
theorem identify_meets (element : Nat) (attributes : List Event.Attribute)
    (h : s.1.Active config) :
    (identify element attributes).Meets s (fun _ s' => Stores config [] s s')
      fun _ _ => False := by
  induction attributes generalizing s with
  | nil =>
    rw [identify, meets_pure]
    exact .refl h
  | cons attr rest ih =>
    have after : ∀ s₁ : Builder × Journal, Stores config [] s s₁ →
        (identify element rest).Meets s₁ (fun _ s' => Stores config [] s s')
          fun _ _ => False := fun s₁ h₁ => (ih h₁.active).imp fun _ s' h' => h₁.trans h'
    rw [identify]
    dsimp only
    split
    · rw [meets_bind]
      apply (storeName_meets h attr.value).of_sure
      intro value s₁ h₁
      rw [meets_observe_bind]
      split
      · rw [meets_bind, meets_warn]
        exact after _ (h₁.1.trans (.reported h₁.1.active rfl))
      · rw [meets_publish_bind]
        have g := Document.grows_identifier h₁.1.active.sound.wellFormed h₁.1.active.building
          value element
        exact after _ (h₁.1.trans (stores_record h₁.1.active g rfl fun _ hu => .inl hu))
    · exact after s (.refl h)

end Builder

end XmlTable
