import XmlTable.Proofs.Frontier
import XmlTable.Proofs.Scoping

/-!
# What the events of a builder do

While content is accepted, the table looks to the builder as its frontier says. Each event takes
one such builder to the next and appends the records that it stands for; only the last event leaves
a document whose links are all known. An event that fails leaves a document that is well formed and
still being built.
-/

namespace XmlTable

open Node

namespace Node.Table

@[simp] theorem capacity_append (t : Table) (rs : List Record) :
    (t.append rs).capacity = t.capacity := by
  unfold append
  induction rs generalizing t with
  | nil => rfl
  | cons r rest ih =>
    rw [List.foldl_cons, ih]
    unfold push
    split <;> rfl

@[simp] theorem capacity_settle (t : Table) (previous : Option (Nat × Kind)) (l : Link) :
    (t.settle previous l).capacity = t.capacity := by
  rcases settle_cases t previous l with ⟨_, _, -, -, h⟩ | ⟨-, h⟩ <;> rw [h]
  rfl

@[simp] theorem size_settle (t : Table) (previous : Option (Nat × Kind)) (l : Link) :
    (t.settle previous l).size = t.size := by
  rcases settle_cases t previous l with ⟨_, _, -, -, h⟩ | ⟨-, h⟩ <;> rw [h]
  rfl

/-- Records that were appended are there whatever links are filled in. -/
theorem get?_append_settle {t : Table} {rs : List Record} {i : Nat} {r : Record}
    (hr : rs[i]? = some r) {previous : Option (Nat × Kind)} {l : Link} :
    ∃ l', ((t.append rs).settle previous l).get? (t.size + i) = some (r.withLink l') := by
  have hget : (t.append rs).get? (t.size + i) = some r := by
    rw [get?_append, if_neg (by omega), Nat.add_sub_cancel_left, hr]
  have self : ∃ l', some r = some (r.withLink l') := by
    obtain ⟨l', hl'⟩ := Record.exists_withLink_eq_self r
    exact ⟨l', by rw [hl']⟩
  rcases settle_cases (t.append rs) previous l with ⟨n, k, -, -, hs⟩ | ⟨-, hs⟩
  · rw [hs, get?_setLink, hget]
    split
    · exact ⟨l, rfl⟩
    · exact self
  · rw [hs, hget]
    exact self

end Node.Table

namespace Builder

open Reporting

variable {config : Config} {b : Builder} {s s' s'' : Builder × Journal} {clear : Prop}

/-! ### Links that are filled in -/

/-- The builder after the link of a node, if there is one and it is of a linked kind, is filled
in. -/
def settle (b : Builder) (previous : Option (Nat × Kind)) (l : Link) : Builder :=
  match previous with
  | some (n, k) => if k.isLinked then b.record (.link n l) else b
  | none => b

theorem settle_eq (b : Builder) (previous : Option (Nat × Kind)) (l : Link) :
    b.settle previous l =
      { b with
        document := { b.document with nodes := b.document.nodes.settle previous l }
        history := (b.settle previous l).history } := by
  rcases previous with _ | ⟨n, k⟩
  · rfl
  · by_cases hk : k.isLinked = true
    · simp only [settle, Table.settle, if_pos hk]
      rfl
    · simp only [settle, Table.settle, if_neg hk]

/-- What is filled in is not known yet, and it is true. -/
structure IsTrue (t : Table) (n : Nat) (l : Link) : Prop where
  /-- The link is not known yet. -/
  old : t.link? n = some .pending
  /-- The next sibling is the one that is filled in. -/
  next : ∀ {m : Nat}, l = .next m → t.IsNext n m
  /-- The last sibling is the last one. -/
  last : l = .last → ∀ m, ¬ t.Follows n m

/-- A document grows when true links are filled in. -/
theorem Active.settle (h : b.Active config) (previous : Option (Nat × Kind)) (l : Link)
    (hl : l ≠ .pending) (ht : ∀ {n : Nat} {k : Kind}, previous = some (n, k) →
      k.isLinked = true → IsTrue b.document.nodes n l) :
    (b.settle previous l).Active config ∧
      b.document.Extends (b.settle previous l).document := by
  unfold Builder.settle
  split
  · next n k =>
    split
    · next hk =>
      have link := ht rfl hk
      have g := Document.grows_link h.sound.wellFormed h.building link.old hl link.next link.last
      exact ⟨⟨h.sound.record g, h.building, h.stage⟩, g.extension⟩
    · exact ⟨h, .refl _⟩
  · exact ⟨h, .refl _⟩

theorem linkPrevious_meets (node : Nat) (kind : Kind) {onOk : Unit → Builder × Journal → Prop}
    {onFail : Failure → Builder × Journal → Prop} :
    (linkPrevious node kind).Meets s onOk onFail ↔
      onOk ()
        ({ s.1.settle s.1.previous (.next node) with previous := some (node, kind) }, s.2) := by
  unfold linkPrevious settle
  rw [meets_observe_bind]
  dsimp only
  split
  · next heq =>
    rw [heq]
    dsimp only
    split
    · rfl
    · rfl
  · next heq =>
    rw [heq]
    rfl

/-! ### While content is accepted -/

/-- A builder that accepts content: the table looks to it as its frontier says. -/
structure Open (config : Config) (b : Builder) : Prop extends b.Active config where
  /-- The start was seen. -/
  open_stage : b.stage = .documentOpen
  /-- The builder remembers the frontier of the table. -/
  frontier : b.document.nodes.Frontier b.cursor b.previous b.lastEntity b.entitiesClosed
  /-- It knows whether entities may be declared. -/
  isSealed : b.document.entities.isSealed = b.entitiesClosed
  /-- The namespaces in scope have names. -/
  known : b.scopes.Known b.document.namespaceUris

/-- While content is accepted the end was not seen. -/
theorem Open.not_closed (h : b.Open config) : b.stage ≠ .documentClosed := by
  simp [h.open_stage]

theorem Open.layout (h : b.Open config) : b.document.nodes.Layout :=
  h.sound.wellFormed.layout

theorem Open.linked (h : b.Open config) : b.document.nodes.Linked :=
  h.sound.wellFormed.linked

/-- Storing strings leaves the frontier as it is. -/
theorem Open.stores {uris : List String} (h : s.1.Open config) (hs : Stores config uris s s') :
    s'.1.Open config where
  toActive := hs.active
  open_stage := by rw [hs.same]; exact h.open_stage
  frontier := by rw [hs.same]; exact h.frontier
  isSealed := by rw [hs.same]; exact h.isSealed
  known := by
    rw [hs.scopes]
    exact h.known.mono hs.extension.namespaceUri

/-- The document grew, and its capacity and the handler stayed as they are. -/
structure Keeps (uris : List String) (s s' : Builder × Journal) : Prop where
  /-- The document grew. -/
  extension : s.1.document.Extends s'.1.document
  /-- No other names of namespaces were stored. -/
  uris : ∀ u ∈ s'.1.document.namespaceUris.entries,
    u ∈ s.1.document.namespaceUris.entries ∨ u ∈ uris
  /-- There is room for as many nodes. -/
  capacity : s'.1.document.nodes.capacity = s.1.document.nodes.capacity
  /-- The handler is the same. -/
  handler : s'.2.handler = s.2.handler

namespace Keeps

variable {uris : List String}

theorem refl (s : Builder × Journal) : Keeps uris s s :=
  ⟨.refl _, fun _ hu => .inl hu, rfl, rfl⟩

theorem trans (h : Keeps uris s s') (h' : Keeps uris s' s'') : Keeps uris s s'' :=
  ⟨h.extension.trans h'.extension, fun u hm => (h'.uris u hm).elim (h.uris u) .inr,
    h'.capacity.trans h.capacity, h'.handler.trans h.handler⟩

theorem mono {uris' : List String} (h : Keeps uris s s') (hu : ∀ u ∈ uris, u ∈ uris') :
    Keeps uris' s s' :=
  ⟨h.extension, fun u hm => (h.uris u hm).imp_right (hu u), h.capacity, h.handler⟩

theorem ofStores (h : Stores config uris s s') : Keeps uris s s' :=
  ⟨h.extension, h.uris, by rw [h.nodes], h.handler⟩

/-- What was enough stays enough if the names that were stored are allowed for. -/
theorem ample (h : Keeps uris s s') {allowed : List String} (ha : Ample allowed s)
    (hu : ∀ u ∈ uris, u ∈ allowed) : Ample allowed s' where
  proceeds := by
    rw [h.handler]
    exact ha.proceeds
  uris u hm := (h.uris u hm).elim (ha.uris u) (hu u)
  room := ha.room

end Keeps

/-- A builder that accepts content went on to one that does, and appended some records. -/
structure Adds (config : Config) (uris : List String) (records : List Record)
    (s s' : Builder × Journal) : Prop where
  /-- Content is accepted still. -/
  isOpen : s'.1.Open config
  /-- The document grew. -/
  keeps : Keeps uris s s'
  /-- It grew by so many records. -/
  size : s'.1.document.nodes.size = s.1.document.nodes.size + records.length
  /-- The records are there. -/
  holds : ∀ {i : Nat} {r : Record}, records[i]? = some r →
    s'.1.document.Holds (s.1.document.nodes.size + i) r

section Adds

variable {uris : List String} {first rest : List Record}

theorem Adds.holds_left (h : Adds config uris (first ++ rest) s s') {i : Nat} {r : Record}
    (hr : first[i]? = some r) : s'.1.document.Holds (s.1.document.nodes.size + i) r := by
  apply h.holds
  rw [List.getElem?_append_left (List.getElem?_eq_some_iff.1 hr).1, hr]

theorem Adds.holds_right (h : Adds config uris (first ++ rest) s s') {i : Nat} {r : Record}
    (hr : rest[i]? = some r) :
    s'.1.document.Holds (s.1.document.nodes.size + first.length + i) r := by
  rw [Nat.add_assoc]
  apply h.holds
  rw [List.getElem?_append_right (Nat.le_add_right ..), Nat.add_sub_cancel_left, hr]

end Adds

theorem Adds.trans {uris : List String} {rs rs' : List Record} (h : Adds config uris rs s s')
    (h' : Adds config uris rs' s' s'') : Adds config uris (rs ++ rs') s s'' where
  isOpen := h'.isOpen
  keeps := h.keeps.trans h'.keeps
  size := by
    rw [h'.size, h.size, List.length_append]
    omega
  holds {i r} hr := by
    by_cases hi : i < rs.length
    · rw [List.getElem?_append_left hi] at hr
      exact (h.holds hr).mono h'.keeps.extension
    · have hi : rs.length ≤ i := Nat.le_of_not_lt hi
      rw [List.getElem?_append_right hi] at hr
      have := h'.holds hr
      rw [h.size] at this
      rwa [show s.1.document.nodes.size + i =
        s.1.document.nodes.size + rs.length + (i - rs.length) by omega]

theorem Adds.mono {uris uris' : List String} {rs : List Record} (h : Adds config uris rs s s')
    (hu : ∀ u ∈ uris, u ∈ uris') : Adds config uris' rs s s' where
  isOpen := h.isOpen
  keeps := h.keeps.mono hu
  size := h.size
  holds := h.holds

theorem Adds.ofStores (h : s.1.Open config) {uris : List String} (hs : Stores config uris s s') :
    Adds config uris [] s s' where
  isOpen := h.stores hs
  keeps := .ofStores hs
  size := by rw [hs.nodes]; rfl
  holds := nofun

/-- What a builder remembers for itself plays no part at the start. -/
theorem Adds.of_eq {uris : List String} {rs : List Record} {s₀ : Builder × Journal}
    (h : Adds config uris rs s s') (hd : s.1.document = s₀.1.document) (hj : s.2 = s₀.2) :
    Adds config uris rs s₀ s' where
  isOpen := h.isOpen
  keeps :=
    { extension := by rw [← hd]; exact h.keeps.extension
      uris := by rw [← hd]; exact h.keeps.uris
      capacity := by rw [← hd]; exact h.keeps.capacity
      handler := by rw [← hj]; exact h.keeps.handler }
  size := by rw [← hd]; exact h.size
  holds := by rw [← hd]; exact h.holds

/-! ### Appending -/

/-- Records are appended if the document grows by them, unless there is no room. -/
theorem append_meets {records : List Record}
    (room : clear → s.1.document.nodes.size + records.length ≤ s.1.document.nodes.capacity)
    {onOk : Nat → Builder × Journal → Prop}
    (ok : s.1.document.nodes.hasRoom records.length = true →
      onOk s.1.document.nodes.size (s.1.record (.append records), s.2)) :
    (append records).Meets s onOk fun _ s' => s' = s ∧ ¬ clear := by
  unfold append
  rw [meets_observe_bind, meets_observe_bind]
  dsimp only
  split
  · next hfull =>
    rw [meets_bind, meets_throw]
    refine ⟨rfl, fun hc => ?_⟩
    have := room hc
    simp [Table.hasRoom] at hfull
    omega
  · next hroom =>
    rw [meets_publish_bind, meets_pure]
    exact ok (by simpa using hroom)

/-- A record with a payload refers to strings if its name and its payload do. -/
theorem resolves_leaf {d : Document} {kind : Kind} {flags : TextFlags} {parent : Nat}
    {payload name : SymbolId} (hp : (d.texts.resolve payload).isSome)
    (hn : (d.names.resolve name).isSome) :
    d.Resolves (.leaf kind flags parent payload name) where
  name := hn
  payload _ s hs := by
    obtain rfl : payload = s := LinkField.payload.inj hs
    exact hp
  namespaceId hne := absurd rfl hne

/-- A record with a link refers to strings if its name and its namespace do. -/
theorem resolves_linked {d : Document} {kind : Kind} {namespaceId : NamespaceId} {parent : Nat}
    {name : SymbolId} {link : Link} (hn : (d.names.resolve name).isSome)
    (hu : namespaceId ≠ 0 → (d.namespaceUris.resolve namespaceId).isSome) :
    d.Resolves (.linked kind namespaceId parent name link) where
  name := hn
  payload _ s hs := by cases hs
  namespaceId := hu

/-- The empty name is always there. -/
theorem isSome_resolve_zero (d : Document) : (d.names.resolve 0).isSome :=
  Option.isSome_iff_exists.2 ⟨"", d.names.entries_zero⟩

theorem resolves_attributePairs {d : Document} {stored : List StoredAttribute}
    {attrs : List Event.Attribute} (h : StandFor d stored attrs) (element node : Nat) :
    ∀ r ∈ attributePairs element node stored, d.Resolves r := by
  induction stored generalizing node attrs with
  | nil => exact fun r hr => absurd hr List.not_mem_nil
  | cons first rest ih =>
    cases attrs with
    | nil => exact h.elim
    | cons attr attrs =>
      intro r hr
      rcases List.mem_cons.1 hr with rfl | hr
      · exact resolves_linked (Option.isSome_iff_exists.2 ⟨_, h.1.name⟩) h.1.namespaceId
      · rcases List.mem_cons.1 hr with rfl | hr
        · exact resolves_leaf (Option.isSome_iff_exists.2 ⟨_, h.1.value⟩) (isSome_resolve_zero d)
        · exact ih h.2 _ r hr

/-- The builder after a child was published with its attributes, and the child before it was
linked to it. -/
def afterChild (b : Builder) (own : Record) (attrs : List StoredAttribute) : Builder :=
  (b.record (.append (b.document.nodes.childBatch own attrs))).settle b.previous
    (.next b.document.nodes.size)

section Child

variable {own : Record} {attrs : List StoredAttribute}

theorem afterChild_eq (b : Builder) (own : Record) (attrs : List StoredAttribute) :
    b.afterChild own attrs =
      { b with
        document := { b.document with nodes := b.document.nodes.addChild own attrs b.previous }
        history := (b.afterChild own attrs).history } :=
  settle_eq ..

/-- The document grows by a child at the cursor. -/
theorem Open.afterChild (h : b.Open config) (hr : Table.IsChildRecord own b.cursor attrs)
    (resolves : ∀ r ∈ b.document.nodes.childBatch own attrs, b.document.Resolves r)
    (room : b.document.nodes.hasRoom (b.document.nodes.childBatch own attrs).length = true) :
    (b.afterChild own attrs).Active config ∧
      b.document.Extends (b.afterChild own attrs).document := by
  have f := h.frontier
  have g : b.document.Grows
      (b.document.apply (.append (b.document.nodes.childBatch own attrs))) := by
    refine Document.grows_append h.sound.wellFormed h.building
      (h.layout.appendChild f.isOpen hr) (h.linked.appendChild h.layout f.isOpen hr) resolves room
      fun {n e} he hk hp => Nat.lt_of_not_le fun hn => ?_
    rcases Table.childBatch_cases hn hk with
      ⟨-, hk, -⟩ | ⟨i, -, ⟨-, -, hp', -⟩ | ⟨-, hk, -⟩⟩
    · have hv := hr.kind.2
      rw [← hk] at hv
      cases hv
    · have : b.document.nodes.size = e := Option.some.inj (hp'.symm.trans hp)
      omega
    · cases hk
  have first : (b.record (.append (b.document.nodes.childBatch own attrs))).Active config :=
    ⟨h.sound.record g, h.building, h.stage⟩
  obtain ⟨active, extension⟩ := first.settle b.previous
    (.next b.document.nodes.size) nofun fun {n k} hp hk =>
      { old := by
          show (b.document.nodes.append _).link? n = _
          rw [Table.link?_append, if_pos (f.child hp).1.1.lt_size]
          exact f.child_pending hp hk
        next := fun he => by
          obtain rfl := Link.next.inj he
          exact f.isNext h.layout hr hp
        last := nofun }
  exact ⟨active, g.extension.trans extension⟩

/-- The records of a child stand after those that were there before. -/
theorem holds_afterChild {i : Nat} {r : Record}
    (hr : (b.document.nodes.childBatch own attrs)[i]? = some r) :
    (b.afterChild own attrs).document.Holds (b.document.nodes.size + i) r := by
  rw [afterChild_eq]
  exact Table.get?_append_settle hr

end Child

/-- A child that is no element is appended at the cursor. -/
theorem appendChild_meets (h : s.1.Open config) {own : Record}
    (hr : Table.IsChildRecord own s.1.cursor []) (hne : own.kind ≠ .element)
    (resolves : s.1.document.Resolves own)
    (room : clear → s.1.document.nodes.size + 1 ≤ s.1.document.nodes.capacity) :
    (appendChild own).Meets s
      (fun _ s' => Adds config [] [own] s s' ∧ s'.1.cursor = s.1.cursor ∧
        s'.1.pending = s.1.pending ∧ s'.1.entitiesClosed = s.1.entitiesClosed)
      fun _ s' => s' = s ∧ ¬ clear := by
  unfold appendChild
  rw [meets_bind]
  apply append_meets room
  intro hroom
  rw [linkPrevious_meets]
  obtain ⟨active, extension⟩ := h.afterChild hr (fun r hm => by
    obtain rfl := List.mem_singleton.1 hm
    exact resolves) hroom
  have frontier := h.frontier.addLeaf h.layout h.linked hr hne
  have eq := afterChild_eq s.1 own []
  -- The last child is remembered after it was linked to.
  have adds : Adds config [] [own] s
      ({ s.1.afterChild own [] with previous := some (s.1.document.nodes.size, own.kind) }, s.2) :=
    { isOpen :=
        { toActive := active.of_eq rfl rfl rfl
          open_stage := by rw [eq]; exact h.open_stage
          frontier := by rw [eq]; exact frontier
          isSealed := by rw [eq]; exact h.isSealed
          known := by rw [eq]; exact h.known }
      keeps :=
        { extension := extension
          uris := fun u hu => by
            rw [eq] at hu
            exact .inl hu
          capacity := by
            rw [eq]
            simp [Table.addChild]
          handler := rfl }
      size := by
        rw [eq]
        simp [Table.addChild, Table.length_childBatch]
      holds := fun hr => holds_afterChild hr }
  have rest : (s.1.afterChild own []).cursor = s.1.cursor ∧
      (s.1.afterChild own []).pending = s.1.pending ∧
      (s.1.afterChild own []).entitiesClosed = s.1.entitiesClosed := by
    rw [eq]
    exact ⟨rfl, rfl, rfl⟩
  exact ⟨adds, rest⟩

/-! ### Text and other leaves -/

/-- Content is accepted whatever is held back. -/
theorem Open.of_pending (h : b.Open config) (pending : Option (String × TextFlags)) :
    Open config { b with pending } where
  toActive := h.toActive.of_eq rfl rfl rfl
  open_stage := h.open_stage
  frontier := h.frontier
  isSealed := h.isSealed
  known := h.known

/-- The characters held back that will be appended. -/
def held (b : Builder) : Option (String × TextFlags) :=
  b.pending.filter fun text => !(text.2.ignorable && b.document.config.stripIgnorable)

/-- The records of characters that are appended under a node, if there are any. -/
def TextRecords (d : Document) (c : Nat) : Option (String × TextFlags) → List Record → Prop
  | none, records => records = []
  | some (text, flags), records => ∃ payload, records = [.leaf .text flags c payload 0] ∧
      d.texts.resolve payload = some text

theorem TextRecords.length_eq {d : Document} {c : Nat} {text : Option (String × TextFlags)}
    {records : List Record} (h : TextRecords d c text records) :
    records.length = text.toList.length := by
  rcases text with _ | ⟨text, flags⟩
  · obtain rfl : records = [] := h
    rfl
  · obtain ⟨payload, rfl, -⟩ := h
    rfl

theorem TextRecords.mono {d d' : Document} {c : Nat} {text : Option (String × TextFlags)}
    {records : List Record} (h : TextRecords d c text records)
    (kept : ∀ {id : SymbolId} {text : String}, d.texts.resolve id = some text →
      d'.texts.resolve id = some text) : TextRecords d' c text records := by
  rcases text with _ | ⟨text, flags⟩
  · exact h
  · obtain ⟨payload, hr, ht⟩ := h
    exact ⟨payload, hr, kept ht⟩

/-- The record of a leaf at the cursor. -/
theorem isChildRecord_leaf {kind : Kind} (hk : kind = .text ∨ kind = .comment ∨ kind = .instruction)
    (flags : TextFlags) (c : Nat) (payload name : SymbolId) :
    Table.IsChildRecord (.leaf kind flags c payload name) c [] where
  kind := by rcases hk with rfl | rfl | rfl <;> exact ⟨nofun, rfl⟩
  parent := rfl
  link := by rcases hk with rfl | rfl | rfl <;> rfl
  attrs hne := absurd rfl hne

/-- The characters held back are appended, if there are any, and then some other records. -/
structure Flushes (config : Config) (texts own : List Record) (s s' : Builder × Journal) :
    Prop where
  /-- The records of the characters. -/
  text : TextRecords s'.1.document s.1.cursor s.1.held texts
  /-- All records are appended. -/
  adds : Adds config [] (texts ++ own) s s'
  /-- The cursor stays. -/
  cursor : s'.1.cursor = s.1.cursor
  /-- No characters are held back. -/
  pending : s'.1.pending = none
  /-- It stays as it is whether entities may be declared. -/
  entitiesClosed : s'.1.entitiesClosed = s.1.entitiesClosed

theorem Flushes.stores {texts own : List Record} (h : Flushes config texts own s s')
    (hs : Stores config [] s' s'') : Flushes config texts own s s'' where
  text := h.text.mono hs.extension.text
  adds := by
    have := h.adds.trans (.ofStores h.adds.isOpen hs)
    rwa [List.append_nil] at this
  cursor := by rw [hs.same]; exact h.cursor
  pending := by rw [hs.same]; exact h.pending
  entitiesClosed := by rw [hs.same]; exact h.entitiesClosed

theorem Flushes.size {texts own : List Record} (h : Flushes config texts own s s') :
    s'.1.document.nodes.size =
      s.1.document.nodes.size + s.1.held.toList.length + own.length := by
  rw [h.adds.size, List.length_append, h.text.length_eq, Nat.add_assoc]

/-- The construction goes wrong, which it does not if enough was provided. At most the characters
held back were appended. -/
structure Breaks (config : Config) (clear : Prop) (s s' : Builder × Journal) : Prop where
  /-- What was appended up to there. -/
  adds : ∃ uris texts, Adds config uris texts s s' ∧
    (texts = [] ∨ TextRecords s'.1.document s.1.cursor s.1.held texts)
  /-- Too little was provided. -/
  unclear : ¬ clear

theorem Breaks.refl (h : s.1.Open config) (hc : ¬ clear) : Breaks config clear s s :=
  ⟨⟨[], [], .ofStores h (.refl h.toActive), .inl rfl⟩, hc⟩

/-- Nothing but the characters held back was appended. -/
theorem Flushes.breaks {texts : List Record} (h : Flushes config texts [] s s') (hc : ¬ clear) :
    Breaks config clear s s' := by
  have adds := h.adds
  rw [List.append_nil] at adds
  exact ⟨⟨[], texts, adds, .inr h.text⟩, hc⟩

/-- The characters held back were appended before the construction went wrong. -/
theorem Halts.breaks {uris uris' : List String} {texts : List Record}
    (h : Halts config uris clear s' s'') (adds : Adds config uris' texts s s')
    (text : TextRecords s'.1.document s.1.cursor s.1.held texts) (hu : ∀ u ∈ uris, u ∈ uris') :
    Breaks config clear s s'' := by
  have all := adds.trans (.ofStores adds.isOpen (h.stores.mono hu))
  rw [List.append_nil] at all
  exact ⟨⟨uris', texts, all, .inr (text.mono h.stores.extension.text)⟩, h.unclear⟩

theorem flushText_meets (h : s.1.Open config)
    (room : clear →
      s.1.document.nodes.size + s.1.held.toList.length ≤ s.1.document.nodes.capacity) :
    flushText.Meets s (fun _ s' => ∃ texts, Flushes config texts [] s s')
      fun _ s' => Breaks config clear s s' := by
  unfold flushText
  rw [meets_observe_bind]
  split
  · next hp =>
    rw [meets_pure]
    have hheld : s.1.held = none := by rw [held, hp, Option.filter_none]
    exact ⟨[], by rw [hheld]; rfl, .ofStores h (.refl h.toActive), rfl, hp, rfl⟩
  · next text flags hp =>
    rw [meets_update_bind, meets_observe_bind]
    have h₁ := h.of_pending none
    split
    · next hstrip =>
      have hheld : s.1.held = none := by
        rw [held, hp, Option.filter_some, if_neg (by simpa using hstrip)]
      rw [meets_pure]
      have adds : Adds config [] [] ({ s.1 with pending := none }, s.2)
          ({ s.1 with pending := none }, s.2) := .ofStores h₁ (.refl h₁.toActive)
      exact ⟨[], by rw [hheld]; rfl, adds.of_eq rfl rfl, rfl, rfl, rfl⟩
    · next hstrip =>
      have hheld : s.1.held = some (text, flags) := by
        rw [held, hp, Option.filter_some, if_pos]
        simpa only [Bool.not_eq_true', Bool.not_eq_true] using hstrip
      rw [hheld] at room
      rw [meets_bind]
      apply (storeText_meets h₁.toActive text).of_sure
      intro payload s₂ h₂
      have first : Adds config [] [] _ s₂ := .ofStores h₁ h₂.1
      have hcursor : s₂.1.cursor = s.1.cursor := by rw [h₂.1.same]
      have hpending : s₂.1.pending = none := by rw [h₂.1.same]
      have hclosed : s₂.1.entitiesClosed = s.1.entitiesClosed := by rw [h₂.1.same]
      rw [meets_observe_bind, hcursor]
      refine (appendChild_meets first.isOpen ?_ (fun hk => by cases hk)
        ?_ (?_ : clear → _)).mono ?_ ?_
      · rw [hcursor]
        exact isChildRecord_leaf (.inl rfl) ..
      · exact resolves_leaf (Option.isSome_iff_exists.2 ⟨_, h₂.2⟩) (isSome_resolve_zero _)
      · rw [h₂.1.nodes]
        exact room
      · rintro _ s₃ ⟨adds, hc, hp, he⟩
        refine ⟨[.leaf .text flags s.1.cursor payload 0], ?_,
          (first.trans adds).of_eq rfl rfl, ?_, ?_, ?_⟩
        · rw [hheld]
          exact ⟨payload, rfl, adds.keeps.extension.text h₂.2⟩
        · rw [hc, hcursor]
        · rw [hp, hpending]
        · rw [he, hclosed]
      · rintro _ _ ⟨rfl, hc⟩
        exact ⟨⟨[], [], first.of_eq rfl rfl, .inl rfl⟩, hc⟩

/-- What is held back and then a leaf is appended. -/
theorem appendLeaf_meets {texts : List Record} (h : Flushes config texts [] s s') {own : Record}
    (hr : Table.IsChildRecord own s.1.cursor []) (hne : own.kind ≠ .element)
    (resolves : s'.1.document.Resolves own)
    (room : clear →
      s.1.document.nodes.size + s.1.held.toList.length + 1 ≤ s.1.document.nodes.capacity) :
    (appendChild own).Meets s'
      (fun _ s'' => s'.1.document.Extends s''.1.document ∧ Flushes config texts [own] s s'')
      fun _ s'' => Breaks config clear s s'' := by
  refine (appendChild_meets h.adds.isOpen (by rw [h.cursor]; exact hr) hne resolves
    (?_ : clear → _)).mono ?_ ?_
  · rw [h.size, h.adds.keeps.capacity]
    exact room
  · rintro _ s'' ⟨adds, hc, hp, he⟩
    refine ⟨adds.keeps.extension, h.text.mono adds.keeps.extension.text, ?_, ?_, ?_, ?_⟩
    · have := h.adds.trans adds
      rwa [List.append_nil] at this
    · rw [hc, h.cursor]
    · rw [hp, h.pending]
    · rw [he, h.entitiesClosed]
  · rintro _ _ ⟨rfl, hc⟩
    exact h.breaks hc

/-- The record that stands for a comment, a processing instruction or a reference. -/
inductive LeafRecord (d : Document) (c : Nat) : Event → Record → Prop
  | comment {text : String} {payload : SymbolId} : d.texts.resolve payload = some text →
      LeafRecord d c (.comment text) (.leaf .comment {} c payload 0)
  | instruction {target data : String} {payload name : SymbolId} :
      d.texts.resolve payload = some data → d.names.resolve name = some target →
      LeafRecord d c (.instruction target data) (.leaf .instruction {} c payload name)
  | reference {name : String} {id : SymbolId} : d.names.resolve id = some name →
      LeafRecord d c (.entityReference name) (.linked .reference 0 c id .pending)

/-- What comes of an event that stands for one leaf. -/
def AddsLeaf (config : Config) (event : Event) (s s' : Builder × Journal) : Prop :=
  ∃ texts own, Flushes config texts [own] s s' ∧
    LeafRecord s'.1.document s.1.cursor event own

section Leaf

variable (h : s.1.Open config)
  (room : clear →
    s.1.document.nodes.size + s.1.held.toList.length + 1 ≤ s.1.document.nodes.capacity)
include h room

theorem comment_meets (text : String) :
    (comment text).Meets s (fun _ s' => AddsLeaf config (.comment text) s s')
      fun _ s' => Breaks config clear s s' := by
  unfold comment
  rw [meets_bind]
  apply (flushText_meets h fun hc => Nat.le_of_succ_le (room hc)).imp
  rintro _ s₁ ⟨texts, h₁⟩
  rw [meets_bind]
  apply (storeText_meets h₁.adds.isOpen.toActive text).of_sure
  intro payload s₂ h₂
  have flushed := h₁.stores h₂.1
  rw [meets_observe_bind, flushed.cursor]
  refine (appendLeaf_meets flushed (isChildRecord_leaf (.inr (.inl rfl)) ..)
    (fun hk => by cases hk) ?_ room).imp fun _ s₃ h₃ => ⟨texts, _, h₃.2, ?_⟩
  · exact resolves_leaf (Option.isSome_iff_exists.2 ⟨_, h₂.2⟩) (isSome_resolve_zero _)
  · exact .comment (h₃.1.text h₂.2)

theorem instruction_meets (target data : String) :
    (instruction target data).Meets s
      (fun _ s' => AddsLeaf config (.instruction target data) s s')
      fun _ s' => Breaks config clear s s' := by
  unfold instruction
  rw [meets_bind]
  apply (flushText_meets h fun hc => Nat.le_of_succ_le (room hc)).imp
  rintro _ s₁ ⟨texts, h₁⟩
  rw [meets_bind]
  apply (storeText_meets h₁.adds.isOpen.toActive data).of_sure
  intro payload s₂ h₂
  rw [meets_bind]
  apply (storeName_meets h₂.1.active target).of_sure
  intro name s₃ h₃
  have flushed := h₁.stores (h₂.1.trans h₃.1)
  have payload_resolves := h₃.1.extension.text h₂.2
  rw [meets_observe_bind, flushed.cursor]
  refine (appendLeaf_meets flushed (isChildRecord_leaf (.inr (.inr rfl)) ..)
    (fun hk => by cases hk) ?_ room).imp fun _ s₄ h₄ => ⟨texts, _, h₄.2, ?_⟩
  · exact resolves_leaf (Option.isSome_iff_exists.2 ⟨_, payload_resolves⟩)
      (Option.isSome_iff_exists.2 ⟨_, h₃.2⟩)
  · exact .instruction (h₄.1.text payload_resolves) (h₄.1.name h₃.2)

theorem entityReference_meets (name : String) :
    (entityReference name).Meets s (fun _ s' => AddsLeaf config (.entityReference name) s s')
      fun _ s' => Breaks config clear s s' := by
  unfold entityReference
  rw [meets_bind]
  apply (flushText_meets h fun hc => Nat.le_of_succ_le (room hc)).imp
  rintro _ s₁ ⟨texts, h₁⟩
  rw [meets_bind]
  apply (storeName_meets h₁.adds.isOpen.toActive name).of_sure
  intro id s₂ h₂
  have flushed := h₁.stores h₂.1
  have child : Table.IsChildRecord (.linked .reference 0 s.1.cursor id .pending) s.1.cursor [] :=
    { kind := ⟨nofun, rfl⟩
      parent := rfl
      link := rfl
      attrs := fun hne => absurd rfl hne }
  rw [meets_observe_bind, flushed.cursor]
  refine (appendLeaf_meets flushed child (fun hk => by cases hk) ?_ room).imp
    fun _ s₃ h₃ => ⟨texts, _, h₃.2, ?_⟩
  · exact resolves_linked (Option.isSome_iff_exists.2 ⟨_, h₂.2⟩) fun hne => absurd rfl hne
  · exact .reference (h₃.1.name h₂.2)

end Leaf

/-! ### Closing the chains -/

/-- The builder after it was told that no entity comes any more. -/
def sealEntities (b : Builder) : Builder :=
  if b.entitiesClosed then b
  else
    Builder.record
      { b.settle (b.lastEntity.map (·, .entity)) .last with entitiesClosed := true } .closeEntities

theorem closeEntities_meets {onOk : Unit → Builder × Journal → Prop}
    {onFail : Failure → Builder × Journal → Prop} :
    closeEntities.Meets s onOk onFail ↔ onOk () (s.1.sealEntities, s.2) := by
  unfold closeEntities sealEntities
  rw [meets_observe_bind]
  dsimp only
  split
  · rfl
  · rw [meets_observe_bind]
    split
    · next heq => rw [heq]; rfl
    · next heq => rw [heq]; rfl

/-- The nodes when no entity comes any more. -/
def sealedNodes (b : Builder) : Table :=
  if b.entitiesClosed then b.document.nodes
  else b.document.nodes.settle (b.lastEntity.map (·, .entity)) .last

theorem sealEntities_eq (h : b.document.entities.isSealed = b.entitiesClosed) :
    b.sealEntities =
      { b with
        document :=
          { b.document with
            nodes := b.sealedNodes
            entities := { b.document.entities with isSealed := true } }
        history := b.sealEntities.history
        entitiesClosed := true } := by
  unfold sealEntities sealedNodes
  split
  · next hc =>
    rw [hc] at h
    have same : { b.document.entities with isSealed := true } = b.document.entities := by
      rw [← h]
    rw [same, ← hc]
  · rw [settle_eq]
    rfl

theorem alike_sealedNodes (b : Builder) : b.document.nodes.Alike b.sealedNodes := by
  unfold sealedNodes
  split
  · exact ⟨rfl, rfl⟩
  · exact Table.alike_settle ..

theorem link?_of_link?_sealedNodes {n : Nat} (h : b.sealedNodes.link? n = some .pending) :
    b.document.nodes.link? n = some .pending := by
  unfold sealedNodes at h
  split at h
  · exact h
  · exact Table.link?_of_link?_settle h nofun

/-- The document grows when no entity comes any more. -/
theorem Active.sealEntities (h : b.Active config)
    (hc : b.document.nodes.EntityChain b.lastEntity b.entitiesClosed) :
    b.sealEntities.Active config ∧ b.document.Extends b.sealEntities.document ∧
      b.sealedNodes.EntityChain b.lastEntity true := by
  unfold Builder.sealEntities sealedNodes
  split
  · next hclosed =>
    rw [hclosed] at hc
    exact ⟨h, .refl _, hc⟩
  · next hclosed =>
    rw [Bool.eq_false_iff.2 hclosed] at hc
    obtain ⟨active, extension⟩ := h.settle (b.lastEntity.map (·, .entity))
      .last nofun fun {n k} hn _ => by
        obtain ⟨e, he, hn⟩ := Option.map_eq_some_iff.1 hn
        rw [(Prod.mk.inj hn).1] at he
        exact
          { old := (hc.entity (hc.lastEntity_kind he)).2 ⟨rfl, he⟩
            next := nofun
            last := fun _ m => hc.not_follows he }
    have g := Document.grows_closeEntities active.sound.wellFormed active.building
    have first : Active config
        { b.settle (b.lastEntity.map (·, .entity)) .last with entitiesClosed := true } :=
      active.of_eq rfl rfl rfl
    exact ⟨⟨first.sound.record g, first.building, first.stage⟩, extension.trans g.extension,
      hc.closeEntities⟩

/-- Content is accepted still when no entity comes any more. -/
theorem Open.sealEntities (h : b.Open config) : b.sealEntities.Open config := by
  have eq := sealEntities_eq h.isSealed
  obtain ⟨active, extension, -⟩ := h.toActive.sealEntities h.frontier.toEntityChain
  have frontier : b.sealedNodes.Frontier b.cursor b.previous b.lastEntity true := by
    unfold sealedNodes
    have f := h.frontier
    split
    · next hc =>
      rw [hc] at f
      exact f
    · next hc =>
      rw [Bool.eq_false_iff.2 hc] at f
      exact f.closeEntities
  exact
    { toActive := active
      open_stage := by rw [eq]; exact h.open_stage
      frontier := by rw [eq]; exact frontier
      isSealed := by rw [eq]
      known := by rw [eq]; exact h.known }

theorem Open.adds_sealEntities (h : s.1.Open config) :
    Adds config [] [] s (s.1.sealEntities, s.2) where
  isOpen := h.sealEntities
  keeps :=
    { extension := (h.toActive.sealEntities h.frontier.toEntityChain).2.1
      uris := fun u hu => by
        rw [sealEntities_eq h.isSealed] at hu
        exact .inl hu
      capacity := by
        rw [sealEntities_eq h.isSealed]
        show s.1.sealedNodes.capacity = _
        unfold sealedNodes
        split <;> simp
      handler := rfl }
  size := by
    rw [sealEntities_eq h.isSealed]
    show s.1.sealedNodes.size = _
    unfold sealedNodes
    split <;> simp
  holds := nofun

/-- Whatever is linked among the children has a link that is known once the last one has none after
it. -/
theorem closeSiblings_meets (h : s.1.Open config) {onOk : Unit → Builder × Journal → Prop}
    {onFail : Failure → Builder × Journal → Prop} :
    closeSiblings.Meets s onOk onFail ↔ onOk () (s.1.settle s.1.previous .last, s.2) := by
  unfold closeSiblings settle
  rw [meets_observe_bind]
  split
  · next n k heq =>
    rw [meets_observe_bind, heq]
    dsimp only
    split
    · next hc =>
      rw [if_pos (Bool.and_eq_true_iff.1 hc).1]
      rfl
    · next hc =>
      rw [if_neg]
      · rfl
      · intro hk
        rw [h.frontier.child_pending heq hk, hk] at hc
        exact hc rfl
  · next heq =>
    rw [heq]
    rfl

/-- The document grows when the last child has no sibling after it. -/
theorem Open.settle_last (h : b.Open config) :
    (b.settle b.previous .last).Active config ∧
      b.document.Extends (b.settle b.previous .last).document :=
  h.toActive.settle _ _ nofun fun hp hk =>
    { old := h.frontier.child_pending hp hk
      next := nofun
      last := fun _ _ => h.frontier.not_follows hp }

end Builder

end XmlTable
