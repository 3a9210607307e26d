import XmlTable.Document
import XmlTable.Proofs.Batch

/-!
# Growing documents

What a reader may rely on is that a document is well formed at every moment and that what it knows
is not taken back: a later document extends an earlier one. Every change that a producer publishes
is one such step, so all moments of a run are related, also when waits are cancelled in between.
-/

namespace XmlTable

open Node

namespace Node.Record

@[simp] theorem name_withLink (r : Record) (l : Link) : (r.withLink l).name = r.name := by
  unfold withLink; split <;> rfl

@[simp] theorem flags_withLink (r : Record) (l : Link) : (r.withLink l).flags = r.flags := by
  unfold withLink; split <;> rfl

@[simp] theorem namespaceId_withLink (r : Record) (l : Link) :
    (r.withLink l).namespaceId = r.namespaceId := by
  unfold withLink; split <;> rfl

/-- The last link that a record is given counts. -/
@[simp] theorem withLink_withLink (r : Record) (l l' : Link) :
    (r.withLink l).withLink l' = r.withLink l' := by
  rcases r with ⟨_, _, _, _, field, _⟩
  cases field <;> rfl

/-- Giving a record a link leaves a payload alone. -/
theorem link_of_withLink {r : Record} {l : Link} {s : SymbolId}
    (h : (r.withLink l).link = .payload s) : r.link = .payload s := by
  rcases r with ⟨_, _, _, _, field, _⟩
  cases field with
  | sibling l' => cases h
  | payload s' => exact h

theorem exists_withLink_eq_self (r : Record) : ∃ l, r.withLink l = r := by
  rcases r with ⟨_, _, _, _, field, _⟩
  cases field with
  | sibling l => exact ⟨l, rfl⟩
  | payload s => exact ⟨.last, rfl⟩

end Node.Record

/-! ### Symbols that are kept -/

namespace Symbol

theorem Pool.resolve_insert_of_some {hash : String → UInt64} (pool : Pool hash) (s : String)
    {id : SymbolId} {t : String} (h : pool.resolve id = some t) :
    (pool.insert s).resolve id = some t := by
  rw [pool.resolve_insert_of_lt s (Array.getElem?_eq_some_iff.1 h).1, h]

theorem Store.resolve_insert_of_some (store : Store) (s : String) {id : SymbolId} {t : String}
    (h : store.resolve id = some t) : (store.insert s).resolve id = some t := by
  cases store with
  | pool p => exact p.resolve_insert_of_some s h
  | buffer b =>
    have hlt := (Array.getElem?_eq_some_iff.1 h).1
    exact (b.resolve_insert_of_lt s hlt).trans h

/-- A symbol that has a string has one wherever strings are kept. -/
theorem isSome_of_kept {found found' : Option String}
    (kept : ∀ {s : String}, found = some s → found' = some s) (h : found.isSome) :
    found'.isSome := by
  obtain ⟨s, hs⟩ := Option.isSome_iff_exists.1 h
  exact Option.isSome_iff_exists.2 ⟨s, kept hs⟩

end Symbol

/-- The change cancels waits: it is made by a reader, not by the producer. -/
def Change.isCancel : Change → Bool
  | .cancel => true
  | _ => false

namespace Document

variable {d d' d'' : Document}

/-! ### Well-formed documents -/

/-- The symbols of a record are those of strings. The document node has no payload. -/
structure Resolves (d : Document) (r : Record) : Prop where
  /-- The name. -/
  name : (d.names.resolve r.name).isSome
  /-- The payload. -/
  payload : r.kind ≠ .document → ∀ s, r.link = .payload s → (d.texts.resolve s).isSome
  /-- The namespace, if there is one. -/
  namespaceId : r.namespaceId ≠ 0 → (d.namespaceUris.resolve r.namespaceId).isSome

/-- What is true of a document at every moment of its construction. -/
structure WellFormed (d : Document) : Prop where
  /-- The nodes stand where they may. -/
  layout : d.nodes.Layout
  /-- The links say the truth. -/
  linked : d.nodes.Linked
  /-- The records refer to strings. -/
  resolves : ∀ {n : Nat} {r : Record}, d.nodes.get? n = some r → d.Resolves r
  /-- The links of a complete document are known. -/
  settled : d.isDone = true → ∀ n, d.nodes.link? n ≠ some .pending
  /-- A complete document has its first node. -/
  nonempty : d.isDone = true → 0 < d.nodes.size
  /-- The table is not larger than it may be. -/
  size_le : d.nodes.size ≤ d.nodes.capacity

/-- A document is well formed by its records, its symbols and whether it is complete. -/
theorem WellFormed.of_same (h : d.WellFormed) (nodes : d'.nodes = d.nodes)
    (names : d'.names = d.names) (texts : d'.texts = d.texts)
    (namespaceUris : d'.namespaceUris = d.namespaceUris)
    (done : d'.isDone = true → d.isDone = true) : d'.WellFormed where
  layout := nodes ▸ h.layout
  linked := nodes ▸ h.linked
  resolves hr := by
    have old := h.resolves (nodes ▸ hr)
    refine ⟨names ▸ old.name, texts ▸ old.payload, namespaceUris ▸ old.namespaceId⟩
  settled hd := nodes ▸ h.settled (done hd)
  nonempty hd := nodes ▸ h.nonempty (done hd)
  size_le := nodes ▸ h.size_le

theorem WellFormed.size_le_indexBound (h : d.WellFormed) : d.nodes.size ≤ indexBound :=
  Nat.le_trans h.size_le (Geometry.capacity_le _)

/-- A later document knows all that an earlier one does. -/
structure Extends (d d' : Document) : Prop where
  /-- The settings stay. -/
  config : d'.config = d.config
  /-- Records stay, up to their links. -/
  record : ∀ {n : Nat} {r : Record}, d.nodes.get? n = some r →
    ∃ l, d'.nodes.get? n = some (r.withLink l)
  /-- Links that are known stay. -/
  link : ∀ {n : Nat} {l : Link}, d.nodes.link? n = some l → l ≠ .pending →
    d'.nodes.link? n = some l
  /-- Names keep their symbols. -/
  name : ∀ {id : SymbolId} {s : String}, d.names.resolve id = some s →
    d'.names.resolve id = some s
  /-- Text payloads keep their symbols. -/
  text : ∀ {id : SymbolId} {s : String}, d.texts.resolve id = some s →
    d'.texts.resolve id = some s
  /-- Namespaces keep their numbers. -/
  namespaceUri : ∀ {id : SymbolId} {s : String}, d.namespaceUris.resolve id = some s →
    d'.namespaceUris.resolve id = some s
  /-- Identifiers keep their elements. -/
  identifier : ∀ {v : SymbolId} {e : NodeId}, d.identifiers.get? v = some e →
    d'.identifiers.get? v = some e
  /-- Entities keep their values. -/
  entity : ∀ {name : String} {e : Entity.Entry}, d.entities.get? name = some e →
    d'.entities.get? name = some e
  /-- A sealed entity table stays as it is. -/
  closed : d.entities.isSealed = true → d'.entities = d.entities
  /-- A complete document stays as it is, apart from cancelled waits. -/
  done : d.isDone = true → d' = { d with isCancelled := d'.isCancelled }
  /-- An element gets no attributes later. -/
  attr : ∀ {n e : Nat}, e < d.nodes.size → d'.nodes.kind? n = some .attr →
    d'.nodes.parent? n = some e → n < d.nodes.size

theorem Extends.continues (h : d.Extends d') : d.nodes.Continues d'.nodes := by
  intro n hn
  obtain ⟨k, hk⟩ := Table.exists_kind?_iff.2 hn
  obtain ⟨r, hr, rfl⟩ := Table.exists_get?_of_kind? hk
  obtain ⟨l, hl⟩ := h.record hr
  rw [Table.kind?_of_get? hl, Table.parent?_of_get? hl, Table.kind?_of_get? hr,
    Table.parent?_of_get? hr, Record.kind_withLink, Record.parent_withLink]
  exact ⟨rfl, rfl⟩

theorem Extends.size_le (h : d.Extends d') : d.nodes.size ≤ d'.nodes.size := by
  apply Nat.le_of_not_lt
  intro hlt
  obtain ⟨k, hk⟩ := Table.exists_kind?_iff.2 hlt
  exact absurd (Table.lt_size_of_kind? (h.continues.kind? hk)) (Nat.lt_irrefl _)

theorem Extends.isDone (h : d.Extends d') (hd : d.isDone = true) : d'.isDone = true := by
  rw [h.done hd]
  exact hd

/-- A name that has a symbol keeps it. -/
theorem Extends.lookup (h : d.Extends d') {s : String} {id : SymbolId}
    (hs : d.names.lookup s = some id) : d'.names.lookup s = some id :=
  (Symbol.Pool.lookup_eq_some_iff ..).2 (h.name ((Symbol.Pool.lookup_eq_some_iff ..).1 hs))

theorem Extends.refl (d : Document) : d.Extends d where
  config := rfl
  record h := by
    obtain ⟨l, hl⟩ := Record.exists_withLink_eq_self _
    exact ⟨l, by rw [hl, h]⟩
  link h _ := h
  name h := h
  text h := h
  namespaceUri h := h
  identifier h := h
  entity h := h
  closed _ := rfl
  done _ := rfl
  attr _ hk _ := Table.lt_size_of_kind? hk

theorem Extends.trans (h : d.Extends d') (h' : d'.Extends d'') : d.Extends d'' where
  config := h'.config.trans h.config
  record hr := by
    obtain ⟨l, hl⟩ := h.record hr
    obtain ⟨l', hl'⟩ := h'.record hl
    exact ⟨l', by rw [hl', Record.withLink_withLink]⟩
  link hl hne := h'.link (h.link hl hne) hne
  name hs := h'.name (h.name hs)
  text hs := h'.text (h.text hs)
  namespaceUri hs := h'.namespaceUri (h.namespaceUri hs)
  identifier he := h'.identifier (h.identifier he)
  entity he := h'.entity (h.entity he)
  closed hc := by
    have same := h.closed hc
    rw [h'.closed (by rw [same]; exact hc), same]
  done hd := by
    have same := h.done hd
    rw [h'.done (h.isDone hd), same]
  attr he hk hp := by
    have hn := h'.attr (Nat.lt_of_lt_of_le he h.size_le) hk hp
    rw [(h'.continues _ hn).1] at hk
    rw [(h'.continues _ hn).2] at hp
    exact h.attr he hk hp

/-! ### Records up to their links -/

/-- A record stands at an index, whatever its link says. -/
def Holds (d : Document) (n : Nat) (r : Record) : Prop :=
  ∃ l, d.nodes.get? n = some (r.withLink l)

namespace Holds

variable {n : Nat} {r : Record}

theorem of_get? (h : d.nodes.get? n = some r) : d.Holds n r := by
  obtain ⟨l, hl⟩ := Record.exists_withLink_eq_self r
  exact ⟨l, by rw [hl, h]⟩

theorem mono (h : d.Holds n r) (he : d.Extends d') : d'.Holds n r := by
  obtain ⟨l, hl⟩ := h
  obtain ⟨l', hl'⟩ := he.record hl
  exact ⟨l', by rw [hl', Record.withLink_withLink]⟩

theorem lt_size (h : d.Holds n r) : n < d.nodes.size := by
  obtain ⟨l, hl⟩ := h
  exact Table.lt_size_of_get? hl

theorem kind? (h : d.Holds n r) : d.nodes.kind? n = some r.kind := by
  obtain ⟨l, hl⟩ := h
  rw [Table.kind?_of_get? hl, Record.kind_withLink]

theorem parent? (h : d.Holds n r) : d.nodes.parent? n = r.parent := by
  obtain ⟨l, hl⟩ := h
  rw [Table.parent?_of_get? hl, Record.parent_withLink]

/-- The symbols of a record of a well-formed document are those of strings. -/
theorem resolves (h : d.Holds n r) (hd : d.WellFormed) : d.Resolves r := by
  obtain ⟨l, hl⟩ := h
  have old := hd.resolves hl
  refine ⟨?_, fun hk s hs => ?_, fun hne => ?_⟩
  · rw [← Record.name_withLink r l]
    exact old.name
  · have hs' : (r.withLink l).link = .payload s := by
      rw [Record.withLink, hs]
      exact hs
    exact old.payload (by rwa [Record.kind_withLink]) s hs'
  · rw [← Record.namespaceId_withLink r l] at hne ⊢
    exact old.namespaceId hne

end Holds

/-! ### What each change keeps -/

/-- One step in the growth of a well-formed document. -/
structure Grows (d d' : Document) : Prop where
  /-- The later document is well formed. -/
  wellFormed : d'.WellFormed
  /-- It knows all that the earlier one does. -/
  extension : d.Extends d'

theorem not_isDone_of_building (h : d.progress = .building) : d.isDone = false := by
  rw [isDone, h]

private theorem not_done (h : d.progress = .building) : ¬ d.isDone = true := by
  rw [not_isDone_of_building h]
  exact Bool.false_ne_true

/-- While it is being built, a document grows by any change of its symbols. -/
theorem Grows.ofSymbols (h : d.WellFormed) (hb : d.progress = .building)
    {names : Symbol.ContentPool} {texts : Symbol.Store} {uris : Symbol.ContentPool}
    (hn : ∀ {id s}, d.names.resolve id = some s → names.resolve id = some s)
    (ht : ∀ {id s}, d.texts.resolve id = some s → texts.resolve id = some s)
    (hu : ∀ {id s}, d.namespaceUris.resolve id = some s → uris.resolve id = some s) :
    d.Grows { d with names, texts, namespaceUris := uris } where
  wellFormed :=
    { layout := h.layout
      linked := h.linked
      resolves := fun hr => by
        have old := h.resolves hr
        exact
          { name := Symbol.isSome_of_kept hn old.name
            payload := fun hk s hs => Symbol.isSome_of_kept ht (old.payload hk s hs)
            namespaceId := fun hne => Symbol.isSome_of_kept hu (old.namespaceId hne) }
      settled := h.settled
      nonempty := h.nonempty
      size_le := h.size_le }
  extension :=
    { Extends.refl d with
      name := hn
      text := ht
      namespaceUri := hu
      done := fun hd => absurd hd (not_done hb) }

theorem grows_name (h : d.WellFormed) (hb : d.progress = .building) (s : String) :
    d.Grows (d.apply (.name s)) :=
  .ofSymbols h hb (fun hs => d.names.resolve_insert_of_some s hs) id id

theorem grows_text (h : d.WellFormed) (hb : d.progress = .building) (s : String) :
    d.Grows (d.apply (.text s)) :=
  .ofSymbols h hb id (fun hs => d.texts.resolve_insert_of_some s hs) id

theorem grows_namespaceUri (h : d.WellFormed) (hb : d.progress = .building) (s : String) :
    d.Grows (d.apply (.namespaceUri s)) :=
  .ofSymbols h hb id id fun hs => d.namespaceUris.resolve_insert_of_some s hs

/-- While it is being built, a document grows by records that keep its layout and links, refer to
strings, have room and add no attribute to an old element. -/
theorem grows_append (h : d.WellFormed) (hb : d.progress = .building) {rs : List Record}
    (layout : (d.nodes.append rs).Layout) (linked : (d.nodes.append rs).Linked)
    (resolves : ∀ r ∈ rs, d.Resolves r) (room : d.nodes.hasRoom rs.length = true)
    (attr : ∀ {n e : Nat}, e < d.nodes.size → (d.nodes.append rs).kind? n = some .attr →
      (d.nodes.append rs).parent? n = some e → n < d.nodes.size) :
    d.Grows (d.apply (.append rs)) where
  wellFormed :=
    { layout := layout
      linked := linked
      resolves := fun {n r} hr => by
        have hr : (d.nodes.append rs).get? n = some r := hr
        rw [Table.get?_append] at hr
        have old : d.Resolves r := by
          split at hr
          · exact h.resolves hr
          · exact resolves r (List.mem_of_getElem? hr)
        exact ⟨old.name, old.payload, old.namespaceId⟩
      settled := fun hd => absurd hd (not_done hb)
      nonempty := fun hd => absurd hd (not_done hb)
      size_le := by
        have hg : ∀ rs : List Record, ∀ t : Table, (t.append rs).capacity = t.capacity := by
          intro rs
          induction rs with
          | nil => exact fun _ => rfl
          | cons r rest ih =>
            intro t
            apply (ih (t.push r)).trans
            unfold Table.push
            split <;> rfl
        have hs : (d.nodes.append rs).size ≤ (d.nodes.append rs).capacity := by
          rw [Table.size_append, hg]
          simpa [Table.hasRoom] using room
        exact hs }
  extension :=
    { Extends.refl d with
      record := fun {n r} hr => by
        obtain ⟨l, hl⟩ := Record.exists_withLink_eq_self r
        refine ⟨l, ?_⟩
        have hlt := Table.lt_size_of_get? hr
        show (d.nodes.append rs).get? n = _
        rw [Table.get?_append, if_pos hlt, hl, hr]
      link := fun {n l} hl _ => by
        have hlt := Table.lt_size_of_link? hl
        show (d.nodes.append rs).link? n = _
        rw [Table.link?_append, if_pos hlt, hl]
      done := fun hd => absurd hd (not_done hb)
      attr := attr }

/-- While it is being built, a document grows by a true link that was not known. -/
theorem grows_link (h : d.WellFormed) (hb : d.progress = .building) {n : Nat} {l : Link}
    (old : d.nodes.link? n = some .pending) (pending : l ≠ .pending)
    (next : ∀ {m : Nat}, l = .next m → d.nodes.IsNext n m)
    (last : l = .last → ∀ m, ¬ d.nodes.Follows n m) : d.Grows (d.apply (.link n l)) where
  wellFormed :=
    { layout := h.layout.setLink n l
      linked := h.linked.setLink h.layout pending next last
      resolves := fun {m r} hr => by
        have hr : (d.nodes.setLink n l).get? m = some r := hr
        rw [Table.get?_setLink] at hr
        split at hr
        · obtain ⟨r', hr', rfl⟩ := Option.map_eq_some_iff.1 hr
          have old := h.resolves hr'
          refine ⟨?_, fun hk s hs => ?_, ?_⟩
          · rw [Record.name_withLink]; exact old.name
          · rw [Record.kind_withLink] at hk
            exact old.payload hk s (Record.link_of_withLink hs)
          · rw [Record.namespaceId_withLink]; exact old.namespaceId
        · have old := h.resolves hr
          exact ⟨old.name, old.payload, old.namespaceId⟩
      settled := fun hd => absurd hd (not_done hb)
      nonempty := fun hd => absurd hd (not_done hb)
      size_le := h.size_le }
  extension :=
    { Extends.refl d with
      record := fun {m r} hr => by
        show ∃ l', (d.nodes.setLink n l).get? m = _
        rw [Table.get?_setLink, hr]
        split
        · exact ⟨l, rfl⟩
        · obtain ⟨l', hl'⟩ := Record.exists_withLink_eq_self r
          exact ⟨l', by rw [hl']⟩
      link := fun {m l'} hl hne => by
        show (d.nodes.setLink n l).link? m = _
        rw [Table.link?_setLink, if_neg, hl]
        rintro rfl
        exact hne (Option.some.inj (hl.symm.trans old))
      done := fun hd => absurd hd (not_done hb)
      attr := fun he hk hp => by
        have hk : (d.nodes.setLink n l).kind? _ = _ := hk
        rw [Table.kind?_setLink] at hk
        exact Table.lt_size_of_kind? hk }

theorem grows_identifier (h : d.WellFormed) (hb : d.progress = .building) (v : SymbolId)
    (e : NodeId) : d.Grows (d.apply (.identifier v e)) where
  wellFormed := h.of_same rfl rfl rfl rfl id
  extension :=
    { Extends.refl d with
      identifier := fun {v' e'} he => by
        show (d.identifiers.insert v e).get? v' = _
        rw [Identifier.Index.get?_insert]
        split
        · next hv => rw [← hv, he]; rfl
        · exact he
      done := fun hd => absurd hd (not_done hb) }

theorem grows_entity (h : d.WellFormed) (hb : d.progress = .building) (name value : String)
    (e : NodeId) : d.Grows (d.apply (.entity name value e)) where
  wellFormed := h.of_same rfl rfl rfl rfl id
  extension :=
    { Extends.refl d with
      entity := fun he => Entity.Table.get?_declare_of_some he name value e
      closed := fun hc => by
        have hc : d.entities.isSealed = true := hc
        show d.entities.declare name value e = d.entities
        simp [Entity.Table.declare, Entity.Table.accepts, hc]
      done := fun hd => absurd hd (not_done hb) }

theorem grows_closeEntities (h : d.WellFormed) (hb : d.progress = .building) :
    d.Grows (d.apply .closeEntities) where
  wellFormed := h.of_same rfl rfl rfl rfl id
  extension :=
    { Extends.refl d with
      entity := fun he => he
      closed := fun hc => by
        have hc : d.entities.isSealed = true := hc
        show d.entities.close = d.entities
        rw [Entity.Table.close, ← hc]
      done := fun hd => absurd hd (not_done hb) }

/-- A document is complete only when it has begun and its links are known. -/
theorem grows_finish (h : d.WellFormed) (hb : d.progress = .building)
    (settled : ∀ n, d.nodes.link? n ≠ some .pending) (nonempty : 0 < d.nodes.size) :
    d.Grows (d.apply .finish) where
  wellFormed :=
    { layout := h.layout
      linked := h.linked
      resolves := fun hr =>
        have old := h.resolves hr
        ⟨old.name, old.payload, old.namespaceId⟩
      settled := fun _ => settled
      nonempty := fun _ => nonempty
      size_le := h.size_le }
  extension :=
    { Extends.refl d with
      done := fun hd => absurd hd (not_done hb) }

theorem grows_fail (h : d.WellFormed) (hb : d.progress = .building) (cause : Failure) :
    d.Grows (d.apply (.fail cause)) := by
  have same : d.apply (.fail cause) = { d with progress := .failed cause } := by
    simp only [apply, hb]
  rw [same]
  exact
    { wellFormed := h.of_same rfl rfl rfl rfl fun hd => absurd hd Bool.false_ne_true
      extension :=
        { Extends.refl d with
          done := fun hd => absurd hd (not_done hb) } }

/-! ### Cancelled waits -/

/-- Cancelling waits touches nothing else. -/
theorem WellFormed.cancel (h : d.WellFormed) (x : Bool) :
    WellFormed { d with isCancelled := x } :=
  h.of_same rfl rfl rfl rfl id

theorem Extends.cancel (h : d.Extends d') (x y : Bool) :
    Extends { d with isCancelled := x } { d' with isCancelled := y } :=
  { config := h.config
    record := h.record
    link := h.link
    name := h.name
    text := h.text
    namespaceUri := h.namespaceUri
    identifier := h.identifier
    entity := h.entity
    closed := h.closed
    done := fun hd => by rw [h.done hd]
    attr := h.attr }

/-- Whether waits are cancelled plays no part in any other change. -/
theorem apply_setCancelled (d : Document) (x : Bool) {c : Change} (hc : c ≠ .cancel) :
    apply { d with isCancelled := x } c = { d.apply c with isCancelled := x } := by
  cases c with
  | cancel => exact absurd rfl hc
  | fail cause =>
    simp only [apply]
    split <;> rfl
  | _ => rfl

/-! ### The moments of a run -/

/-- The document after some changes. -/
def applyAll (d : Document) (changes : List Change) : Document :=
  changes.foldl apply d

/-- Every change is a step in the growth of the document. -/
def GrowsAlong (d : Document) : List Change → Prop
  | [] => True
  | c :: rest => d.Grows (d.apply c) ∧ (d.apply c).GrowsAlong rest

theorem growsAlong_append {changes rest : List Change} :
    d.GrowsAlong (changes ++ rest) ↔
      d.GrowsAlong changes ∧ (d.applyAll changes).GrowsAlong rest := by
  induction changes generalizing d with
  | nil => simp [GrowsAlong, applyAll]
  | cons c cs ih =>
    simp only [List.cons_append, GrowsAlong, ih, applyAll, List.foldl_cons, and_assoc]

/-- The document at a moment of a run: after so many of its changes. From the end of the run on it
stays as it is. -/
def moment (d : Document) (changes : List Change) (k : Nat) : Document :=
  d.applyAll (changes.take k)

theorem moment_of_length_le {changes : List Change} {k : Nat} (h : changes.length ≤ k) :
    d.moment changes k = d.applyAll changes := by
  rw [moment, List.take_of_length_le h]

/-- A document that grows along a run is well formed at all moments. -/
theorem GrowsAlong.wellFormed {changes : List Change} (h : d.GrowsAlong changes)
    (hd : d.WellFormed) (k : Nat) : (d.moment changes k).WellFormed := by
  induction changes generalizing d k with
  | nil =>
    rw [moment, List.take_nil]
    exact hd
  | cons c rest ih =>
    cases k with
    | zero => exact hd
    | succ k => exact ih h.2 h.1.wellFormed k

/-- A document that grows along a run extends its earlier moments at every later one. -/
theorem GrowsAlong.extension {changes : List Change} (h : d.GrowsAlong changes) {j k : Nat}
    (hjk : j ≤ k) : (d.moment changes j).Extends (d.moment changes k) := by
  induction changes generalizing d j k with
  | nil =>
    rw [moment, moment, List.take_nil, List.take_nil]
    exact Extends.refl d
  | cons c rest ih =>
    cases k with
    | zero =>
      obtain rfl := Nat.le_zero.1 hjk
      exact Extends.refl _
    | succ k =>
      cases j with
      | zero => exact h.1.extension.trans (ih h.2 (Nat.zero_le k))
      | succ j => exact ih h.2 (Nat.le_of_succ_le_succ hjk)

/-- Waits may be cancelled at any moment of a run. -/
theorem GrowsAlong.ofFilter {changes : List Change}
    (h : d.GrowsAlong (changes.filter fun c => !c.isCancel)) (hd : d.WellFormed) (x : Bool) :
    GrowsAlong { d with isCancelled := x } changes := by
  induction changes generalizing d x with
  | nil => trivial
  | cons c rest ih =>
    by_cases hc : c = .cancel
    · subst hc
      exact ⟨⟨hd.cancel true, (Extends.refl d).cancel x true⟩, ih h hd true⟩
    · have keep : (!c.isCancel) = true := by
        cases c
        case cancel => exact absurd rfl hc
        all_goals rfl
      rw [List.filter_cons, if_pos keep] at h
      rw [GrowsAlong, apply_setCancelled d x hc]
      exact ⟨⟨h.1.wellFormed.cancel x, h.1.extension.cancel x x⟩, ih h.2 h.1.wellFormed x⟩

/-- A fresh document is well formed. -/
theorem wellFormed_initial (config : Config) : (initial config).WellFormed where
  layout := Table.layout_empty _
  linked := Table.linked_empty _
  resolves hr := by
    rw [initial, Table.get?_empty] at hr
    cases hr
  settled := nofun
  nonempty := nofun
  size_le := Nat.zero_le _

end Document

end XmlTable
