import XmlTable.Proofs.Delivery
import XmlTable.Proofs.Reading

/-!
# What is built is read back

A document that is described by a tree is built without fail, if enough is provided, and reading it
back gives the tree again, as far as it is stored.
-/

namespace XmlTable

open Node

namespace Builder

open Reporting NodeTree

variable {config : Config} {s s' s'' : Builder × Journal} {closed closed' : Bool}
  {allowed : List String}

/-! ### Outside the document element -/

/-- A builder outside the document element. -/
structure AtTop (config : Config) (closed : Bool) (s : Builder × Journal) : Prop where
  /-- Content is accepted. -/
  isOpen : s.1.Open config
  /-- The cursor is on the document node. -/
  cursor : s.1.cursor = documentId
  /-- No characters are held back. -/
  pending : s.1.pending = none
  /-- It is known whether entities may be declared. -/
  entitiesClosed : s.1.entitiesClosed = closed

/-- Some trees were added below the document node, with entities among them. -/
structure Outside (config : Config) (closed : Bool) (allowed : List String)
    (trees : List StoredTree) (count : Nat) (s s' : Builder × Journal) : Prop where
  /-- The builder is outside the document element. -/
  atTop : AtTop config closed s'
  /-- The document grew. -/
  keeps : Keeps allowed s s'
  /-- The trees stand where it grew. -/
  placed : s'.1.document.Placed documentId s.1.document.nodes.size s'.1.document.nodes.size trees
  /-- It grew by so many records at most. -/
  size : s'.1.document.nodes.size ≤ s.1.document.nodes.size + count

theorem Outside.refl (h : AtTop config closed s) : Outside config closed allowed [] 0 s s where
  atTop := h
  keeps := .refl s
  placed := .nil
  size := Nat.le_refl _

theorem Outside.trans {trees rest : List StoredTree} {count more : Nat}
    (h : Outside config closed allowed trees count s s')
    (h' : Outside config closed' allowed rest more s' s'') :
    Outside config closed' allowed (trees ++ rest) (count + more) s s'' where
  atTop := h'.atTop
  keeps := h.keeps.trans h'.keeps
  placed := (h.placed.mono h'.keeps.extension).append h'.placed
  size := by
    have := h.size
    have := h'.size
    omega

theorem Outside.hasRoom {trees : List StoredTree} {count more : Nat}
    (h : Outside config closed allowed trees count s s')
    (room : s.1.document.nodes.size + (count + more) ≤ s.1.document.nodes.capacity) :
    s'.1.document.nodes.size + more ≤ s'.1.document.nodes.capacity := by
  have := h.size
  rw [h.keeps.capacity]
  omega

/-- What was delivered to a builder on the document node stands below that. -/
theorem Delivers.outside {trees : List StoredTree} (h : AtTop config closed s)
    (delivered : Delivers config allowed trees s s') (pending : s'.1.pending = none)
    (same : s'.1.entitiesClosed = closed')
    (tidied : tidyAfter config.stripIgnorable none trees = trees) :
    Outside config closed' allowed trees (widths trees) s s' := by
  obtain ⟨placed, size⟩ := delivered.placed_all pending
  rw [h.pending, tidied] at placed size
  rw [h.cursor] at placed
  exact ⟨⟨delivered.isOpen, delivered.cursor.trans h.cursor, pending, same⟩, delivered.keeps,
    placed, Nat.le_of_eq size⟩

theorem AtTop.held_eq (h : AtTop config closed s) : s.1.held = none := by
  rw [h.isOpen.sound.held_eq, h.pending]
  rfl

theorem aside_meets (h : AtTop config closed s) (part : Aside)
    (room : s.1.document.nodes.size + 1 ≤ s.1.document.nodes.capacity) :
    (accept part.event).Meets s (fun _ s' => Outside config closed allowed [part.tree] 1 s s')
      fun _ _ => False := by
  have tidied : tidyAfter config.stripIgnorable none [(part.tree : StoredTree)] = [part.tree] := by
    cases part <;> rfl
  have width : widths [(part.tree : StoredTree)] = 1 := by
    simp [widths]
  have meets := leaf_meets allowed h.isOpen (part.isLeaf_tree (α := Event.Attribute))
    (by rwa [HasRoom, h.pending, part.stored_tree, tidied, width])
  rw [part.events_tree, meets_acceptAll_singleton, part.stored_tree] at meets
  apply meets.imp
  rintro _ s' ⟨delivered, pending, same⟩
  rw [← width]
  exact delivered.outside h pending (same.trans h.entitiesClosed) tidied

theorem entity_meets (h : AtTop config false s) (name value : String)
    (room : s.1.document.nodes.size + 2 ≤ s.1.document.nodes.capacity) :
    (accept (.entityDeclaration name value)).Meets s
      (fun _ s' => Outside config false allowed [] 2 s s') fun _ _ => False := by
  refine accept_meets_of_isOpen h.isOpen rfl ((entityDeclaration_meets h.isOpen name value
    (fun _ => h.entitiesClosed) fun _ => by rw [h.held_eq]; exact room).imp ?_)
  intro _ s' declares
  have flushed : ∀ {texts own : List Record}, Flushes config texts own s s' →
      texts = [] ∧ AtTop config false s' ∧ Keeps allowed s s' := by
    intro texts own flushes
    have text := flushes.text
    rw [h.held_eq] at text
    exact ⟨text,
      { isOpen := flushes.adds.isOpen
        cursor := flushes.cursor.trans h.cursor
        pending := flushes.pending
        entitiesClosed := flushes.entitiesClosed.trans h.entitiesClosed },
      flushes.adds.keeps.mono nofun⟩
  rcases declares with ⟨flushes, -⟩ | ⟨flushes, -, ⟨id, payload, rfl, -, -⟩, -⟩ <;>
    obtain ⟨rfl, atTop, keeps⟩ := flushed flushes <;> have size := flushes.adds.size
  · refine ⟨atTop, keeps, ?_, Nat.le_trans (Nat.le_of_eq size) (Nat.le_add_right ..)⟩
    rw [size]
    exact .nil
  · refine ⟨atTop, keeps, ?_, Nat.le_of_eq size⟩
    have held := flushes.adds.holds (i := 0) rfl
    rw [size]
    exact .entity held.kind? .nil

/-- What stands outside the document element is added part by part; an entity only before it. -/
theorem outside_meets (allowed : List String) (h : AtTop config closed s) (parts : List Prelude)
    (early : closed = false ∨ ∀ part ∈ parts, ∃ aside, part = .aside aside)
    (room : s.1.document.nodes.size + Prelude.widths parts ≤ s.1.document.nodes.capacity) :
    (acceptAll (parts.map (·.event))).Meets s
      (fun _ s' => Outside config closed allowed (parts.filterMap (·.tree?))
        (Prelude.widths parts) s s')
      fun _ _ => False := by
  induction parts generalizing s with
  | nil => exact .refl h
  | cons part rest ih =>
    rw [Prelude.widths] at room
    have first : (accept part.event).Meets s
        (fun _ s' => Outside config closed allowed part.tree?.toList part.width s s')
        fun _ _ => False := by
      cases part with
      | aside aside =>
        rw [Prelude.width] at room
        exact aside_meets h aside (by omega)
      | entity name value =>
        rw [Prelude.width] at room
        have before : closed = false := by
          apply early.resolve_right
          intro hall
          obtain ⟨aside, haside⟩ := hall _ List.mem_cons_self
          cases haside
        subst before
        exact entity_meets h name value (by omega)
    rw [List.map_cons, acceptAll, meets_bind]
    apply first.imp
    intro _ s₁ added
    have early₁ := early.imp_right fun hall part hp => hall part (List.mem_cons_of_mem _ hp)
    apply (ih added.atTop early₁ (added.hasRoom room)).imp
    intro _ s₂ added'
    have all := added.trans added'
    rw [Prelude.widths]
    cases part <;> exact all

/-- The document element is added with its content. -/
theorem root_meets (h : AtTop config closed s) (ample : Ample allowed s) (tree : DocumentTree)
    (hu : ∀ u ∈ tree.root.uris, u ∈ allowed)
    (room : s.1.document.nodes.size + (tree.root.stored config.stripIgnorable).width ≤
      s.1.document.nodes.capacity) :
    (acceptAll tree.root.events).Meets s
      (fun _ s' =>
        Outside config s'.1.entitiesClosed allowed [tree.root.stored config.stripIgnorable]
          (tree.root.stored config.stripIgnorable).width s s')
      fun _ _ => False := by
  have alone : tidyAfter config.stripIgnorable none [tree.root.stored config.stripIgnorable] =
      [tree.root.stored config.stripIgnorable] := tidyAfter_of_not_isText rfl ..
  have space : HasRoom config [tree.root.stored config.stripIgnorable] s := by
    rw [HasRoom, h.pending, alone]
    exact room
  refine (element_meets h.isOpen ample hu
    (deliverable tree.children fun u hm => hu u (List.mem_append_right _ hm)) space).imp ?_
  rintro _ s' ⟨delivered, pending⟩
  exact delivered.outside h pending rfl alone

/-- What stands before the document element, the document element, and what stands after it are
added one after the other. -/
theorem content_meets (h : AtTop config false s) (ample : Ample allowed s) (tree : DocumentTree)
    (hu : ∀ u ∈ tree.root.uris, u ∈ allowed)
    (room : s.1.document.nodes.size + (Prelude.widths tree.before +
      (tree.root.stored config.stripIgnorable).width + tree.after.length) ≤
        s.1.document.nodes.capacity) :
    (acceptAll (tree.before.map (·.event) ++ tree.root.events ++ tree.after.map (·.event))).Meets s
      (fun _ s' => ∃ closed count, Outside config closed allowed
        (tree.stored config.stripIgnorable) count s s')
      fun _ _ => False := by
  -- What stands after the document element is added as what stands before it.
  have asides : tree.after.map (·.event) = (tree.after.map Prelude.aside).map (·.event) := by
    rw [List.map_map]
    rfl
  have width := Prelude.widths_map_aside tree.after
  have trees : (tree.after.map Prelude.aside).filterMap (·.tree?) =
      (tree.after.map (·.tree) : List StoredTree) := by
    rw [List.filterMap_map]
    exact congrFun (List.filterMap_eq_map (f := Aside.tree)) tree.after
  rw [meets_acceptAll_append, meets_acceptAll_append]
  refine (outside_meets allowed h tree.before (.inl rfl) (by omega)).imp fun _ s₁ before => ?_
  refine (root_meets before.atTop (before.keeps.ample ample fun _ hu => hu) tree hu
    (before.hasRoom (by omega))).imp fun _ s₂ root => ?_
  have both := before.trans root
  rw [asides]
  refine (outside_meets allowed root.atTop (tree.after.map Prelude.aside)
    (.inr fun part hp => ?_) (both.hasRoom (by omega))).imp fun _ s₃ after => ?_
  · obtain ⟨aside, -, rfl⟩ := List.mem_map.1 hp
    exact ⟨aside, rfl⟩
  have all := both.trans after
  rw [trees, List.append_assoc] at all
  exact ⟨_, _, all⟩

/-! ### Whole documents -/

/-- Enough is provided for a document: a handler that goes on whatever is reported, room for the
records, and numbers for the namespaces that are known from the start and those that are declared,
each counted once. -/
structure Suffices (config : Config) (journal : Journal) (tree : DocumentTree) : Prop where
  /-- The handler goes on. -/
  proceeds : ∀ reports cause, journal.handler.decide reports cause = .proceed
  /-- There is room for the records. -/
  records : tree.width config.stripIgnorable ≤ (Document.initial config).nodes.capacity
  /-- There are numbers for the namespaces. -/
  namespaces : (["", xmlUri, xmlnsUri] ++ tree.root.uris).eraseDups.length ≤ maxNamespaceId + 1

/-- The start of the document leaves a builder outside the document element, given enough. -/
private theorem start_meets {journal : Journal} {tree : DocumentTree}
    (enough : Suffices config journal tree) :
    (accept .startDocument).Meets (start config, journal)
      (fun _ s => AtTop config false s ∧
        Ample (["", xmlUri, xmlnsUri] ++ tree.root.uris).eraseDups s ∧
        s.1.document.nodes.size = 1 ∧
        s.1.document.nodes.capacity = (Document.initial config).nodes.capacity)
      fun _ _ => False := by
  have room : 1 ≤ (Document.initial config).nodes.capacity := by
    have space := enough.records
    rw [DocumentTree.width] at space
    omega
  have ample : Ample (["", xmlUri, xmlnsUri] ++ tree.root.uris).eraseDups
      (start config, journal) := by
    refine ⟨enough.proceeds, fun u hu => ?_, enough.namespaces⟩
    have hu : u ∈ (Document.initial config).namespaceUris.entries := hu
    rw [Document.entries_namespaceUris_initial] at hu
    exact List.mem_eraseDups.2 (List.mem_append_left _ (Array.mem_toList_iff.2 hu))
  unfold accept guarded
  rw [meets_tryCatch]
  refine (startDocument_meets (s := (start config, journal)) (idle_start config) rfl
    fun _ : True => room).mono ?_ fun _ _ halted => absurd trivial halted.2
  intro _ s starts
  exact ⟨⟨starts.isOpen, starts.cursor, starts.pending, starts.entitiesClosed⟩,
    starts.keeps.ample ample nofun, starts.size, starts.keeps.capacity⟩

/-- The end of the document leaves the trees where they are. -/
private theorem end_meets (h : AtTop config closed s) :
    (accept .endDocument).Meets s
      (fun _ s' => s'.1.Sound config ∧ s'.1.document.isDone = true ∧
        s.1.document.Extends s'.1.document ∧
        s'.1.document.nodes.size = s.1.document.nodes.size)
      fun _ _ => False := by
  have room : s.1.document.nodes.size + s.1.held.toList.length ≤ s.1.document.nodes.capacity := by
    rw [h.held_eq]
    exact h.isOpen.sound.wellFormed.size_le
  refine accept_meets_of_isOpen h.isOpen rfl ((endDocument_meets h.isOpen (fun _ => room)
    fun _ => h.cursor).imp ?_)
  rintro _ s' ⟨texts, ends⟩
  obtain ⟨s₁, flushes, extension, size, -⟩ := ends.flushed
  refine ⟨ends.sound, ends.isDone, flushes.adds.keeps.extension.trans extension, ?_⟩
  rw [size, flushes.size, h.held_eq]
  rfl

/-- A document is built without fail, and its trees stand below the document node. -/
theorem document_meets {journal : Journal} {tree : DocumentTree}
    (enough : Suffices config journal tree) :
    (acceptAll tree.events).Meets (start config, journal)
      (fun _ s => s.1.Sound config ∧ s.1.document.isDone = true ∧
        s.1.document.Placed documentId 1 s.1.document.nodes.size
          (tree.stored config.stripIgnorable))
      fun _ _ => False := by
  have space := enough.records
  rw [DocumentTree.width] at space
  rw [DocumentTree.events, acceptAll, meets_bind]
  apply (start_meets enough).imp
  rintro _ s₁ ⟨top, ample, size, capacity⟩
  rw [meets_acceptAll_append]
  refine (content_meets top ample tree
    (fun u hu => List.mem_eraseDups.2 (List.mem_append_right _ hu)) (by omega)).imp ?_
  rintro _ s₂ ⟨closed, count, added⟩
  rw [meets_acceptAll_singleton]
  apply (end_meets added.atTop).imp
  rintro _ s₃ ⟨sound, done, extension, size'⟩
  have placed := added.placed.mono extension
  rw [size, ← size'] at placed
  exact ⟨sound, done, placed⟩

/-- What is built is what is read back: if enough is provided, the events of a document are all
taken, the document is complete, and reading it back gives what is stored of its trees. -/
theorem built_is_read_back {journal : Journal} {tree : DocumentTree}
    (enough : Suffices config journal tree) :
    ∃ s, (acceptAll tree.events).run.run (start config, journal) = (.ok (), s) ∧
      s.1.document.isDone = true ∧
      Query.readDocument.run s.1.document =
        .answer (some (tree.stored config.stripIgnorable)) := by
  have meets := document_meets enough
  unfold Meets at meets
  split at meets
  · next _ s hrun =>
    obtain ⟨sound, done, placed⟩ := meets
    exact ⟨s, hrun, done, placed.run_readDocument sound.wellFormed done⟩
  · exact meets.elim

/-- Two texts next to each other become one, although only one of them is ignorable, and the white
space in the inner element is dropped. -/
theorem built_is_read_back_of_mixed_content :
    let tree : DocumentTree :=
      { before := [.entity "e" "v", .aside (.comment "c")]
        name := "a"
        attributes := [⟨"xmlns:p", "u", false⟩, ⟨"x", "1", true⟩]
        children := [.text " " ⟨true, false⟩, .text "" {}, .text "b" {},
          .element "p:d" [] [.text " " ⟨true, true⟩], .reference "e"]
        after := [.instruction "t" ""] }
    ∃ s, (acceptAll tree.events).run.run
        (start (Config.standard.withStripIgnorable true), { handler := .lenient }) = (.ok (), s) ∧
      s.1.document.isDone = true ∧
      Query.readDocument.run s.1.document = .answer (some
        [.comment "c",
          .element "a" [("xmlns:p", "u"), ("x", "1")]
            [.text " b" {}, .element "p:d" [] [], .reference "e"],
          .instruction "t" ""]) := by
  intro tree
  have enough : Suffices (Config.standard.withStripIgnorable true) { handler := .lenient } tree :=
    ⟨fun _ _ => rfl, by decide +kernel, by decide +kernel⟩
  have stored : tree.stored true = [.comment "c",
      .element "a" [("xmlns:p", "u"), ("x", "1")]
        [.text " b" {}, .element "p:d" [] [], .reference "e"],
      .instruction "t" ""] := by
    with_unfolding_all rfl
  rw [← stored]
  exact built_is_read_back enough

end Builder

end XmlTable
