import XmlTable.Proofs.Placement
import XmlTable.Proofs.Runs

/-!
# Trees that are delivered

When the events of some trees were delivered, what is stored of them stands in the document, apart
from a text at their end that may be continued. So a builder has always stored what there was to be
stored of everything up to that text, and what becomes of the text is decided by what comes next.
-/

namespace XmlTable

open Node

/-! ### Texts that are held back -/

namespace NodeTree

variable {α : Type} {strip : Bool} {held : Option (String × TextFlags)} {rest : List (NodeTree α)}

/-- The tree of a text, if there is one. -/
def ofText (held : Option (String × TextFlags)) : List (NodeTree α) :=
  held.toList.map fun (run, flags) => .text run flags

/-- The text unless it is dropped. -/
def keptText (strip : Bool) (held : Option (String × TextFlags)) : Option (String × TextFlags) :=
  held.filter fun text => !(text.2.ignorable && strip)

/-- The trees that are stored of some trees after a text that is held back. -/
def tidyAfter (strip : Bool) (held : Option (String × TextFlags)) (trees : List (NodeTree α)) :
    List (NodeTree α) :=
  match held with
  | none => tidy strip trees
  | some (run, flags) => (consText run flags (join trees)).filter (isKept strip)

theorem filter_text (strip : Bool) (run : String) (flags : TextFlags) (trees : List (NodeTree α)) :
    (text run flags :: trees).filter (isKept strip) =
      ofText (keptText strip (some (run, flags))) ++ trees.filter (isKept strip) := by
  by_cases hk : (!(flags.ignorable && strip)) = true
  · rw [List.filter_cons, isKept, if_pos hk, keptText, Option.filter_some, if_pos hk]
    rfl
  · rw [List.filter_cons, isKept, if_neg hk, keptText, Option.filter_some, if_neg hk]
    rfl

theorem tidyAfter_nil (strip : Bool) (held : Option (String × TextFlags)) :
    tidyAfter strip held [] = (ofText (keptText strip held) : List (NodeTree α)) := by
  rcases held with _ | ⟨run, flags⟩
  · rfl
  · exact (filter_text strip run flags []).trans (List.append_nil _)

/-- What is no text ends a text that is held back. -/
theorem tidyAfter_of_not_isText {tree : NodeTree α} (h : tree.isText = false) (strip : Bool)
    (held : Option (String × TextFlags)) (rest : List (NodeTree α)) :
    tidyAfter strip held (tree :: rest) =
      ofText (keptText strip held) ++ tree :: tidyAfter strip none rest := by
  have kept : isKept strip tree = true := by
    cases tree with
    | text => cases h
    | _ => rfl
  have first : (tree :: join rest).filter (isKept strip) = tree :: tidyAfter strip none rest := by
    rw [List.filter_cons, if_pos kept]
    rfl
  rcases held with _ | ⟨run, flags⟩
  · show (join (tree :: rest)).filter (isKept strip) = _
    rw [join_of_not_isText h, first]
    rfl
  · show (consText run flags (join (tree :: rest))).filter (isKept strip) = _
    rw [join_of_not_isText h, consText_of_not_isText h, filter_text, first]

/-- A text goes with the one that is held back. -/
theorem tidyAfter_text (strip : Bool) (held : Option (String × TextFlags)) (run : String)
    (flags : TextFlags) (rest : List (NodeTree α)) :
    tidyAfter strip held (text run flags :: rest) =
      tidyAfter strip (Builder.holding held run flags) rest := by
  unfold Builder.holding
  by_cases he : run.isEmpty = true
  · have same : join (text run flags :: rest) = join rest := by rw [join, if_pos he]
    rw [if_pos he]
    rcases held with _ | ⟨before, earlier⟩
    · rw [tidyAfter, tidyAfter, tidy, same, tidy]
    · rw [tidyAfter, tidyAfter, same]
  · have cons : join (text run flags :: rest) = consText run flags (join rest) := by
      rw [join, if_neg he]
    rw [if_neg he]
    rcases held with _ | ⟨before, earlier⟩
    · rw [tidyAfter, tidyAfter, tidy, cons]
    · rw [tidyAfter, tidyAfter, cons, consText_consText]

theorem widths_ofText (held : Option (String × TextFlags)) :
    widths (ofText held : List (NodeTree α)) = held.toList.length := by
  cases held <;> rfl

end NodeTree

namespace Builder

open Reporting NodeTree

variable {config : Config} {b : Builder} {s s' s'' : Builder × Journal} {allowed : List String}
  {d : Document} {c n : Nat}

/-! ### Records that stand for trees -/

theorem Sound.held_eq (h : b.Sound config) :
    b.held = keptText config.stripIgnorable b.pending := by
  have same : b.document.config = config := h.extension.config
  rw [held, same]
  rfl

theorem TextRecords.placed {held : Option (String × TextFlags)} {records : List Record}
    (h : TextRecords d c held records)
    (holds : ∀ {i : Nat} {r : Record}, records[i]? = some r → d.Holds (n + i) r) :
    d.Placed c n (n + records.length) (ofText held) := by
  rcases held with _ | ⟨run, flags⟩
  · obtain rfl : records = [] := h
    exact .nil
  · obtain ⟨payload, rfl, hs⟩ := h
    have first : d.Holds n (.leaf .text flags c payload 0) := holds (i := 0) rfl
    exact .leaf ⟨payload, first, hs⟩ .nil

theorem StandFor.attributesAt {stored : List StoredAttribute} {attributes : List Event.Attribute}
    (h : StandFor d stored attributes)
    (holds : ∀ {i : Nat} {r : Record}, (attributePairs c n stored)[i]? = some r →
      d.Holds (n + i) r) :
    d.AttributesAt c n (attributes.map fun attr => (attr.name, attr.value)) := by
  induction stored generalizing n attributes with
  | nil =>
    cases attributes with
    | nil => trivial
    | cons _ _ => exact h.elim
  | cons first rest ih =>
    cases attributes with
    | nil => exact h.elim
    | cons attr attrs =>
      refine ⟨first.1, first.2.1, _, first.2.2, holds (i := 0) rfl, h.1.name, holds (i := 1) rfl,
        h.1.value, ih h.2 fun {i r} hr => ?_⟩
      have later := holds (i := i + 2) hr
      rwa [Nat.add_comm i 2, ← Nat.add_assoc] at later

/-! ### What was delivered -/

/-- Some trees were delivered: what is stored of them stands below the cursor, apart from a text
that is held back. -/
structure Delivers (config : Config) (allowed : List String) (trees : List StoredTree)
    (s s' : Builder × Journal) : Prop where
  /-- Content is accepted. -/
  isOpen : s'.1.Open config
  /-- The document grew. -/
  keeps : Keeps allowed s s'
  /-- The cursor is where it was. -/
  cursor : s'.1.cursor = s.1.cursor
  /-- What stands in the document is what has to be stored before anything that comes later. -/
  placed : ∃ front, s'.1.document.Placed s.1.cursor s.1.document.nodes.size
      s'.1.document.nodes.size front ∧
    s'.1.document.nodes.size = s.1.document.nodes.size + widths front ∧
    ∀ rest, tidyAfter config.stripIgnorable s.1.pending (trees ++ rest) =
      front ++ tidyAfter config.stripIgnorable s'.1.pending rest

theorem Delivers.refl (h : s.1.Open config) : Delivers config allowed [] s s where
  isOpen := h
  keeps := .refl s
  cursor := rfl
  placed := ⟨[], .nil, rfl, fun _ => rfl⟩

theorem Delivers.trans {trees rest : List StoredTree}
    (h : Delivers config allowed trees s s') (h' : Delivers config allowed rest s' s'') :
    Delivers config allowed (trees ++ rest) s s'' where
  isOpen := h'.isOpen
  keeps := h.keeps.trans h'.keeps
  cursor := h'.cursor.trans h.cursor
  placed := by
    obtain ⟨front, placed, size, tidied⟩ := h.placed
    obtain ⟨front', placed', size', tidied'⟩ := h'.placed
    rw [h.cursor] at placed'
    refine ⟨front ++ front', (placed.mono h'.keeps.extension).append placed', ?_, fun later => ?_⟩
    · rw [size', size, widths_append, Nat.add_assoc]
    · rw [List.append_assoc, tidied, tidied', List.append_assoc]

/-- When nothing is held back, all that is stored of the trees stands in the document. -/
theorem Delivers.placed_all {trees : List StoredTree} (h : Delivers config allowed trees s s')
    (hp : s'.1.pending = none) :
    s'.1.document.Placed s.1.cursor s.1.document.nodes.size s'.1.document.nodes.size
        (tidyAfter config.stripIgnorable s.1.pending trees) ∧
      s'.1.document.nodes.size = s.1.document.nodes.size +
        widths (tidyAfter config.stripIgnorable s.1.pending trees) := by
  obtain ⟨front, placed, size, tidied⟩ := h.placed
  have all : tidyAfter config.stripIgnorable s.1.pending trees = front := by
    have := tidied []
    rw [List.append_nil, hp] at this
    exact this.trans (List.append_nil front)
  rw [all]
  exact ⟨placed, size⟩

/-- A leaf was delivered when its record stands after the text that was held back. -/
theorem Flushes.delivers {texts : List Record} {own : Record} {tree : StoredTree}
    (hs : s.1.Open config) (h : Flushes config texts [own] s s')
    (leaf : ∀ n, s'.1.document.Holds n own → s'.1.document.LeafAt s.1.cursor n tree)
    (ht : tree.isText = false) : Delivers config allowed [tree] s s' where
  isOpen := h.adds.isOpen
  keeps := h.adds.keeps.mono nofun
  cursor := h.cursor
  placed := by
    have size := h.adds.size
    rw [List.length_append, List.length_singleton] at size
    have first : s'.1.document.Holds (s.1.document.nodes.size + texts.length) own :=
      h.adds.holds_right (i := 0) rfl
    have text := h.text.placed h.adds.holds_left
    refine ⟨ofText s.1.held ++ [tree], text.append ?_, ?_, fun rest => ?_⟩
    · rw [size, ← Nat.add_assoc]
      exact .leaf (leaf _ first) .nil
    · rw [size, widths_append, widths_ofText, h.text.length_eq]
      cases tree with
      | text => cases ht
      | element => exact (leaf _ first).elim
      | _ => rfl
    · rw [List.singleton_append, tidyAfter_of_not_isText ht, h.pending, hs.sound.held_eq,
        List.append_assoc]
      rfl

/-! ### Delivering events -/

/-- Events after other events are taken from where those lead. -/
theorem meets_acceptAll_append (events later : List Event)
    {onOk : Unit → Builder × Journal → Prop} {onFail : Failure → Builder × Journal → Prop} :
    (acceptAll (events ++ later)).Meets s onOk onFail ↔
      (acceptAll events).Meets s (fun _ s' => (acceptAll later).Meets s' onOk onFail) onFail := by
  induction events generalizing s with
  | nil => rfl
  | cons event rest ih =>
    rw [List.cons_append, acceptAll, acceptAll, meets_bind, meets_bind]
    simp only [ih]

theorem meets_acceptAll_singleton (event : Event) {onOk : Unit → Builder × Journal → Prop}
    {onFail : Failure → Builder × Journal → Prop} :
    (acceptAll [event]).Meets s onOk onFail ↔ (accept event).Meets s onOk onFail := by
  rw [acceptAll, meets_bind]
  rfl

/-- Content is taken if nothing goes wrong with it. -/
theorem accept_meets_of_isOpen (h : s.1.Open config) {event : Event} {work : Reporting Builder Unit}
    (same : perform event = requireOpen event >>= fun _ => work)
    {onOk : Unit → Builder × Journal → Prop}
    (hw : work.Meets s onOk fun _ s' => Breaks config True s s') :
    (accept event).Meets s onOk fun _ _ => False := by
  unfold accept guarded
  rw [meets_tryCatch, same, requireOpen_bind_meets, if_pos h.open_stage]
  exact hw.mono (fun _ _ hp => hp) fun _ _ hh => absurd trivial hh.unclear

/-- There is room for what has to be stored of some trees after the text that is held back. -/
def HasRoom (config : Config) (trees : List StoredTree) (s : Builder × Journal) : Prop :=
  s.1.document.nodes.size + widths (tidyAfter config.stripIgnorable s.1.pending trees) ≤
    s.1.document.nodes.capacity

theorem Delivers.hasRoom {trees rest : List StoredTree}
    (h : Delivers config allowed trees s s') (room : HasRoom config (trees ++ rest) s) :
    HasRoom config rest s' := by
  obtain ⟨front, -, size, tidied⟩ := h.placed
  rw [HasRoom, tidied, widths_append] at room
  rw [HasRoom, size, h.keeps.capacity]
  omega

/-- There is room for the text that is held back, and for a tree that is no text. -/
theorem HasRoom.of_not_isText {tree : StoredTree} {rest : List StoredTree}
    (hs : s.1.Open config) (ht : tree.isText = false) (room : HasRoom config (tree :: rest) s) :
    s.1.document.nodes.size + s.1.held.toList.length + tree.width ≤
      s.1.document.nodes.capacity := by
  rw [HasRoom, tidyAfter_of_not_isText ht, widths_append, widths_ofText, ← hs.sound.held_eq,
    widths] at room
  omega

/-- A comment, a processing instruction or a reference is delivered, and nothing is held back. -/
theorem leaf_meets (allowed : List String) (hs : s.1.Open config)
    {tree : NodeTree Event.Attribute} (hl : tree.isLeaf = true)
    (room : HasRoom config [tree.stored config.stripIgnorable] s) :
    (acceptAll tree.events).Meets s
      (fun _ s' => Delivers config allowed [tree.stored config.stripIgnorable] s s' ∧
        s'.1.pending = none ∧ s'.1.entitiesClosed = s.1.entitiesClosed)
      fun _ _ => False := by
  have ht : (tree.stored config.stripIgnorable).isText = false := by
    simp [isText_of_isLeaf hl]
  have space := room.of_not_isText hs ht
  have added : ∀ {event : Event} {s' : Builder × Journal}, AddsLeaf config event s s' →
      (∀ {own : Record} {n : Nat}, LeafRecord s'.1.document s.1.cursor event own →
        s'.1.document.Holds n own →
          s'.1.document.LeafAt s.1.cursor n (tree.stored config.stripIgnorable)) →
      Delivers config allowed [tree.stored config.stripIgnorable] s s' ∧
        s'.1.pending = none ∧ s'.1.entitiesClosed = s.1.entitiesClosed := by
    rintro event s' ⟨texts, own, flushes, record⟩ leaf
    exact ⟨flushes.delivers hs (fun n held => leaf record held) ht, flushes.pending,
      flushes.entitiesClosed⟩
  cases tree with
  | element => cases hl
  | text => cases hl
  | comment content =>
    rw [events, meets_acceptAll_singleton]
    refine accept_meets_of_isOpen hs rfl ((comment_meets hs (fun _ => space) content).imp ?_)
    intro _ s' adds
    refine added adds fun record held => ?_
    cases record with
    | comment hp => exact ⟨_, held, hp⟩
  | instruction target data =>
    rw [events, meets_acceptAll_singleton]
    refine accept_meets_of_isOpen hs rfl
      ((instruction_meets hs (fun _ => space) target data).imp ?_)
    intro _ s' adds
    refine added adds fun record held => ?_
    cases record with
    | instruction hp hn => exact ⟨_, _, held, hp, hn⟩
  | reference name =>
    rw [events, meets_acceptAll_singleton]
    refine accept_meets_of_isOpen hs rfl ((entityReference_meets hs (fun _ => space) name).imp ?_)
    intro _ s' adds
    refine added adds fun record held => ?_
    cases record with
    | reference hn => exact ⟨_, held, hn⟩

/-- Characters are held back. -/
theorem text_meets (hs : s.1.Open config) (inside : s.1.cursor ≠ documentId) (run : String)
    (flags : TextFlags) :
    (acceptAll (events (.text run flags))).Meets s
      (fun _ s' => Delivers config allowed [.text run flags] s s') fun _ _ => False := by
  rw [events, meets_acceptAll_singleton]
  refine accept_meets_of_isOpen hs rfl ((characters_meets hs run flags fun _ => inside).imp ?_)
  rintro _ s' same
  rw [afterCharacters, if_neg inside] at same
  subst same
  refine ⟨hs.of_pending _, ⟨.refl _, fun _ hu => .inl hu, rfl, rfl⟩, rfl, [], .nil, rfl,
    fun rest => ?_⟩
  rw [List.singleton_append, tidyAfter_text]
  rfl

section Element

variable {name : String} {attributes : List Event.Attribute}
  {children : List (NodeTree Event.Attribute)} {texts last : List Record} {own : Record}
  {stored : List StoredAttribute}

theorem StartsElement.size (h : StartsElement config name attributes texts own stored s s') :
    s'.1.document.nodes.size =
      s.1.document.nodes.size + s.1.held.toList.length + 1 + 2 * attributes.length := by
  rw [h.adds.size, List.length_append, List.length_cons, length_attributePairs,
    h.attributes.length_eq, h.text.length_eq]
  omega

/-- The attributes of an element are all there is after it. -/
theorem StartsElement.next_eq (h : StartsElement config name attributes texts own stored s s') :
    s'.1.cursor + 1 + 2 * attributes.length = s'.1.document.nodes.size := by
  rw [h.cursor, h.size, h.text.length_eq]

theorem StartsElement.placed_text
    (h : StartsElement config name attributes texts own stored s s') :
    s'.1.document.Placed s.1.cursor s.1.document.nodes.size s'.1.cursor (ofText s.1.held) := by
  rw [h.cursor]
  exact h.text.placed h.adds.holds_left

theorem StartsElement.holds (h : StartsElement config name attributes texts own stored s s') :
    s'.1.document.Holds s'.1.cursor own := by
  have held := h.adds.holds_right (i := 0) rfl
  rwa [Nat.add_zero, ← h.cursor] at held

theorem StartsElement.attributesAt
    (h : StartsElement config name attributes texts own stored s s') :
    s'.1.document.AttributesAt s'.1.cursor (s'.1.cursor + 1)
      (attributes.map fun attr => (attr.name, attr.value)) := by
  refine h.attributes.attributesAt fun {i r} hr => ?_
  have held := h.adds.holds_right (i := i + 1) hr
  rwa [← h.cursor, Nat.add_comm i 1, ← Nat.add_assoc] at held

/-- What is stored of the content of an element stands there when the element ends. -/
theorem Delivers.placed_content {trees : List StoredTree}
    (h : Delivers config allowed trees s s') (hp : s.1.pending = none)
    (ends : EndsElement config last s' s'') :
    s''.1.document.Placed s.1.cursor s.1.document.nodes.size s''.1.document.nodes.size
        (tidy config.stripIgnorable trees) ∧
      s''.1.document.nodes.size =
        s.1.document.nodes.size + widths (tidy config.stripIgnorable trees) := by
  obtain ⟨front, below, size, tidied⟩ := h.placed
  have inside : tidy config.stripIgnorable trees = front ++ ofText s'.1.held := by
    have := tidied []
    rw [List.append_nil, hp, tidyAfter_nil, ← h.isOpen.sound.held_eq] at this
    exact this
  have text := ends.text.placed ends.adds.holds
  rw [← ends.adds.size, h.cursor] at text
  rw [inside]
  refine ⟨(below.mono ends.adds.keeps.extension).append text, ?_⟩
  rw [ends.adds.size, size, ends.text.length_eq, widths_append, widths_ofText, Nat.add_assoc]

/-- An element was delivered when it was started, its content was delivered and it was ended. -/
theorem StartsElement.delivers {s₁ s₂ : Builder × Journal} (hs : s.1.Open config)
    (hu : ∀ u ∈ declaredUris attributes, u ∈ allowed)
    (starts : StartsElement config name attributes texts own stored s s₁)
    (inner : Delivers config allowed (storedAll config.stripIgnorable children) s₁ s₂)
    (ends : EndsElement config last s₂ s') :
    Delivers config allowed
      [NodeTree.stored config.stripIgnorable (.element name attributes children)] s s' := by
  obtain ⟨content, size⟩ := inner.placed_content starts.pending ends
  have later : s₁.1.document.Extends s'.1.document :=
    inner.keeps.extension.trans ends.adds.keeps.extension
  have held := starts.holds.mono later
  obtain ⟨namespaceId, id, hown, hid⟩ := starts.own
  rw [hown] at held
  have cursor : s'.1.cursor = s.1.cursor := by
    have hp := ends.parent
    rw [inner.cursor, held.parent?] at hp
    exact (Option.some.inj hp).symm
  have element : s'.1.document.Placed s.1.cursor s₁.1.cursor s'.1.document.nodes.size
      [NodeTree.stored config.stripIgnorable (.element name attributes children)] := by
    refine .element held (later.name hid) (starts.attributesAt.mono later) ?_ .nil
    rw [List.length_map, starts.next_eq]
    exact content
  refine ⟨ends.adds.isOpen, ?_, cursor, _, (starts.placed_text.mono later).append element, ?_,
    fun rest => ?_⟩
  · exact ((starts.adds.keeps.mono hu).trans inner.keeps).trans (ends.adds.keeps.mono nofun)
  · rw [size, starts.size, widths_append, widths_ofText, NodeTree.stored, widths, widths, width,
      List.length_map]
    omega
  · rw [List.singleton_append, tidyAfter_of_not_isText rfl, ends.pending, hs.sound.held_eq,
      List.append_assoc, List.singleton_append]

/-- What it takes to deliver some trees below an element. -/
def Deliverable (config : Config) (allowed : List String)
    (trees : List (NodeTree Event.Attribute)) : Prop :=
  ∀ s : Builder × Journal, s.1.Open config → Ample allowed s → s.1.cursor ≠ documentId →
    HasRoom config (storedAll config.stripIgnorable trees) s →
    (acceptAll (eventsAll trees)).Meets s
      (fun _ s' => Delivers config allowed (storedAll config.stripIgnorable trees) s s')
      fun _ _ => False

/-- An element is delivered if its content can be, and nothing is held back. -/
theorem element_meets (hs : s.1.Open config) (ample : Ample allowed s)
    (hu : ∀ u ∈ uris (.element name attributes children), u ∈ allowed)
    (inner : Deliverable config allowed children)
    (room : HasRoom config
      [NodeTree.stored config.stripIgnorable (.element name attributes children)] s) :
    (acceptAll (events (.element name attributes children))).Meets s
      (fun _ s' => Delivers config allowed
        [NodeTree.stored config.stripIgnorable (.element name attributes children)] s s' ∧
          s'.1.pending = none)
      fun _ _ => False := by
  have width := room.of_not_isText hs rfl
  rw [NodeTree.stored, NodeTree.width, List.length_map] at width
  have declared : ∀ u ∈ declaredUris attributes, u ∈ allowed := fun u hm =>
    hu u (List.mem_append_left _ hm)
  rw [events, acceptAll, meets_bind]
  refine accept_meets_of_isOpen hs rfl ((startElement_meets hs name attributes allowed
    (fun _ => ample) (fun _ => declared) fun _ => by omega).imp ?_)
  rintro _ s₁ ⟨texts, own, stored, starts⟩
  have inside : s₁.1.cursor ≠ documentId := by
    have hpos := Nat.zero_lt_of_lt hs.frontier.cursor_lt
    rw [starts.cursor]
    exact Nat.ne_of_gt (Nat.lt_of_lt_of_le hpos (Nat.le_add_right ..))
  have room₁ : HasRoom config (storedAll config.stripIgnorable children) s₁ := by
    rw [HasRoom, starts.size, starts.pending, starts.adds.keeps.capacity, tidyAfter]
    omega
  rw [meets_acceptAll_append]
  apply (inner s₁ starts.adds.isOpen (starts.adds.keeps.ample ample declared) inside room₁).imp
  intro _ s₂ delivered
  have room₂ : HasRoom config [] s₂ := delivered.hasRoom (by rwa [List.append_nil])
  rw [HasRoom, tidyAfter_nil, widths_ofText, ← delivered.isOpen.sound.held_eq] at room₂
  rw [meets_acceptAll_singleton]
  refine accept_meets_of_isOpen delivered.isOpen rfl ((endElement_meets delivered.isOpen
    (fun _ => room₂) fun _ => by rw [delivered.cursor]; exact inside).imp ?_)
  rintro _ s₃ ⟨last, ends⟩
  exact ⟨starts.delivers hs declared delivered ends, ends.pending⟩

end Element

/-- What is stored of the first of some trees leaves room for the rest. -/
private theorem deliverable_cons {tree : NodeTree Event.Attribute}
    {rest : List (NodeTree Event.Attribute)} (ample : Ample allowed s)
    (inside : s.1.cursor ≠ documentId)
    (room : HasRoom config (storedAll config.stripIgnorable (tree :: rest)) s)
    (first : (acceptAll tree.events).Meets s
      (fun _ s' => Delivers config allowed [tree.stored config.stripIgnorable] s s')
      fun _ _ => False)
    (later : Deliverable config allowed rest) :
    (acceptAll (eventsAll (tree :: rest))).Meets s
      (fun _ s' => Delivers config allowed (storedAll config.stripIgnorable (tree :: rest)) s s')
      fun _ _ => False := by
  rw [eventsAll, meets_acceptAll_append]
  apply first.imp
  intro _ s₁ delivered
  refine (later s₁ delivered.isOpen (delivered.keeps.ample ample fun _ hu => hu)
    (by rw [delivered.cursor]; exact inside) (delivered.hasRoom room)).imp ?_
  exact fun _ s₂ delivered' => delivered.trans delivered'

/-- There is room for the first of some trees if there is room for all of them. -/
theorem HasRoom.head {tree : StoredTree} {rest : List StoredTree}
    (ht : tree.isText = false) (room : HasRoom config (tree :: rest) s) :
    HasRoom config [tree] s := by
  rw [HasRoom, tidyAfter_of_not_isText ht, widths_append, widths] at room ⊢
  show _ + (_ + (_ + 0)) ≤ _
  omega

/-- Any trees can be delivered below an element. -/
theorem deliverable (trees : List (NodeTree Event.Attribute))
    (hu : ∀ u ∈ urisAll trees, u ∈ allowed) : Deliverable config allowed trees := by
  induction trees using forest_induction with
  | nil => exact fun s hs _ _ _ => .refl hs
  | text run flags rest ih =>
    intro s hs ample inside room
    exact deliverable_cons ample inside room (text_meets hs inside run flags) (ih hu)
  | leaf tree rest hl ih =>
    intro s hs ample inside room
    have ht : (tree.stored config.stripIgnorable).isText = false := by
      simp [isText_of_isLeaf hl]
    exact deliverable_cons ample inside room
      ((leaf_meets allowed hs hl (room.head ht)).imp fun _ _ delivered => delivered.1)
      (ih fun u hm => hu u (List.mem_append_right _ hm))
  | element name attributes children rest ihc ihr =>
    intro s hs ample inside room
    have first : ∀ u ∈ uris (.element name attributes children), u ∈ allowed := fun u hm =>
      hu u (List.mem_append_left _ hm)
    have inner := ihc fun u hm => first u (List.mem_append_right _ hm)
    exact deliverable_cons ample inside room
      ((element_meets hs ample first inner (room.head rfl)).imp fun _ _ delivered => delivered.1)
      (ihr fun u hm => hu u (List.mem_append_right _ hm))

end Builder

end XmlTable
