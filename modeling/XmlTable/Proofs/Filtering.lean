import XmlTable.Proofs.Depiction
import XmlTable.Proofs.Stripping

/-!
# Stripping is filtering

Of the same events, delivered with ignorable white space stripped and without, come two documents. A
reader finds that the one is the other after all texts of ignorable white space were deleted from
it: a node that is left has its number among those that are left, and is otherwise what it was.
-/

namespace XmlTable

open Node Outline

/-! ### Deleting from trees -/

namespace NodeTree

variable {α : Type}

mutual

/-- A tree from which the ignorable texts were deleted. -/
def pruned : NodeTree α → NodeTree α
  | element name attributes children => element name attributes (prunedAll children)
  | text run flags => text run flags
  | comment content => comment content
  | instruction target data => instruction target data
  | reference name => reference name

/-- Some trees from which the ignorable texts were deleted. -/
def prunedAll : List (NodeTree α) → List (NodeTree α)
  | [] => []
  | tree :: rest => if tree.isKept true then tree.pruned :: prunedAll rest else prunedAll rest

end

end NodeTree

/-! ### What a reader compares -/

theorem Node.Table.exists_attributes (t : Table) (e : Nat) : ∃ nodes : List Nat,
    nodes.Pairwise (· < ·) ∧ ∀ n, n ∈ nodes ↔ t.IsAttribute e n := by
  refine ⟨(t.ofKind .attr).filter fun n => t.parent? n = some e,
    (t.ofKind_ascending .attr).filter _, fun n => ?_⟩
  rw [List.mem_filter, Table.mem_ofKind, decide_eq_true_iff]
  rfl

namespace Document

variable {d d' : Document} {l : List Entry} {e e' : Entry} {n m p : Nat}

/-- A reader is not told that the node is ignorable white space. -/
def Retains (d : Document) (n : Nat) : Prop :=
  (Query.isIgnorable n).run d ≠ .answer true

instance (d : Document) : DecidablePred d.Retains := fun _ =>
  inferInstanceAs (Decidable (_ ≠ _))

/-- The number of a node among those that are no ignorable white space. -/
def place (d : Document) (n : Nat) : Nat :=
  (List.range n).countP fun m => decide (d.Retains m)

/-- A node of one document is the node with its place in another: it has the same properties, the
place of its parent is the parent there, the places of its attributes are the attributes, and the
places of its children, apart from ignorable white space, are the children. -/
structure SameAt (d d' : Document) (n : Nat) : Prop where
  /-- The kind. -/
  kind : (Query.kind (d.place n)).run d' = (Query.kind n).run d
  /-- The name. -/
  nodeName : (Query.nodeName (d.place n)).run d' = (Query.nodeName n).run d
  /-- The name without its prefix. -/
  localName : (Query.localName (d.place n)).run d' = (Query.localName n).run d
  /-- The prefix. -/
  namePrefix? : (Query.namePrefix? (d.place n)).run d' = (Query.namePrefix? n).run d
  /-- The value. -/
  nodeValue? : (Query.nodeValue? (d.place n)).run d' = (Query.nodeValue? n).run d
  /-- The namespace. -/
  namespaceUri? : (Query.namespaceUri? (d.place n)).run d' = (Query.namespaceUri? n).run d
  /-- It is no ignorable white space in either. -/
  isIgnorable : (Query.isIgnorable (d.place n)).run d' = (Query.isIgnorable n).run d
  /-- It is a CDATA section in both or in neither. -/
  isCData : (Query.isCData (d.place n)).run d' = (Query.isCData n).run d
  /-- The parent. -/
  parent : ∃ parent, (Query.parent n).run d = .answer parent ∧
    (Query.parent (d.place n)).run d' = .answer (parent.map d.place)
  /-- The attributes, in order. -/
  attributes : ∃ nodes, (Query.attributes n).run d = .answer nodes ∧
    (Query.attributes (d.place n)).run d' = .answer (nodes.map d.place)
  /-- The children, in order. -/
  children : ∃ nodes, (Query.children n).run d = .answer ⟨nodes, none⟩ ∧
    (Query.children (d.place n)).run d' = .answer ⟨(nodes.filter d.Retains).map d.place, none⟩

/-- One document is another after all its ignorable white space was deleted. The nodes that are left
move up to their places, in order, and each is there what it was; so are those that are found by an
identifier or by the name of an entity. -/
structure StripsTo (d d' : Document) : Prop where
  /-- Every node that is left has its place. -/
  size_eq : d'.nodes.size = d.place d.nodes.size
  /-- Places are in order. -/
  place_lt : ∀ {n m : Nat}, n < m → m ≤ d.nodes.size → d.Retains n → d.place n < d.place m
  /-- There is nothing else. -/
  exists_place : ∀ m < d'.nodes.size, ∃ n < d.nodes.size, d.Retains n ∧ d.place n = m
  /-- A node is at its place what it was. -/
  sameAt : ∀ n < d.nodes.size, d.Retains n → d.SameAt d' n
  /-- The tree that is read is the tree that was read after the texts were deleted. -/
  tree : ∃ trees, Query.readDocument.run d = .answer (some trees) ∧
    Query.readDocument.run d' = .answer (some (NodeTree.prunedAll trees))
  /-- Identifiers find the same elements. -/
  elementById : ∀ id, ∃ found, (Query.elementById id).run.run d = .answer (.ok found) ∧
    (Query.elementById id).run.run d' = .answer (.ok (found.map d.place)) ∧
    ∀ n, found = some n → d.Retains n
  /-- Names of entities find the same values and nodes. -/
  entity : ∀ name, ∃ found, (Query.entity name).run.run d = .answer (.ok found) ∧
    (Query.entity name).run.run d' =
      .answer (.ok (found.map (.renumber d.place))) ∧
    ∀ entry n, found = some entry → entry.node = some n → d.Retains n
  /-- The entities are the same, in order. -/
  entities : ∃ nodes, (Query.walk Query.firstEntity Query.nextSibling).run d =
      .answer ⟨nodes, none⟩ ∧
    (Query.walk Query.firstEntity Query.nextSibling).run d' = .answer ⟨nodes.map d.place, none⟩ ∧
    ∀ n ∈ nodes, d.Retains n

/-! ### Places -/

namespace Realizes

variable (h : d.Realizes l)
include h

theorem retains_iff (hn : l[n]? = some e) : d.Retains n ↔ e.isKept = true := by
  rw [Retains, (h.run_flags hn).1, Entry.isKept]
  generalize (decide (e.kind = .text) && e.flags.ignorable) = ignorable
  cases ignorable <;> simp

/-- Only texts are ignorable. -/
theorem retains_of_kind? {k : Kind} (hk : d.nodes.kind? n = some k) (other : k ≠ .text) :
    d.Retains n := by
  obtain ⟨e, he⟩ := h.exists_entry (Table.lt_size_of_kind? hk)
  obtain rfl := Option.some.inj ((h.kind? he).symm.trans hk)
  exact (h.retains_iff he).2 (Entry.isKept_of_ne other)

/-- What has children is no text. -/
theorem exists_parent (hn : l[n]? = some e) (hp : e.parent = some p) :
    ∃ e', l[p]? = some e' ∧ e'.isKept = true := by
  obtain ⟨k, hk, children, -⟩ :=
    (h.wellFormed.layout (h.kind? hn)).parent_kind ((h.parent? hn).trans hp)
  obtain ⟨e', he'⟩ := h.exists_entry (Table.lt_size_of_kind? hk)
  obtain rfl := Option.some.inj ((h.kind? he').symm.trans hk)
  refine ⟨e', he', Entry.isKept_of_ne fun text => ?_⟩
  rw [text] at children
  cases children

/-- A reader finds the place of a node among those that are kept. -/
theorem place_eq (hn : n ≤ d.nodes.size) : d.place n = Outline.place l n := by
  induction n with
  | zero => rfl
  | succ n ih =>
    obtain ⟨e, he⟩ := h.exists_entry hn
    obtain ⟨hlt, rfl⟩ := List.getElem?_eq_some_iff.1 he
    have same : decide (d.Retains n) = l[n].isKept := by
      rw [Bool.eq_iff_iff, decide_eq_true_iff, h.retains_iff he]
    rw [Document.place, List.range_succ, List.countP_append, ← Document.place,
      ih (Nat.le_of_succ_le hn), Outline.place, Outline.place,
      List.take_succ_eq_append_getElem hlt, List.countP_append, List.countP_singleton,
      List.countP_singleton, same]

/-- A node that is kept is told of at its place. -/
theorem entry_place (hn : l[n]? = some e) (kept : e.isKept = true) :
    (withoutIgnorable l)[d.place n]? = some (e.move (Outline.place l)) := by
  rw [h.place_eq (Nat.le_of_lt (h.lt_size hn))]
  exact getElem?_withoutIgnorable hn kept

/-- The places of nodes that are kept are in order. -/
theorem place_lt (hn : l[n]? = some e) (kept : e.isKept = true) (hlt : n < m)
    (hm : m ≤ d.nodes.size) : d.place n < d.place m := by
  rw [h.place_eq hm, h.place_eq (Nat.le_of_lt (h.lt_size hn))]
  exact Outline.place_lt hn kept hlt

theorem place_inj (hn : l[n]? = some e) (kept : e.isKept = true) (hm : l[m]? = some e')
    (kept' : e'.isKept = true) : d.place n = d.place m ↔ n = m := by
  refine ⟨fun same => ?_, fun same => same ▸ rfl⟩
  rcases Nat.lt_trichotomy n m with hlt | rfl | hlt
  · exact absurd same (Nat.ne_of_lt (h.place_lt hn kept hlt (Nat.le_of_lt (h.lt_size hm))))
  · rfl
  · exact absurd same.symm (Nat.ne_of_lt (h.place_lt hm kept' hlt (Nat.le_of_lt (h.lt_size hn))))

/-- A node that is kept has the same value at its place. -/
theorem nodeValue?_place (hn : l[n]? = some e) (kept : e.isKept = true) :
    nodeValue? (withoutIgnorable l) (d.place n) = nodeValue? l n := by
  have next : e.kind.hasValueNode = true →
      (withoutIgnorable l)[d.place n + 1]?.map (·.text) = l[n + 1]?.map (·.text) := fun hv => by
    obtain ⟨value, hvalue⟩ := h.values n e hn hv
    have place := h.place_eq (Nat.le_of_lt (h.lt_size hn))
    rw [place, ← place_succ hn kept, getElem?_withoutIgnorable hvalue rfl, hvalue]
    rfl
  rw [nodeValue?, nodeValue?, h.entry_place hn kept, hn, Option.bind_some, Option.bind_some]
  show e.value? _ = e.value? _
  rw [Entry.value?, Entry.value?]
  revert next
  cases e.kind
  case attr | entity => exact fun next => next rfl
  all_goals exact fun _ => rfl

theorem move_parent (hn : l[n]? = some e) :
    (e.move (Outline.place l)).parent = e.parent.map d.place := by
  show e.parent.map _ = _
  cases hp : e.parent with
  | none => rfl
  | some p =>
    obtain ⟨e', he', -⟩ := h.exists_parent hn hp
    rw [Option.map_some, Option.map_some, h.place_eq (Nat.le_of_lt (h.lt_size he'))]

end Realizes

/-! ### Two documents -/

namespace Realizes

variable (h : d.Realizes l) (h' : d'.Realizes (withoutIgnorable l))
include h h'

theorem size_eq : d'.nodes.size = d.place d.nodes.size := by
  rw [h.place_eq (Nat.le_refl _), h'.shows.size_eq, h.shows.size_eq, length_withoutIgnorable]

/-- Every node of the other document is at the place of a node that is kept. -/
theorem exists_place (hm : m < d'.nodes.size) : ∃ n e, l[n]? = some e ∧ e.isKept = true ∧
    d.place n = m := by
  obtain ⟨e', he'⟩ := h'.exists_entry hm
  obtain ⟨n, e, hn, kept, rfl, -⟩ := exists_of_getElem?_withoutIgnorable he'
  exact ⟨n, e, hn, kept, h.place_eq (Nat.le_of_lt (h.lt_size hn))⟩

theorem kind?_place (hn : l[n]? = some e) (kept : e.isKept = true) :
    d'.nodes.kind? (d.place n) = d.nodes.kind? n := by
  rw [h.kind? hn, h'.kind? (h.entry_place hn kept)]
  rfl

theorem parent?_place_iff (hn : l[n]? = some e) (kept : e.isKept = true) (hp : l[p]? = some e')
    (kept' : e'.isKept = true) :
    d'.nodes.parent? (d.place n) = some (d.place p) ↔ d.nodes.parent? n = some p := by
  rw [h'.parent? (h.entry_place hn kept), h.move_parent hn, h.parent? hn, Option.map_eq_some_iff]
  constructor
  · rintro ⟨q, hq, same⟩
    obtain ⟨_, heq, keptq⟩ := h.exists_parent hn hq
    rw [hq, (h.place_inj heq keptq hp kept').1 same]
  · exact fun hq => ⟨p, hq, rfl⟩

/-- What is among some nodes of the other document are the places of those that are kept among the
nodes of the first, if that is what being among them means. -/
theorem eq_map_place {P P' : Nat → Prop} {nodes nodes' : List Nat}
    (sorted : nodes.Pairwise (· < ·)) (mem : ∀ n, n ∈ nodes ↔ P n)
    (sorted' : nodes'.Pairwise (· < ·)) (mem' : ∀ m, m ∈ nodes' ↔ P' m)
    (lt_size : ∀ n, P n → n < d.nodes.size) (lt_size' : ∀ m, P' m → m < d'.nodes.size)
    (iff : ∀ n e, l[n]? = some e → e.isKept = true → (P' (d.place n) ↔ P n)) :
    nodes' = (nodes.filter d.Retains).map d.place := by
  have entry : ∀ n ∈ nodes.filter d.Retains, ∃ e, l[n]? = some e ∧ e.isKept = true ∧ P n := by
    intro n hn
    obtain ⟨hn, keeps⟩ := List.mem_filter.1 hn
    obtain ⟨e, he⟩ := h.exists_entry (lt_size n ((mem n).1 hn))
    exact ⟨e, he, (h.retains_iff he).1 (of_decide_eq_true keeps), (mem n).1 hn⟩
  refine sorted'.eq_of_mem_iff ?_ fun m => ?_
  · refine List.pairwise_map.2 ((sorted.filter _).imp_of_mem fun {n j} hn hj hlt => ?_)
    obtain ⟨e, he, kept, -⟩ := entry n hn
    obtain ⟨e', he', -⟩ := entry j hj
    exact h.place_lt he kept hlt (Nat.le_of_lt (h.lt_size he'))
  · rw [mem', List.mem_map]
    constructor
    · intro hm
      obtain ⟨n, e, he, kept, rfl⟩ := h.exists_place h' (lt_size' m hm)
      refine ⟨n, List.mem_filter.2 ⟨(mem n).2 ((iff n e he kept).1 hm), ?_⟩, rfl⟩
      exact decide_eq_true ((h.retains_iff he).2 kept)
    · rintro ⟨n, hn, rfl⟩
      obtain ⟨e, he, kept, hP⟩ := entry n hn
      exact (iff n e he kept).2 hP

/-- The nodes of a kind, other than texts, have their places in order. -/
theorem ofKind_eq {k : Kind} (hk : k ≠ .text) :
    d'.nodes.ofKind k = (d.nodes.ofKind k).map d.place := by
  have kept : (d.nodes.ofKind k).filter d.Retains = d.nodes.ofKind k :=
    List.filter_eq_self.2 fun n hn =>
      decide_eq_true (h.retains_of_kind? (Table.mem_ofKind.1 hn) hk)
  rw [← kept]
  exact h.eq_map_place h' (d.nodes.ofKind_ascending k) (fun n => Table.mem_ofKind)
    (d'.nodes.ofKind_ascending k) (fun m => Table.mem_ofKind)
    (fun n hn => Table.lt_size_of_kind? hn) (fun m hm => Table.lt_size_of_kind? hm)
    fun n e he kept => by rw [h.kind?_place h' he kept]

/-- The attributes of a node that is kept have their places in order. -/
theorem run_attributes (hn : l[n]? = some e) (kept : e.isKept = true) :
    ∃ nodes, (Query.attributes n).run d = .answer nodes ∧
      (Query.attributes (d.place n)).run d' = .answer (nodes.map d.place) ∧
      ∀ m ∈ nodes, d.nodes.IsAttribute n m := by
  have kind := h.kind? hn
  have kind' := (h.kind?_place h' hn kept).trans kind
  by_cases element : e.kind = .element
  · rw [element] at kind kind'
    obtain ⟨nodes, sorted, mem⟩ := d.nodes.exists_attributes n
    obtain ⟨nodes', sorted', mem'⟩ := d'.nodes.exists_attributes (d.place n)
    have same := h.eq_map_place h' sorted mem sorted' mem'
      (fun m hm => Table.lt_size_of_kind? hm.1) (fun m hm => Table.lt_size_of_kind? hm.1)
      fun m em hm keptm => by
        rw [Table.IsAttribute, Table.IsAttribute, h.kind?_place h' hm keptm,
          h.parent?_place_iff h' hm keptm hn kept]
    have all : nodes.filter d.Retains = nodes := List.filter_eq_self.2 fun m hm =>
      decide_eq_true (h.retains_of_kind? ((mem m).1 hm).1 (by decide))
    rw [all] at same
    exact ⟨nodes, Query.run_attributes h.wellFormed kind sorted mem,
      same ▸ Query.run_attributes h'.wellFormed kind' sorted' mem', fun m hm => (mem m).1 hm⟩
  · exact ⟨[], Query.run_attributes_eq_nil h.wellFormed kind element,
      Query.run_attributes_eq_nil h'.wellFormed kind' element,
      fun _ hm => absurd hm List.not_mem_nil⟩

/-- So have its children, apart from those that are not kept. -/
theorem run_children (hn : l[n]? = some e) (kept : e.isKept = true) :
    ∃ nodes, (Query.children n).run d = .answer ⟨nodes, none⟩ ∧
      (Query.children (d.place n)).run d' =
        .answer ⟨(nodes.filter d.Retains).map d.place, none⟩ ∧
      ∀ m ∈ nodes, d.nodes.IsListed n m := by
  obtain ⟨walked, hrun, sorted, mem, whole⟩ :=
    Query.exists_run_children (h.wellFormed.quiescent h.isDone) (h.lt_size hn)
  obtain ⟨walked', hrun', sorted', mem', whole'⟩ :=
    Query.exists_run_children (h'.wellFormed.quiescent h'.isDone)
      (h'.lt_size (h.entry_place hn kept))
  have same := h.eq_map_place h' sorted mem sorted' mem'
    (fun m hm => Table.lt_size_of_parent? hm.1) (fun m hm => Table.lt_size_of_parent? hm.1)
    fun m em hm keptm => by
      rw [Table.IsListed, Table.IsListed, h.parent?_place_iff h' hm keptm hn kept,
        h.kind?_place h' hm keptm]
  refine ⟨walked.nodes, ?_, ?_, fun m hm => (mem m).1 hm⟩
  · rw [hrun, ← whole h.isDone]
  · rw [hrun', ← same, ← whole' h'.isDone]

/-- A node that is kept is the node at its place. -/
theorem sameAt (hn : l[n]? = some e) (kept : e.isKept = true) : d.SameAt d' n := by
  have hn' := h.entry_place hn kept
  obtain ⟨attributes, walked, walked', -⟩ := h.run_attributes h' hn kept
  obtain ⟨children, below, below', -⟩ := h.run_children h' hn kept
  exact
    { kind := by rw [h.run_kind hn, h'.run_kind hn']; rfl
      nodeName := by rw [h.run_nodeName hn, h'.run_nodeName hn']; rfl
      localName := by rw [(h.run_localName hn).1, (h'.run_localName hn').1]; rfl
      namePrefix? := by rw [(h.run_localName hn).2, (h'.run_localName hn').2]; rfl
      nodeValue? := by
        rw [h.run_nodeValue? hn, h'.run_nodeValue? hn', h.nodeValue?_place hn kept]
      namespaceUri? := by rw [h.run_namespaceUri? hn, h'.run_namespaceUri? hn']; rfl
      isIgnorable := by rw [(h.run_flags hn).1, (h'.run_flags hn').1]; rfl
      isCData := by rw [(h.run_flags hn).2, (h'.run_flags hn').2]; rfl
      parent := ⟨e.parent, h.run_parent hn, by rw [h'.run_parent hn', h.move_parent hn]⟩
      attributes := ⟨attributes, walked, walked'⟩
      children := ⟨children, below, below'⟩ }

/-! #### Trees -/

omit h h' in
/-- The same is read of nodes and of their places. -/
theorem exists_readEach {α : Type} {read read' : NodeId → Query (Option α)}
    {f : NodeId → NodeId} {nodes : List NodeId} (each : ∀ n ∈ nodes, ∃ value,
      (read n).run d = .answer (some value) ∧ (read' (f n)).run d' = .answer (some value)) :
    ∃ values, (Query.readEach read nodes).run d = .answer (some values) ∧
      (Query.readEach read' (nodes.map f)).run d' = .answer (some values) := by
  induction nodes with
  | nil => exact ⟨[], rfl, rfl⟩
  | cons n rest ih =>
    obtain ⟨value, own, own'⟩ := each n List.mem_cons_self
    obtain ⟨values, later, later'⟩ := ih fun m hm => each m (List.mem_cons_of_mem _ hm)
    refine ⟨value :: values, ?_, ?_⟩
    · rw [Query.readEach, Query.run_bind_of_answer own]
      dsimp only
      rw [Query.run_bind_of_answer later]
      rfl
    · rw [List.map_cons, Query.readEach, Query.run_bind_of_answer own']
      dsimp only
      rw [Query.run_bind_of_answer later']
      rfl

omit h h' in
/-- Of the places of the nodes that are kept is read what is left of the trees. -/
theorem exists_readEach_pruned {read read' : NodeId → Query (Option StoredTree)}
    {f : NodeId → NodeId} {keep : NodeId → Bool} {nodes : List NodeId}
    (each : ∀ n ∈ nodes, ∃ tree, (read n).run d = .answer (some tree) ∧
      tree.isKept true = keep n ∧
      (keep n = true → (read' (f n)).run d' = .answer (some tree.pruned))) :
    ∃ trees, (Query.readEach read nodes).run d = .answer (some trees) ∧
      (Query.readEach read' ((nodes.filter keep).map f)).run d' =
        .answer (some (NodeTree.prunedAll trees)) := by
  induction nodes with
  | nil => exact ⟨[], rfl, rfl⟩
  | cons n rest ih =>
    obtain ⟨tree, own, same, own'⟩ := each n List.mem_cons_self
    obtain ⟨trees, later, later'⟩ := ih fun m hm => each m (List.mem_cons_of_mem _ hm)
    refine ⟨tree :: trees, ?_, ?_⟩
    · rw [Query.readEach, Query.run_bind_of_answer own]
      dsimp only
      rw [Query.run_bind_of_answer later]
      rfl
    · rw [NodeTree.prunedAll, same]
      by_cases keeps : keep n = true
      · rw [List.filter_cons_of_pos keeps, if_pos keeps, List.map_cons, Query.readEach,
          Query.run_bind_of_answer (own' keeps)]
        dsimp only
        rw [Query.run_bind_of_answer later']
        rfl
      · rw [List.filter_cons_of_neg keeps, if_neg keeps]
        exact later'

/-- The same is read of an attribute and of its place. -/
theorem exists_readAttribute (hn : l[n]? = some e) (hk : e.kind = .attr) : ∃ pair,
    (Query.readAttribute n).run d = .answer (some pair) ∧
      (Query.readAttribute (d.place n)).run d' = .answer (some pair) := by
  have kept : e.isKept = true := Entry.isKept_of_ne (by rw [hk]; decide)
  obtain ⟨value, next⟩ := h.values n e hn (by rw [hk]; rfl)
  have found : nodeValue? l n = some value := by
    rw [nodeValue?, hn, Option.bind_some, Entry.value?, hk, next]
    rfl
  have same := h.sameAt h' hn kept
  have name := h.run_nodeName hn
  have valued := h.run_nodeValue? hn
  rw [found] at valued
  refine ⟨(e.nodeName, value), ?_, ?_⟩
  · rw [Query.readAttribute, Query.run_bind_of_answer name, Query.run_bind_of_answer valued]
    rfl
  · rw [Query.readAttribute, Query.run_bind_of_answer (same.nodeName.trans name),
      Query.run_bind_of_answer (same.nodeValue?.trans valued)]
    rfl

/-- A tree is read of a node, down to a depth; of its place, if it is kept, what is left of it. -/
def ReadsTree (d d' : Document) (depth n : Nat) : Prop :=
  ∃ tree, (Query.readTree depth n).run d = .answer (some tree) ∧
    tree.isKept true = decide (d.Retains n) ∧
    (d.Retains n → (Query.readTree depth (d.place n)).run d' = .answer (some tree.pruned))

/-- Trees are read of the children of a node that is kept; of those of its place what is left of
them. -/
theorem exists_readChildren {depth : Nat} (hn : l[n]? = some e) (kept : e.isKept = true)
    (hdepth : d.nodes.size ≤ n + 1 + depth)
    (below : ∀ m em, l[m]? = some em → d.nodes.size ≤ m + depth → em.IsPart →
      ReadsTree d d' depth m) : ∃ trees,
    (Query.readChildren (Query.readTree depth) n).run d = .answer (some trees) ∧
      (Query.readChildren (Query.readTree depth) (d.place n)).run d' =
        .answer (some (NodeTree.prunedAll trees)) := by
  obtain ⟨nodes, walked, walked', listed⟩ := h.run_children h' hn kept
  have each : ∀ m ∈ nodes, ∃ tree, (Query.readTree depth m).run d = .answer (some tree) ∧
      tree.isKept true = decide (d.Retains m) ∧ (decide (d.Retains m) = true →
        (Query.readTree depth (d.place m)).run d' = .answer (some tree.pruned)) := by
    intro m hm
    obtain ⟨hp, attr, entity⟩ := listed m hm
    obtain ⟨em, hem⟩ := h.exists_entry (Table.lt_size_of_parent? hp)
    have kind := h.kind? hem
    have hlt := h.wellFormed.layout.parent_lt hp
    rw [kind] at attr entity
    obtain ⟨tree, own, same, own'⟩ := below m em hem (by omega)
      ⟨fun root => by
        have := (h.wellFormed.layout kind).document_iff.1 root
        omega, fun same => attr (congrArg some same), fun same => entity (congrArg some same)⟩
    exact ⟨tree, own, same, fun keeps => own' (of_decide_eq_true keeps)⟩
  obtain ⟨trees, read, read'⟩ := exists_readEach_pruned each
  refine ⟨trees, ?_, ?_⟩
  · rw [Query.readChildren, Query.run_bind_of_answer walked]
    exact read
  · rw [Query.readChildren, Query.run_bind_of_answer walked']
    exact read'

/-- An element is read as its name, its attributes and the trees of its children. -/
theorem readsTree_element {depth : Nat} (hn : l[n]? = some e) (element : e.kind = .element)
    (below : ∃ trees,
      (Query.readChildren (Query.readTree depth) n).run d = .answer (some trees) ∧
        (Query.readChildren (Query.readTree depth) (d.place n)).run d' =
          .answer (some (NodeTree.prunedAll trees))) : ReadsTree d d' (depth + 1) n := by
  have kept : e.isKept = true := Entry.isKept_of_ne (by rw [element]; decide)
  have kind := h.run_kind hn
  have name := h.run_nodeName hn
  have same := h.sameAt h' hn kept
  obtain ⟨nodes, walked, walked', owned⟩ := h.run_attributes h' hn kept
  have each : ∀ m ∈ nodes, ∃ pair, (Query.readAttribute m).run d = .answer (some pair) ∧
      (Query.readAttribute (d.place m)).run d' = .answer (some pair) := fun m hm => by
    obtain ⟨em, hem⟩ := h.exists_entry (Table.lt_size_of_kind? (owned m hm).1)
    exact h.exists_readAttribute h' hem
      (Option.some.inj ((h.kind? hem).symm.trans (owned m hm).1))
  obtain ⟨pairs, read, read'⟩ := exists_readEach each
  obtain ⟨trees, below, below'⟩ := below
  rw [element] at kind
  refine ⟨.element e.nodeName pairs trees, ?_, ?_, fun _ => ?_⟩
  · rw [Query.readTree, Query.run_bind_of_answer kind]
    dsimp only
    rw [Query.run_bind_of_answer name, Query.run_bind_of_answer walked,
      Query.run_bind_of_answer read]
    dsimp only
    rw [Query.run_bind_of_answer below]
    rfl
  · exact (decide_eq_true ((h.retains_iff hn).2 kept)).symm
  · rw [NodeTree.pruned, Query.readTree, Query.run_bind_of_answer (same.kind.trans kind)]
    dsimp only
    rw [Query.run_bind_of_answer (same.nodeName.trans name), Query.run_bind_of_answer walked',
      Query.run_bind_of_answer read']
    dsimp only
    rw [Query.run_bind_of_answer below']
    rfl

/-- Trees are read of nodes and what is left of them of the places. -/
theorem readsTree {depth : Nat} (hn : l[n]? = some e) (hdepth : d.nodes.size ≤ n + depth)
    (part : e.IsPart) : ReadsTree d d' depth n := by
  induction depth generalizing n e with
  | zero => exact absurd (h.lt_size hn) (Nat.not_lt.2 hdepth)
  | succ depth ih =>
    have keeps : decide (d.Retains n) = e.isKept := by
      rw [Bool.eq_iff_iff, decide_eq_true_iff, h.retains_iff hn]
    by_cases element : e.kind = .element
    · have kept : e.isKept = true := Entry.isKept_of_ne (by rw [element]; decide)
      exact h.readsTree_element h' hn element
        (h.exists_readChildren h' hn kept (by omega) fun m em hm => ih hm)
    · refine ⟨e.leaf, h.run_readTree_leaf hn part element depth, ?_, fun kept => ?_⟩
      · rw [keeps, Entry.isKept, Entry.leaf]
        cases e.kind <;> simp [NodeTree.isKept]
      · have kept := (h.retains_iff hn).1 kept
        rw [h'.run_readTree_leaf (h.entry_place hn kept) part element depth]
        show Outcome.answer (some e.leaf) = _
        rw [Entry.leaf]
        cases e.kind <;> rfl

/-! #### Documents -/

/-- The trees that are read below the document node are what is left. -/
theorem run_readDocument : ∃ trees, Query.readDocument.run d = .answer (some trees) ∧
    Query.readDocument.run d' = .answer (some (NodeTree.prunedAll trees)) := by
  have root := h.wellFormed.layout.kind?_zero (h.wellFormed.nonempty h.isDone)
  obtain ⟨e, he⟩ := h.exists_entry (Table.lt_size_of_kind? root)
  have kind : e.kind = .document := Option.some.inj ((h.kind? he).symm.trans root)
  have kept : e.isKept = true := Entry.isKept_of_ne (by rw [kind]; decide)
  have depth : ∀ n, d.nodes.size ≤ n + indexBound := fun n =>
    Nat.le_trans h.wellFormed.size_le_indexBound (Nat.le_add_left ..)
  exact h.exists_readChildren h' he kept (depth _) fun m em hm bound part =>
    h.readsTree h' hm bound part

theorem run_elementById {groups : List (List String)} (id : String)
    (identified : d.identified? id =
      (groups.findIdx? (id ∈ ·)).bind (d.nodes.elements[·]?))
    (identified' : d'.identified? id =
      (groups.findIdx? (id ∈ ·)).bind (d'.nodes.elements[·]?)) : ∃ found,
    (Query.elementById id).run.run d = .answer (.ok found) ∧
      (Query.elementById id).run.run d' = .answer (.ok (found.map d.place)) ∧
      ∀ n, found = some n → d.Retains n := by
  have elements : d'.nodes.elements = d.nodes.elements.map d.place := h.ofKind_eq h' nofun
  refine ⟨d.identified? id, Query.run_elementById_of_ready (.inr h.isDone), ?_, fun n hn => ?_⟩
  · rw [Query.run_elementById_of_ready (.inr h'.isDone), identified', identified, elements,
      Option.map_bind]
    simp only [List.getElem?_map]
    rfl
  · rw [identified, Option.bind_eq_some_iff] at hn
    obtain ⟨i, -, hi⟩ := hn
    exact h.retains_of_kind? (Table.mem_elements.1 (List.mem_of_getElem? hi)) nofun

theorem run_entity {entities : List (String × String)} (declares : d.Declares entities)
    (declares' : d'.Declares entities) (name : String) : ∃ found,
    (Query.entity name).run.run d = .answer (.ok found) ∧
      (Query.entity name).run.run d' =
        .answer (.ok (found.map (.renumber d.place))) ∧
      ∀ entry n, found = some entry → entry.node = some n → d.Retains n := by
  have nodes := h.ofKind_eq h' (k := .entity) nofun
  refine ⟨d.entities.get? name, Query.run_entity h.isDone name, ?_, fun entry n he hn => ?_⟩
  · rw [Query.run_entity h'.isDone, declares.get?, declares'.get?, nodes,
      Entity.lookup_entriesOf_map]
    cases Entity.predefined.lookup name <;> rfl
  · rw [declares.get?] at he
    cases predefined : Entity.predefined.lookup name with
    | some value =>
      rw [predefined] at he
      obtain rfl := Option.some.inj he
      cases hn
    | none =>
      rw [predefined] at he
      have mem := Entity.mem_of_lookup_entriesOf he hn
      exact h.retains_of_kind? (Table.mem_ofKind.1 mem) nofun

theorem run_entities : ∃ nodes,
    (Query.walk Query.firstEntity Query.nextSibling).run d = .answer ⟨nodes, none⟩ ∧
      (Query.walk Query.firstEntity Query.nextSibling).run d' =
        .answer ⟨nodes.map d.place, none⟩ ∧
      ∀ n ∈ nodes, d.Retains n := by
  obtain ⟨walked, hrun, all, whole⟩ :=
    Query.run_entities (h.wellFormed.quiescent h.isDone)
  obtain ⟨walked', hrun', all', whole'⟩ :=
    Query.run_entities (h'.wellFormed.quiescent h'.isDone)
  refine ⟨d.nodes.ofKind .entity, ?_, ?_, fun n hn => ?_⟩
  · rw [hrun, ← all, ← whole h.isDone]
  · rw [hrun', ← h.ofKind_eq h' (k := .entity) nofun, ← all', ← whole' h'.isDone]
  · exact h.retains_of_kind? (Table.mem_ofKind.1 hn) nofun

end Realizes

end Document

/-! ### Two runs -/

namespace Builder

variable {config : Config} {s : Builder × Journal} {events : List Event}

/-- A complete document that was made of some events is what their outline says. -/
theorem Takes.realizes {journal : Journal} (h : Takes (start config, journal) events s)
    (done : s.1.document.isDone = true) :
    s.1.document.Realizes (Outline.ofEvents config.stripIgnorable events).entries where
  wellFormed := (h.reaches.consistent (consistent_start config)).sound.wellFormed
  isDone := done
  shows := h.shows done
  values := Outline.hasValues_ofEvents _ _

/-- Of the same events a builder that strips makes the document without ignorable white space. -/
theorem Takes.stripsTo {journal journal' : Journal} {s' : Builder × Journal}
    (h : Takes (start (config.withStripIgnorable false), journal) events s)
    (h' : Takes (start (config.withStripIgnorable true), journal') events s')
    (done : s.1.document.isDone = true) (done' : s'.1.document.isDone = true) :
    s.1.document.StripsTo s'.1.document := by
  have own := h.realizes done
  have other : s'.1.document.Realizes
      (Outline.withoutIgnorable (Outline.ofEvents false events).entries) :=
    (Outline.strips_ofEvents events).entries ▸ h'.realizes done'
  refine
    { size_eq := own.size_eq other
      place_lt := fun {n m} hlt hm keeps => ?_
      exists_place := fun m hm => ?_
      sameAt := fun n hn keeps => ?_
      tree := own.run_readDocument other
      elementById := fun id => own.run_elementById other id (h.identifies.identified id)
        (h'.identifies.identified id)
      entity := own.run_entity other h.declares h'.declares
      entities := own.run_entities other }
  · obtain ⟨e, he⟩ := own.exists_entry (Nat.lt_of_lt_of_le hlt hm)
    exact own.place_lt he ((own.retains_iff he).1 keeps) hlt hm
  · obtain ⟨n, e, he, kept, place⟩ := own.exists_place other hm
    exact ⟨n, own.lt_size he, (own.retains_iff he).2 kept, place⟩
  · obtain ⟨e, he⟩ := own.exists_entry hn
    exact own.sameAt other he ((own.retains_iff he).1 keeps)

/-- Stripping is filtering. If the same events complete a document without stripping and with it,
the stripped document is the other one after all its ignorable white space was deleted. -/
theorem stripping_is_filtering (config : Config) (journal : Journal) (events : List Event) :
    let made := fun strip : Bool =>
      ((acceptAll events).run.run (start (config.withStripIgnorable strip), journal)).2.1.document
    (made false).isDone = true → (made true).isDone = true →
      (made false).StripsTo (made true) := by
  intro made done done'
  have taken : ∀ strip, (made strip).isDone = true →
      Takes (start (config.withStripIgnorable strip), journal) (Event.upToEnd events)
        ((acceptAll events).run.run (start (config.withStripIgnorable strip), journal)).2 := by
    intro strip complete
    have consistent := consistent_start (config.withStripIgnorable strip)
    exact takes_upToEnd consistent Stage.noConfusion
      (((reaches_acceptAll events _).consistent consistent).stage_eq complete)
  exact (taken false done).stripsTo (taken true done') done done'

/-- An element moves up by the white space before it, and its identifier finds it there. -/
theorem stripping_is_filtering_of_indented_element :
    let events : List Event := [.startDocument, .entityDeclaration "v" "w",
      .startElement "r" [], .characters "\n " { ignorable := true },
      .startElement "a" [{ name := "i", value := "x", isId := true }], .characters " " {},
      .endElement, .characters "\n" { ignorable := true }, .comment "c", .endElement,
      .endDocument]
    let made := fun strip : Bool => ((acceptAll events).run.run
      (start (Config.standard.withStripIgnorable strip), { handler := .lenient })).2.1.document
    (made false).StripsTo (made true) ∧
      (Query.elementById "x").run.run (made false) = .answer (.ok (some 5)) ∧
      (Query.elementById "x").run.run (made true) = .answer (.ok (some 4)) ∧
      (Query.children 3).run (made false) = .answer ⟨[4, 5, 9, 10], none⟩ ∧
      (Query.children 3).run (made true) = .answer ⟨[4, 8], none⟩ := by
  intro events made
  have strips : (made false).StripsTo (made true) :=
    stripping_is_filtering .standard { handler := .lenient } events (by decide +kernel)
      (by decide +kernel)
  obtain ⟨element, children⟩ :
      (Query.elementById "x").run.run (made false) = .answer (.ok (some 5)) ∧
      (Query.children 3).run (made false) = .answer ⟨[4, 5, 9, 10], none⟩ := by decide +kernel
  obtain ⟨found, same, there, -⟩ := strips.elementById "x"
  obtain rfl : some 5 = found := by
    rw [element] at same
    cases same
    rfl
  obtain ⟨nodes, same', below⟩ := (strips.sameAt 3 (by decide +kernel) (by decide +kernel)).children
  obtain rfl : [4, 5, 9, 10] = nodes := by
    rw [children] at same'
    cases same'
    rfl
  obtain ⟨five, left, three⟩ : (made false).place 5 = 4 ∧
      (([4, 5, 9, 10] : List NodeId).filter (made false).Retains).map (made false).place = [4, 8] ∧
      (made false).place 3 = 3 := by decide +kernel
  rw [Option.map_some, five] at there
  rw [left, three] at below
  exact ⟨strips, element, there, children, below⟩

end Builder

end XmlTable
