import XmlTable.Proofs.Placement

/-!
# What is read of trees

A reader of a complete document gets back the trees that stand in it: the walks come to the nodes at
which the trees stand and to no others, and the properties of those nodes are what the trees say.
-/

namespace XmlTable

open Node Query

variable {d : Document} {α : Type} {n p e i j m : Nat} {r : Record} {k : Kind}

namespace Query

/-! ### Properties of a node -/

theorem run_kind (h : d.nodes.kind? n = some k) : run d (kind n) = .answer k := by
  obtain ⟨r, hr, rfl⟩ := Table.exists_get?_of_kind? h
  exact run_record_bind hr _

/-- A node of a kind with names has the name of its record. -/
theorem run_nodeName {s : String} (h : d.Holds n r)
    (named : r.kind ≠ .document ∧ r.kind ≠ .text ∧ r.kind ≠ .comment)
    (hs : d.names.resolve r.name = some s) : run d (nodeName n) = .answer s := by
  obtain ⟨l, hl⟩ := h
  rw [nodeName, run_record_bind hl, Record.kind_withLink]
  split
  · next hk => exact absurd hk named.1
  · next hk => exact absurd hk named.2.1
  · next hk => exact absurd hk named.2.2
  · rw [Record.name_withLink]
    show Outcome.answer (d.name r.name) = _
    rw [Document.name, hs]
    rfl

/-- The value of a node with a payload is the payload. -/
theorem run_nodeValue? {s : String} (h : d.Holds n r)
    (hk : r.kind = .text ∨ r.kind = .comment ∨ r.kind = .instruction)
    (hs : d.texts.resolve r.payload = some s) : run d (nodeValue? n) = .answer (some s) := by
  obtain ⟨l, hl⟩ := h
  have value : run d (do return some (← observe (·.text (r.withLink l).payload))) =
      .answer (some s) := by
    show Outcome.answer (some (d.text (r.withLink l).payload)) = _
    rw [Record.payload_withLink, Document.text, Symbol.Store.get, hs]
    rfl
  rw [nodeValue?, run_record_bind hl, Record.kind_withLink]
  rcases hk with hk | hk | hk
  · rw [hk]
    exact value
  · rw [hk]
    exact value
  · rw [hk]
    exact value

/-- The value of an attribute or entity is that of the node after it. -/
theorem run_nodeValue?_of_value {next : Record} {s : String} (h : d.Holds n r)
    (hk : r.kind = .attr ∨ r.kind = .entity) (hv : d.Holds (n + 1) next)
    (hs : d.texts.resolve next.payload = some s) : run d (nodeValue? n) = .answer (some s) := by
  obtain ⟨l, hl⟩ := h
  obtain ⟨l', hl'⟩ := hv
  have found : run d (do
      let value ← record (n + 1)
      return some (← observe (·.text value.payload))) = .answer (some s) := by
    rw [run_record_bind hl']
    show Outcome.answer (some (d.text (next.withLink l').payload)) = _
    rw [Record.payload_withLink, Document.text, Symbol.Store.get, hs]
    rfl
  rw [nodeValue?, run_record_bind hl, Record.kind_withLink]
  rcases hk with hk | hk
  · rw [hk]
    exact found
  · rw [hk]
    exact found

/-- The flags of a text are those of its record. -/
theorem run_flags (h : d.Holds n r) (hk : r.kind = .text) :
    run d (isIgnorable n) = .answer r.flags.ignorable ∧
      run d (isCData n) = .answer r.flags.cdata := by
  obtain ⟨l, hl⟩ := h
  rw [isIgnorable, isCData, run_record_bind hl, run_record_bind hl, Record.kind_withLink,
    Record.flags_withLink, hk]
  exact ⟨rfl, rfl⟩

/-- An attribute is read as its name with the value that follows it. -/
theorem run_readAttribute {namespaceId : NamespaceId} {id payload : SymbolId} {link : Link}
    {name value : String} (h : d.Holds n (.linked .attr namespaceId e id link))
    (hn : d.names.resolve id = some name) (hv : d.Holds (n + 1) (.valueNode n payload))
    (hs : d.texts.resolve payload = some value) :
    run d (readAttribute n) = .answer (some (name, value)) := by
  have hname := run_nodeName h ⟨nofun, nofun, nofun⟩ hn
  have hvalue := run_nodeValue?_of_value h (.inl rfl) hv hs
  rw [readAttribute, run_bind_of_answer hname, run_bind_of_answer hvalue]
  rfl

end Query

/-! ### Nodes that are read one after the other -/

/-- The nodes from one on up to another one that have a property, in order, are read as some
values. -/
structure ReadsAs (d : Document) (P : Nat → Prop) (i j : Nat) (read : NodeId → Query (Option α))
    (values : List α) (nodes : List NodeId) : Prop where
  /-- The nodes are in order. -/
  sorted : nodes.Pairwise (· < ·)
  /-- They are those with the property. -/
  mem : ∀ n, n ∈ nodes ↔ i ≤ n ∧ n < j ∧ P n
  /-- They are read as the values. -/
  run_eq : run d (readEach read nodes) = .answer (some values)

namespace ReadsAs

variable {P : Nat → Prop} {read : NodeId → Query (Option α)} {values : List α} {value : α}
  {nodes : List NodeId}

theorem nil (d : Document) (P : Nat → Prop) (i : Nat) (read : NodeId → Query (Option α)) :
    ReadsAs d P i i read [] [] where
  sorted := .nil
  mem _ := ⟨nofun, fun hn => absurd hn.2.1 (Nat.not_lt.2 hn.1)⟩
  run_eq := rfl

/-- Nodes without the property are not read. -/
theorem skip (h : ReadsAs d P m j read values nodes) (him : i ≤ m)
    (gap : ∀ n, i ≤ n → n < m → ¬ P n) : ReadsAs d P i j read values nodes where
  sorted := h.sorted
  mem n := by
    rw [h.mem]
    refine ⟨fun hn => ⟨Nat.le_trans him hn.1, hn.2⟩, fun hn => ⟨?_, hn.2⟩⟩
    exact Nat.le_of_not_lt fun hlt => gap n hn.1 hlt hn.2.2
  run_eq := h.run_eq

/-- A node with the property is read first. -/
theorem cons (h : ReadsAs d P (i + 1) j read values nodes) (hij : i < j) (hi : P i)
    (hv : run d (read i) = .answer (some value)) :
    ReadsAs d P i j read (value :: values) (i :: nodes) where
  sorted := List.pairwise_cons.2 ⟨fun n hn => ((h.mem n).1 hn).1, h.sorted⟩
  mem n := by
    rw [List.mem_cons, h.mem]
    constructor
    · rintro (rfl | hn)
      · exact ⟨Nat.le_refl n, hij, hi⟩
      · exact ⟨Nat.le_of_succ_le hn.1, hn.2⟩
    · rintro ⟨hle, hn⟩
      exact (Nat.eq_or_lt_of_le hle).imp Eq.symm fun hlt => ⟨hlt, hn⟩
  run_eq := by
    rw [readEach, run_bind_of_answer hv]
    dsimp only
    rw [run_bind_of_answer h.run_eq]
    rfl

end ReadsAs

namespace Document

/-! ### Attributes -/

theorem AttributesAt.exists_readsAs {attributes : List (String × String)}
    (h : d.AttributesAt e n attributes) :
    ∃ nodes, ReadsAs d (d.nodes.IsAttribute e) n (n + 2 * attributes.length) readAttribute
      attributes nodes := by
  induction attributes generalizing n with
  | nil => exact ⟨[], .nil ..⟩
  | cons _ rest ih =>
    obtain ⟨_, _, _, _, held, hname, heldValue, hvalue, later⟩ := h
    obtain ⟨nodes, reads⟩ := ih later
    rw [List.length_cons, Nat.mul_add, Nat.mul_one, Nat.add_comm (2 * _), ← Nat.add_assoc]
    refine ⟨n :: nodes, (reads.skip (Nat.le_succ _) fun m hm hlt hattr => ?_).cons (by omega)
      ⟨held.kind?, held.parent?⟩ (run_readAttribute held hname heldValue hvalue)⟩
    obtain rfl : m = n + 1 := by omega
    cases heldValue.kind?.symm.trans hattr.1

/-- The attributes of an element that end where another parent's nodes begin are read. -/
theorem AttributesAt.run_readEach {attributes : List (String × String)} (hd : d.WellFormed)
    (hk : d.nodes.kind? e = some .element)
    (h : d.AttributesAt e (e + 1) attributes)
    (stop : ¬ d.nodes.IsAttribute e (e + 1 + 2 * attributes.length)) :
    ∃ nodes, run d (Query.attributes e) = .answer nodes ∧
      run d (readEach readAttribute nodes) = .answer (some attributes) := by
  obtain ⟨nodes, reads⟩ := h.exists_readsAs
  have last : d.nodes.kind? (e + 1 + 2 * attributes.length - 1) ≠ some .attr := by
    rw [Nat.add_right_comm, Nat.add_sub_cancel]
    apply h.kind_last
    rw [hk]
    nofun
  refine ⟨nodes, run_attributes hd hk reads.sorted fun n => ?_, reads.run_eq⟩
  rw [reads.mem]
  refine ⟨fun hn => hn.2.2, fun hn => ⟨hd.layout.parent_lt hn.2, ?_, hn⟩⟩
  exact hd.layout.isAttribute_lt (by omega) last stop hn

/-! ### Trees -/

/-- A tree without branches is read. -/
theorem LeafAt.run_readTree {tree : StoredTree} (h : d.LeafAt p n tree) (depth : Nat) :
    run d (readTree (depth + 1) n) = .answer (some tree) := by
  cases tree with
  | element => exact h.elim
  | text content flags =>
    obtain ⟨payload, held, hs⟩ := h
    obtain ⟨ignorable, cdata⟩ := run_flags held rfl
    rw [readTree, run_bind_of_answer (run_kind held.kind?)]
    dsimp only [Record.leaf]
    rw [run_bind_of_answer ignorable, run_bind_of_answer cdata,
      run_bind_of_answer (run_nodeValue? held (.inl rfl) hs)]
    rfl
  | comment content =>
    obtain ⟨payload, held, hs⟩ := h
    rw [readTree, run_bind_of_answer (run_kind held.kind?)]
    dsimp only [Record.leaf]
    rw [run_bind_of_answer (run_nodeValue? held (.inr (.inl rfl)) hs)]
    rfl
  | instruction target data =>
    obtain ⟨payload, name, held, hs, hn⟩ := h
    rw [readTree, run_bind_of_answer (run_kind held.kind?)]
    dsimp only [Record.leaf]
    rw [run_bind_of_answer (run_nodeName held ⟨nofun, nofun, nofun⟩ hn),
      run_bind_of_answer (run_nodeValue? held (.inr (.inr rfl)) hs)]
    rfl
  | reference name =>
    obtain ⟨id, held, hn⟩ := h
    rw [readTree, run_bind_of_answer (run_kind held.kind?)]
    dsimp only [Record.linked]
    rw [run_bind_of_answer (run_nodeName held ⟨nofun, nofun, nofun⟩ hn)]
    rfl

/-- An element is read as its name, its attributes and the trees below it. -/
theorem run_readTree_element {namespaceId : NamespaceId} {id : SymbolId} {link : Link}
    {name : String} {attributes : List (String × String)} {children : List StoredTree}
    {nodes : List NodeId} {depth : Nat} (held : d.Holds n (.linked .element namespaceId p id link))
    (hn : d.names.resolve id = some name) (walked : run d (Query.attributes n) = .answer nodes)
    (attrs : run d (readEach readAttribute nodes) = .answer (some attributes))
    (below : run d (readChildren (readTree depth) n) = .answer (some children)) :
    run d (readTree (depth + 1) n) = .answer (some (.element name attributes children)) := by
  rw [readTree, run_bind_of_answer (run_kind held.kind?)]
  dsimp only [Record.linked]
  rw [run_bind_of_answer (run_nodeName held ⟨nofun, nofun, nofun⟩ hn),
    run_bind_of_answer walked, run_bind_of_answer attrs]
  dsimp only
  rw [run_bind_of_answer below]
  rfl

end Document

/-- All children of a node are read if they are among those that are read. -/
theorem ReadsAs.run_readChildren {read : NodeId → Query (Option α)} {values : List α}
    {nodes : List NodeId} (hd : d.WellFormed) (done : d.isDone = true)
    (hp : d.nodes.kind? p = some .document ∨ d.nodes.kind? p = some .element)
    (h : ReadsAs d (d.nodes.IsChild p) i j read values nodes)
    (within : ∀ n, d.nodes.IsChild p n → i ≤ n ∧ n < j) :
    run d (readChildren read p) = .answer (some values) := by
  have walked : run d (children p) = .answer ⟨nodes, none⟩ := by
    obtain ⟨⟨found, stopped⟩, hrun, sorted, mem, complete⟩ := run_children (hd.quiescent done) hp
    obtain rfl : stopped = none := complete done
    obtain rfl : found = nodes := by
      refine sorted.eq_of_mem_iff h.sorted fun n => (mem n).trans ?_
      rw [h.mem]
      exact ⟨fun hn => ⟨(within n hn).1, (within n hn).2, hn⟩, fun hn => hn.2.2⟩
    exact hrun
  rw [readChildren, run_bind_of_answer walked]
  exact h.run_eq

namespace Document

/-- Trees are read if nothing after them is below them. -/
theorem Placed.exists_readsAs {trees : List StoredTree} (hd : d.WellFormed)
    (done : d.isDone = true) (h : d.Placed p i j trees)
    (hp : d.nodes.kind? p = some .document ∨ d.nodes.kind? p = some .element)
    (sealed : d.IsSealed i j) (depth : Nat) (hdepth : j ≤ i + depth) :
    ∃ nodes, ReadsAs d (d.nodes.IsChild p) i j (readTree depth) trees nodes := by
  induction h generalizing depth with
  | nil => exact ⟨[], .nil ..⟩
  | @entity i j _ hk _ ih =>
    obtain ⟨nodes, reads⟩ := ih hp (fun n q hq hiq => sealed n q hq (by omega))
      depth (by omega)
    refine ⟨nodes, reads.skip (by omega) fun n hin hn hchild => ?_⟩
    obtain ⟨⟨k, hk', plain⟩, value⟩ := hchild.1
    rcases Nat.eq_or_lt_of_le hin with rfl | hlt
    · obtain rfl := Option.some.inj (hk.symm.trans hk')
      cases plain
    · obtain rfl : n = i + 1 := by omega
      obtain ⟨hvk, hvp⟩ := (hd.layout hk).value rfl
      exact value ⟨hvk, i, _, hvp, hk, rfl⟩
  | @leaf p i j _ _ hl hr ih =>
    have hij := hr.le
    obtain ⟨depth, rfl⟩ : ∃ depth', depth = depth' + 1 := ⟨depth - 1, by omega⟩
    obtain ⟨nodes, reads⟩ := ih hp (fun n q hq hiq => sealed n q hq (by omega))
      (depth + 1) (by omega)
    obtain ⟨k, hk, -, plain⟩ := hl.kind?
    exact ⟨i :: nodes, reads.cons (by omega) (isChild_of_parent? hk plain hl.parent? hp)
      (hl.run_readTree depth)⟩
  | @element p i j k _ _ name attributes children _ held hn ha hc hr ihc ihr =>
    have hij := hc.le
    have hjk := hr.le
    have hpi : p < i := hd.layout.parent_lt held.parent?
    obtain ⟨depth, rfl⟩ : ∃ depth', depth = depth' + 1 := ⟨depth - 1, by omega⟩
    have own := hr.isSealed hd hpi sealed
    obtain ⟨below, belowReads⟩ := ihc (.inr held.kind?)
      (fun n q hq hiq => own n q hq (by omega)) depth (by omega)
    obtain ⟨nodes, reads⟩ := ihr hp (fun n q hq hiq => sealed n q hq (by omega))
      (depth + 1) (by omega)
    have stop : ¬ d.nodes.IsAttribute i (i + 1 + 2 * attributes.length) := by
      intro hattr
      have hlt := own _ i hattr.2 (Nat.le_refl i) (by omega)
      exact (hc.first hd hlt).2 hattr.1
    obtain ⟨attrs, walked, attrsRead⟩ := ha.run_readEach hd held.kind? stop
    have childrenRead := belowReads.run_readChildren hd done (.inr held.kind?) fun n hchild => by
      have hin := hd.layout.parent_lt hchild.2
      refine ⟨Nat.le_of_not_lt fun hlt => ha.not_isStructural hin hlt hchild.1, ?_⟩
      exact own n i hchild.2 (Nat.le_refl i) (by omega)
    have tree := run_readTree_element held hn walked attrsRead childrenRead
    refine ⟨i :: nodes, (reads.skip (by omega) fun n hin hnj hchild => ?_).cons (by omega)
      (isChild_of_parent? held.kind? rfl held.parent? hp) tree⟩
    -- What is below the element is not below its parent at once.
    by_cases hlt : n < i + 1 + 2 * attributes.length
    · exact ha.not_isStructural hin hlt hchild.1
    · have hge : i + 1 + 2 * attributes.length ≤ n := Nat.le_of_not_lt hlt
      rcases hc.parent_cases hd hge hnj hchild.2 with rfl | hle
      · omega
      · omega

/-- The trees that stand below the document node, up to the end of the table, are read. -/
theorem Placed.run_readDocument {trees : List StoredTree} (hd : d.WellFormed)
    (done : d.isDone = true) (h : d.Placed documentId 1 d.nodes.size trees) :
    run d readDocument = .answer (some trees) := by
  have root := hd.layout.kind?_zero (hd.nonempty done)
  have sealed : d.IsSealed 1 d.nodes.size := fun n q hq _ _ => Table.lt_size_of_parent? hq
  obtain ⟨nodes, reads⟩ := h.exists_readsAs hd done (.inl root) sealed indexBound
    (Nat.le_trans hd.size_le_indexBound (Nat.le_add_left ..))
  exact reads.run_readChildren hd done (.inl root) fun n hn =>
    ⟨hd.layout.parent_lt hn.2, hn.1.lt_size⟩

end Document

end XmlTable
