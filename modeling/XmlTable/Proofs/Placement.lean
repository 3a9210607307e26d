import XmlTable.Proofs.Navigation
import XmlTable.Query.Tree

/-!
# Where trees stand

The records of a tree lie next to each other: an element, its attributes, then what is below it.
Trees that stand in a document stay where they are when it grows, and in a complete document they
are what is read of the nodes at which they stand. For that the end of an element must be the end of
what is below it, which is so because whatever comes after it has a parent further up.
-/

namespace XmlTable

open Node

namespace Document

variable {d d' : Document} {p e n i j k : Nat}

/-! ### Trees in a document -/

/-- A tree without branches stands at a node, under a parent. -/
def LeafAt (d : Document) (p n : Nat) : StoredTree → Prop
  | .element .. => False
  | .text content flags => ∃ payload, d.Holds n (.leaf .text flags p payload 0) ∧
      d.texts.resolve payload = some content
  | .comment content => ∃ payload, d.Holds n (.leaf .comment {} p payload 0) ∧
      d.texts.resolve payload = some content
  | .instruction target data => ∃ payload name,
      d.Holds n (.leaf .instruction {} p payload name) ∧
        d.texts.resolve payload = some data ∧ d.names.resolve name = some target
  | .reference name => ∃ id, d.Holds n (.linked .reference 0 p id .pending) ∧
      d.names.resolve id = some name

/-- Attributes of an element stand at the nodes from one on, each followed by its value. -/
def AttributesAt (d : Document) (e : Nat) : Nat → List (String × String) → Prop
  | _, [] => True
  | n, (name, value) :: rest => ∃ namespaceId id link payload,
      d.Holds n (.linked .attr namespaceId e id link) ∧ d.names.resolve id = some name ∧
        d.Holds (n + 1) (.valueNode n payload) ∧ d.texts.resolve payload = some value ∧
          AttributesAt d e (n + 2) rest

/-- Trees stand one after the other from one node on up to another one, under a parent. Between
those below the document node there may be entities. -/
inductive Placed (d : Document) : Nat → Nat → Nat → List StoredTree → Prop
  | nil {p i : Nat} : Placed d p i i []
  | entity {i j : Nat} {trees : List StoredTree} :
      d.nodes.kind? i = some .entity → Placed d documentId (i + 2) j trees →
      Placed d documentId i j trees
  | leaf {p i j : Nat} {tree : StoredTree} {rest : List StoredTree} :
      d.LeafAt p i tree → Placed d p (i + 1) j rest → Placed d p i j (tree :: rest)
  | element {p i j k : Nat} {namespaceId : NamespaceId} {id : SymbolId} {name : String}
      {attributes : List (String × String)} {children rest : List StoredTree} :
      d.Holds i (.linked .element namespaceId p id .pending) → d.names.resolve id = some name →
      d.AttributesAt i (i + 1) attributes →
      Placed d i (i + 1 + 2 * attributes.length) j children → Placed d p j k rest →
      Placed d p i k (.element name attributes children :: rest)

variable {tree : StoredTree} {trees rest : List StoredTree}
  {attributes : List (String × String)}

theorem LeafAt.mono (h : d.LeafAt p n tree) (he : d.Extends d') : d'.LeafAt p n tree := by
  cases tree with
  | element => exact h
  | text content flags =>
    obtain ⟨payload, held, hs⟩ := h
    exact ⟨payload, held.mono he, he.text hs⟩
  | comment content =>
    obtain ⟨payload, held, hs⟩ := h
    exact ⟨payload, held.mono he, he.text hs⟩
  | instruction target data =>
    obtain ⟨payload, name, held, hs, hn⟩ := h
    exact ⟨payload, name, held.mono he, he.text hs, he.name hn⟩
  | reference name =>
    obtain ⟨id, held, hn⟩ := h
    exact ⟨id, held.mono he, he.name hn⟩

theorem AttributesAt.mono (h : d.AttributesAt e n attributes) (he : d.Extends d') :
    d'.AttributesAt e n attributes := by
  induction attributes generalizing n with
  | nil => trivial
  | cons _ _ ih =>
    obtain ⟨namespaceId, id, link, payload, held, hn, heldValue, hs, later⟩ := h
    exact ⟨namespaceId, id, link, payload, held.mono he, he.name hn, heldValue.mono he, he.text hs,
      ih later⟩

/-- Trees stay where they are. -/
theorem Placed.mono (h : d.Placed p i j trees) (he : d.Extends d') : d'.Placed p i j trees := by
  induction h with
  | nil => exact .nil
  | entity hk _ ih => exact .entity (he.continues.kind? hk) ih
  | leaf hl _ ih => exact .leaf (hl.mono he) ih
  | element held hn ha _ _ ihc ihr =>
    exact .element (held.mono he) (he.name hn) (ha.mono he) ihc ihr

theorem Placed.append (h : d.Placed p i j trees) (h' : d.Placed p j k rest) :
    d.Placed p i k (trees ++ rest) := by
  induction h with
  | nil => exact h'
  | entity hk _ ih => exact .entity hk (ih h')
  | leaf hl _ ih => exact .leaf hl (ih h')
  | element held hn ha hc _ _ ih => exact .element held hn ha hc (ih h')

theorem Placed.le (h : d.Placed p i j trees) : i ≤ j := by
  induction h with
  | nil => exact Nat.le_refl _
  | entity _ _ ih => omega
  | leaf _ _ ih => omega
  | element _ _ _ _ _ ihc ihr => omega

/-! ### Kinds and parents -/

theorem LeafAt.parent? (h : d.LeafAt p n tree) : d.nodes.parent? n = some p := by
  cases tree with
  | element => exact h.elim
  | instruction target data =>
    obtain ⟨_, _, held, -, -⟩ := h
    exact held.parent?
  | _ =>
    obtain ⟨_, held, -⟩ := h
    exact held.parent?

theorem LeafAt.kind? (h : d.LeafAt p n tree) :
    ∃ k, d.nodes.kind? n = some k ∧ k.canHaveChildren = false ∧ k.hasValueNode = false := by
  cases tree with
  | element => exact h.elim
  | instruction target data =>
    obtain ⟨_, _, held, -, -⟩ := h
    exact ⟨_, held.kind?, rfl, rfl⟩
  | _ =>
    obtain ⟨_, held, -⟩ := h
    exact ⟨_, held.kind?, rfl, rfl⟩

/-- A node that is no attribute and no entity, under the document or an element, is a child. -/
theorem isChild_of_parent? {kind : Kind} (hk : d.nodes.kind? n = some kind)
    (plain : kind.hasValueNode = false) (hn : d.nodes.parent? n = some p)
    (hp : d.nodes.kind? p = some .document ∨ d.nodes.kind? p = some .element) :
    d.nodes.IsChild p n := by
  refine ⟨⟨⟨kind, hk, plain⟩, ?_⟩, hn⟩
  rintro ⟨-, q, kq, hq, hkq, hv⟩
  obtain rfl := Option.some.inj (hn.symm.trans hq)
  rcases hp with hp | hp
  · obtain rfl := Option.some.inj (hp.symm.trans hkq)
    cases hv
  · obtain rfl := Option.some.inj (hp.symm.trans hkq)
    cases hv

/-- The first of some trees stands under the parent, or an entity does. -/
theorem Placed.first (hd : d.WellFormed) (h : d.Placed p i j trees) (hij : i < j) :
    d.nodes.parent? i = some p ∧ d.nodes.kind? i ≠ some .attr := by
  cases h with
  | nil => exact absurd hij (Nat.lt_irrefl i)
  | entity hk _ =>
    refine ⟨((hd.layout hk).entity rfl).1, ?_⟩
    rw [hk]
    nofun
  | leaf hl _ =>
    obtain ⟨k, hk, -, plain⟩ := hl.kind?
    refine ⟨hl.parent?, fun hattr => ?_⟩
    obtain rfl := Option.some.inj (hk.symm.trans hattr)
    cases plain
  | element held _ _ _ _ =>
    refine ⟨held.parent?, ?_⟩
    rw [held.kind?]
    nofun

/-- The nodes of attributes have no parent before the element. -/
theorem AttributesAt.le_parent (h : d.AttributesAt e n attributes) (hen : e < n) {m q : Nat}
    (hm : n ≤ m) (hstop : m < n + 2 * attributes.length) (hq : d.nodes.parent? m = some q) :
    e ≤ q := by
  induction attributes generalizing n with
  | nil =>
    rw [List.length_nil] at hstop
    omega
  | cons _ _ ih =>
    obtain ⟨_, _, _, _, held, -, heldValue, -, later⟩ := h
    rw [List.length_cons] at hstop
    by_cases hlt : m < n + 2
    · rcases Nat.eq_or_lt_of_le hm with rfl | hlt'
      · obtain rfl := Option.some.inj (held.parent?.symm.trans hq)
        exact Nat.le_refl _
      · obtain rfl : m = n + 1 := by omega
        obtain rfl := Option.some.inj (heldValue.parent?.symm.trans hq)
        omega
    · have hge : n + 2 ≤ m := Nat.le_of_not_lt hlt
      exact ih later (by omega) hge (by omega)

/-- The last of the nodes of attributes is a value. -/
theorem AttributesAt.kind_last (h : d.AttributesAt e (n + 1) attributes)
    (hn : d.nodes.kind? n ≠ some .attr) :
    d.nodes.kind? (n + 2 * attributes.length) ≠ some .attr := by
  induction attributes generalizing n with
  | nil => exact hn
  | cons _ rest ih =>
    obtain ⟨_, _, _, _, -, -, heldValue, -, later⟩ := h
    have value : d.nodes.kind? (n + 2) ≠ some .attr := by
      rw [heldValue.kind?]
      nofun
    have last := ih later value
    rwa [Nat.add_assoc, Nat.add_comm 2] at last

/-- The nodes of attributes are attributes and values. -/
theorem AttributesAt.not_isStructural (h : d.AttributesAt e n attributes) {m : Nat} (hm : n ≤ m)
    (hstop : m < n + 2 * attributes.length) : ¬ d.nodes.IsStructural m := by
  induction attributes generalizing n with
  | nil =>
    rw [List.length_nil] at hstop
    omega
  | cons _ _ ih =>
    obtain ⟨_, _, _, _, held, -, heldValue, -, later⟩ := h
    rw [List.length_cons] at hstop
    by_cases hlt : m < n + 2
    · rintro ⟨⟨k, hk, plain⟩, value⟩
      rcases Nat.eq_or_lt_of_le hm with rfl | hlt'
      · obtain rfl := Option.some.inj (held.kind?.symm.trans hk)
        cases plain
      · obtain rfl : m = n + 1 := by omega
        exact value ⟨heldValue.kind?, n, _, heldValue.parent?, held.kind?, rfl⟩
    · have hge : n + 2 ≤ m := Nat.le_of_not_lt hlt
      exact ih later hge (by omega)

/-- The nodes of trees have no parent before the first of them but the one under which they
stand. -/
theorem Placed.parent_cases (hd : d.WellFormed) (h : d.Placed p i j trees) {n q : Nat} (hn : i ≤ n)
    (hj : n < j) (hq : d.nodes.parent? n = some q) : q = p ∨ i ≤ q := by
  induction h with
  | nil => omega
  | @entity i j _ hk _ ih =>
    by_cases hlt : n < i + 2
    · rcases Nat.eq_or_lt_of_le hn with rfl | hlt'
      · have := ((hd.layout hk).entity rfl).1
        exact .inl (Option.some.inj (hq.symm.trans this))
      · obtain rfl : n = i + 1 := by omega
        have := ((hd.layout hk).value rfl).2
        obtain rfl := Option.some.inj (hq.symm.trans this)
        exact .inr (Nat.le_refl _)
    · have hge : i + 2 ≤ n := Nat.le_of_not_lt hlt
      exact (ih hge hj).imp_right fun hle => by omega
  | leaf hl _ ih =>
    rcases Nat.eq_or_lt_of_le hn with rfl | hlt
    · exact .inl (Option.some.inj (hq.symm.trans hl.parent?))
    · exact (ih hlt hj).imp_right fun hle => by omega
  | @element p i j k _ _ _ attributes _ _ held _ ha hc hr ihc ihr =>
    rcases Nat.eq_or_lt_of_le hn with rfl | hlt
    · exact .inl (Option.some.inj (hq.symm.trans held.parent?))
    by_cases hnj : n < j
    · right
      by_cases hna : n < i + 1 + 2 * attributes.length
      · exact ha.le_parent (Nat.lt_succ_self i) hlt hna hq
      · have han : i + 1 + 2 * attributes.length ≤ n := Nat.le_of_not_lt hna
        rcases ihc han hnj with rfl | hle
        · exact Nat.le_refl _
        · omega
    · have hjn : j ≤ n := Nat.le_of_not_lt hnj
      have := hc.le
      exact (ihr hjn hj).imp_right fun hle => by omega

/-- No node after some others has its parent among them. -/
def IsSealed (d : Document) (i j : Nat) : Prop :=
  ∀ n q, d.nodes.parent? n = some q → i ≤ q → q < j → n < j

/-- What is before other trees is sealed if all of it is. -/
theorem Placed.isSealed (hd : d.WellFormed) (h : d.Placed p j k trees) (hpi : p < i)
    (sealed : d.IsSealed i k) : d.IsSealed i j := by
  intro n q hq hiq hqj
  apply Nat.lt_of_not_le
  intro hjn
  have hjk := h.le
  have hnk : n < k := sealed n q hq hiq (by omega)
  have hparent := (h.first hd (by omega)).1
  rcases Nat.eq_or_lt_of_le hjn with rfl | hlt
  · have := Option.some.inj (hparent.symm.trans hq)
    omega
  · have := hd.layout.nested hq hparent hqj hlt
    omega

end Document

end XmlTable
