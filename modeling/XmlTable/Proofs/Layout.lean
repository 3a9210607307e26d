import XmlTable.Node.Table

/-!
# The layout of a node table

Records come in document order. The parent of a record comes before it, and everything between the
two lies below the parent. An attribute follows its element, or the value of the attribute before
it, and an attribute or entity is followed by its value. Every condition on a node looks at the
nodes before it and at the one right after it, so a table that grows keeps its layout if the new
nodes fit, and replacing a link changes nothing.
-/

namespace XmlTable.Node.Table

/-! ### Kinds and parents -/

/-- The kind of the record with an index. -/
def kind? (t : Table) (n : Nat) : Option Kind :=
  (t.get? n).map (·.kind)

/-- The parent that the record with an index names. -/
def parent? (t : Table) (n : Nat) : Option Nat :=
  (t.get? n).bind (·.parent)

variable {t t' : Table} {n m p q : Nat} {k : Kind}

theorem kind?_of_get? {r : Record} (h : t.get? n = some r) : t.kind? n = some r.kind := by
  rw [kind?, h, Option.map_some]

theorem parent?_of_get? {r : Record} (h : t.get? n = some r) : t.parent? n = r.parent := by
  rw [parent?, h, Option.bind_some]

theorem link?_of_get? {r : Record} (h : t.get? n = some r) : t.link? n = r.link? := by
  rw [link?, h, Option.bind_some]

theorem exists_get?_of_kind? (h : t.kind? n = some k) : ∃ r, t.get? n = some r ∧ r.kind = k :=
  Option.map_eq_some_iff.1 h

/-- The nodes of a table are the numbers below its size. -/
theorem exists_kind?_iff : (∃ k, t.kind? n = some k) ↔ n < t.size := by
  rw [← isSome_get?_iff, ← Option.isSome_iff_exists, kind?, Option.isSome_map]

theorem lt_size_of_kind? (h : t.kind? n = some k) : n < t.size :=
  exists_kind?_iff.1 ⟨k, h⟩

theorem lt_size_of_parent? (h : t.parent? n = some p) : n < t.size := by
  obtain ⟨r, hr, _⟩ := Option.bind_eq_some_iff.1 h
  exact (isSome_get?_iff t n).1 (by rw [hr]; rfl)

theorem lt_size_of_get? {r : Record} (h : t.get? n = some r) : n < t.size :=
  (isSome_get?_iff t n).1 (by rw [h]; rfl)

theorem lt_size_of_link? {l : Link} (h : t.link? n = some l) : n < t.size := by
  obtain ⟨r, hr, _⟩ := Option.bind_eq_some_iff.1 h
  exact lt_size_of_get? hr

@[simp] theorem kind?_setLink (t : Table) (i : Nat) (l : Link) (n : Nat) :
    (t.setLink i l).kind? n = t.kind? n := by
  rw [kind?, kind?, get?_setLink]
  split
  · cases t.get? n <;> simp
  · rfl

@[simp] theorem parent?_setLink (t : Table) (i : Nat) (l : Link) (n : Nat) :
    (t.setLink i l).parent? n = t.parent? n := by
  rw [parent?, parent?, get?_setLink]
  split
  · cases t.get? n <;> simp
  · rfl

/-- Replacing the link of a record of a linked kind shows in that record only. -/
theorem link?_setLink (t : Table) (i : Nat) (l : Link) (n : Nat) :
    (t.setLink i l).link? n =
      if n = i then (t.link? n).map fun _ => l else t.link? n := by
  rw [link?, link?, get?_setLink]
  split
  · cases t.get? n with
    | none => rfl
    | some r => rcases r with ⟨_, _, _, _, field, _⟩; cases field <;> rfl
  · rfl

theorem kind?_append (t : Table) (rs : List Record) (n : Nat) :
    (t.append rs).kind? n =
      if n < t.size then t.kind? n else rs[n - t.size]?.map (·.kind) := by
  rw [kind?, kind?, get?_append]
  split <;> rfl

theorem parent?_append (t : Table) (rs : List Record) (n : Nat) :
    (t.append rs).parent? n =
      if n < t.size then t.parent? n else rs[n - t.size]?.bind (·.parent) := by
  rw [parent?, parent?, get?_append]
  split <;> rfl

theorem link?_append (t : Table) (rs : List Record) (n : Nat) :
    (t.append rs).link? n =
      if n < t.size then t.link? n else rs[n - t.size]?.bind Record.link? := by
  rw [link?, link?, get?_append]
  split <;> rfl

/-! ### One table continues another -/

/-- A table has the nodes of another, with their kinds and parents. -/
def Continues (t t' : Table) : Prop :=
  ∀ n < t.size, t'.kind? n = t.kind? n ∧ t'.parent? n = t.parent? n

theorem Continues.kind? (h : t.Continues t') (hk : t.kind? n = some k) : t'.kind? n = some k := by
  rw [(h n (lt_size_of_kind? hk)).1, hk]

theorem Continues.parent? (h : t.Continues t') (hp : t.parent? n = some p) :
    t'.parent? n = some p := by
  rw [(h n (lt_size_of_parent? hp)).2, hp]

theorem continues_append (t : Table) (rs : List Record) : t.Continues (t.append rs) := by
  intro n hn
  rw [kind?_append, parent?_append, if_pos hn, if_pos hn]
  exact ⟨rfl, rfl⟩

theorem continues_setLink (t : Table) (i : Nat) (l : Link) : t.Continues (t.setLink i l) :=
  fun _ _ => ⟨kind?_setLink .., parent?_setLink ..⟩

/-! ### Where a node may stand -/

/-- What is true of a node of some kind by its place in a table. -/
structure NodeLayout (t : Table) (n : Nat) (k : Kind) : Prop where
  /-- The document node is the first one. -/
  document_iff : k = .document ↔ n = 0
  /-- All others have a parent. -/
  parent_none_iff : t.parent? n = none ↔ n = 0
  /-- The parent comes before. -/
  parent_lt : ∀ {p : Nat}, t.parent? n = some p → p < n
  /-- The parent may have children, and what an attribute or entity has is its value. -/
  parent_kind : ∀ {p : Nat}, t.parent? n = some p → ∃ kp, t.kind? p = some kp ∧
    kp.canHaveChildren = true ∧ (kp.hasValueNode = true → k = .text ∧ n = p + 1)
  /-- The value of an attribute or entity follows it. -/
  value : k.hasValueNode = true → t.kind? (n + 1) = some .text ∧ t.parent? (n + 1) = some n
  /-- The attributes of an element follow it without a gap. -/
  attr : k = .attr → ∃ e, t.parent? n = some e ∧ t.kind? e = some .element ∧
    (n = e + 1 ∨ e + 2 < n ∧ t.kind? (n - 2) = some .attr ∧ t.parent? (n - 2) = some e)
  /-- Entities belong to the document and come before its elements. -/
  entity : k = .entity → t.parent? n = some documentId ∧ ∀ m < n, t.kind? m ≠ some .element
  /-- Everything between a node and its parent lies below the parent. -/
  nested : ∀ {p j q : Nat}, t.parent? n = some p → t.parent? j = some q → p < j → j < n → p ≤ q

/-- Every node of the table stands where it may. -/
def Layout (t : Table) : Prop :=
  ∀ ⦃n : Nat⦄ ⦃k : Kind⦄, t.kind? n = some k → t.NodeLayout n k

/-- A node that has its place keeps it when the table grows. -/
theorem NodeLayout.mono (h : t.NodeLayout n k) (hk : t.kind? n = some k) (c : t.Continues t') :
    t'.NodeLayout n k := by
  have hn := lt_size_of_kind? hk
  have hp := (c n hn).2
  refine ⟨h.document_iff, by rw [hp]; exact h.parent_none_iff, ?_, ?_, ?_, ?_, ?_, ?_⟩
  · intro p hp'
    exact h.parent_lt (hp ▸ hp')
  · intro p hp'
    obtain ⟨kp, hkp, hrest⟩ := h.parent_kind (hp ▸ hp')
    exact ⟨kp, c.kind? hkp, hrest⟩
  · intro hv
    exact ⟨c.kind? (h.value hv).1, c.parent? (h.value hv).2⟩
  · intro ha
    obtain ⟨e, he, hke, hprev⟩ := h.attr ha
    refine ⟨e, c.parent? he, c.kind? hke, hprev.imp_right ?_⟩
    rintro ⟨hlt, hk', hp'⟩
    exact ⟨hlt, c.kind? hk', c.parent? hp'⟩
  · intro he
    refine ⟨c.parent? (h.entity he).1, fun m hm => ?_⟩
    rw [(c m (Nat.lt_trans hm hn)).1]
    exact (h.entity he).2 m hm
  · intro p j q hp' hq hpj hjn
    rw [hp] at hp'
    rw [(c j (Nat.lt_trans hjn hn)).2] at hq
    exact h.nested hp' hq hpj hjn

/-- A table keeps its layout when it grows if the new nodes stand where they may. -/
theorem Layout.append (h : t.Layout) (rs : List Record)
    (new : ∀ {n : Nat} {k : Kind}, t.size ≤ n → (t.append rs).kind? n = some k →
      (t.append rs).NodeLayout n k) :
    (t.append rs).Layout := by
  intro n k hk
  by_cases hn : n < t.size
  · rw [kind?_append, if_pos hn] at hk
    exact (h hk).mono hk (continues_append t rs)
  · exact new (Nat.le_of_not_lt hn) hk

/-- Links are no part of the layout. -/
theorem Layout.setLink (h : t.Layout) (i : Nat) (l : Link) : (t.setLink i l).Layout := by
  intro n k hk
  rw [kind?_setLink] at hk
  exact (h hk).mono hk (continues_setLink t i l)

theorem layout_empty (g : Geometry) : (empty g).Layout := by
  intro n k hk
  rw [kind?, get?_empty] at hk
  cases hk

namespace Layout

variable (h : t.Layout)
include h

theorem parent_lt (hp : t.parent? n = some p) : p < n := by
  obtain ⟨k, hk⟩ := exists_kind?_iff.2 (lt_size_of_parent? hp)
  exact (h hk).parent_lt hp

/-- Every node but the first has a parent. -/
theorem exists_parent? (hn : n < t.size) (h0 : n ≠ 0) : ∃ p, t.parent? n = some p := by
  obtain ⟨k, hk⟩ := exists_kind?_iff.2 hn
  exact Option.ne_none_iff_exists'.1 (mt (h hk).parent_none_iff.1 h0)

theorem nested {j : Nat} (hp : t.parent? n = some p) (hq : t.parent? j = some q) (hpj : p < j)
    (hjn : j < n) : p ≤ q := by
  obtain ⟨k, hk⟩ := exists_kind?_iff.2 (lt_size_of_parent? hp)
  exact (h hk).nested hp hq hpj hjn

/-- What an attribute or entity has is its value. -/
theorem parent?_iff (hk : t.kind? n = some k)
    (hv : k.hasValueNode = true) : t.parent? m = some n ↔ m = n + 1 := by
  refine ⟨fun hm => ?_, fun hm => by rw [hm, ((h hk).value hv).2]⟩
  obtain ⟨km, hkm⟩ := exists_kind?_iff.2 (lt_size_of_parent? hm)
  obtain ⟨kn, hkn, -, place⟩ := (h hkm).parent_kind hm
  obtain rfl := Option.some.inj (hk.symm.trans hkn)
  exact (place hv).2

theorem kind?_zero (ht : 0 < t.size) : t.kind? 0 = some .document := by
  obtain ⟨k, hk⟩ := exists_kind?_iff.2 ht
  rw [hk, (h hk).document_iff.2 rfl]

end Layout

/-! ### Parts of the tree -/

/-- The node is the value of an attribute or entity. -/
def IsValue (t : Table) (n : Nat) : Prop :=
  t.kind? n = some .text ∧
    ∃ p k, t.parent? n = some p ∧ t.kind? p = some k ∧ k.hasValueNode = true

/-- The node is no attribute, no entity and no value of one. -/
def IsStructural (t : Table) (n : Nat) : Prop :=
  (∃ k, t.kind? n = some k ∧ k.hasValueNode = false) ∧ ¬ t.IsValue n

/-- The node is a child of another in the tree. -/
def IsChild (t : Table) (p n : Nat) : Prop :=
  t.IsStructural n ∧ t.parent? n = some p

/-- The node is another or below it. -/
inductive Within (t : Table) (a : Nat) : Nat → Prop
  /-- A node is within itself. -/
  | self : Within t a a
  /-- What has its parent within a node is within it. -/
  | step {n p : Nat} : t.parent? n = some p → Within t a p → Within t a n

theorem IsStructural.lt_size (h : t.IsStructural n) : n < t.size := by
  obtain ⟨⟨k, hk, _⟩, _⟩ := h
  exact lt_size_of_kind? hk

/-- What is no value has the document node or an element as its parent. -/
theorem Layout.kind?_parent (h : t.Layout) (hp : t.parent? n = some p) (plain : ¬ t.IsValue n) :
    t.kind? p = some .document ∨ t.kind? p = some .element := by
  obtain ⟨k, hk⟩ := exists_kind?_iff.2 (lt_size_of_parent? hp)
  obtain ⟨kp, hkp, children, place⟩ := (h hk).parent_kind hp
  have inner : kp.hasValueNode ≠ true := fun hv =>
    plain ⟨(place hv).1 ▸ hk, p, kp, hp, hkp, hv⟩
  rw [hkp]
  revert children inner
  cases kp <;> simp [Kind.canHaveChildren, Kind.hasValueNode]

theorem Continues.isValue_iff (c : t.Continues t') (h : t.Layout) (hn : n < t.size) :
    t'.IsValue n ↔ t.IsValue n := by
  unfold IsValue
  rw [(c n hn).1, (c n hn).2]
  refine and_congr_right fun _ => exists_congr fun p => exists_congr fun k =>
    and_congr_right fun hp => ?_
  rw [(c p (Nat.lt_trans (h.parent_lt hp) hn)).1]

theorem Continues.isStructural_iff (c : t.Continues t') (h : t.Layout) (hn : n < t.size) :
    t'.IsStructural n ↔ t.IsStructural n := by
  unfold IsStructural
  rw [(c n hn).1, c.isValue_iff h hn]

theorem Continues.isChild_iff (c : t.Continues t') (h : t.Layout) (hn : n < t.size) :
    t'.IsChild p n ↔ t.IsChild p n := by
  unfold IsChild
  rw [c.isStructural_iff h hn, (c n hn).2]

theorem Within.le (h : t.Layout) {a : Nat} (w : t.Within a n) : a ≤ n := by
  induction w with
  | self => exact Nat.le_refl a
  | step hp _ ih => exact Nat.le_trans ih (Nat.le_of_lt (h.parent_lt hp))

theorem Within.mono (c : t.Continues t') {a : Nat} (w : t.Within a n) : t'.Within a n := by
  induction w with
  | self => exact .self
  | step hp _ ih => exact .step (c.parent? hp) ih

/-- A node within another is the other one or has its parent within it. -/
theorem within_iff {a : Nat} :
    t.Within a n ↔ n = a ∨ ∃ p, t.parent? n = some p ∧ t.Within a p := by
  constructor
  · rintro (_ | ⟨hp, w⟩)
    · exact .inl rfl
    · exact .inr ⟨_, hp, w⟩
  · rintro (rfl | ⟨p, hp, w⟩)
    · exact .self
    · exact .step hp w

/-- A table that grows has nothing new above its old nodes. -/
theorem Continues.within_iff (c : t.Continues t') (h : t.Layout) {a : Nat} (hn : n < t.size) :
    t'.Within a n ↔ t.Within a n := by
  refine ⟨fun w => ?_, fun w => w.mono c⟩
  induction w with
  | self => exact .self
  | step hp _ ih =>
    rw [(c _ hn).2] at hp
    exact .step hp (ih (Nat.lt_trans (h.parent_lt hp) hn))

/-- What stands between a node and something within it is within it. -/
theorem Within.between (h : t.Layout) {a j : Nat} (w : t.Within a n) (haj : a ≤ j) (hjn : j ≤ n) :
    t.Within a j := by
  induction w generalizing j with
  | self =>
    obtain rfl := Nat.le_antisymm haj hjn
    exact .self
  | @step n p hp w ih =>
    -- A node between the parent and the child has its own parent there, or at the parent.
    induction j using Nat.strongRecOn with
    | ind j below =>
      rcases Nat.lt_or_eq_of_le hjn with hjn | rfl
      · rcases Nat.lt_or_ge p j with hpj | hjp
        · obtain ⟨q, hq⟩ := h.exists_parent? (Nat.lt_trans hjn (lt_size_of_parent? hp))
            (Nat.ne_of_gt (Nat.zero_lt_of_lt hpj))
          have hpq := h.nested hp hq hpj hjn
          have hqj := h.parent_lt hq
          exact .step hq (below q hqj (Nat.le_trans (w.le h) hpq)
            (Nat.le_of_lt (Nat.lt_trans hqj hjn)))
        · exact ih haj hjp
      · exact .step hp w

/-! ### Next siblings -/

/-- A node comes after another in its chain of siblings: attributes of one element, entities, or
children of one parent. -/
def Follows (t : Table) (n m : Nat) : Prop :=
  n < m ∧ match t.kind? n with
    | some .attr => t.kind? m = some .attr ∧ t.parent? m = t.parent? n
    | some .entity => t.kind? m = some .entity
    | some _ => t.IsStructural m ∧ t.parent? m = t.parent? n
    | none => False

/-- A node comes right after another in its chain of siblings. -/
def IsNext (t : Table) (n m : Nat) : Prop :=
  t.Follows n m ∧ ∀ m', t.Follows n m' → m ≤ m'

theorem Follows.lt_size (f : t.Follows n m) : m < t.size := by
  obtain ⟨_, f⟩ := f
  split at f
  · exact lt_size_of_kind? f.1
  · exact lt_size_of_kind? f
  · exact f.1.lt_size
  · exact f.elim

theorem Continues.follows_iff (c : t.Continues t') (h : t.Layout) (hm : m < t.size) :
    t'.Follows n m ↔ t.Follows n m := by
  apply and_congr_right
  intro hnm
  have hn := Nat.lt_trans hnm hm
  rw [(c n hn).1, (c m hm).1, (c m hm).2, (c n hn).2, c.isStructural_iff h hm]

theorem IsNext.mono (i : t.IsNext n m) (h : t.Layout) (c : t.Continues t') : t'.IsNext n m := by
  have hm := i.1.lt_size
  refine ⟨(c.follows_iff h hm).2 i.1, fun m' f => ?_⟩
  by_cases hm' : m' < t.size
  · exact i.2 m' ((c.follows_iff h hm').1 f)
  · have hm' : t.size ≤ m' := Nat.le_of_not_lt hm'
    exact Nat.le_trans (Nat.le_of_lt hm) hm'

/-- A node has one next sibling. -/
theorem IsNext.unique (i : t.IsNext n m) (i' : t.IsNext n q) : m = q :=
  Nat.le_antisymm (i.2 q i'.1) (i'.2 m i.1)

/-- What a link says is true. A link that is not known yet says nothing, and only records of linked
kinds have links; those of attributes are known. -/
structure NodeLink (t : Table) (n : Nat) (k : Kind) : Prop where
  /-- Records of linked kinds have a link. -/
  isSome_link? : (t.link? n).isSome = k.isLinked
  /-- The link of an attribute is known. -/
  attr : k = .attr → t.link? n ≠ some .pending
  /-- A link to a node is a link to the next sibling. -/
  next : ∀ {m : Nat}, t.link? n = some (.next m) → t.IsNext n m
  /-- A node without a next sibling is the last one. -/
  last : t.link? n = some .last → ∀ m, ¬ t.Follows n m

/-- The links of the table say the truth. -/
def Linked (t : Table) : Prop :=
  ∀ ⦃n : Nat⦄ ⦃k : Kind⦄, t.kind? n = some k → t.NodeLink n k

/-- A node whose next sibling is not known has none yet. -/
def UpToDate (t : Table) : Prop :=
  ∀ ⦃n m : Nat⦄, t.link? n = some .pending → ¬ t.Follows n m

theorem linked_empty (g : Geometry) : (empty g).Linked := by
  intro n k hk
  rw [kind?, get?_empty] at hk
  cases hk

/-- A table keeps its true links when it grows if the new links are true and no new node comes
after a node that was said to be the last. -/
theorem Linked.append (h : t.Linked) (hl : t.Layout) (rs : List Record)
    (new : ∀ {n : Nat} {k : Kind}, t.size ≤ n → (t.append rs).kind? n = some k →
      (t.append rs).NodeLink n k)
    (last : ∀ {n m : Nat}, t.link? n = some .last → t.size ≤ m → ¬ (t.append rs).Follows n m) :
    (t.append rs).Linked := by
  have c := continues_append t rs
  intro n k hk
  by_cases hn : n < t.size
  · rw [kind?_append, if_pos hn] at hk
    have old := h hk
    have same : (t.append rs).link? n = t.link? n := by rw [link?_append, if_pos hn]
    refine ⟨by rw [same, old.isSome_link?], by rw [same]; exact old.attr, ?_, ?_⟩
    · intro m hm
      exact (old.next (same ▸ hm)).mono hl c
    · intro hlast m f
      rw [same] at hlast
      by_cases hm : m < t.size
      · exact old.last hlast m ((c.follows_iff hl hm).1 f)
      · have hm : t.size ≤ m := Nat.le_of_not_lt hm
        exact last hlast hm f
  · exact new (Nat.le_of_not_lt hn) hk

/-- Replacing a link keeps the links true if the new one is. -/
theorem Linked.setLink (h : t.Linked) (hl : t.Layout) {i : Nat} {l : Link}
    (pending : l ≠ .pending) (next : ∀ {m : Nat}, l = .next m → t.IsNext i m)
    (last : l = .last → ∀ m, ¬ t.Follows i m) : (t.setLink i l).Linked := by
  have c := continues_setLink t i l
  have back : ∀ {n m : Nat}, (t.setLink i l).Follows n m → t.Follows n m := fun f =>
    (c.follows_iff hl (by rw [← size_setLink t i l]; exact f.lt_size)).1 f
  intro n k hk
  rw [kind?_setLink] at hk
  have old := h hk
  by_cases hn : n = i
  · subst hn
    have same := link?_setLink t n l n
    rw [if_pos rfl] at same
    refine ⟨by rw [same, Option.isSome_map, old.isSome_link?], ?_, ?_, ?_⟩
    · intro _ hp
      rw [same] at hp
      obtain ⟨_, _, hp⟩ := Option.map_eq_some_iff.1 hp
      exact pending hp
    · intro m hm
      rw [same] at hm
      obtain ⟨_, _, hm⟩ := Option.map_eq_some_iff.1 hm
      exact (next hm).mono hl c
    · intro hlast m f
      rw [same] at hlast
      obtain ⟨_, _, hlast⟩ := Option.map_eq_some_iff.1 hlast
      exact last hlast m (back f)
  · have same := link?_setLink t i l n
    rw [if_neg hn] at same
    refine ⟨by rw [same, old.isSome_link?], by rw [same]; exact old.attr, ?_, ?_⟩
    · intro m hm
      exact (old.next (same ▸ hm)).mono hl c
    · intro hlast m f
      exact old.last (same ▸ hlast) m (back f)

end XmlTable.Node.Table
