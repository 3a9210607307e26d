import XmlTable.Proofs.Layout

/-!
# What is appended together

Four kinds of batches are appended to a node table: the document node, a child of an open node, an
element with its attributes, and an entity with its value. Each keeps the layout and the links of
the table, if the node that it goes under is open: nothing after that node is outside of it, and
none of its children was said to be the last.
-/

namespace XmlTable.Node

/-! ### The records of attributes -/

/-- What is stored of an attribute: its namespace, the symbol of its name and that of its value. -/
abbrev StoredAttribute := NamespaceId × SymbolId × SymbolId

/-- The record of the attribute with number `i` out of `count`, of which the first has the index
`first`. -/
def attributeRecord (element first count i : Nat) (attr : StoredAttribute) : Record :=
  .linked .attr attr.1 element attr.2.1
    (if i + 1 = count then .last else .next (first + 2 * i + 2))

/-- The records of the attributes of an element, each followed by its value. -/
def attributePairs (element : Nat) : Nat → List StoredAttribute → List Record
  | _, [] => []
  | node, attr :: rest =>
    .linked .attr attr.1 element attr.2.1 (if rest.isEmpty then .last else .next (node + 2)) ::
      .valueNode node attr.2.2 :: attributePairs element (node + 2) rest

theorem length_attributePairs (element node : Nat) (attrs : List StoredAttribute) :
    (attributePairs element node attrs).length = 2 * attrs.length := by
  induction attrs generalizing node with
  | nil => rfl
  | cons attr rest ih => simp only [attributePairs, List.length_cons, ih]; omega

theorem attributeRecord_zero (element node : Nat) (attr : StoredAttribute)
    (rest : List StoredAttribute) :
    attributeRecord element node (rest.length + 1) 0 attr =
      .linked .attr attr.1 element attr.2.1
        (if rest.isEmpty then .last else .next (node + 2)) := by
  cases rest <;> simp [attributeRecord]

/-- An attribute after the first is one of those that start two nodes later. -/
theorem attributeRecord_succ (element node count i : Nat) (attr : StoredAttribute) :
    attributeRecord element node (count + 1) (i + 1) attr =
      attributeRecord element (node + 2) count i attr := by
  simp only [attributeRecord, Nat.add_right_cancel_iff]
  rw [show node + 2 * (i + 1) + 2 = node + 2 + 2 * i + 2 by omega]

/-- Attributes stand at even places and their values at odd ones. -/
theorem getElem?_attributePairs (element node : Nat) (attrs : List StoredAttribute) (j : Nat)
    (r : Record) :
    (attributePairs element node attrs)[j]? = some r ↔
      ∃ i attr, attrs[i]? = some attr ∧
        (j = 2 * i ∧ r = attributeRecord element node attrs.length i attr ∨
          j = 2 * i + 1 ∧ r = .valueNode (node + 2 * i) attr.2.2) := by
  induction attrs generalizing node j with
  | nil => simp [attributePairs]
  | cons attr rest ih =>
    match j with
    | 0 =>
      constructor
      · intro h
        refine ⟨0, attr, rfl, .inl ⟨rfl, ?_⟩⟩
        rw [List.length_cons, attributeRecord_zero]
        exact (Option.some.inj h).symm
      · rintro ⟨i, a, ha, ⟨hi, rfl⟩ | ⟨hi, -⟩⟩
        · obtain rfl : i = 0 := by omega
          obtain rfl := Option.some.inj ha
          rw [List.length_cons, attributeRecord_zero]
          rfl
        · omega
    | 1 =>
      constructor
      · intro h
        exact ⟨0, attr, rfl, .inr ⟨rfl, (Option.some.inj h).symm⟩⟩
      · rintro ⟨i, a, ha, ⟨hi, -⟩ | ⟨hi, rfl⟩⟩
        · omega
        · obtain rfl : i = 0 := by omega
          obtain rfl := Option.some.inj ha
          rfl
    | j + 2 =>
      have tail : (attributePairs element node (attr :: rest))[j + 2]? =
        (attributePairs element (node + 2) rest)[j]? := rfl
      rw [tail, ih]
      constructor
      · rintro ⟨i, a, ha, ⟨hi, rfl⟩ | ⟨hi, rfl⟩⟩
        · exact ⟨i + 1, a, ha, .inl ⟨by omega, by rw [List.length_cons, attributeRecord_succ]⟩⟩
        · refine ⟨i + 1, a, ha, .inr ⟨by omega, ?_⟩⟩
          rw [show node + 2 * (i + 1) = node + 2 + 2 * i by omega]
      · rintro ⟨i, a, ha, h⟩
        obtain ⟨i, rfl⟩ : ∃ i', i = i' + 1 := ⟨i - 1, by omega⟩
        refine ⟨i, a, ha, h.imp ?_ ?_⟩
        · rintro ⟨hi, rfl⟩
          exact ⟨by omega, by rw [List.length_cons, attributeRecord_succ]⟩
        · rintro ⟨hi, rfl⟩
          refine ⟨by omega, ?_⟩
          rw [show node + 2 * (i + 1) = node + 2 + 2 * i by omega]

namespace Table

variable {t : Table} {n m p q : Nat} {k : Kind}

/-! ### A child with its attributes -/

/-- A node under which children may be appended. -/
structure IsOpen (t : Table) (p : Nat) : Prop where
  /-- It is the document or an element. -/
  kind : t.kind? p = some .document ∨ t.kind? p = some .element
  /-- What comes after it is below it. -/
  after : ∀ {j q : Nat}, p < j → t.parent? j = some q → p ≤ q
  /-- None of its children was said to be the last. -/
  not_last : ∀ {n : Nat} {k : Kind}, t.kind? n = some k → k.hasValueNode = false →
    t.parent? n = some p → t.link? n ≠ some .last

/-- The records of a child: its own, and those of its attributes. -/
def childBatch (t : Table) (own : Record) (attrs : List StoredAttribute) : List Record :=
  own :: attributePairs t.size (t.size + 1) attrs

/-- A record that may be appended as a child of a node. -/
structure IsChildRecord (own : Record) (p : Nat) (attrs : List StoredAttribute) : Prop where
  /-- It is neither a document, nor an attribute, nor an entity. -/
  kind : own.kind ≠ .document ∧ own.kind.hasValueNode = false
  /-- It names the node as its parent. -/
  parent : own.parent = some p
  /-- Its next sibling, if it says that of itself, is not known. -/
  link : own.link? = if own.kind.isLinked then some .pending else none
  /-- Only elements have attributes. -/
  attrs : attrs ≠ [] → own.kind = .element

section Child

variable {own : Record} {attrs : List StoredAttribute}

theorem length_childBatch (t : Table) (own : Record) (attrs : List StoredAttribute) :
    (t.childBatch own attrs).length = 1 + 2 * attrs.length := by
  rw [childBatch, List.length_cons, length_attributePairs]
  omega

/-- The new nodes of a child: itself, its attributes and their values. -/
theorem get?_append_childBatch (t : Table) (own : Record) {n : Nat} (hn : t.size ≤ n)
    (r : Record) :
    (t.append (t.childBatch own attrs)).get? n = some r ↔
      n = t.size ∧ r = own ∨
      ∃ i attr, attrs[i]? = some attr ∧
        (n = t.size + 1 + 2 * i ∧
            r = attributeRecord t.size (t.size + 1) attrs.length i attr ∨
          n = t.size + 2 + 2 * i ∧ r = .valueNode (t.size + 1 + 2 * i) attr.2.2) := by
  rw [get?_append, if_neg (Nat.not_lt.2 hn), childBatch]
  obtain ⟨d, rfl⟩ := Nat.exists_eq_add_of_le hn
  rw [Nat.add_sub_cancel_left]
  cases d with
  | zero =>
    rw [List.getElem?_cons_zero]
    constructor
    · intro h
      exact .inl ⟨rfl, (Option.some.inj h).symm⟩
    · rintro (⟨-, rfl⟩ | ⟨i, attr, -, ⟨h, -⟩ | ⟨h, -⟩⟩)
      · rfl
      · omega
      · omega
  | succ d =>
    rw [List.getElem?_cons_succ, getElem?_attributePairs]
    constructor
    · rintro ⟨i, attr, hi, h⟩
      refine .inr ⟨i, attr, hi, h.imp ?_ ?_⟩
      · exact fun h => ⟨by omega, h.2⟩
      · exact fun h => ⟨by omega, h.2⟩
    · rintro (⟨h, -⟩ | ⟨i, attr, hi, h⟩)
      · omega
      · refine ⟨i, attr, hi, h.imp ?_ ?_⟩
        · exact fun h => ⟨by omega, h.2⟩
        · exact fun h => ⟨by omega, h.2⟩

/-- Where the new nodes of a child stand, with kind, parent and link. -/
theorem childBatch_cases (hn : t.size ≤ n)
    (hk : (t.append (t.childBatch own attrs)).kind? n = some k) :
    (n = t.size ∧ k = own.kind ∧ (t.append (t.childBatch own attrs)).parent? n = own.parent ∧
      (t.append (t.childBatch own attrs)).link? n = own.link?) ∨
    ∃ i < attrs.length,
      (n = t.size + 1 + 2 * i ∧ k = .attr ∧
        (t.append (t.childBatch own attrs)).parent? n = some t.size ∧
        (t.append (t.childBatch own attrs)).link? n =
          some (if i + 1 = attrs.length then .last else .next (n + 2))) ∨
      (n = t.size + 2 + 2 * i ∧ k = .text ∧
        (t.append (t.childBatch own attrs)).parent? n = some (t.size + 1 + 2 * i) ∧
        (t.append (t.childBatch own attrs)).link? n = none) := by
  obtain ⟨r, hr, rfl⟩ := exists_get?_of_kind? hk
  rw [parent?_of_get? hr, link?_of_get? hr]
  rcases (get?_append_childBatch t own hn r).1 hr with ⟨hn, rfl⟩ | ⟨i, attr, hi, h⟩
  · exact .inl ⟨hn, rfl, rfl, rfl⟩
  · obtain ⟨hi, -⟩ := List.getElem?_eq_some_iff.1 hi
    refine .inr ⟨i, hi, h.imp ?_ ?_⟩
    · rintro ⟨rfl, rfl⟩
      exact ⟨rfl, rfl, rfl, rfl⟩
    · rintro ⟨rfl, rfl⟩
      exact ⟨rfl, rfl, rfl, rfl⟩

/-- The new attributes are there. -/
theorem childBatch_attr (t : Table) (own : Record) {i : Nat} (hi : i < attrs.length) :
    (t.append (t.childBatch own attrs)).kind? (t.size + 1 + 2 * i) = some .attr ∧
      (t.append (t.childBatch own attrs)).parent? (t.size + 1 + 2 * i) = some t.size := by
  have hn : t.size ≤ t.size + 1 + 2 * i := by omega
  have h := (get?_append_childBatch t own hn _).2
    (.inr ⟨i, attrs[i], List.getElem?_eq_getElem hi, .inl ⟨rfl, rfl⟩⟩)
  rw [kind?_of_get? h, parent?_of_get? h]
  exact ⟨rfl, rfl⟩

/-- The node under which children may be appended, as it is afterwards. -/
private theorem IsOpen.kind_append (ho : t.IsOpen p) (rs : List Record) :
    ∃ kp, (t.append rs).kind? p = some kp ∧ kp.canHaveChildren = true ∧
      kp.hasValueNode = false := by
  have c := continues_append t rs
  rcases ho.kind with hk | hk
  · exact ⟨_, c.kind? hk, rfl, rfl⟩
  · exact ⟨_, c.kind? hk, rfl, rfl⟩

theorem IsOpen.lt_size (ho : t.IsOpen p) : p < t.size := by
  rcases ho.kind with hk | hk
  · exact lt_size_of_kind? hk
  · exact lt_size_of_kind? hk

private theorem nodeLayout_child (ho : t.IsOpen p) (hr : IsChildRecord own p attrs)
    (hpar : (t.append (t.childBatch own attrs)).parent? t.size = own.parent) :
    (t.append (t.childBatch own attrs)).NodeLayout t.size own.kind := by
  have hp := ho.lt_size
  have hv := hr.kind.2
  rw [hr.parent] at hpar
  constructor
  · simp only [hr.kind.1, false_iff]
    omega
  · simp only [hpar, reduceCtorEq, false_iff]
    omega
  · intro p' hp'
    obtain rfl := Option.some.inj (hpar.symm.trans hp')
    exact hp
  · intro p' hp'
    obtain rfl := Option.some.inj (hpar.symm.trans hp')
    obtain ⟨kp, hkp, hc, hv'⟩ := ho.kind_append (t.childBatch own attrs)
    exact ⟨kp, hkp, hc, by simp [hv']⟩
  · simp [hv]
  · intro ha
    rw [ha] at hv
    cases hv
  · intro he
    rw [he] at hv
    cases hv
  · intro p' j q hp' hq hpj hjn
    obtain rfl := Option.some.inj (hpar.symm.trans hp')
    rw [(continues_append t _ j hjn).2] at hq
    exact ho.after hpj hq

private theorem nodeLayout_attr {i : Nat} (hi : i < attrs.length) (helem : own.kind = .element) :
    (t.append (t.childBatch own attrs)).NodeLayout (t.size + 1 + 2 * i) .attr := by
  have hpar := (childBatch_attr t own hi).2
  have hown : (t.append (t.childBatch own attrs)).kind? t.size = some .element := by
    rw [kind?_append, if_neg (Nat.lt_irrefl _), Nat.sub_self, ← helem]
    rfl
  constructor
  · simp
  · simp [hpar]
  · intro p' hp'
    obtain rfl := Option.some.inj (hpar.symm.trans hp')
    omega
  · intro p' hp'
    obtain rfl := Option.some.inj (hpar.symm.trans hp')
    exact ⟨_, hown, rfl, fun hv => by cases hv⟩
  · intro _
    have hn : t.size ≤ t.size + 2 + 2 * i := by omega
    have hv := (get?_append_childBatch t own hn _).2
      (.inr ⟨i, attrs[i], List.getElem?_eq_getElem hi, .inr ⟨rfl, rfl⟩⟩)
    rw [show t.size + 1 + 2 * i + 1 = t.size + 2 + 2 * i by omega, kind?_of_get? hv,
      parent?_of_get? hv]
    exact ⟨rfl, rfl⟩
  · intro _
    refine ⟨t.size, hpar, hown, ?_⟩
    cases i with
    | zero => exact .inl rfl
    | succ i =>
      have hb := childBatch_attr t own (show i < attrs.length by omega)
      rw [show t.size + 1 + 2 * (i + 1) - 2 = t.size + 1 + 2 * i by omega]
      exact .inr ⟨by omega, hb⟩
  · intro he
    cases he
  · intro p' j q hp' hq hpj hjn
    obtain rfl := Option.some.inj (hpar.symm.trans hp')
    obtain ⟨kj, hkj⟩ := exists_kind?_iff.2 (lt_size_of_parent? hq)
    rcases childBatch_cases (Nat.le_of_lt hpj) hkj with
      ⟨rfl, -⟩ | ⟨i', -, ⟨-, -, hq', -⟩ | ⟨-, -, hq', -⟩⟩
    · omega
    · obtain rfl := Option.some.inj (hq'.symm.trans hq)
      exact Nat.le_refl _
    · obtain rfl := Option.some.inj (hq'.symm.trans hq)
      omega

/-- A text node right after an attribute or entity that it names as its parent is its value. -/
private theorem nodeLayout_value {i : Nat} {kp : Kind} (hpar : t.parent? (i + 1) = some i)
    (hkp : t.kind? i = some kp) (hv : kp.hasValueNode = true) :
    t.NodeLayout (i + 1) .text := by
  constructor
  · simp
  · simp [hpar]
  · intro p' hp'
    obtain rfl := Option.some.inj (hpar.symm.trans hp')
    omega
  · intro p' hp'
    obtain rfl := Option.some.inj (hpar.symm.trans hp')
    refine ⟨_, hkp, ?_, fun _ => ⟨rfl, rfl⟩⟩
    cases kp <;> simp_all [Kind.hasValueNode, Kind.canHaveChildren]
  · intro hv
    cases hv
  · intro ha
    cases ha
  · intro he
    cases he
  · intro p' j q hp' _ hpj hjn
    obtain rfl := Option.some.inj (hpar.symm.trans hp')
    omega

/-- A child under an open node keeps the layout. -/
theorem Layout.appendChild (h : t.Layout) (ho : t.IsOpen p) (hr : IsChildRecord own p attrs) :
    (t.append (t.childBatch own attrs)).Layout := by
  refine h.append _ fun {n k} hn hk => ?_
  rcases childBatch_cases hn hk with
    ⟨rfl, rfl, hpar, -⟩ | ⟨i, hi, ⟨rfl, rfl, -, -⟩ | ⟨hn, rfl, hpar, -⟩⟩
  · exact nodeLayout_child ho hr hpar
  · exact nodeLayout_attr hi (hr.attrs (by rintro rfl; cases hi))
  · obtain rfl : n = t.size + 1 + 2 * i + 1 := by omega
    exact nodeLayout_value hpar (childBatch_attr t own hi).1 rfl

/-- Of the new nodes of a child only the child itself is structural. -/
theorem eq_of_isStructural_childBatch (hn : t.size ≤ n)
    (hs : (t.append (t.childBatch own attrs)).IsStructural n) : n = t.size := by
  obtain ⟨⟨k, hk, hv⟩, hnv⟩ := hs
  rcases childBatch_cases hn hk with ⟨hn, -⟩ | ⟨i, hi, ⟨-, rfl, -⟩ | ⟨-, rfl, hpar, -⟩⟩
  · exact hn
  · cases hv
  · exact absurd ⟨hk, _, _, hpar, (childBatch_attr t own hi).1, rfl⟩ hnv

/-- The chain of the attributes of a new element. -/
private theorem nodeLink_attr {i : Nat} (hi : i < attrs.length) (hkind : own.kind ≠ .attr)
    (hlink : (t.append (t.childBatch own attrs)).link? (t.size + 1 + 2 * i) =
      some (if i + 1 = attrs.length then .last else .next (t.size + 1 + 2 * i + 2))) :
    (t.append (t.childBatch own attrs)).NodeLink (t.size + 1 + 2 * i) .attr := by
  have hb := childBatch_attr t own hi
  -- Every later attribute of the element has a later number.
  have later : ∀ m, (t.append (t.childBatch own attrs)).Follows (t.size + 1 + 2 * i) m →
      ∃ i' < attrs.length, i < i' ∧ m = t.size + 1 + 2 * i' := by
    rintro m ⟨hm, f⟩
    rw [hb.1] at f
    rcases childBatch_cases (by omega) f.1 with
      ⟨-, hk, -⟩ | ⟨i', hi', ⟨rfl, -⟩ | ⟨-, hk, -⟩⟩
    · exact absurd hk.symm hkind
    · exact ⟨i', hi', by omega, rfl⟩
    · cases hk
  refine ⟨by rw [hlink]; rfl, ?_, ?_, ?_⟩
  · intro _ hp
    rw [hlink] at hp
    split at hp <;> cases hp
  · intro m hm
    rw [hlink] at hm
    split at hm
    · cases hm
    · have hm : t.size + 1 + 2 * i + 2 = m := Link.next.inj (Option.some.inj hm)
      obtain rfl : m = t.size + 1 + 2 * (i + 1) := by omega
      refine ⟨⟨by omega, ?_⟩, fun m' f => ?_⟩
      · rw [hb.1, hb.2]
        exact childBatch_attr t own (by omega)
      · obtain ⟨i', -, hii, rfl⟩ := later m' f
        omega
  · intro hlast m f
    rw [hlink] at hlast
    obtain ⟨i', hi', hii, -⟩ := later m f
    rw [if_neg (by omega)] at hlast
    cases hlast

/-- A child under an open node keeps the links true. -/
theorem Linked.appendChild (h : t.Linked) (hl : t.Layout) (ho : t.IsOpen p)
    (hr : IsChildRecord own p attrs) : (t.append (t.childBatch own attrs)).Linked := by
  refine h.append hl _ (fun {n k} hn hk => ?_) fun {n m} hlast hm f => ?_
  · rcases childBatch_cases hn hk with
      ⟨rfl, rfl, -, hlink⟩ | ⟨i, hi, ⟨rfl, rfl, -, hlink⟩ | ⟨rfl, rfl, -, hlink⟩⟩
    · rw [hr.link] at hlink
      have hv := hr.kind.2
      constructor
      · rw [hlink]
        cases own.kind.isLinked <;> rfl
      · intro ha
        rw [ha] at hv
        cases hv
      · intro m hm
        rw [hlink] at hm
        split at hm <;> cases hm
      · intro hm
        rw [hlink] at hm
        split at hm <;> cases hm
    · refine nodeLink_attr hi ?_ hlink
      intro ha
      have hv := hr.kind.2
      rw [ha] at hv
      cases hv
    · exact ⟨by rw [hlink]; rfl, nofun, by simp [hlink], by simp [hlink]⟩
  · have c := continues_append t (t.childBatch own attrs)
    have hn := lt_size_of_link? hlast
    obtain ⟨k, hk⟩ := exists_kind?_iff.2 hn
    obtain ⟨hnm, f⟩ := f
    rw [c.kind? hk] at f
    -- Only the child itself could be a sibling of an old node, and its parent says it is not.
    have child : (t.append (t.childBatch own attrs)).IsStructural m →
        (t.append (t.childBatch own attrs)).parent? m =
          (t.append (t.childBatch own attrs)).parent? n → k.hasValueNode = true := by
      intro hs hp
      obtain rfl := eq_of_isStructural_childBatch hm hs
      rw [(c n hn).2, parent?_append, if_neg (Nat.lt_irrefl _), Nat.sub_self] at hp
      cases hv : k.hasValueNode with
      | true => rfl
      | false => exact absurd hlast (ho.not_last hk hv (hp.symm.trans hr.parent))
    cases k
    case attr =>
      rcases childBatch_cases hm f.1 with ⟨-, ha, -⟩ | ⟨i, -, ⟨-, -, hp, -⟩ | ⟨-, ha, -⟩⟩
      · have hv := hr.kind.2
        rw [← ha] at hv
        cases hv
      · have := hl.parent_lt ((c n hn).2.symm.trans (f.2.symm.trans hp))
        omega
      · cases ha
    case entity =>
      rcases childBatch_cases hm f with ⟨-, ha, -⟩ | ⟨i, -, ⟨-, ha, -⟩ | ⟨-, ha, -⟩⟩
      · have hv := hr.kind.2
        rw [← ha] at hv
        cases hv
      · cases ha
      · cases ha
    all_goals cases child f.1 f.2

end Child

/-! ### An entity with its value -/

/-- The records of a declared entity. -/
def entityBatch (t : Table) (name payload : SymbolId) : List Record :=
  [.linked .entity 0 documentId name .pending, .valueNode t.size payload]

/-- A table to which entities may be appended. -/
structure TakesEntities (t : Table) : Prop where
  /-- The document is there. -/
  document : 0 < t.size
  /-- No element is. -/
  no_element : ∀ {n : Nat}, t.kind? n ≠ some .element
  /-- No entity was said to be the last. -/
  not_last : ∀ {n : Nat}, t.kind? n = some .entity → t.link? n ≠ some .last

section Entity

variable {name payload : SymbolId}

/-- The new nodes of an entity: itself and its value. -/
theorem entityBatch_cases (hn : t.size ≤ n)
    (hk : (t.append (t.entityBatch name payload)).kind? n = some k) :
    (n = t.size ∧ k = .entity ∧
      (t.append (t.entityBatch name payload)).parent? n = some documentId ∧
      (t.append (t.entityBatch name payload)).link? n = some .pending) ∨
    (n = t.size + 1 ∧ k = .text ∧
      (t.append (t.entityBatch name payload)).parent? n = some t.size ∧
      (t.append (t.entityBatch name payload)).link? n = none) := by
  rw [kind?_append, if_neg (Nat.not_lt.2 hn)] at hk
  rw [parent?_append, if_neg (Nat.not_lt.2 hn), link?_append, if_neg (Nat.not_lt.2 hn)]
  obtain ⟨d, rfl⟩ := Nat.exists_eq_add_of_le hn
  rw [Nat.add_sub_cancel_left] at hk ⊢
  match d with
  | 0 => exact .inl ⟨rfl, (Option.some.inj hk).symm, rfl, rfl⟩
  | 1 => exact .inr ⟨rfl, (Option.some.inj hk).symm, rfl, rfl⟩
  | d + 2 => cases hk

theorem entityBatch_value (t : Table) (name payload : SymbolId) :
    (t.append (t.entityBatch name payload)).kind? t.size = some .entity ∧
      (t.append (t.entityBatch name payload)).kind? (t.size + 1) = some .text ∧
      (t.append (t.entityBatch name payload)).parent? (t.size + 1) = some t.size := by
  rw [kind?_append, kind?_append, parent?_append, if_neg (Nat.lt_irrefl _), if_neg (by omega),
    if_neg (by omega), Nat.sub_self, Nat.add_sub_cancel_left]
  exact ⟨rfl, rfl, rfl⟩

/-- An entity before all elements keeps the layout. -/
theorem Layout.appendEntity (h : t.Layout) (ht : t.TakesEntities) :
    (t.append (t.entityBatch name payload)).Layout := by
  have c := continues_append t (t.entityBatch name payload)
  have hd := ht.document
  have hv := entityBatch_value t name payload
  refine h.append _ fun {n k} hn hk => ?_
  rcases entityBatch_cases hn hk with ⟨rfl, rfl, hpar, -⟩ | ⟨rfl, rfl, -, -⟩
  · constructor
    · simp only [reduceCtorEq, false_iff]
      omega
    · simp only [hpar, reduceCtorEq, false_iff]
      omega
    · intro p' hp'
      obtain rfl := Option.some.inj (hpar.symm.trans hp')
      exact hd
    · intro p' hp'
      obtain rfl := Option.some.inj (hpar.symm.trans hp')
      exact ⟨_, c.kind? (h.kind?_zero hd), rfl, fun hv => by cases hv⟩
    · exact fun _ => hv.2
    · intro ha
      cases ha
    · refine fun _ => ⟨hpar, fun m hm => ?_⟩
      rw [(c m hm).1]
      exact ht.no_element
    · intro p' j q hp' _ _ _
      obtain rfl := Option.some.inj (hpar.symm.trans hp')
      exact Nat.zero_le q
  · exact nodeLayout_value hv.2.2 hv.1 rfl

/-- An entity after which none was said to come keeps the links true. -/
theorem Linked.appendEntity (h : t.Linked) (hl : t.Layout) (ht : t.TakesEntities) :
    (t.append (t.entityBatch name payload)).Linked := by
  have c := continues_append t (t.entityBatch name payload)
  have hv := entityBatch_value t name payload
  refine h.append hl _ (fun {n k} hn hk => ?_) fun {n m} hlast hm f => ?_
  · rcases entityBatch_cases hn hk with ⟨rfl, rfl, -, hlink⟩ | ⟨rfl, rfl, -, hlink⟩
    · exact ⟨by rw [hlink]; rfl, nofun, by simp [hlink], by simp [hlink]⟩
    · exact ⟨by rw [hlink]; rfl, nofun, by simp [hlink], by simp [hlink]⟩
  · obtain ⟨k, hk⟩ := exists_kind?_iff.2 (lt_size_of_link? hlast)
    obtain ⟨-, f⟩ := f
    rw [c.kind? hk] at f
    have not_structural : ¬ (t.append (t.entityBatch name payload)).IsStructural m := by
      rintro ⟨⟨km, hkm, hs⟩, hnv⟩
      rcases entityBatch_cases hm hkm with ⟨-, rfl, -⟩ | ⟨-, rfl, hpar, -⟩
      · cases hs
      · exact hnv ⟨hkm, _, _, hpar, hv.1, rfl⟩
    cases k
    case attr => rcases entityBatch_cases hm f.1 with ⟨-, ha, -⟩ | ⟨-, ha, -⟩ <;> cases ha
    case entity => exact ht.not_last hk hlast
    all_goals exact not_structural f.1

end Entity

/-! ### The document node -/

theorem get?_append_document (ht : t.size = 0) (n : Nat) :
    (t.append [.document]).get? n = if n = 0 then some .document else none := by
  rw [get?_append, ht, if_neg (Nat.not_lt_zero n)]
  cases n <;> rfl

theorem layout_document (ht : t.size = 0) : (t.append [.document]).Layout := by
  intro n k hk
  obtain ⟨r, hr, rfl⟩ := exists_get?_of_kind? hk
  have hpar := parent?_of_get? hr
  rw [get?_append_document ht] at hr
  split at hr
  · next h0 =>
    obtain rfl := Option.some.inj hr
    have none_parent : ∀ {p : Nat}, (t.append [.document]).parent? n ≠ some p := by
      intro p hp
      rw [hpar] at hp
      cases hp
    exact ⟨iff_of_true rfl h0, iff_of_true hpar h0, fun hp => absurd hp none_parent,
      fun hp => absurd hp none_parent, nofun, nofun, nofun, fun hp => absurd hp none_parent⟩
  · cases hr

theorem linked_document (ht : t.size = 0) : (t.append [.document]).Linked := by
  intro n k hk
  obtain ⟨r, hr, rfl⟩ := exists_get?_of_kind? hk
  have hlink := link?_of_get? hr
  rw [get?_append_document ht] at hr
  split at hr
  · obtain rfl := Option.some.inj hr
    have hlink : (t.append [.document]).link? n = none := hlink
    exact ⟨by rw [hlink]; rfl, nofun, by simp [hlink], by simp [hlink]⟩
  · cases hr

end Table

end XmlTable.Node
