import XmlTable.Proofs.Batch

/-!
# The frontier of a growing table

A producer keeps no stack. It remembers the node under which it appends, the last child of that
node, the last entity, and whether entities may still come. The frontier says how these are related
to the table: which links are not known yet, and that the producer may go on at the cursor and at
everything above it. Each step of the producer, together with the link that it fills in, takes one
frontier to the next.
-/

namespace XmlTable.Node.Table

variable {t t' : Table} {n m p c : Nat} {k : Kind} {l : Link}
  {previous : Option (Nat × Kind)} {lastEntity : Option Nat} {closed : Bool}

/-! ### Filling a link in -/

/-- Replace the link of the last child, if there is one and it is of a linked kind. -/
def settle (t : Table) (previous : Option (Nat × Kind)) (l : Link) : Table :=
  match previous with
  | some (n, k) => if k.isLinked then t.setLink n l else t
  | none => t

theorem settle_cases (t : Table) (previous : Option (Nat × Kind)) (l : Link) :
    (∃ n k, previous = some (n, k) ∧ k.isLinked = true ∧ t.settle previous l = t.setLink n l) ∨
      (∀ n k, previous = some (n, k) → k.isLinked = false) ∧ t.settle previous l = t := by
  unfold settle
  split
  · next n k =>
    split
    · next h => exact .inl ⟨n, k, rfl, h, rfl⟩
    · next h =>
      refine .inr ⟨fun n' k' he => ?_, rfl⟩
      obtain ⟨-, rfl⟩ := Prod.mk.inj (Option.some.inj he)
      exact Bool.not_eq_true _ ▸ h
  · exact .inr ⟨nofun, rfl⟩

/-- The two tables have the same nodes, with the same kinds and parents. -/
def Alike (t t' : Table) : Prop :=
  t'.kind? = t.kind? ∧ t'.parent? = t.parent?

theorem alike_setLink (t : Table) (n : Nat) (l : Link) : t.Alike (t.setLink n l) :=
  ⟨funext fun _ => kind?_setLink .., funext fun _ => parent?_setLink ..⟩

theorem alike_settle (t : Table) (previous : Option (Nat × Kind)) (l : Link) :
    t.Alike (t.settle previous l) := by
  rcases settle_cases t previous l with ⟨n, k, -, -, h⟩ | ⟨-, h⟩
  · rw [h]
    exact alike_setLink t n l
  · rw [h]
    exact ⟨rfl, rfl⟩

namespace Alike

variable (a : t.Alike t')
include a

theorem isChild : t'.IsChild = t.IsChild := by
  funext p n
  unfold IsChild IsStructural IsValue
  rw [a.1, a.2]

theorem within : t'.Within n m ↔ t.Within n m :=
  ⟨fun w => w.mono fun _ _ => ⟨by rw [a.1], by rw [a.2]⟩,
    fun w => w.mono fun _ _ => ⟨by rw [a.1], by rw [a.2]⟩⟩

end Alike

/-- A link that is filled in shows in the last child only. -/
theorem link?_settle_of_ne (h : ∀ k, previous ≠ some (n, k)) :
    (t.settle previous l).link? n = t.link? n := by
  rcases settle_cases t previous l with ⟨m, k, hm, -, hs⟩ | ⟨-, hs⟩
  · rw [hs, link?_setLink, if_neg]
    rintro rfl
    exact h k hm
  · rw [hs]

theorem link?_settle_self (hk : k.isLinked = true) (hl : (t.link? n).isSome = true) :
    (t.settle (some (n, k)) l).link? n = some l := by
  obtain ⟨l', hl'⟩ := Option.isSome_iff_exists.1 hl
  rw [settle, if_pos hk, link?_setLink, if_pos rfl, hl', Option.map_some]

/-- A node whose link reads as something else than what was filled in has kept it. -/
theorem link?_of_link?_settle {l' : Link} (h : (t.settle previous l).link? n = some l')
    (hne : l' ≠ l) : t.link? n = some l' := by
  rcases settle_cases t previous l with ⟨m, k, -, -, hs⟩ | ⟨-, hs⟩
  · rw [hs, link?_setLink] at h
    split at h
    · obtain ⟨_, _, rfl⟩ := Option.map_eq_some_iff.1 h
      exact absurd rfl hne
    · exact h
  · rw [hs] at h
    exact h

/-! ### The frontier -/

/-- How a table looks to the producer that declares entities after `lastEntity`, or that does so no
more. -/
structure EntityChain (t : Table) (lastEntity : Option Nat) (closed : Bool) : Prop where
  /-- The entity whose next one is not known is the last entity, while entities may come. -/
  entity : ∀ {n : Nat}, t.kind? n = some .entity →
    (t.link? n = some .pending ↔ closed = false ∧ lastEntity = some n)
  /-- Entities may come until the first element. -/
  no_element : closed = false → ∀ n, t.kind? n ≠ some .element
  /-- While they may come none is known to be the last. -/
  entity_last : closed = false → ∀ {n : Nat}, t.kind? n = some .entity → t.link? n ≠ some .last
  /-- The last entity is an entity. -/
  lastEntity_kind : ∀ {e : Nat}, lastEntity = some e → t.kind? e = some .entity
  /-- No entity comes after it. -/
  entity_le : ∀ {n : Nat}, t.kind? n = some .entity → ∃ e, lastEntity = some e ∧ n ≤ e

/-- How a table looks to the producer that appends under the node `c`, after the child `previous`
of it. -/
structure Frontier (t : Table) (c : Nat) (previous : Option (Nat × Kind))
    (lastEntity : Option Nat) (closed : Bool) : Prop extends t.EntityChain lastEntity closed where
  /-- The cursor is on the document or on an element. -/
  cursor : t.kind? c = some .document ∨ t.kind? c = some .element
  /-- What comes after the cursor is below it. -/
  after : ∀ {j q : Nat}, c < j → t.parent? j = some q → c ≤ q
  /-- The last child is a child. -/
  child : ∀ {n : Nat} {k : Kind}, previous = some (n, k) → t.IsChild c n ∧ t.kind? n = some k
  /-- No child comes after it. -/
  child_le : ∀ {m : Nat}, t.IsChild c m → ∃ n k, previous = some (n, k) ∧ m ≤ n
  /-- The elements whose next sibling is not known are the open ones and the last child. -/
  element : ∀ {n : Nat}, t.kind? n = some .element →
    (t.link? n = some .pending ↔ t.Within n c ∨ previous = some (n, .element))
  /-- The reference whose next sibling is not known is the last child. -/
  reference : ∀ {n : Nat}, t.kind? n = some .reference →
    (t.link? n = some .pending ↔ previous = some (n, .reference))
  /-- No child of the cursor, or of a node above it, is known to be the last. -/
  last : ∀ {n p : Nat} {k : Kind}, t.kind? n = some k → k.hasValueNode = false →
    t.parent? n = some p → t.link? n = some .last → ¬ t.Within p c

namespace Frontier

variable (f : t.Frontier c previous lastEntity closed)
include f

/-- Children may be appended at the frontier. -/
theorem isOpen : t.IsOpen c where
  kind := f.cursor
  after := f.after
  not_last hk hv hp hl := f.last hk hv hp hl .self

theorem cursor_lt : c < t.size :=
  f.isOpen.lt_size

/-- Entities may be appended while the producer says so. -/
theorem takesEntities (hc : closed = false) : t.TakesEntities where
  document := Nat.lt_of_le_of_lt (Nat.zero_le c) f.cursor_lt
  no_element := f.no_element hc _
  not_last := f.entity_last hc

/-- Before the first element the producer is at the document. -/
theorem cursor_eq (h : t.Layout) (hc : closed = false) : c = documentId := by
  rcases f.cursor with hk | hk
  · exact (h hk).document_iff.1 rfl
  · exact absurd hk (f.no_element hc c)

/-- The last child is a structural node, so it is neither an attribute nor an entity. -/
theorem child_kind {k : Kind} (hp : previous = some (n, k)) : k.hasValueNode = false := by
  obtain ⟨⟨⟨⟨k', hk', hv⟩, -⟩, -⟩, hk⟩ := f.child hp
  rw [hk] at hk'
  rw [Option.some.inj hk', hv]

theorem child_lt {k : Kind} (h : t.Layout) (hp : previous = some (n, k)) : c < n :=
  h.parent_lt (f.child hp).1.2

/-- What the last child says of its next sibling is not known yet. -/
theorem child_pending {k : Kind} (hp : previous = some (n, k)) (hk : k.isLinked = true) :
    t.link? n = some .pending := by
  have hkind := (f.child hp).2
  have hv := f.child_kind hp
  cases k
  case element => exact (f.element hkind).2 (.inr hp)
  case reference => exact (f.reference hkind).2 hp
  case attr => cases hv
  case entity => cases hv
  all_goals cases hk

/-- The siblings that come after the last child are not there yet. -/
theorem not_follows {k : Kind} (hp : previous = some (n, k)) : ¬ t.Follows n m := by
  rintro ⟨hlt, hf⟩
  have hkind := (f.child hp).2
  have hv := f.child_kind hp
  have child : ¬ (t.IsStructural m ∧ t.parent? m = t.parent? n) := by
    rintro ⟨hs, hpar⟩
    obtain ⟨n', k', hp', hle⟩ := f.child_le ⟨hs, hpar.trans (f.child hp).1.2⟩
    rw [hp] at hp'
    obtain ⟨rfl, -⟩ := Prod.mk.inj (Option.some.inj hp')
    omega
  rw [hkind] at hf
  cases k
  case attr => cases hv
  case entity => cases hv
  all_goals exact child hf

end Frontier

namespace EntityChain

variable (f : t.EntityChain lastEntity closed)
include f

/-- The entities that come after the last one are not there yet. -/
theorem not_follows {e : Nat} (he : lastEntity = some e) : ¬ t.Follows e m := by
  rintro ⟨hlt, hf⟩
  rw [f.lastEntity_kind he] at hf
  obtain ⟨e', he', hle⟩ := f.entity_le hf
  rw [he] at he'
  obtain rfl := Option.some.inj he'
  omega

/-- Filling in the link of the last entity leaves the links of other nodes alone. -/
theorem link?_settle {k : Kind} (hk : t.kind? n = some k) (hv : k.hasValueNode = false) :
    (t'.settle (lastEntity.map (·, .entity)) l).link? n = t'.link? n := by
  apply link?_settle_of_ne
  intro k' hn
  obtain ⟨e, he, hn⟩ := Option.map_eq_some_iff.1 hn
  rw [(Prod.mk.inj hn).1] at he
  rw [Option.some.inj (hk.symm.trans (f.lastEntity_kind he))] at hv
  cases hv

/-- Filling in the link of a node that is no entity leaves the chain of entities alone. -/
theorem settle (hp : ∀ {n : Nat} {k : Kind}, previous = some (n, k) →
    t.kind? n ≠ some .entity) : (t.settle previous l).EntityChain lastEntity closed := by
  have a := alike_settle t previous l
  have same : ∀ {n : Nat}, t.kind? n = some .entity →
      (t.settle previous l).link? n = t.link? n :=
    fun hk => link?_settle_of_ne fun k he => hp he hk
  refine ⟨?_, ?_, ?_, ?_, ?_⟩
  · intro n hk
    rw [a.1] at hk
    rw [same hk]
    exact f.entity hk
  · rw [a.1]
    exact f.no_element
  · intro hc n hk
    rw [a.1] at hk
    rw [same hk]
    exact f.entity_last hc hk
  · rw [a.1]
    exact f.lastEntity_kind
  · rw [a.1]
    exact f.entity_le

end EntityChain

/-- Nothing comes after an open element yet: what is after it is below it. -/
theorem Frontier.not_follows_of_within (f : t.Frontier c previous lastEntity closed)
    (h : t.Layout) (hk : t.kind? n = some .element) (w : t.Within n c) : ¬ t.Follows n m := by
  rintro ⟨hlt, hf⟩
  rw [hk] at hf
  obtain ⟨p, hp⟩ := h.exists_parent? (lt_size_of_kind? hk) fun h0 => by
    cases (h hk).document_iff.2 h0
  have hpn := h.parent_lt hp
  have hpm : t.parent? m = some p := hf.2.trans hp
  rcases Nat.lt_or_ge c m with hcm | hmc
  · have := f.after hcm hpm
    have := w.le h
    omega
  · obtain rfl | ⟨q, hq, w'⟩ := within_iff.1 (w.between h (Nat.le_of_lt hlt) hmc)
    · exact absurd hlt (Nat.lt_irrefl _)
    · obtain rfl := Option.some.inj (hpm.symm.trans hq)
      have := w'.le h
      omega

/-- Whatever the producer has yet to link to has not come yet. -/
theorem Frontier.upToDate (f : t.Frontier c previous lastEntity closed) (h : t.Layout)
    (hl : t.Linked) : t.UpToDate := by
  intro n m hp
  obtain ⟨k, hk⟩ := exists_kind?_iff.2 (lt_size_of_link? hp)
  have link := hl hk
  cases k
  case element =>
    rcases (f.element hk).1 hp with w | hprevious
    · exact f.not_follows_of_within h hk w
    · exact f.not_follows hprevious
  case reference => exact f.not_follows ((f.reference hk).1 hp)
  case entity => exact f.toEntityChain.not_follows ((f.entity hk).1 hp).2
  case attr => exact absurd hp (link.attr rfl)
  all_goals
    have := link.isSome_link?
    rw [hp] at this
    cases this

/-! ### A child is appended -/

/-- A child appended with its attributes, and linked to by the child before it. -/
def addChild (t : Table) (own : Record) (attrs : List StoredAttribute)
    (previous : Option (Nat × Kind)) : Table :=
  (t.append (t.childBatch own attrs)).settle previous (.next t.size)

section Child

variable {own : Record} {attrs : List StoredAttribute}

theorem kind?_append_childBatch_self :
    (t.append (t.childBatch own attrs)).kind? t.size = some own.kind := by
  rw [kind?_append, if_neg (Nat.lt_irrefl _), Nat.sub_self]
  rfl

theorem parent?_append_childBatch_self :
    (t.append (t.childBatch own attrs)).parent? t.size = own.parent := by
  rw [parent?_append, if_neg (Nat.lt_irrefl _), Nat.sub_self]
  rfl

theorem link?_append_childBatch_self :
    (t.append (t.childBatch own attrs)).link? t.size = own.link? := by
  rw [link?_append, if_neg (Nat.lt_irrefl _), Nat.sub_self]
  rfl

/-- The new nodes of a child are below the node that it was appended under. -/
theorem le_parent_childBatch (hr : IsChildRecord own p attrs) (hp : p < t.size) {j q : Nat}
    (hj : t.size ≤ j) (hq : (t.append (t.childBatch own attrs)).parent? j = some q) :
    p ≤ q ∧ (t.size < j → t.size ≤ q) := by
  obtain ⟨k, hk⟩ := exists_kind?_iff.2 (lt_size_of_parent? hq)
  rcases childBatch_cases hj hk with ⟨rfl, -, h, -⟩ | ⟨i, -, ⟨-, -, h, -⟩ | ⟨-, -, h, -⟩⟩
  · rw [h, hr.parent] at hq
    obtain rfl := Option.some.inj hq
    exact ⟨Nat.le_refl _, fun h => absurd h (Nat.lt_irrefl _)⟩
  · obtain rfl := Option.some.inj (h.symm.trans hq)
    exact ⟨Nat.le_of_lt hp, fun _ => Nat.le_refl _⟩
  · have : t.size + 1 + 2 * i = q := Option.some.inj (h.symm.trans hq)
    omega

/-- Appending a child adds one child, to the node that it is appended under. -/
theorem isChild_append_childBatch (h : t.Layout) (ho : t.IsOpen c)
    (hr : IsChildRecord own c attrs) :
    (t.append (t.childBatch own attrs)).IsChild p m ↔ t.IsChild p m ∨ m = t.size ∧ p = c := by
  have hc := continues_append t (t.childBatch own attrs)
  constructor
  · intro hm
    by_cases hlt : m < t.size
    · exact .inl ((hc.isChild_iff h hlt).1 hm)
    · have hge : t.size ≤ m := Nat.le_of_not_lt hlt
      obtain rfl := eq_of_isStructural_childBatch hge hm.1
      have hp := hm.2
      rw [parent?_append_childBatch_self, hr.parent] at hp
      exact .inr ⟨rfl, (Option.some.inj hp).symm⟩
  · rintro (hm | ⟨rfl, rfl⟩)
    · exact (hc.isChild_iff h hm.1.lt_size).2 hm
    · have hpar : (t.append (t.childBatch own attrs)).parent? t.size = some p := by
        rw [parent?_append_childBatch_self, hr.parent]
      refine ⟨⟨⟨own.kind, kind?_append_childBatch_self, hr.kind.2⟩, ?_⟩, hpar⟩
      rintro ⟨-, q, kq, hq, hkq, hv⟩
      obtain rfl := Option.some.inj (hpar.symm.trans hq)
      rcases ho.kind with hk | hk
      · cases (hc.kind? hk).symm.trans hkq
        cases hv
      · cases (hc.kind? hk).symm.trans hkq
        cases hv

/-- What is above a new child is the node that it was appended under, and what is above that. -/
theorem within_append_childBatch (h : t.Layout) (ho : t.IsOpen c)
    (hr : IsChildRecord own c attrs) :
    (t.append (t.childBatch own attrs)).Within n t.size ↔ n = t.size ∨ t.Within n c := by
  rw [within_iff, parent?_append_childBatch_self, hr.parent,
    eq_comm, ← (continues_append t (t.childBatch own attrs)).within_iff h ho.lt_size]
  simp

/-- The child that was the last one has a next sibling now. -/
theorem Frontier.isNext (f : t.Frontier c previous lastEntity closed) (h : t.Layout)
    (hr : IsChildRecord own c attrs) (hp : previous = some (n, k)) :
    (t.append (t.childBatch own attrs)).IsNext n t.size := by
  have hc := continues_append t (t.childBatch own attrs)
  have hlt := (f.child hp).1.1.lt_size
  have hv := f.child_kind hp
  have hchild := (isChild_append_childBatch h f.isOpen hr (p := c) (m := t.size)).2
    (.inr ⟨rfl, rfl⟩)
  refine ⟨⟨hlt, ?_⟩, fun m' hf => ?_⟩
  · rw [hc.kind? (f.child hp).2, (hc n hlt).2, (f.child hp).1.2]
    cases k
    case attr => cases hv
    case entity => cases hv
    all_goals exact hchild
  · apply Nat.le_of_not_lt
    intro hm'
    exact f.not_follows hp ((hc.follows_iff h hm').1 hf)

/-- Of the old nodes the last child has a known link now, and nothing else changes. -/
theorem Frontier.pending_addChild (f : t.Frontier c previous lastEntity closed) (hl : t.Linked)
    (hn : n < t.size) :
    (t.addChild own attrs previous).link? n = some .pending ↔
      t.link? n = some .pending ∧ ∀ k, previous ≠ some (n, k) := by
  have same : (t.append (t.childBatch own attrs)).link? n = t.link? n := by
    rw [link?_append, if_pos hn]
  constructor
  · intro hp
    have old := link?_of_link?_settle hp nofun
    rw [same] at old
    refine ⟨old, ?_⟩
    rintro k rfl
    have hk : k.isLinked = true := by
      rw [← (hl (f.child rfl).2).isSome_link?, old]
      rfl
    rw [addChild, link?_settle_self hk (by rw [same, old]; rfl)] at hp
    cases hp
  · rintro ⟨hp, hne⟩
    rw [addChild, link?_settle_of_ne hne, same, hp]

theorem kind?_addChild_of_lt (hn : n < t.size) :
    (t.addChild own attrs previous).kind? n = t.kind? n := by
  rw [addChild, (alike_settle ..).1, kind?_append, if_pos hn]

theorem parent?_addChild_of_lt (hn : n < t.size) :
    (t.addChild own attrs previous).parent? n = t.parent? n := by
  rw [addChild, (alike_settle ..).2, parent?_append, if_pos hn]

theorem Frontier.link?_addChild_self (f : t.Frontier c previous lastEntity closed) :
    (t.addChild own attrs previous).link? t.size = own.link? := by
  rw [addChild, link?_settle_of_ne, link?_append_childBatch_self]
  intro k hp
  exact absurd (f.child hp).1.1.lt_size (Nat.lt_irrefl _)

/-- Of the old elements those at and above the cursor have a link that is not known. -/
theorem Frontier.element_addChild (f : t.Frontier c previous lastEntity closed) (h : t.Layout)
    (hl : t.Linked) (hn : n < t.size)
    (hk : (t.addChild own attrs previous).kind? n = some .element) :
    (t.addChild own attrs previous).link? n = some .pending ↔ t.Within n c := by
  rw [kind?_addChild_of_lt hn] at hk
  rw [f.pending_addChild hl hn, f.element hk]
  constructor
  · rintro ⟨hw | hp, hno⟩
    · exact hw
    · exact absurd hp (hno _)
  · intro hw
    refine ⟨.inl hw, fun k hp => ?_⟩
    have := f.child_lt h hp
    have := hw.le h
    omega

/-- Of the old references none has a link that is not known. -/
theorem Frontier.reference_addChild (f : t.Frontier c previous lastEntity closed) (hl : t.Linked)
    (hn : n < t.size) (hk : (t.addChild own attrs previous).kind? n = some .reference) :
    (t.addChild own attrs previous).link? n ≠ some .pending := by
  rw [kind?_addChild_of_lt hn] at hk
  rw [Ne, f.pending_addChild hl hn, f.reference hk]
  rintro ⟨hp, hno⟩
  exact hno _ hp

/-- No node is said to be the last that was not. -/
private theorem last_addChild (hr : IsChildRecord own c attrs)
    (hk : (t.addChild own attrs previous).kind? n = some k)
    (hv : k.hasValueNode = false) (hlast : (t.addChild own attrs previous).link? n = some .last) :
    n < t.size ∧ t.link? n = some .last := by
  rw [addChild, (alike_settle _ previous _).1] at hk
  have hlast := link?_of_link?_settle hlast nofun
  by_cases hn : n < t.size
  · rw [link?_append, if_pos hn] at hlast
    exact ⟨hn, hlast⟩
  · have hn : t.size ≤ n := Nat.le_of_not_lt hn
    rcases childBatch_cases hn hk with ⟨-, -, -, hlink⟩ | ⟨i, -, ⟨-, rfl, -⟩ | ⟨-, -, -, hlink⟩⟩
    · rw [hr.link] at hlink
      rw [hlink] at hlast
      split at hlast <;> cases hlast
    · cases hv
    · rw [hlink] at hlast
      cases hlast

/-- A child is no entity, and what it adds is none either. -/
theorem EntityChain.append_childBatch (f : t.EntityChain lastEntity closed)
    (hr : IsChildRecord own c attrs) (hne : closed = false → own.kind ≠ .element) :
    (t.append (t.childBatch own attrs)).EntityChain lastEntity closed := by
  have hc := continues_append t (t.childBatch own attrs)
  have old : ∀ {n : Nat}, (t.append (t.childBatch own attrs)).kind? n = some .entity →
      n < t.size ∧ t.kind? n = some .entity := by
    intro n hk
    by_cases hn : n < t.size
    · exact ⟨hn, by rw [← hk, (hc n hn).1]⟩
    · have hn : t.size ≤ n := Nat.le_of_not_lt hn
      rcases childBatch_cases hn hk with ⟨-, he, -⟩ | ⟨i, -, ⟨-, he, -⟩ | ⟨-, he, -⟩⟩
      · have hv := hr.kind.2
        rw [← he] at hv
        cases hv
      · cases he
      · cases he
  refine ⟨?_, ?_, ?_, ?_, ?_⟩
  · intro n hk
    rw [link?_append, if_pos (old hk).1]
    exact f.entity (old hk).2
  · intro hcl n hk
    by_cases hn : n < t.size
    · rw [(hc n hn).1] at hk
      exact f.no_element hcl n hk
    · have hn : t.size ≤ n := Nat.le_of_not_lt hn
      rcases childBatch_cases hn hk with ⟨-, he, -⟩ | ⟨i, -, ⟨-, he, -⟩ | ⟨-, he, -⟩⟩
      · exact hne hcl he.symm
      · cases he
      · cases he
  · intro hcl n hk
    rw [link?_append, if_pos (old hk).1]
    exact f.entity_last hcl (old hk).2
  · intro e he
    exact hc.kind? (f.lastEntity_kind he)
  · intro n hk
    exact f.entity_le (old hk).2

/-- The chain of entities after a child. -/
theorem Frontier.chain_addChild (f : t.Frontier c previous lastEntity closed)
    (hr : IsChildRecord own c attrs) (hne : closed = false → own.kind ≠ .element) :
    (t.addChild own attrs previous).EntityChain lastEntity closed := by
  refine (f.toEntityChain.append_childBatch hr hne).settle fun {n k} hp hk => ?_
  have hv := f.child_kind hp
  rw [(continues_append t _).kind? (f.child hp).2] at hk
  rw [Option.some.inj hk] at hv
  cases hv

/-- The new nodes of linked kinds, attributes apart, are at most the child itself. -/
private theorem eq_size_addChild (hk : (t.addChild own attrs previous).kind? n = some k)
    (hn : t.size ≤ n) (hv : k = .element ∨ k = .reference) : n = t.size ∧ k = own.kind := by
  rw [addChild, (alike_settle _ previous _).1] at hk
  rcases childBatch_cases hn hk with ⟨hn, hk, -⟩ | ⟨i, -, ⟨-, rfl, -⟩ | ⟨-, rfl, -⟩⟩
  · exact ⟨hn, hk⟩
  · rcases hv with hv | hv <;> cases hv
  · rcases hv with hv | hv <;> cases hv

/-- The frontier after a child that is no element. -/
theorem Frontier.addLeaf (f : t.Frontier c previous lastEntity closed) (h : t.Layout)
    (hl : t.Linked) (hr : IsChildRecord own c attrs) (hne : own.kind ≠ .element) :
    (t.addChild own attrs previous).Frontier c (some (t.size, own.kind)) lastEntity closed := by
  have a : (t.append (t.childBatch own attrs)).Alike (t.addChild own attrs previous) :=
    alike_settle ..
  have hc := continues_append t (t.childBatch own attrs)
  refine
    { toEntityChain := f.chain_addChild hr fun _ => hne
      cursor := by rw [kind?_addChild_of_lt f.cursor_lt]; exact f.cursor
      after := fun {j q} hj hq => ?_
      child := fun {n k} hp => ?_
      child_le := fun {m} hm => ?_
      element := fun {n} hk => ?_
      reference := fun {n} hk => ?_
      last := fun {n p k} hk hv hp hlast => ?_ }
  · by_cases hlt : j < t.size
    · rw [parent?_addChild_of_lt hlt] at hq
      exact f.after hj hq
    · have hge : t.size ≤ j := Nat.le_of_not_lt hlt
      rw [a.2] at hq
      exact (le_parent_childBatch hr f.cursor_lt hge hq).1
  · obtain ⟨rfl, rfl⟩ := Prod.mk.inj (Option.some.inj hp)
    rw [a.isChild, a.1]
    exact ⟨(isChild_append_childBatch h f.isOpen hr).2 (.inr ⟨rfl, rfl⟩),
      kind?_append_childBatch_self⟩
  · rw [a.isChild, isChild_append_childBatch h f.isOpen hr] at hm
    refine ⟨_, _, rfl, ?_⟩
    rcases hm with hm | ⟨rfl, -⟩
    · exact Nat.le_of_lt hm.1.lt_size
    · exact Nat.le_refl _
  · by_cases hlt : n < t.size
    · rw [f.element_addChild h hl hlt hk, a.within, hc.within_iff h f.cursor_lt]
      refine (or_iff_left ?_).symm
      intro hp
      obtain ⟨rfl, -⟩ := Prod.mk.inj (Option.some.inj hp)
      omega
    · have hge : t.size ≤ n := Nat.le_of_not_lt hlt
      exact absurd (eq_size_addChild hk hge (.inl rfl)).2.symm hne
  · by_cases hlt : n < t.size
    · apply iff_of_false (f.reference_addChild hl hlt hk)
      intro hp
      obtain ⟨rfl, -⟩ := Prod.mk.inj (Option.some.inj hp)
      omega
    · have hge : t.size ≤ n := Nat.le_of_not_lt hlt
      obtain ⟨rfl, he⟩ := eq_size_addChild hk hge (.inr rfl)
      rw [f.link?_addChild_self, hr.link, ← he]
      exact iff_of_true rfl rfl
  · obtain ⟨hlt, hlast⟩ := last_addChild hr hk hv hlast
    rw [kind?_addChild_of_lt hlt] at hk
    rw [parent?_addChild_of_lt hlt] at hp
    rw [a.within, hc.within_iff h f.cursor_lt]
    exact f.last hk hv hp hlast

/-- The frontier after the start of an element. -/
theorem Frontier.addElement (f : t.Frontier c previous lastEntity true) (h : t.Layout)
    (hl : t.Linked) (hr : IsChildRecord own c attrs) (he : own.kind = .element) :
    (t.addChild own attrs previous).Frontier t.size none lastEntity true := by
  have a : (t.append (t.childBatch own attrs)).Alike (t.addChild own attrs previous) :=
    alike_settle ..
  have hc := continues_append t (t.childBatch own attrs)
  refine
    { toEntityChain := f.chain_addChild hr nofun
      cursor := .inr (by rw [a.1, kind?_append_childBatch_self, he])
      after := fun {j q} hj hq => ?_
      child := nofun
      child_le := fun {m} hm => ?_
      element := fun {n} hk => ?_
      reference := fun {n} hk => ?_
      last := fun {n p k} hk hv hp hlast => ?_ }
  · rw [a.2] at hq
    exact (le_parent_childBatch hr f.cursor_lt (Nat.le_of_lt hj) hq).2 hj
  · rw [a.isChild, isChild_append_childBatch h f.isOpen hr] at hm
    rcases hm with hm | ⟨-, hs⟩
    · exact absurd (h.parent_lt hm.2) (Nat.lt_asymm hm.1.lt_size)
    · exact absurd f.cursor_lt (by rw [hs]; exact Nat.lt_irrefl _)
  · rw [a.within, within_append_childBatch h f.isOpen hr]
    by_cases hlt : n < t.size
    · rw [f.element_addChild h hl hlt hk, or_iff_left nofun,
        or_iff_right (Nat.ne_of_lt hlt)]
    · have hge : t.size ≤ n := Nat.le_of_not_lt hlt
      obtain ⟨rfl, -⟩ := eq_size_addChild hk hge (.inl rfl)
      rw [f.link?_addChild_self, hr.link, he]
      exact iff_of_true rfl (.inl (.inl rfl))
  · by_cases hlt : n < t.size
    · exact iff_of_false (f.reference_addChild hl hlt hk) nofun
    · have hge : t.size ≤ n := Nat.le_of_not_lt hlt
      have := (eq_size_addChild hk hge (.inr rfl)).2
      rw [he] at this
      cases this
  · obtain ⟨hlt, hlast⟩ := last_addChild hr hk hv hlast
    rw [kind?_addChild_of_lt hlt] at hk
    rw [parent?_addChild_of_lt hlt] at hp
    rw [a.within, within_append_childBatch h f.isOpen hr]
    rintro (rfl | hw)
    · exact absurd (h.parent_lt hp) (Nat.lt_asymm hlt)
    · exact f.last hk hv hp hlast hw

end Child

/-! ### A node is closed -/

section Close

/-- When the last child has none after it, the elements at and above the cursor are left with a
link that is not known, and no reference is. -/
theorem Frontier.pending_settle_last (f : t.Frontier c previous lastEntity closed)
    (hk : t.kind? n = some .element ∨ t.kind? n = some .reference)
    (hp : (t.settle previous .last).link? n = some .pending) :
    t.kind? n = some .element ∧ t.Within n c := by
  have old := link?_of_link?_settle hp nofun
  have hno : ∀ {k : Kind}, k.isLinked = true → previous ≠ some (n, k) := by
    rintro k hk rfl
    rw [link?_settle_self hk (by rw [old]; rfl)] at hp
    cases hp
  rcases hk with hk | hk
  · rcases (f.element hk).1 old with hw | hp
    · exact ⟨hk, hw⟩
    · exact absurd hp (hno rfl)
  · exact absurd ((f.reference hk).1 old) (hno rfl)

/-- When the last child has none after it, the elements at and above the cursor are those with a
link that is not known. -/
theorem Frontier.element_settle_last (f : t.Frontier c previous lastEntity closed) (h : t.Layout)
    (hk : t.kind? n = some .element) :
    (t.settle previous .last).link? n = some .pending ↔ t.Within n c := by
  constructor
  · exact fun hp => (f.pending_settle_last (.inl hk) hp).2
  · intro hw
    rw [link?_settle_of_ne]
    · exact (f.element hk).2 (.inl hw)
    · intro k hn
      have := f.child_lt h hn
      have := hw.le h
      omega

/-- Filling in the link of the last child leaves the chain of entities alone. -/
theorem Frontier.chain_settle (f : t.Frontier c previous lastEntity closed) (l : Link) :
    (t.settle previous l).EntityChain lastEntity closed := by
  refine f.toEntityChain.settle fun {n k} hp hk => ?_
  have hv := f.child_kind hp
  rw [Option.some.inj ((f.child hp).2.symm.trans hk)] at hv
  cases hv

/-- The frontier after the end of an element. -/
theorem Frontier.closeElement (f : t.Frontier c previous lastEntity closed) (h : t.Layout)
    (he : t.kind? c = some .element) (hp : t.parent? c = some p) :
    (t.settle previous .last).Frontier p (some (c, .element)) lastEntity closed := by
  have a := alike_settle t previous .last
  have hlt := h.parent_lt hp
  have hkp := (h he).parent_kind hp
  have after : ∀ {j q : Nat}, p < j → t.parent? j = some q → p ≤ q := by
    intro j q hj hq
    rcases Nat.lt_trichotomy j c with hjc | rfl | hjc
    · exact h.nested hp hq hj hjc
    · rw [hp] at hq
      exact Nat.le_of_eq (Option.some.inj hq)
    · exact Nat.le_trans (Nat.le_of_lt hlt) (f.after hjc hq)
  refine
    { toEntityChain := f.chain_settle .last
      cursor := ?_
      after := by rw [a.2]; exact after
      child := fun {n k} hn => ?_
      child_le := fun {m} hm => ?_
      element := fun {n} hk => ?_
      reference := fun {n} hk => ?_
      last := fun {n q k} hk hv hq hlast => ?_ }
  · rw [a.1]
    obtain ⟨kp, hkp, hc, hv⟩ := hkp
    cases kp
    case document => exact .inl hkp
    case element => exact .inr hkp
    case attr => cases (hv rfl).1
    case entity => cases (hv rfl).1
    all_goals cases hc
  · obtain ⟨rfl, rfl⟩ := Prod.mk.inj (Option.some.inj hn)
    rw [a.isChild, a.1]
    refine ⟨⟨⟨⟨_, he, rfl⟩, ?_⟩, hp⟩, he⟩
    rintro ⟨hk, -⟩
    cases he.symm.trans hk
  · rw [a.isChild] at hm
    refine ⟨c, .element, rfl, Nat.le_of_not_lt fun hcm => ?_⟩
    have := f.after hcm hm.2
    omega
  · rw [a.1] at hk
    rw [a.within, f.element_settle_last h hk, within_iff, hp]
    simp [or_comm]
  · rw [a.1] at hk
    refine iff_of_false (fun hp' => ?_) nofun
    cases hk.symm.trans (f.pending_settle_last (.inr hk) hp').1
  · rw [a.1] at hk
    rw [a.2] at hq
    rw [a.within]
    intro hw
    by_cases hn : ∃ k, previous = some (n, k)
    · obtain ⟨k', hn⟩ := hn
      rw [(f.child hn).1.2] at hq
      obtain rfl := Option.some.inj hq
      have := hw.le h
      omega
    · rw [link?_settle_of_ne fun k' hn' => hn ⟨k', hn'⟩] at hlast
      exact f.last hk hv hq hlast (.step hp hw)

/-- When the document ends after its last child, the links of all its children are known. -/
theorem Frontier.closeDocument (f : t.Frontier documentId previous lastEntity closed)
    (h : t.Layout) (hk : t.kind? n = some .element ∨ t.kind? n = some .reference) :
    (t.settle previous .last).link? n ≠ some .pending := by
  intro hp
  obtain ⟨he, hw⟩ := f.pending_settle_last hk hp
  obtain rfl := Nat.le_zero.1 (hw.le h)
  cases (h he).document_iff.2 rfl

/-- When no entity comes any more, the links of all entities are known. -/
theorem EntityChain.closeEntities (f : t.EntityChain lastEntity false) :
    (t.settle (lastEntity.map (·, .entity)) .last).EntityChain lastEntity true := by
  have a := alike_settle t (lastEntity.map (·, .entity)) .last
  refine ⟨?_, nofun, nofun, by rw [a.1]; exact f.lastEntity_kind, by rw [a.1]; exact f.entity_le⟩
  intro n hk
  refine iff_of_false (fun hp => ?_) nofun
  rw [a.1] at hk
  have old := link?_of_link?_settle hp nofun
  rw [((f.entity hk).1 old).2, Option.map_some, link?_settle_self rfl (by rw [old]; rfl)] at hp
  cases hp

/-- The frontier when no entity comes any more. -/
theorem Frontier.closeEntities (f : t.Frontier c previous lastEntity false) :
    (t.settle (lastEntity.map (·, .entity)) .last).Frontier c previous lastEntity true := by
  have a := alike_settle t (lastEntity.map (·, .entity)) .last
  refine
    { toEntityChain := f.toEntityChain.closeEntities
      cursor := by rw [a.1]; exact f.cursor
      after := by rw [a.2]; exact f.after
      child := by rw [a.isChild, a.1]; exact f.child
      child_le := by rw [a.isChild]; exact f.child_le
      element := fun {n} hk => ?_
      reference := fun {n} hk => ?_
      last := fun {n q k} hk hv hq hlast => ?_ }
  · rw [a.1] at hk
    rw [f.link?_settle hk rfl, a.within]
    exact f.element hk
  · rw [a.1] at hk
    rw [f.link?_settle hk rfl]
    exact f.reference hk
  · rw [a.1] at hk
    rw [a.2] at hq
    rw [f.link?_settle hk hv] at hlast
    rw [a.within]
    exact f.last hk hv hq hlast

end Close

/-! ### An entity is declared -/

/-- An entity appended with its value, and linked to by the entity before it. -/
def addEntity (t : Table) (name payload : SymbolId) (lastEntity : Option Nat) : Table :=
  (t.append (t.entityBatch name payload)).settle (lastEntity.map (·, .entity)) (.next t.size)

section Entity

variable {name payload : SymbolId}

/-- The new nodes of an entity belong to no element and are no children. -/
theorem not_isStructural_entityBatch (hn : t.size ≤ n) :
    ¬ (t.append (t.entityBatch name payload)).IsStructural n := by
  have hv := entityBatch_value t name payload
  rintro ⟨⟨k, hk, hs⟩, hnv⟩
  rcases entityBatch_cases hn hk with ⟨-, rfl, -⟩ | ⟨-, rfl, hpar, -⟩
  · cases hs
  · exact hnv ⟨hk, _, _, hpar, hv.1, rfl⟩

/-- The entity that was the last one has one after it now. -/
theorem EntityChain.isNext (f : t.EntityChain lastEntity closed) (h : t.Layout) {e : Nat}
    (he : lastEntity = some e) : (t.append (t.entityBatch name payload)).IsNext e t.size := by
  have hc := continues_append t (t.entityBatch name payload)
  have hk := f.lastEntity_kind he
  refine ⟨⟨lt_size_of_kind? hk, ?_⟩, fun m' hf => ?_⟩
  · rw [hc.kind? hk]
    exact (entityBatch_value t name payload).1
  · apply Nat.le_of_not_lt
    intro hm'
    exact f.not_follows he ((hc.follows_iff h hm').1 hf)

/-- The chain of entities after one more. -/
theorem EntityChain.addEntity (f : t.EntityChain lastEntity false) :
    (t.addEntity name payload lastEntity).EntityChain (some t.size) false := by
  have a : (t.append (t.entityBatch name payload)).Alike (t.addEntity name payload lastEntity) :=
    alike_settle ..
  have hc := continues_append t (t.entityBatch name payload)
  have cases_of_kind : ∀ {n : Nat}, (t.addEntity name payload lastEntity).kind? n = some .entity →
      n < t.size ∧ t.kind? n = some .entity ∨
        n = t.size ∧ (t.append (t.entityBatch name payload)).link? n = some .pending := by
    intro n hk
    rw [a.1] at hk
    by_cases hn : n < t.size
    · exact .inl ⟨hn, by rw [← hk, (hc n hn).1]⟩
    · have hn : t.size ≤ n := Nat.le_of_not_lt hn
      rcases entityBatch_cases hn hk with ⟨hn, -, -, hl⟩ | ⟨-, he, -⟩
      · exact .inr ⟨hn, hl⟩
      · cases he
  have last_lt : ∀ {n : Nat} {k : Kind}, lastEntity.map (·, Kind.entity) = some (n, k) →
      n < t.size := by
    intro n k hn
    obtain ⟨e, he, hn⟩ := Option.map_eq_some_iff.1 hn
    rw [← (Prod.mk.inj hn).1]
    exact lt_size_of_kind? (f.lastEntity_kind he)
  refine ⟨?_, ?_, ?_, ?_, ?_⟩
  · intro n hk
    rcases cases_of_kind hk with ⟨hn, hk⟩ | ⟨rfl, hl⟩
    · refine iff_of_false (fun hp => ?_) ?_
      · have old := link?_of_link?_settle hp nofun
        have same : (t.append (t.entityBatch name payload)).link? n = t.link? n := by
          rw [link?_append, if_pos hn]
        rw [same] at old
        rw [Table.addEntity, ((f.entity hk).1 old).2, Option.map_some,
          link?_settle_self rfl (by rw [same, old]; rfl)] at hp
        cases hp
      · rintro ⟨-, he⟩
        have := Option.some.inj he
        omega
    · refine iff_of_true ?_ ⟨rfl, rfl⟩
      rw [Table.addEntity, link?_settle_of_ne, hl]
      intro k hn
      exact Nat.lt_irrefl _ (last_lt hn)
  · intro _ n hk
    rw [a.1] at hk
    by_cases hn : n < t.size
    · rw [(hc n hn).1] at hk
      exact f.no_element rfl n hk
    · have hn : t.size ≤ n := Nat.le_of_not_lt hn
      rcases entityBatch_cases hn hk with ⟨-, he, -⟩ | ⟨-, he, -⟩ <;> cases he
  · intro _ n hk hlast
    have hlast := link?_of_link?_settle hlast nofun
    rcases cases_of_kind hk with ⟨hn, hk⟩ | ⟨rfl, hl⟩
    · rw [link?_append, if_pos hn] at hlast
      exact f.entity_last rfl hk hlast
    · cases hl.symm.trans hlast
  · intro e he
    obtain rfl := Option.some.inj he
    rw [a.1]
    exact (entityBatch_value t name payload).1
  · intro n hk
    rcases cases_of_kind hk with ⟨hn, -⟩ | ⟨rfl, -⟩
    · exact ⟨_, rfl, Nat.le_of_lt hn⟩
    · exact ⟨_, rfl, Nat.le_refl _⟩

/-- The frontier after the declaration of an entity. -/
theorem Frontier.addEntity (f : t.Frontier c previous lastEntity false) (h : t.Layout) :
    (t.addEntity name payload lastEntity).Frontier c previous (some t.size) false := by
  have a : (t.append (t.entityBatch name payload)).Alike (t.addEntity name payload lastEntity) :=
    alike_settle ..
  have hc := continues_append t (t.entityBatch name payload)
  have hv := entityBatch_value t name payload
  have same : ∀ {n : Nat} {k : Kind}, n < t.size → t.kind? n = some k → k.hasValueNode = false →
      (t.addEntity name payload lastEntity).link? n = t.link? n := by
    intro n k hn hk hs
    rw [Table.addEntity, f.link?_settle hk hs, link?_append, if_pos hn]
  -- The new nodes are an entity and a text, so they are of no kind that is asked about here.
  have old : ∀ {n : Nat} {k : Kind}, (t.addEntity name payload lastEntity).kind? n = some k →
      k.hasValueNode = false → k ≠ .text → n < t.size ∧ t.kind? n = some k := by
    intro n k hk hs ht
    rw [a.1] at hk
    by_cases hn : n < t.size
    · rw [(hc n hn).1] at hk
      exact ⟨hn, hk⟩
    · have hn : t.size ≤ n := Nat.le_of_not_lt hn
      rcases entityBatch_cases hn hk with ⟨-, rfl, -⟩ | ⟨-, rfl, -⟩
      · cases hs
      · exact absurd rfl ht
  have child : ∀ {n : Nat}, (t.addEntity name payload lastEntity).IsChild c n ↔ t.IsChild c n := by
    intro n
    rw [a.isChild]
    by_cases hn : n < t.size
    · exact hc.isChild_iff h hn
    · have hn : t.size ≤ n := Nat.le_of_not_lt hn
      apply iff_of_false (fun hch => not_isStructural_entityBatch hn hch.1)
      intro hch
      exact absurd hch.1.lt_size (Nat.not_lt.2 hn)
  refine
    { toEntityChain := f.toEntityChain.addEntity
      cursor := by rw [a.1, (hc c f.cursor_lt).1]; exact f.cursor
      after := fun {j q} _ _ => by rw [f.cursor_eq h rfl]; exact Nat.zero_le q
      child := fun {n k} hp => ?_
      child_le := fun {m} hm => f.child_le (child.1 hm)
      element := fun {n} hk => ?_
      reference := fun {n} hk => ?_
      last := fun {n q k} hk hs hq hlast => ?_ }
  · rw [child, a.1]
    exact ⟨(f.child hp).1, hc.kind? (f.child hp).2⟩
  · obtain ⟨hn, hk⟩ := old hk rfl nofun
    rw [same hn hk rfl, a.within, hc.within_iff h f.cursor_lt]
    exact f.element hk
  · obtain ⟨hn, hk⟩ := old hk rfl nofun
    rw [same hn hk rfl]
    exact f.reference hk
  · have hn : n < t.size := by
      apply Nat.lt_of_not_le
      intro hge
      rw [a.1] at hk
      have hlast := link?_of_link?_settle hlast nofun
      rcases entityBatch_cases hge hk with ⟨-, rfl, -⟩ | ⟨-, -, -, hl⟩
      · cases hs
      · cases hl.symm.trans hlast
    rw [a.1, (hc n hn).1] at hk
    rw [same hn hk hs] at hlast
    rw [a.2, (hc n hn).2] at hq
    rw [a.within, hc.within_iff h f.cursor_lt]
    exact f.last hk hs hq hlast

end Entity

/-! ### The document is begun -/

/-- The frontier after the start of the document. -/
theorem frontier_document (ht : t.size = 0) :
    (t.append [.document]).Frontier documentId none none false := by
  have only : ∀ {n : Nat} {k : Kind}, (t.append [.document]).kind? n = some k →
      n = 0 ∧ k = .document := by
    intro n k hk
    obtain ⟨r, hr, rfl⟩ := exists_get?_of_kind? hk
    rw [get?_append_document ht] at hr
    split at hr
    · next hn =>
      obtain rfl := Option.some.inj hr
      exact ⟨hn, rfl⟩
    · cases hr
  have zero := kind?_of_get? ((get?_append_document ht 0).trans (if_pos rfl))
  refine
    { entity := fun hk => ?_
      no_element := fun _ n hk => ?_
      entity_last := fun _ {n} hk => ?_
      lastEntity_kind := nofun
      entity_le := fun hk => ?_
      cursor := .inl zero
      after := fun {j q} _ _ => Nat.zero_le q
      child := nofun
      child_le := fun {m} hm => ?_
      element := fun hk => ?_
      reference := fun hk => ?_
      last := fun {n p k} hk _ hp _ => ?_ }
  · cases (only hk).2
  · cases (only hk).2
  · cases (only hk).2
  · cases (only hk).2
  · obtain ⟨rfl, -⟩ := only (exists_kind?_iff.2 hm.1.lt_size).choose_spec
    cases hm.2.symm.trans (parent?_of_get? ((get?_append_document ht 0).trans (if_pos rfl)))
  · cases (only hk).2
  · cases (only hk).2
  · obtain ⟨rfl, -⟩ := only hk
    cases hp.symm.trans (parent?_of_get? ((get?_append_document ht 0).trans (if_pos rfl)))

end XmlTable.Node.Table
