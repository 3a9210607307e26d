import XmlTable.Proofs.Children
import XmlTable.Proofs.Entities
import XmlTable.Proofs.Partition
import XmlTable.Proofs.Reading

/-!
# Siblings forward and back

Links and adjacency lead from a node to its next sibling; the previous one is not stored, but looked
for from the first node of the chain. There are three kinds of chains: the attributes of an element,
the entities, and the children of a node. The two directions are inverse to each other because in
each chain a node comes next after another exactly if no third one is between them.
-/

namespace XmlTable

open Node

section Nearest

variable {P Q : Nat → Prop} {n m : Nat} {nearest : Option Nat}

/-- Of the numbers with a property, one is the next after another exactly if that is the nearest
before it. -/
theorem isFirst_iff_isNearest (hm : P m) (hn : P n) :
    IsFirst (fun j => m < j ∧ P j) (some n) ↔ IsNearest (· > ·) P n (some m) := by
  constructor
  · rintro ⟨⟨hmn, -⟩, least⟩
    refine ⟨hmn, hm, fun j hjn hj => ?_⟩
    by_contra between
    have := least j ⟨by omega, hj⟩
    omega
  · rintro ⟨hmn, -, nearest⟩
    refine ⟨⟨hmn, hn⟩, fun j ⟨hmj, hj⟩ => ?_⟩
    by_contra between
    have := nearest j (by omega) hj
    omega

theorem isNearest_congr {r : Nat → Nat → Prop} (same : ∀ m, r n m → (P m ↔ Q m)) :
    IsNearest r P n nearest ↔ IsNearest r Q n nearest := by
  cases nearest with
  | none => exact forall_congr' fun j => imp_congr_right fun hj => not_congr (same j hj)
  | some m =>
    apply and_congr_right
    intro hm
    rw [same m hm]
    exact and_congr_right fun _ =>
      forall_congr' fun j => imp_congr_right fun hj => imp_congr_left (same j hj)

theorem IsFirst.unique {a b : Option Nat} (ha : IsFirst P a) (hb : IsFirst P b) : a = b := by
  cases a with
  | none =>
    cases b with
    | none => rfl
    | some j => exact absurd hb.1 (ha j)
  | some i =>
    cases b with
    | none => exact absurd ha.1 (hb i)
    | some j => rw [Nat.le_antisymm (ha.2 j hb.1) (hb.2 i ha.1)]

theorem IsNearest.unique {a b : Option Nat} (ha : IsNearest (· > ·) P n a)
    (hb : IsNearest (· > ·) P n b) : a = b := by
  cases a with
  | none =>
    cases b with
    | none => rfl
    | some j => exact absurd hb.2.1 (ha j hb.1)
  | some i =>
    cases b with
    | none => exact absurd ha.2.1 (hb i ha.1)
    | some j =>
      have hij := ha.2.2 j hb.1 hb.2.1
      have hji := hb.2.2 i ha.1 ha.2.1
      rw [show i = j by omega]

end Nearest

namespace Node.Table

variable {t : Table} {P : Nat → Prop} {n m : Nat}

theorem IsStructural.hasValueNode_eq (h : t.IsStructural n) {k : Kind} (hk : t.kind? n = some k) :
    k.hasValueNode = false := by
  obtain ⟨⟨k', hk', plain⟩, -⟩ := h
  cases hk.symm.trans hk'
  exact plain

/-- The nodes of a chain of siblings. -/
inductive Siblings (t : Table) : (Nat → Prop) → Prop
  /-- The attributes of an element. -/
  | attributes (e : Nat) : Siblings t (t.IsAttribute e)
  /-- The entities. -/
  | entities : Siblings t fun n => t.kind? n = some .entity
  /-- The children of a node. -/
  | children (p : Nat) : Siblings t (t.IsChild p)

/-- What comes after a node are the later ones of its chain. -/
theorem Siblings.follows_iff (h : t.Siblings P) (hn : P n) : t.Follows n m ↔ n < m ∧ P m := by
  cases h with
  | attributes e => rw [Follows, hn.1, hn.2]; rfl
  | entities => rw [Follows, hn]
  | children p => exact IsChild.follows_iff hn

/-- A node comes after none but those of its chain. -/
theorem Siblings.of_follows (h : t.Siblings P) (layout : t.Layout) (hm : P m)
    (f : t.Follows n m) : P n := by
  have later := f.2
  cases hk : t.kind? n with
  | none => rw [hk] at later; exact later.elim
  | some k =>
    rw [hk] at later
    cases h with
    | attributes e =>
      cases k
      case attr => exact ⟨hk, later.2.symm.trans hm.2⟩
      case entity => cases hm.1.symm.trans later
      all_goals cases later.1.hasValueNode_eq hm.1
    | entities =>
      cases k
      case attr => cases hm.symm.trans later.1
      case entity => exact hk
      all_goals cases later.1.hasValueNode_eq hm
    | children p =>
      have value : ¬ t.IsValue n := fun value => layout.not_follows_value value f
      cases k
      case attr => cases hm.1.hasValueNode_eq later.1
      case entity => cases hm.1.hasValueNode_eq later
      all_goals exact ⟨⟨⟨_, hk, rfl⟩, value⟩, later.2.symm.trans hm.2⟩

theorem Siblings.follows_iff' (h : t.Siblings P) (layout : t.Layout) (hm : P m) :
    t.Follows n m ↔ n < m ∧ P n := by
  constructor
  · intro f
    exact ⟨f.1, h.of_follows layout hm f⟩
  · rintro ⟨earlier, hn⟩
    exact (h.follows_iff hn).2 ⟨earlier, hm⟩

theorem Siblings.lt_size (h : t.Siblings P) (hn : P n) : n < t.size := by
  cases h with
  | attributes e => exact lt_size_of_kind? hn.1
  | entities => exact lt_size_of_kind? hn
  | children p => exact hn.1.lt_size

/-- The values of attributes and entities are in no chain. -/
theorem Siblings.not_isValue (h : t.Siblings P) (hn : P n) : ¬ t.IsValue n := by
  rintro ⟨hk, value⟩
  cases h with
  | attributes e => cases hk.symm.trans hn.1
  | entities => cases hk.symm.trans hn
  | children p => exact hn.1.2 ⟨hk, value⟩

/-- All other nodes are in one, except for the document node. -/
theorem Layout.exists_siblings (h : t.Layout) (hn : n < t.size) (value : ¬ t.IsValue n)
    (inner : n ≠ documentId) : ∃ P, t.Siblings P ∧ P n := by
  obtain ⟨k, hk⟩ := exists_kind?_iff.2 hn
  obtain ⟨p, hp⟩ := h.exists_parent? hn inner
  cases k
  case attr => exact ⟨_, .attributes p, hk, hp⟩
  case entity => exact ⟨_, .entities, hk⟩
  all_goals exact ⟨_, .children p, ⟨⟨_, hk, rfl⟩, value⟩, hp⟩

/-- What comes after a node is in the chain of that node. -/
theorem Layout.siblings_of_follows (h : t.Layout) (f : t.Follows m n) :
    ∃ P, t.Siblings P ∧ P m ∧ P n := by
  have hm : m < t.size := Nat.lt_trans f.1 f.lt_size
  obtain ⟨P, chain, hP⟩ := h.exists_siblings hm (fun value => h.not_follows_value value f) (by
    rintro rfl
    exact h.not_follows_document (h.kind?_zero (Nat.zero_lt_of_lt hm)) f)
  exact ⟨P, chain, hP, ((chain.follows_iff hP).1 f).2⟩

/-- Siblings have the same parent. -/
theorem Siblings.parent?_eq (h : t.Siblings P) (layout : t.Layout) (hm : P m) (hn : P n) :
    t.parent? m = t.parent? n := by
  cases h with
  | attributes e => exact hm.2.trans hn.2.symm
  | entities => exact ((layout hm).entity rfl).1.trans ((layout hn).entity rfl).1.symm
  | children p => exact hm.2.trans hn.2.symm

/-- A node is the next one after another exactly if that is the nearest that it comes after. -/
theorem Layout.isNext_iff (h : t.Layout) (f : t.Follows m n) :
    t.IsNext m n ↔ IsNearest (· > ·) (fun j => t.Follows j n) n (some m) := by
  obtain ⟨P, chain, hm, hn⟩ := h.siblings_of_follows f
  have after : ∀ j, t.Follows m j ↔ m < j ∧ P j := fun j => chain.follows_iff hm
  have before : ∀ j, n > j → (t.Follows j n ↔ P j) := fun j hj =>
    (chain.follows_iff' h hn).trans (and_iff_right hj)
  rw [isNearest_congr before, ← isFirst_iff_isNearest hm hn]
  simp only [← after]
  exact Iff.rfl

end Node.Table

namespace Query

variable {d : Document} {P : Nat → Prop} {n m c p fuel : Nat}

/-- Only one thing meets the condition that the answer meets, so that this tells the answer. -/
theorem run_eq_ok_iff {α : Type} {reading : Reading α} {Q : α → Prop} {a b : α}
    (hrun : reading.run.run d = .answer (.ok a)) (ha : Q a) (unique : ∀ b, Q b → a = b) :
    reading.run.run d = .answer (.ok b) ↔ Q b := by
  constructor
  · intro h
    cases hrun.symm.trans h
    exact ha
  · intro hb
    rw [hrun, unique b hb]

/-- A reading that comes to the first node with a property does not fail if there is one. -/
theorem Finds.of_exists {reading : Reading (Option NodeId)} (h : Finds d P reading) (hn : P n) :
    ∃ m, reading.run.run d = .answer (.ok (some m)) ∧ P m ∧ ∀ j, P j → m ≤ j := by
  rcases h with ⟨_ | m, hrun, first⟩ | ⟨failure, -, -, none⟩
  · exact absurd hn (first n)
  · exact ⟨m, hrun, first⟩
  · exact absurd hn (none n)

section Quiescent

variable (hd : d.Quiescent)
include hd

/-- On the way from a node of a chain to a later one, the node before that one is remembered. -/
theorem run_siblingBefore (chain : d.nodes.Siblings P) (hn : P n) (hc : P c) (hcn : c ≤ n)
    (hf : n < c + fuel) {previous : Option NodeId} (before : IsNearest (· > ·) P c previous) :
    ∃ nearest, (siblingBefore n fuel previous (some c)).run.run d = .answer (.ok nearest) ∧
      IsNearest (· > ·) P n nearest := by
  induction fuel generalizing c previous with
  | zero => omega
  | succ fuel ih =>
    rw [siblingBefore]
    by_cases same : c = n
    · subst same
      rw [if_pos rfl]
      exact ⟨previous, rfl, before⟩
    · rw [if_neg same]
      have next := (finds_nextSibling_follows hd (chain.lt_size hc)).congr
        fun m => chain.follows_iff hc
      obtain ⟨m, hrun, ⟨hcm, hm⟩, least⟩ := next.of_exists ⟨by omega, hn⟩
      rw [run_reading_bind hrun]
      apply ih hm (least n ⟨by omega, hn⟩) (by omega)
      exact (isFirst_iff_isNearest hc hm).1 ⟨⟨hcm, hm⟩, least⟩

/-- The way from the first node of a chain to another one finds the node before that one. -/
theorem run_siblingBefore_of_first (chain : d.nodes.Siblings P) (hn : P n)
    {first : Reading (Option NodeId)} (hfirst : Finds d P first) :
    ∃ nearest, (first >>= siblingBefore n indexBound none).run.run d = .answer (.ok nearest) ∧
      IsNearest (· > ·) (fun j => d.nodes.Follows j n) n nearest := by
  obtain ⟨c, hrun, hc, least⟩ := hfirst.of_exists hn
  have bound : n < c + indexBound := Nat.lt_of_lt_of_le (chain.lt_size hn)
    (Nat.le_trans hd.wellFormed.size_le_indexBound (Nat.le_add_left ..))
  have before : IsNearest (· > ·) P c none := fun j hj hp => Nat.not_le.2 hj (least j hp)
  obtain ⟨nearest, hrun', isNearest⟩ := run_siblingBefore hd chain hn hc (least n hn) bound before
  refine ⟨nearest, (run_reading_bind hrun _).trans hrun', ?_⟩
  refine (isNearest_congr fun j hj => ?_).2 isNearest
  rw [chain.follows_iff' hd.wellFormed.layout hn]
  exact and_iff_right hj

/-- The previous sibling of a node, of whatever kind, is the nearest of those that it comes
after. -/
theorem run_previousSibling (hn : n < d.nodes.size) :
    ∃ nearest, (previousSibling n).run.run d = .answer (.ok nearest) ∧
      IsNearest (· > ·) (fun j => d.nodes.Follows j n) n nearest := by
  have layout := hd.wellFormed.layout
  obtain ⟨k, hk⟩ := Table.exists_kind?_iff.2 hn
  obtain ⟨r, hr, rfl⟩ := Table.exists_get?_of_kind? hk
  have hparent := Table.parent?_of_get? hr
  rw [previousSibling, run_startRecord_bind hr]
  split
  · next hdoc =>
    refine ⟨none, rfl, fun j hj _ => ?_⟩
    have := (layout hk).document_iff.1 hdoc
    omega
  · next hattr =>
    rw [hattr] at hk
    obtain ⟨e, hp, he, -⟩ := (layout hk).attr rfl
    obtain ⟨first, hfirst, isFirst⟩ := run_firstAttribute hd.wellFormed he
    rw [← hparent, hp]
    exact run_siblingBefore_of_first hd (.attributes e) ⟨hk, hp⟩ (.lift hfirst isFirst)
  · next hentity =>
    rw [hentity] at hk
    exact run_siblingBefore_of_first hd .entities hk (finds_firstEntity hd)
  · next hdoc hattr hentity =>
    obtain ⟨value, hvalue, iff⟩ := run_isValueNode hd.wellFormed hr
    rw [run_reading_bind (run_lift hvalue)]
    cases value with
    | true =>
      refine ⟨none, rfl, fun j _ follows => ?_⟩
      obtain ⟨P, chain, -, hP⟩ := layout.siblings_of_follows follows
      exact chain.not_isValue hP (iff.1 rfl)
    | false =>
      have value : ¬ d.nodes.IsValue n := fun value => Bool.false_ne_true (iff.2 value)
      have inner : n ≠ documentId := fun root => hdoc ((layout hk).document_iff.2 root)
      obtain ⟨p, hp⟩ := layout.exists_parent? hn inner
      rw [if_neg Bool.false_ne_true, ← hparent, hp]
      have plain : r.kind.hasValueNode = false := by
        revert hattr hentity
        cases r.kind <;> simp [Kind.hasValueNode]
      have child : d.nodes.IsChild p n := ⟨⟨⟨_, hk, plain⟩, value⟩, hp⟩
      exact run_siblingBefore_of_first hd (.children p) child
        (finds_firstChild hd (layout.kind?_parent hp value))

/-- Going on from a listed node comes to the last one. -/
theorem run_lastSibling (done : d.isDone = true) (hc : d.nodes.IsListed p c)
    (hf : d.nodes.size ≤ c + fuel) (last : Option NodeId) :
    ∃ m, (lastSibling (fuel + 1) last (some c)).run.run d = .answer (.ok (some m)) ∧
      d.nodes.IsListed p m ∧ ∀ j, d.nodes.IsListed p j → j ≤ m := by
  have hsize := Table.lt_size_of_parent? hc.1
  induction fuel generalizing c last with
  | zero => omega
  | succ fuel ih =>
    have follows : ∀ j, d.nodes.Follows c j ↔ c < j ∧ d.nodes.IsListed p j := fun j =>
      hd.wellFormed.layout.follows_iff_isListed hc
    obtain ⟨next, hrun, first⟩ := (finds_nextSibling_follows hd hsize).of_done done
    rw [lastSibling, run_reading_bind hrun]
    cases next with
    | none =>
      refine ⟨c, rfl, hc, fun j hj => ?_⟩
      by_contra later
      exact first j ((follows j).2 ⟨Nat.lt_of_not_le later, hj⟩)
    | some m =>
      obtain ⟨hcm, hm⟩ := (follows m).1 first.1
      exact ih hm (by omega) (some c) (Table.lt_size_of_parent? hm.1)

/-- The last child of a node is the last one that is listed. -/
theorem run_lastChild (done : d.isDone = true) (hp : p < d.nodes.size) :
    ∃ last, (lastChild p).run.run d = .answer (.ok last) ∧
      IsNearest (· > ·) (d.nodes.IsListed p) d.nodes.size last := by
  obtain ⟨first, hrun, isFirst⟩ := (finds_firstChild_isListed hd hp).of_done done
  rw [lastChild, run_reading_bind hrun]
  cases first with
  | none => exact ⟨none, rfl, fun j _ => isFirst j⟩
  | some c =>
    obtain ⟨hc, -⟩ := isFirst
    have later := hd.wellFormed.layout.parent_lt hc.1
    have bound : d.nodes.size ≤ c + (indexBound - 1) := by
      have := hd.wellFormed.size_le_indexBound
      omega
    obtain ⟨m, hlast, hm, greatest⟩ := run_lastSibling hd done hc bound none
    refine ⟨some m, hlast, Table.lt_size_of_parent? hm.1, hm, fun j _ hj => ?_⟩
    exact Nat.eq_or_lt_of_le (greatest j hj)

theorem run_nextSibling_iff (done : d.isDone = true) (hn : n < d.nodes.size)
    (next : Option NodeId) :
    (nextSibling n).run.run d = .answer (.ok next) ↔ IsFirst (d.nodes.Follows n) next := by
  obtain ⟨a, hrun, first⟩ := (finds_nextSibling_follows hd hn).of_done done
  exact run_eq_ok_iff hrun first fun b => first.unique

theorem run_previousSibling_iff (hn : n < d.nodes.size) (previous : Option NodeId) :
    (previousSibling n).run.run d = .answer (.ok previous) ↔
      IsNearest (· > ·) (fun j => d.nodes.Follows j n) n previous := by
  obtain ⟨a, hrun, nearest⟩ := run_previousSibling hd hn
  exact run_eq_ok_iff hrun nearest fun b => nearest.unique

theorem run_lastChild_iff (done : d.isDone = true) (hp : p < d.nodes.size)
    (last : Option NodeId) :
    (lastChild p).run.run d = .answer (.ok last) ↔
      IsNearest (· > ·) (d.nodes.IsListed p) d.nodes.size last := by
  obtain ⟨a, hrun, nearest⟩ := run_lastChild hd done hp
  exact run_eq_ok_iff hrun nearest fun b => nearest.unique

/-- The next sibling of a node is the node of which it is the previous sibling. -/
theorem run_nextSibling_iff_previousSibling (done : d.isDone = true) (hm : m < d.nodes.size)
    (hn : n < d.nodes.size) :
    (nextSibling m).run.run d = .answer (.ok (some n)) ↔
      (previousSibling n).run.run d = .answer (.ok (some m)) := by
  have layout := hd.wellFormed.layout
  rw [run_nextSibling_iff hd done hm, run_previousSibling_iff hd hn]
  constructor
  · intro next
    exact (layout.isNext_iff next.1).1 next
  · intro nearest
    exact (layout.isNext_iff nearest.2.1).2 nearest

/-- The last child of a node is the one of its nodes that are listed that has no next sibling. -/
theorem run_lastChild_iff_nextSibling (done : d.isDone = true) (hp : p < d.nodes.size)
    (hn : n < d.nodes.size) :
    (lastChild p).run.run d = .answer (.ok (some n)) ↔
      d.nodes.IsListed p n ∧ (nextSibling n).run.run d = .answer (.ok none) := by
  rw [run_lastChild_iff hd done hp, run_nextSibling_iff hd done hn]
  constructor
  · rintro ⟨-, listed, greatest⟩
    refine ⟨listed, fun j follows => ?_⟩
    obtain ⟨later, hj⟩ := (hd.wellFormed.layout.follows_iff_isListed listed).1 follows
    have := greatest j follows.lt_size hj
    omega
  · rintro ⟨listed, last⟩
    refine ⟨hn, listed, fun j _ hj => ?_⟩
    have := mt (hd.wellFormed.layout.follows_iff_isListed listed).2 (last j)
    by_contra other
    exact this ⟨by omega, hj⟩

end Quiescent

end Query

namespace Builder

variable {config : Config} {changes : List Change} {k : Nat}

/-- In a complete document every question for the next sibling, the previous sibling and the last
child of a node is answered. A node is the next sibling of another, whatever kinds they are of,
exactly if that one is its previous sibling; then it comes later and has the same parent. A node is
the last child of another exactly if that is its parent, it has no next sibling, and it is neither
an attribute nor an entity. -/
theorem siblings_are_symmetric (h : IsRun config changes)
    (done : ((Document.initial config).moment changes k).isDone = true) :
    let d := (Document.initial config).moment changes k
    (∀ n < d.nodes.size, ∃ next previous last,
      (Query.nextSibling n).run.run d = .answer (.ok next) ∧
      (Query.previousSibling n).run.run d = .answer (.ok previous) ∧
      (Query.lastChild n).run.run d = .answer (.ok last)) ∧
    (∀ m < d.nodes.size, ∀ n < d.nodes.size,
      ((Query.nextSibling m).run.run d = .answer (.ok (some n)) ↔
        (Query.previousSibling n).run.run d = .answer (.ok (some m))) ∧
      ((Query.nextSibling m).run.run d = .answer (.ok (some n)) →
        m < n ∧ ∃ p, (Query.parent m).run d = .answer (some p) ∧
          (Query.parent n).run d = .answer (some p))) ∧
    ∀ p < d.nodes.size, ∀ n < d.nodes.size,
      (Query.lastChild p).run.run d = .answer (.ok (some n)) ↔
        (Query.parent n).run d = .answer (some p) ∧
        (Query.nextSibling n).run.run d = .answer (.ok none) ∧
        (Query.kind n).run d ≠ .answer .attr ∧ (Query.kind n).run d ≠ .answer .entity := by
  intro d
  have hd := h.grows.wellFormed (Document.wellFormed_initial config) k
  have quiet := hd.quiescent done
  refine ⟨fun n hn => ?_, fun m hm n hn => ⟨?_, fun next => ?_⟩, fun p hp n hn => ?_⟩
  · obtain ⟨next, hnext, -⟩ := (Query.finds_nextSibling_follows quiet hn).of_done done
    obtain ⟨previous, hprevious, -⟩ := Query.run_previousSibling quiet hn
    obtain ⟨last, hlast, -⟩ := Query.run_lastChild quiet done hn
    exact ⟨next, previous, last, hnext, hprevious, hlast⟩
  · exact Query.run_nextSibling_iff_previousSibling quiet done hm hn
  · have follows := ((Query.run_nextSibling_iff quiet done hm _).1 next).1
    obtain ⟨P, chain, hPm, hPn⟩ := hd.layout.siblings_of_follows follows
    obtain ⟨p, hp⟩ := hd.layout.exists_parent? hn (Nat.ne_zero_of_lt follows.1)
    rw [Query.run_parent hm, Query.run_parent hn, chain.parent?_eq hd.layout hPm hPn, hp]
    exact ⟨follows.1, p, rfl, rfl⟩
  · obtain ⟨kn, hkn⟩ := Table.exists_kind?_iff.2 hn
    rw [Query.run_lastChild_iff_nextSibling quiet done hp hn, Query.run_parent hn,
      Query.run_kind hkn, Table.IsListed, hkn]
    simp only [ne_eq, Outcome.answer.injEq, Option.some.injEq]
    constructor
    · rintro ⟨⟨hp, attr, entity⟩, last⟩
      exact ⟨hp, last, attr, entity⟩
    · rintro ⟨hp, last, attr, entity⟩
      exact ⟨⟨hp, attr, entity⟩, last⟩

/-- Between two entities of a prolog there is a comment. The entities are siblings, and so are the
comment and the document element, which is the last child of the document. -/
theorem siblings_are_symmetric_of_interleaved_entities :
    let changes := ((acceptAll [.startDocument, .entityDeclaration "x" "1", .comment "c",
      .entityDeclaration "y" "2", .startElement "a" [], .endElement, .endDocument]).run.run
        (start .standard, { handler := .lenient })).2.1.history.toList
    let d := (Document.initial .standard).moment changes changes.length
    d.isDone = true ∧
      (Query.previousSibling 4).run.run d = .answer (.ok (some 1)) ∧
      (Query.previousSibling 6).run.run d = .answer (.ok (some 3)) ∧
      (Query.lastChild 0).run.run d = .answer (.ok (some 6)) := by
  intro changes d
  have isRun : IsRun .standard changes :=
    ⟨_, _, reaches_acceptAll _ _, List.filter_eq_self.2 (List.all_eq_true.1 (by decide +kernel))⟩
  have done : d.isDone = true := by decide +kernel
  obtain ⟨-, symmetric, last⟩ := siblings_are_symmetric (k := changes.length) isRun done
  have entity := (symmetric 1 (by decide +kernel) 4 (by decide +kernel)).1
  have element := (symmetric 3 (by decide +kernel) 6 (by decide +kernel)).1
  refine ⟨done, entity.1 (by decide +kernel), element.1 (by decide +kernel), ?_⟩
  exact (last 0 (by decide +kernel) 6 (by decide +kernel)).2 (by decide +kernel)

end Builder

end XmlTable
