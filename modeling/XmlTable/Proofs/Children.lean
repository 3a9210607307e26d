import XmlTable.Proofs.Finality
import XmlTable.Proofs.Navigation

/-!
# Children while the document grows

A walk over the children of a node comes to all that are there, whatever kind the node is of and
however far the construction has come; if a wait fails, it is after the last of them. A walk that
does not fail came to all children that there will ever be.
-/

namespace XmlTable

open Node

namespace Node.Table

variable {t : Table} {n m p : Nat} {k : Kind}

/-- Of all nodes below another, the walk over children passes over attributes and entities. -/
def IsListed (t : Table) (p n : Nat) : Prop :=
  t.parent? n = some p ∧ t.kind? n ≠ some .attr ∧ t.kind? n ≠ some .entity

theorem Layout.isListed_value_iff (h : t.Layout) (hk : t.kind? n = some k)
    (hv : k.hasValueNode = true) : t.IsListed n m ↔ m = n + 1 := by
  rw [IsListed, h.parent?_iff hk hv]
  refine and_iff_left_of_imp ?_
  rintro rfl
  rw [((h hk).value hv).1]
  exact ⟨nofun, nofun⟩

/-- Nothing is below a node of a kind without children. -/
theorem Layout.not_isListed (h : t.Layout) (hk : t.kind? n = some k)
    (leaf : k.canHaveChildren = false) : ¬ t.IsListed n m := by
  rintro ⟨hm, -⟩
  obtain ⟨km, hkm⟩ := exists_kind?_iff.2 (lt_size_of_parent? hm)
  obtain ⟨kn, hkn, children, -⟩ := (h hkm).parent_kind hm
  obtain rfl := Option.some.inj (hk.symm.trans hkn)
  rw [leaf] at children
  cases children

theorem isListed_iff (hk : t.kind? n = some k)
    (plain : k.hasValueNode = false) : t.IsListed n m ↔ t.IsChild n m := by
  constructor
  · rintro ⟨hp, attr, entity⟩
    obtain ⟨km, hkm⟩ := exists_kind?_iff.2 (lt_size_of_parent? hp)
    refine ⟨⟨⟨km, hkm, ?_⟩, fun ⟨_, q, kq, hq, hkq, hv⟩ => ?_⟩, hp⟩
    · rw [hkm] at attr entity
      cases km
      case attr => exact absurd rfl attr
      case entity => exact absurd rfl entity
      all_goals rfl
    · obtain rfl := Option.some.inj (hp.symm.trans hq)
      obtain rfl := Option.some.inj (hk.symm.trans hkq)
      rw [plain] at hv
      cases hv
  · rintro ⟨⟨⟨km, hkm, hv⟩, -⟩, hp⟩
    refine ⟨hp, ?_, ?_⟩
    all_goals
      rw [hkm]
      rintro ⟨⟩
      cases hv

/-- Nothing comes after the value of an attribute or entity, which is its only child. -/
theorem Layout.not_follows_value (h : t.Layout) (value : t.IsValue n) : ¬ t.Follows n m := by
  obtain ⟨hk, p, kp, hp, hkp, hv⟩ := value
  rintro ⟨later, follows⟩
  rw [hk, hp] at follows
  have own := (h.parent?_iff hkp hv).1 hp
  have other := (h.parent?_iff hkp hv).1 follows.2
  omega

/-- Nothing comes after the document node, which is the only one without a parent. -/
theorem Layout.not_follows_document (h : t.Layout) (hk : t.kind? n = some .document) :
    ¬ t.Follows n m := by
  rintro ⟨later, follows⟩
  have root := (h hk).document_iff.1 rfl
  rw [hk, (h hk).parent_none_iff.2 root] at follows
  obtain ⟨p, hp⟩ := h.exists_parent? follows.1.lt_size (Nat.ne_zero_of_lt later)
  cases hp.symm.trans follows.2

/-- What comes after a listed node are the later listed ones. -/
theorem Layout.follows_iff_isListed (h : t.Layout) (hn : t.IsListed p n) :
    t.Follows n m ↔ n < m ∧ t.IsListed p m := by
  obtain ⟨kn, hkn⟩ := exists_kind?_iff.2 (lt_size_of_parent? hn.1)
  obtain ⟨kp, hkp, -⟩ := (h hkn).parent_kind hn.1
  by_cases hv : kp.hasValueNode = true
  · -- The value is the only one listed.
    rw [h.isListed_value_iff hkp hv] at hn ⊢
    subst hn
    have value : t.IsValue (p + 1) := ⟨((h hkp).value hv).1, p, kp, ((h hkp).value hv).2, hkp, hv⟩
    exact iff_of_false (h.not_follows_value value) (by omega)
  · rw [Bool.not_eq_true] at hv
    rw [isListed_iff hkp hv] at hn ⊢
    exact hn.follows_iff

end Node.Table

namespace Query

variable {d : Document} {n : Nat} {k : Kind}

/-- An attribute or entity is followed by its only child. -/
theorem finds_firstChild_value (hk : d.nodes.kind? n = some k) (hv : k.hasValueNode = true) :
    Finds d (· = n + 1) (firstChild n) := by
  obtain ⟨r, hr, rfl⟩ := Table.exists_get?_of_kind? hk
  refine Yields.of_run_eq ?_ (run_startRecord_bind hr _)
  rw [if_pos hv]
  exact .pure ⟨rfl, fun m hm => Nat.le_of_eq hm.symm⟩

/-- The value of an attribute or entity has no sibling. -/
theorem finds_nextSibling_value (hd : d.WellFormed) (hk : d.nodes.kind? n = some k)
    (hv : k.hasValueNode = true) :
    Finds d (fun m => n + 1 < m ∧ m = n + 1) (nextSibling (n + 1)) := by
  obtain ⟨hkv, hpv⟩ := (hd.layout hk).value hv
  obtain ⟨value, hvalue, hkind⟩ := Table.exists_get?_of_kind? hkv
  obtain ⟨b, own, iff⟩ := run_isValueNode hd hvalue
  obtain rfl : b = true := iff.2 ⟨hkv, n, k, hpv, hk, hv⟩
  have none : ∀ m, ¬ (n + 1 < m ∧ m = n + 1) := by omega
  refine Yields.of_run_eq ?_ (run_startRecord_bind hvalue _)
  rw [hkind, if_neg nofun, if_neg nofun]
  refine Yields.of_run_eq ?_ (run_reading_bind (run_lift own) _)
  rw [if_pos rfl]
  exact .pure none

theorem finds_firstChild_leaf (hk : d.nodes.kind? n = some k) (leaf : k.canHaveChildren = false) :
    Finds d (fun _ => False) (firstChild n) := by
  obtain ⟨r, hr, rfl⟩ := Table.exists_get?_of_kind? hk
  have plain : r.kind.hasValueNode ≠ true := by
    revert leaf
    cases r.kind <;> decide
  refine Yields.of_run_eq ?_ (run_startRecord_bind hr _)
  rw [if_neg plain, leaf]
  exact .pure fun _ => id

section Quiescent

variable (hd : d.Quiescent)
include hd

/-- The first child of a node is the first of its nodes that are listed. -/
theorem finds_firstChild_isListed (hn : n < d.nodes.size) :
    Finds d (d.nodes.IsListed n) (firstChild n) := by
  have layout := hd.wellFormed.layout
  obtain ⟨k, hk⟩ := Table.exists_kind?_iff.2 hn
  by_cases hv : k.hasValueNode = true
  · exact (finds_firstChild_value hk hv).congr fun m => (layout.isListed_value_iff hk hv).symm
  rw [Bool.not_eq_true] at hv
  by_cases inner : k.canHaveChildren = true
  · have hk' : d.nodes.kind? n = some .document ∨ d.nodes.kind? n = some .element := by
      rw [hk]
      revert hv inner
      cases k <;> simp [Kind.hasValueNode, Kind.canHaveChildren]
    exact (finds_firstChild hd hk').congr fun m => (Table.isListed_iff hk hv).symm
  · rw [Bool.not_eq_true] at inner
    exact (finds_firstChild_leaf hk inner).congr fun m =>
      (iff_false_intro (layout.not_isListed hk inner)).symm

/-- The next sibling of a node, of whatever kind, is the first that comes after it. -/
theorem finds_nextSibling_follows (hn : n < d.nodes.size) :
    Finds d (d.nodes.Follows n) (nextSibling n) := by
  have layout := hd.wellFormed.layout
  obtain ⟨k, hk⟩ := Table.exists_kind?_iff.2 hn
  by_cases hl : k.isLinked = true
  · exact finds_nextSibling_linked hd hk hl
  by_cases value : d.nodes.IsValue n
  · have none : ∀ m, ¬ d.nodes.Follows n m := fun m => layout.not_follows_value value
    obtain ⟨-, p, kp, hp, hkp, hv⟩ := value
    obtain rfl := (layout.parent?_iff hkp hv).1 hp
    exact (finds_nextSibling_value hd.wellFormed hkp hv).congr fun m =>
      iff_of_false (by omega) (none m)
  by_cases root : n = documentId
  · obtain rfl := (layout hk).document_iff.2 root
    obtain ⟨r, hr, hkind⟩ := Table.exists_get?_of_kind? hk
    refine Yields.of_run_eq ?_ (run_startRecord_bind hr _)
    rw [if_pos hkind]
    exact .pure fun m => layout.not_follows_document hk
  · obtain ⟨p, hp⟩ := layout.exists_parent? hn root
    have plain : k.hasValueNode = false := by
      revert hl
      cases k <;> decide
    have child : d.nodes.IsChild p n := ⟨⟨⟨k, hk, plain⟩, value⟩, hp⟩
    exact (finds_nextSibling hd child).congr fun m => child.follows_iff.symm

/-- The walk over the children of a node comes to all that are there, and to its end in a complete
document. -/
theorem exists_run_children (hn : n < d.nodes.size) :
    ∃ walked : Walk, run d (children n) = .answer walked ∧ walked.nodes.Pairwise (· < ·) ∧
      (∀ m, m ∈ walked.nodes ↔ d.nodes.IsListed n m) ∧
      (d.isDone = true → walked.stopped = none) := by
  have layout := hd.wellFormed.layout
  refine run_walk hd.wellFormed (fun _ hm => Table.lt_size_of_parent? hm.1)
    (finds_firstChild_isListed hd hn) fun m hm => ?_
  exact (finds_nextSibling_follows hd (Table.lt_size_of_parent? hm.1)).congr fun _ =>
    layout.follows_iff_isListed hm

theorem run_children_isListed (hn : n < d.nodes.size) :
    ∃ walked : Walk, run d (children n) = .answer walked ∧ walked.nodes.Pairwise (· < ·) ∧
      ∀ m, m ∈ walked.nodes ↔ d.nodes.IsListed n m := by
  obtain ⟨walked, hrun, sorted, mem, -⟩ := exists_run_children hd hn
  exact ⟨walked, hrun, sorted, mem⟩

end Quiescent

end Query

/-- A document and a later one, before readers whose waits end. -/
private def Timeline.ofExtends {d d' : Document} (hd : d.WellFormed) (hd' : d'.WellFormed)
    (he : d.Extends d') : Timeline where
  moment
    | 0 => d
    | _ + 1 => d'
  wellFormed
    | 0 => hd
    | _ + 1 => hd'
  extension {j k} hjk :=
    match j, k, hjk with
    | 0, 0, _ => .refl d
    | 0, _ + 1, _ => he
    | _ + 1, _ + 1, _ => .refl d'
  waits := True
  stops _ := True
  careful := False

/-- A walk over children that does not fail finds the same when the document has grown. -/
theorem Query.run_children_later {d d' : Document} (hd : d.WellFormed) (hd' : d'.WellFormed)
    (he : d.Extends d') {n : Nat} {walked : Walk}
    (hrun : run d (children n) = .answer walked) (whole : walked.stopped = none) :
    run d' (children n) = .answer walked := by
  let T : Timeline := .ofExtends hd hd' he
  have waits : T.Waits fun _ => True := ⟨trivial, fun _ => trivial⟩
  have lasts := (Question.Walking.fine (T := T) (.children n) waits False.elim).of_readsAlong
    (fun _ => trivial) (readsAlong_of_run (k := 0) hrun)
  rw [whole] at lasts
  exact lasts 1 (Nat.zero_le 1)

namespace Builder

variable {config : Config} {journal : Journal} {s : Builder × Journal}

theorem Consistent.quiescent (h : s.1.Consistent config) (x : Bool)
    (bounded : Document.standstill { s.1.document with isCancelled := x } ≠ .waiting) :
    Document.Quiescent { s.1.document with isCancelled := x } :=
  ⟨h.sound.wellFormed.cancel x, h.upToDate, bounded⟩

/-- Whatever a builder has done, and whether waits are cancelled or not as long as they end, the
walk over the children of a node comes to all nodes below it that are no attributes and no entities,
in ascending order; of an attribute or entity that is its value, and of a node of another kind than
these, elements and the document it is nothing. If the walk does not end with a failure, then
whatever the builder does next there will be no further child. -/
theorem children_are_complete (h : Reaches (start config, journal) s) (x : Bool)
    (bounded : Document.standstill { s.1.document with isCancelled := x } ≠ .waiting) {n : Nat}
    (hn : n < s.1.document.nodes.size) :
    ∃ walked : Walk,
      (Query.children n).run { s.1.document with isCancelled := x } = .answer walked ∧
      walked.nodes.Pairwise (· < ·) ∧
      (∀ m, m ∈ walked.nodes ↔ s.1.document.nodes.IsListed n m) ∧
      (∀ k, s.1.document.nodes.kind? n = some k → k.hasValueNode = true →
        walked.nodes = [n + 1]) ∧
      (∀ k, s.1.document.nodes.kind? n = some k → k.canHaveChildren = false →
        walked.nodes = []) ∧
      (walked.stopped = none → ∀ s', Reaches s s' → ∀ m, s'.1.document.nodes.IsListed n m →
        m ∈ walked.nodes) := by
  have consistent := h.consistent (consistent_start config)
  have layout := consistent.sound.wellFormed.layout
  obtain ⟨walked, hrun, sorted, mem⟩ :=
    Query.run_children_isListed (consistent.quiescent x bounded) hn
  refine ⟨walked, hrun, sorted, mem, fun k hk hv => ?_, fun k hk leaf => ?_,
    fun whole s' later m hm => ?_⟩
  · refine sorted.eq_of_mem_iff (List.pairwise_singleton _ _) fun m => ?_
    rw [mem, List.mem_singleton]
    exact layout.isListed_value_iff hk hv
  · exact List.eq_nil_iff_forall_not_mem.2 fun m hm => layout.not_isListed hk leaf ((mem m).1 hm)
  · -- Later waits are cancelled, so that they end.
    have consistent' := later.consistent consistent
    have ext := later.extension consistent
    have bounded' : Document.standstill { s'.1.document with isCancelled := true } ≠ .waiting := by
      unfold Document.standstill
      split <;> simp
    obtain ⟨walked', hrun', -, mem'⟩ :=
      Query.run_children_isListed (consistent'.quiescent true bounded')
        (Nat.lt_of_lt_of_le hn ext.size_le)
    have same := Query.run_children_later (consistent.sound.wellFormed.cancel x)
      (consistent'.sound.wellFormed.cancel true) (ext.cancel x true) hrun whole
    obtain rfl : walked' = walked := by
      rw [hrun'] at same
      exact Outcome.answer.inj same
    exact (mem' m).2 hm

/-- When an element has ended without content, it has no children and never will. -/
theorem children_are_complete_of_empty_element :
    let s := ((acceptAll [.startDocument, .startElement "a" [], .startElement "b" [],
      .endElement, .comment "c"]).run.run (start .standard, { handler := .lenient })).2
    s.1.stage = .documentOpen ∧ (∃ walked : Walk,
      (Query.children 1).run { s.1.document with isCancelled := true } = .answer walked ∧
        2 ∈ walked.nodes ∧ 3 ∈ walked.nodes) ∧
      ∀ s', Reaches s s' → ∀ m, ¬ s'.1.document.nodes.IsListed 2 m := by
  intro s
  have reached : Reaches (start .standard, { handler := .lenient }) s := reaches_acceptAll _ _
  have bounded : Document.standstill { s.1.document with isCancelled := true } ≠ .waiting := by
    decide +kernel
  obtain ⟨first, hfirst, -, mem, -⟩ :=
    children_are_complete reached true bounded (n := 1) (by decide +kernel)
  obtain ⟨second, hsecond, -, -, -, -, complete⟩ :=
    children_are_complete reached true bounded (n := 2) (by decide +kernel)
  have empty : (Query.children 2).run { s.1.document with isCancelled := true } =
      .answer ⟨[], none⟩ := by decide +kernel
  obtain rfl : second = ⟨[], none⟩ := Outcome.answer.inj (hsecond.symm.trans empty)
  have listed : s.1.document.nodes.IsListed 1 2 ∧ s.1.document.nodes.IsListed 1 3 := by
    unfold Table.IsListed
    decide +kernel
  refine ⟨by decide +kernel, ⟨first, hfirst, (mem 2).2 listed.1, (mem 3).2 listed.2⟩, ?_⟩
  exact fun s' later m hm => List.not_mem_nil (complete rfl s' later m hm)

end Builder

end XmlTable
