import Mathlib.Data.List.Sort
import XmlTable.Proofs.Timeline
import XmlTable.Query.Walk

/-!
# Navigation in a document at rest

When the producer does nothing meanwhile, the walk over the children of a node comes to all that are
there, in document order, and so does the walk over the attributes of an element. A child is
followed by its next sibling through its link, if it has one, and otherwise because the first
structural node after it can only be that sibling. While the document is not complete the walk over
children may end with a failure, but not before it came to all of them.
-/

namespace XmlTable

open Node

/-! ### The first of some numbers -/

/-- The number is the least with a property; there is none if no number has the property. -/
def IsFirst (P : Nat → Prop) : Option Nat → Prop
  | some m => P m ∧ ∀ n, P n → m ≤ n
  | none => ∀ n, ¬ P n

namespace Node.Table

variable {t : Table} {n m p q s e : Nat} {k : Kind}

/-! ### What comes first after a node -/

/-- The first structural node after another node or after a child of it that has no children itself
is a child of that node, if any child comes later. -/
theorem Layout.parent?_of_first (h : t.Layout) (hs : t.IsStructural s) (hns : n < s)
    (first : ∀ j, n < j → t.IsStructural j → s ≤ j) (hm : t.IsChild p m) (hnm : n < m)
    (place : n = p ∨ t.parent? n = some p ∧ ∀ k, t.kind? n = some k → k.canHaveChildren = false) :
    t.parent? s = some p := by
  have hsm : s ≤ m := first m hnm hm.1
  have hpn : p ≤ n := by
    rcases place with rfl | ⟨hp, -⟩
    · exact Nat.le_refl _
    · exact Nat.le_of_lt (h.parent_lt hp)
  obtain ⟨q, hq⟩ := h.exists_parent? hs.lt_size (Nat.ne_of_gt (Nat.zero_lt_of_lt hns))
  rw [hq]
  rcases Nat.eq_or_lt_of_le hsm with rfl | hsm
  · rw [← hq, hm.2]
  have hpq : p ≤ q := h.nested hm.2 hq (Nat.lt_of_le_of_lt hpn hns) hsm
  rcases Nat.eq_or_lt_of_le hpq with rfl | hpq
  · rfl
  exfalso
  -- A parent further down would be structural itself, and come first.
  obtain ⟨⟨ks, hks, -⟩, value⟩ := hs
  obtain ⟨kq, hkq, children, hv⟩ := (h hks).parent_kind hq
  have plain : kq.hasValueNode = false := by
    rw [← Bool.not_eq_true]
    intro hkv
    rw [(hv hkv).1] at hks
    exact value ⟨hks, q, kq, hq, hkq, hkv⟩
  have structural : t.IsStructural q := by
    refine ⟨⟨kq, hkq, plain⟩, fun hvalue => ?_⟩
    rw [hvalue.1] at hkq
    obtain rfl := Option.some.inj hkq
    cases children
  have hqs := h.parent_lt hq
  have hqn : q ≤ n := Nat.le_of_not_lt fun hlt => by
    have := first q hlt structural
    omega
  rcases place with rfl | ⟨hp, leaf⟩
  · omega
  · rcases Nat.eq_or_lt_of_le hqn with rfl | hqn
    · rw [leaf kq hkq] at children
      cases children
    · have := h.nested hq hp hqn hns
      omega

/-- Only an attribute or entity is followed by its value. -/
theorem Layout.not_isValue_succ (h : t.Layout) (hk : t.kind? n = some k)
    (plain : k.hasValueNode = false) : ¬ t.IsValue (n + 1) := by
  rintro ⟨hkind, q, kq, hq, hkq, hvq⟩
  obtain ⟨kq', hkq', -, place⟩ := (h hkind).parent_kind hq
  obtain rfl := Option.some.inj (hkq'.symm.trans hkq)
  obtain rfl : n = q := Nat.succ.inj (place hvq).2
  obtain rfl := Option.some.inj (hk.symm.trans hkq)
  rw [plain] at hvq
  cases hvq

/-- The first structural node that may follow an attribute or entity comes after its value. -/
theorem Layout.add_two_le (h : t.Layout) (hk : t.kind? n = some k) (hv : k.hasValueNode = true)
    (hm : t.IsStructural m) (hle : n ≤ m) : n + 2 ≤ m := by
  obtain ⟨hkv, hpv⟩ := (h hk).value hv
  have own : m ≠ n := by
    rintro rfl
    obtain ⟨⟨k, hk', plain⟩, -⟩ := hm
    obtain rfl := Option.some.inj (hk.symm.trans hk')
    rw [hv] at plain
    cases plain
  have value : m ≠ n + 1 := by
    rintro rfl
    exact hm.2 ⟨hkv, n, k, hpv, hk, hv⟩
  omega

/-- What comes after a child among its siblings are the later children. -/
theorem IsChild.follows_iff (hc : t.IsChild p n) : t.Follows n m ↔ n < m ∧ t.IsChild p m := by
  obtain ⟨⟨⟨k, hk, plain⟩, -⟩, hp⟩ := hc
  rw [Follows, hk, hp]
  apply and_congr_right
  intro _
  cases k with
  | attr => cases plain
  | entity => cases plain
  | _ => rfl

/-- The node is an attribute of an element. -/
def IsAttribute (t : Table) (e n : Nat) : Prop :=
  t.kind? n = some .attr ∧ t.parent? n = some e

/-- Before an attribute of an element comes another one or the element itself. -/
theorem Layout.isAttribute_cases (h : t.Layout) (ha : t.IsAttribute e n) :
    n = e + 1 ∨ e + 2 < n ∧ t.IsAttribute e (n - 2) := by
  obtain ⟨e', he, -, cases⟩ := (h ha.1).attr rfl
  obtain rfl := Option.some.inj (he.symm.trans ha.2)
  exact cases

/-- An element with attributes has the first one right after it. -/
theorem Layout.isAttribute_first (h : t.Layout) (ha : t.IsAttribute e n) :
    t.IsAttribute e (e + 1) := by
  induction n using Nat.strongRecOn with
  | ind n ih =>
    rcases h.isAttribute_cases ha with rfl | ⟨hlt, before⟩
    · exact ha
    · exact ih (n - 2) (by omega) before

/-- The attributes of an element end where none follows. -/
theorem Layout.isAttribute_lt (h : t.Layout) {stop : Nat} (hs : e < stop)
    (last : t.kind? (stop - 1) ≠ some .attr) (none : ¬ t.IsAttribute e stop)
    (ha : t.IsAttribute e n) : n < stop := by
  induction n using Nat.strongRecOn with
  | ind n ih =>
    apply Nat.lt_of_not_le
    intro hle
    rcases Nat.eq_or_lt_of_le hle with rfl | hlt
    · exact none ha
    rcases h.isAttribute_cases ha with rfl | ⟨-, before⟩
    · omega
    · have := ih (n - 2) (by omega) before
      obtain rfl : n = stop + 1 := by omega
      exact last before.1

end Node.Table

namespace Query

variable {d : Document} {α β : Type} {n p i e : Nat} {k : Kind} {r : Record}

/-! ### One step after the other -/

theorem run_bind_of_answer {query : Query α} {a : α} (h : run d query = .answer a)
    (f : α → Query β) : run d (query >>= f) = run d (f a) := by
  show run d (query.bind f) = _
  rw [run_bind, h]

theorem run_record (h : d.nodes.get? n = some r) : run d (record n) = .answer r := by
  rw [record, run, h]
  rfl

theorem run_record_bind (h : d.nodes.get? n = some r) (f : Record → Query β) :
    run d (record n >>= f) = run d (f r) :=
  run_bind_of_answer (run_record h) f

/-- A reading goes on with the answer of another. -/
theorem run_reading_bind {reading : Reading α} {a : α} (h : run d reading.run = .answer (.ok a))
    (f : α → Reading β) : run d (reading >>= f).run = run d (f a).run := by
  show run d (Query.bind reading.run _) = _
  rw [run_bind, h]
  rfl

theorem run_lift {query : Query α} {a : α} (h : run d query = .answer a) :
    run d (liftM query : Reading α).run = .answer (.ok a) := by
  show run d (Query.bind query _) = _
  rw [run_bind, h]
  rfl

/-! ### What comes of a reading -/

/-- What comes of a reading at a document that stays as it is: an answer that meets a condition, or
a failure. It fails only if the document is not complete, and if something else is true. -/
def Yields (d : Document) (reading : Reading α) (Q : α → Prop) (E : Prop) : Prop :=
  (∃ a, run d reading.run = .answer (.ok a) ∧ Q a) ∨
    ∃ failure, run d reading.run = .answer (.error failure) ∧ d.isDone = false ∧ E

namespace Yields

variable {reading : Reading α} {Q : α → Prop} {E : Prop}

theorem pure {a : α} (h : Q a) : Yields d (pure a) Q E :=
  .inl ⟨a, rfl, h⟩

theorem lift {query : Query α} {a : α} (h : run d query = .answer a) (ha : Q a) :
    Yields d (liftM query) Q E :=
  .inl ⟨a, run_lift h, ha⟩

theorem of_run_eq {other : Reading α} (h : Yields d other Q E)
    (same : run d reading.run = run d other.run) : Yields d reading Q E := by
  rwa [Yields, same]

theorem bind {f : α → Reading β} {Q' : β → Prop} (h : Yields d reading Q E)
    (next : ∀ a, Q a → Yields d (f a) Q' E) : Yields d (reading >>= f) Q' E := by
  rcases h with ⟨a, hrun, holds⟩ | ⟨failure, hrun, holds⟩
  · exact (next a holds).of_run_eq (run_reading_bind hrun f)
  · refine .inr ⟨failure, ?_, holds⟩
    show run d (Query.bind reading.run _) = _
    rw [run_bind, hrun]
    rfl

theorem mono {Q' : α → Prop} {E' : Prop} (h : Yields d reading Q E) (hQ : ∀ a, Q a → Q' a)
    (hE : E → E') : Yields d reading Q' E' := by
  rcases h with ⟨a, hrun, holds⟩ | ⟨failure, hrun, hd, holds⟩
  · exact .inl ⟨a, hrun, hQ a holds⟩
  · exact .inr ⟨failure, hrun, hd, hE holds⟩

/-- At a complete document there is an answer. -/
theorem of_done (h : Yields d reading Q E) (done : d.isDone = true) :
    ∃ a, run d reading.run = .answer (.ok a) ∧ Q a := by
  rcases h with found | ⟨failure, -, unfinished, -⟩
  · exact found
  · rw [done] at unfinished
    cases unfinished

/-- A wait that ends is over because the document is ready, or fails because it is not. -/
theorem await {reads : Nat} {isReady : (Fin reads → Document) → Bool}
    {f : (Fin reads → Document) → α} (bounded : d.standstill ≠ .waiting)
    (done : d.isDone = true → isReady (fun _ => d) = true)
    (ready : isReady (fun _ => d) = true → Q (f fun _ => d))
    (unready : isReady (fun _ => d) = false → E) :
    Yields d (Reading.await isReady f) Q E := by
  by_cases hr : isReady (fun _ => d) = true
  · exact .inl ⟨_, Reading.run_await hr, ready hr⟩
  · have unfinished : d.isDone = false := Bool.eq_false_iff.2 fun hd => hr (done hd)
    cases hs : d.standstill with
    | stopped failure =>
      refine .inr ⟨failure, ?_, unfinished, unready (Bool.eq_false_iff.2 hr)⟩
      show run d (.await reads isReady _ _) = _
      rw [run, if_neg hr, hs]
      rfl
    | overdue => exact absurd hs (Document.standstill_ne_overdue unfinished)
    | waiting => exact absurd hs bounded

end Yields

/-- A reading comes to the first node with a property, and does not fail if there is one. -/
abbrev Finds (d : Document) (P : Nat → Prop) (reading : Reading (Option NodeId)) : Prop :=
  Yields d reading (IsFirst P) (∀ n, ¬ P n)

theorem Finds.congr {P P' : Nat → Prop} {reading : Reading (Option NodeId)}
    (h : Finds d P reading) (same : ∀ n, P n ↔ P' n) : Finds d P' reading := by
  obtain rfl : P = P' := funext fun n => propext (same n)
  exact h

/-! ### Walks -/

/-- A walk that goes on from each node with a property to the next one comes to all of them. -/
theorem run_walkFrom {P : Nat → Prop} (lt_size : ∀ n, P n → n < d.nodes.size)
    {step : NodeId → Reading (Option NodeId)}
    (next : ∀ n, P n → Finds d (fun m => n < m ∧ P m) (step n)) {fuel i : Nat}
    (hf : d.nodes.size ≤ i + fuel) (before : List NodeId) {query : Reading (Option NodeId)}
    (first : Finds d (fun m => i ≤ m ∧ P m) query) :
    ∃ nodes stopped, run d (walkFrom step fuel before query) =
        .answer ⟨before.reverse ++ nodes, stopped⟩ ∧
      nodes.Pairwise (· < ·) ∧ (∀ n, n ∈ nodes ↔ i ≤ n ∧ P n) ∧
      (d.isDone = true → stopped = none) := by
  induction fuel generalizing i before query with
  | zero =>
    refine ⟨[], none, by rw [List.append_nil]; rfl, .nil, fun n => ⟨nofun, fun hn => ?_⟩,
      fun _ => rfl⟩
    have := lt_size n hn.2
    omega
  | succ fuel ih =>
    rcases first with ⟨_ | n, hrun, holds⟩ | ⟨failure, hrun, unfinished, none⟩
    · refine ⟨[], none, ?_, .nil, fun n => ⟨nofun, fun hn => absurd hn (holds n)⟩, fun _ => rfl⟩
      rw [walkFrom, run_bind_of_answer hrun, List.append_nil]
      rfl
    · obtain ⟨⟨hi, hn⟩, least⟩ := holds
      obtain ⟨rest, stopped, later, sorted, mem, complete⟩ :=
        ih (i := n + 1) (by omega) (n :: before) (next n hn)
      refine ⟨n :: rest, stopped, ?_, ?_, fun m => ?_, complete⟩
      · rw [walkFrom, run_bind_of_answer hrun]
        rw [List.reverse_cons, List.append_assoc, List.singleton_append] at later
        exact later
      · exact List.pairwise_cons.2 ⟨fun m hm => ((mem m).1 hm).1, sorted⟩
      · rw [List.mem_cons, mem]
        constructor
        · rintro (rfl | ⟨hlt, hm⟩)
          · exact ⟨hi, hn⟩
          · exact ⟨by omega, hm⟩
        · rintro ⟨hle, hm⟩
          have := least m ⟨hle, hm⟩
          rcases Nat.eq_or_lt_of_le this with rfl | hlt
          · exact .inl rfl
          · exact .inr ⟨hlt, hm⟩
    · refine ⟨[], some failure, ?_, .nil, fun n => ⟨nofun, fun hn => absurd hn (none n)⟩,
        fun done => ?_⟩
      · rw [walkFrom, run_bind_of_answer hrun, List.append_nil]
        rfl
      · rw [unfinished] at done
        cases done

/-- A walk from the first node with a property to the next one, and so on, comes to all of them. It
ends with a failure only if the document is not complete. -/
theorem run_walk (hd : d.WellFormed) {P : Nat → Prop} (lt_size : ∀ n, P n → n < d.nodes.size)
    {query : Reading (Option NodeId)} {step : NodeId → Reading (Option NodeId)}
    (first : Finds d P query) (next : ∀ n, P n → Finds d (fun m => n < m ∧ P m) (step n)) :
    ∃ walked : Walk, run d (walk query step) = .answer walked ∧
      walked.nodes.Pairwise (· < ·) ∧ (∀ n, n ∈ walked.nodes ↔ P n) ∧
      (d.isDone = true → walked.stopped = none) := by
  have bound : d.nodes.size ≤ 0 + indexBound := by
    rw [Nat.zero_add]
    exact hd.size_le_indexBound
  obtain ⟨nodes, stopped, hrun, sorted, mem, complete⟩ := run_walkFrom lt_size next bound []
    (first.congr fun n => (and_iff_right (Nat.zero_le n)).symm)
  exact ⟨⟨nodes, stopped⟩, hrun, sorted,
    fun n => (mem n).trans (and_iff_right (Nat.zero_le n)), complete⟩

end Query

/-- Nothing is going on with a document: the links to all siblings that are there are known, and
waits come to an end. -/
structure Document.Quiescent (d : Document) : Prop where
  /-- The document is well formed. -/
  wellFormed : d.WellFormed
  /-- No link is missing. -/
  upToDate : d.nodes.UpToDate
  /-- No wait goes on for ever. -/
  bounded : d.standstill ≠ .waiting

/-- Nothing goes on with a complete document. -/
theorem Document.WellFormed.quiescent {d : Document} (h : d.WellFormed) (done : d.isDone = true) :
    d.Quiescent where
  wellFormed := h
  upToDate n _ hp := absurd hp (h.settled done n)
  bounded := Document.standstill_ne_waiting done

namespace Query

variable {d : Document} {α β : Type} {n p i e : Nat} {k : Kind} {r : Record}

/-! ### Children -/

theorem run_startRecord_bind (h : d.nodes.get? n = some r) (f : Record → Reading β) :
    run d (startRecord n >>= f).run = run d (f r).run := by
  have found : run d (awaitRecord n).run = .answer (.ok (some r)) := by
    rw [← h]
    exact Reading.run_await (by rw [h]; rfl)
  refine run_reading_bind ?_ f
  rw [startRecord, run_reading_bind found]
  rfl

theorem run_isValueNode (hd : d.WellFormed) (hr : d.nodes.get? n = some r) :
    ∃ b, run d (isValueNode r) = .answer b ∧ (b = true ↔ d.nodes.IsValue n) := by
  have hk := Table.kind?_of_get? hr
  have hparent := Table.parent?_of_get? hr
  unfold isValueNode
  split
  · next htext =>
    refine ⟨false, rfl, iff_of_false Bool.false_ne_true fun hv => htext ?_⟩
    exact Option.some.inj (hk.symm.trans hv.1)
  · next htext =>
    rw [Classical.not_not] at htext
    cases hp : r.parent with
    | none =>
      refine ⟨false, rfl, iff_of_false Bool.false_ne_true ?_⟩
      rintro ⟨-, p, -, hp', -⟩
      rw [hparent, hp] at hp'
      cases hp'
    | some p =>
      rw [hp] at hparent
      obtain ⟨kp, hkp, -, -⟩ := (hd.layout hk).parent_kind hparent
      obtain ⟨rp, hrp, rfl⟩ := Table.exists_get?_of_kind? hkp
      refine ⟨rp.kind.hasValueNode, run_record_bind hrp _, fun hv => ?_, ?_⟩
      · exact ⟨by rw [hk, htext], p, _, hparent, hkp, hv⟩
      · rintro ⟨-, q, kq, hq, hkq, hv⟩
        obtain rfl := Option.some.inj (hparent.symm.trans hq)
        obtain rfl := Option.some.inj (hkp.symm.trans hkq)
        exact hv

section Quiescent

variable (hd : d.Quiescent)
include hd

theorem yields_awaitRecord (n : Nat) :
    Yields d (awaitRecord n) (fun found => found = d.nodes.get? n) (d.nodes.size ≤ n) := by
  refine .await hd.bounded (fun done => by rw [done, Bool.or_true]) (fun _ => rfl) fun unready => ?_
  rw [Bool.or_eq_false_iff, ← Bool.not_eq_true, Table.isSome_get?_iff] at unready
  exact Nat.le_of_not_lt unready.1

/-- The scan comes to the first structural node at or after an index, unless it begins at a
value. -/
theorem yields_structuralFrom (fuel : Nat) (hf : d.nodes.size ≤ i + fuel)
    (hv : ¬ d.nodes.IsValue i) :
    Yields d (structuralFrom fuel i)
      (fun found => IsFirst (fun n => i ≤ n ∧ d.nodes.IsStructural n) (found.map (·.1)) ∧
        ∀ m r, found = some (m, r) → d.nodes.get? m = some r)
      (∀ n, ¬ (i ≤ n ∧ d.nodes.IsStructural n)) := by
  have layout := hd.wellFormed.layout
  induction fuel generalizing i with
  | zero =>
    refine .pure ⟨fun n hn => ?_, nofun⟩
    have := hn.2.lt_size
    omega
  | succ fuel ih =>
    have missing : d.nodes.size ≤ i → ∀ n, ¬ (i ≤ n ∧ d.nodes.IsStructural n) := fun hi n hn =>
      Nat.not_lt.2 (Nat.le_trans hi hn.1) hn.2.lt_size
    refine ((yields_awaitRecord hd i).mono (fun _ h => h) missing).bind fun found hfound => ?_
    cases found with
    | none =>
      refine .pure ⟨missing (Nat.le_of_not_lt fun hi => ?_), nofun⟩
      rw [← Table.isSome_get?_iff, ← hfound] at hi
      cases hi
    | some found =>
      have hk := Table.kind?_of_get? hfound.symm
      dsimp only
      split
      · next hkv =>
        have next : ¬ d.nodes.IsValue (i + 2) :=
          layout.not_isValue_succ ((layout hk).value hkv).1 rfl
        have skip : ∀ n, i + 2 ≤ n ∧ d.nodes.IsStructural n ↔ i ≤ n ∧ d.nodes.IsStructural n :=
          fun n => ⟨fun hn => ⟨by omega, hn.2⟩,
            fun hn => ⟨layout.add_two_le hk hkv hn.2 hn.1, hn.2⟩⟩
        simpa only [skip] using ih (i := i + 2) (by omega) next
      · next hkv =>
        have structural : d.nodes.IsStructural i := ⟨⟨_, hk, Bool.not_eq_true _ ▸ hkv⟩, hv⟩
        refine .pure ⟨⟨⟨Nat.le_refl i, structural⟩, fun n hn => hn.1⟩, fun m r hm => ?_⟩
        obtain ⟨rfl, rfl⟩ := Prod.mk.inj (Option.some.inj hm)
        exact hfound.symm

/-- The first structural node after another node or after a child of it that has no children itself
is asked whether it is a child of that node. -/
private theorem finds_scanChild {own : Option NodeId} (hown : own = some p)
    (hv : ¬ d.nodes.IsValue (n + 1))
    (place : n = p ∨ d.nodes.parent? n = some p ∧
      ∀ k, d.nodes.kind? n = some k → k.canHaveChildren = false) :
    Finds d (fun m => n < m ∧ d.nodes.IsChild p m) (do
      match ← structuralFrom indexBound (n + 1) with
      | some (index, found) => return if found.parent = own then some index else none
      | none => return none : Reading (Option NodeId)) := by
  have bound : d.nodes.size ≤ n + 1 + indexBound :=
    Nat.le_trans hd.wellFormed.size_le_indexBound (Nat.le_add_left ..)
  have child : (∀ m, ¬ (n + 1 ≤ m ∧ d.nodes.IsStructural m)) →
      ∀ m, ¬ (n < m ∧ d.nodes.IsChild p m) := fun none m hm => none m ⟨hm.1, hm.2.1⟩
  refine ((yields_structuralFrom hd indexBound bound hv).mono (fun _ h => h) child).bind ?_
  rintro (_ | ⟨m, r⟩) ⟨first, held⟩
  · exact .pure (child first)
  · rw [hown]
    have hparent := Table.parent?_of_get? (held m r rfl)
    by_cases hp : r.parent = some p
    · dsimp only
      rw [if_pos hp]
      exact .pure ⟨⟨first.1.1, first.1.2, hparent.trans hp⟩, fun j hj => first.2 j ⟨hj.1, hj.2.1⟩⟩
    · dsimp only
      rw [if_neg hp]
      refine .pure fun j hj => hp ?_
      rw [← hparent]
      exact hd.wellFormed.layout.parent?_of_first first.1.2 first.1.1
        (fun j hnj hs => first.2 j ⟨hnj, hs⟩) hj.2 hj.1 place

/-- The first child of the document or of an element is the first of its children. -/
theorem finds_firstChild
    (hk : d.nodes.kind? p = some .document ∨ d.nodes.kind? p = some .element) :
    Finds d (d.nodes.IsChild p) (firstChild p) := by
  obtain ⟨k, hkind, plain, children⟩ : ∃ k, d.nodes.kind? p = some k ∧
      k.hasValueNode = false ∧ k.canHaveChildren = true := by
    rcases hk with hk | hk
    · exact ⟨_, hk, rfl, rfl⟩
    · exact ⟨_, hk, rfl, rfl⟩
  obtain ⟨r, hr, rfl⟩ := Table.exists_get?_of_kind? hkind
  have layout := hd.wellFormed.layout
  have scan := finds_scanChild hd rfl (layout.not_isValue_succ hkind plain) (.inl rfl)
  refine Finds.congr (scan.of_run_eq ?_) fun m => and_iff_right_of_imp fun hm =>
    layout.parent_lt hm.2
  have unvalued : ¬ r.kind.hasValueNode = true := by rw [plain]; exact Bool.false_ne_true
  have inner : ¬ (!r.kind.canHaveChildren) = true := by rw [children]; exact Bool.false_ne_true
  exact (run_startRecord_bind hr _).trans
    (congrArg (run d) ((if_neg unvalued).trans (if_neg inner)))

/-- The link of a node, if it has one, is known unless it is the last one so far. -/
theorem finds_awaitLink (hk : d.nodes.kind? n = some k) (hl : k.isLinked = true) :
    Finds d (d.nodes.Follows n) (awaitLink n) := by
  have link := hd.wellFormed.linked hk
  have known := link.isSome_link?
  rw [hl, Option.isSome_iff_exists] at known
  obtain ⟨l, hlink⟩ := known
  refine .await hd.bounded (fun done => ?_) (fun ready => ?_) fun unready m hm => ?_
  · have settled := hd.wellFormed.settled done n
    dsimp only
    rw [hlink] at settled ⊢
    cases l with
    | pending => exact absurd rfl settled
    | last => rfl
    | next m => rfl
  · dsimp only at ready ⊢
    rw [hlink] at ready ⊢
    cases l with
    | pending => cases ready
    | last => exact link.last hlink
    | next m => exact link.next hlink
  · dsimp only at unready
    rw [hlink] at unready
    cases l with
    | pending => exact hd.upToDate hlink hm
    | last => cases unready
    | next m => cases unready

/-- The next sibling of a node with a link is the first that comes after it in its chain. -/
theorem finds_nextSibling_linked (hk : d.nodes.kind? n = some k) (hl : k.isLinked = true) :
    Finds d (d.nodes.Follows n) (nextSibling n) := by
  obtain ⟨r, hr, rfl⟩ := Table.exists_get?_of_kind? hk
  have inner : r.kind ≠ .document := by
    intro hdoc
    rw [hdoc] at hl
    cases hl
  refine Yields.of_run_eq ?_ (run_startRecord_bind hr _)
  rw [if_neg inner, if_pos hl]
  exact finds_awaitLink hd hk hl

/-- The next sibling of a child is the first of the later children. -/
theorem finds_nextSibling (hc : d.nodes.IsChild p n) :
    Finds d (fun m => n < m ∧ d.nodes.IsChild p m) (nextSibling n) := by
  have layout := hd.wellFormed.layout
  obtain ⟨⟨k, hk, plain⟩, value⟩ := hc.1
  by_cases hl : k.isLinked = true
  · exact (finds_nextSibling_linked hd hk hl).congr fun m => hc.follows_iff
  · obtain ⟨r, hr, rfl⟩ := Table.exists_get?_of_kind? hk
    have hparent : r.parent = some p := (Table.parent?_of_get? hr).symm.trans hc.2
    have inner : r.kind ≠ .document := by
      intro hdoc
      have := (layout hk).parent_none_iff.2 ((layout hk).document_iff.1 hdoc)
      rw [hc.2] at this
      cases this
    refine Yields.of_run_eq ?_ (run_startRecord_bind hr _)
    rw [if_neg inner, if_neg hl]
    have leaf : r.kind.canHaveChildren = false := by
      revert inner hl
      cases r.kind <;> decide
    obtain ⟨b, own, iff⟩ := run_isValueNode hd.wellFormed hr
    obtain rfl : b = false := Bool.eq_false_iff.2 fun hb => value (iff.1 hb)
    have next := layout.not_isValue_succ hk plain
    refine Yields.of_run_eq ?_ (run_reading_bind (run_lift own) _)
    rw [if_neg Bool.false_ne_true]
    refine finds_scanChild hd hparent next (.inr ⟨hc.2, fun k hk' => ?_⟩)
    obtain rfl := Option.some.inj (hk'.symm.trans hk)
    exact leaf

/-- The walk over the children of the document or of an element comes to all that are there. -/
theorem run_children
    (hk : d.nodes.kind? p = some .document ∨ d.nodes.kind? p = some .element) :
    ∃ walked : Walk, run d (children p) = .answer walked ∧ walked.nodes.Pairwise (· < ·) ∧
      (∀ n, n ∈ walked.nodes ↔ d.nodes.IsChild p n) ∧
      (d.isDone = true → walked.stopped = none) :=
  run_walk hd.wellFormed (fun _ hn => hn.1.lt_size) (finds_firstChild hd hk)
    fun _ hn => finds_nextSibling hd hn

end Quiescent

/-! ### Attributes -/

section Attributes

variable (hd : d.WellFormed)
include hd

theorem run_firstAttribute (hk : d.nodes.kind? e = some .element) :
    ∃ first, run d (firstAttribute e) = .answer first ∧ IsFirst (d.nodes.IsAttribute e) first := by
  obtain ⟨r, hr, hkind⟩ := Table.exists_get?_of_kind? hk
  have after : ∀ n, d.nodes.IsAttribute e n → e + 1 ≤ n := fun n hn => hd.layout.parent_lt hn.2
  rw [firstAttribute, run_record_bind hr, if_neg (fun hne => hne hkind)]
  rw [run_bind_of_answer (a := d.nodes.get? (e + 1)) rfl]
  cases hn : d.nodes.get? (e + 1) with
  | none =>
    refine ⟨none, rfl, fun n hattr => ?_⟩
    have := (hd.layout.isAttribute_first hattr).1
    rw [Table.kind?, hn] at this
    cases this
  | some found =>
    have iff : d.nodes.IsAttribute e (e + 1) ↔ found.kind = .attr ∧ found.parent = some e := by
      rw [Table.IsAttribute, Table.kind?_of_get? hn, Table.parent?_of_get? hn, Option.some.injEq]
    dsimp only
    by_cases hattr : found.kind = .attr ∧ found.parent = some e
    · rw [if_pos hattr]
      exact ⟨some (e + 1), rfl, iff.2 hattr, after⟩
    · rw [if_neg hattr]
      exact ⟨none, rfl, fun n hn => hattr (iff.1 (hd.layout.isAttribute_first hn))⟩

/-- The link of an attribute is always known. -/
theorem run_nextAttribute (ha : d.nodes.IsAttribute e n) :
    ∃ next, run d (nextAttribute n) = .answer next ∧
      IsFirst (fun m => n < m ∧ d.nodes.IsAttribute e m) next := by
  obtain ⟨r, hr, hkind⟩ := Table.exists_get?_of_kind? ha.1
  have link := hd.linked ha.1
  have known := link.isSome_link?
  rw [Kind.isLinked, Option.isSome_iff_exists] at known
  obtain ⟨l, hlink⟩ := known
  have follows : ∀ m, d.nodes.Follows n m ↔ n < m ∧ d.nodes.IsAttribute e m := by
    intro m
    rw [Table.Follows, ha.1, ha.2]
    rfl
  rw [nextAttribute, run_record_bind hr]
  dsimp only
  rw [if_neg (fun hne => hne hkind), run_bind_of_answer (a := d.nodes.link? n) rfl, hlink]
  cases l with
  | pending => exact absurd hlink (link.attr rfl)
  | last => exact ⟨none, rfl, fun m hm => link.last hlink m ((follows m).2 hm)⟩
  | next m =>
    obtain ⟨isNext, least⟩ := link.next hlink
    exact ⟨some m, rfl, (follows m).1 isNext, fun j hj => least j ((follows j).2 hj)⟩

/-- The walk over the attributes of an element comes to all of them, in order. -/
theorem run_attributes {nodes : List NodeId} (hk : d.nodes.kind? e = some .element)
    (sorted : nodes.Pairwise (· < ·)) (mem : ∀ n, n ∈ nodes ↔ d.nodes.IsAttribute e n) :
    run d (attributes e) = .answer nodes := by
  obtain ⟨first, hfirst, isFirst⟩ := run_firstAttribute hd hk
  have next : ∀ n, d.nodes.IsAttribute e n →
      Finds d (fun m => n < m ∧ d.nodes.IsAttribute e m) (ExceptT.lift (nextAttribute n)) := by
    intro n hn
    obtain ⟨next, hnext, isNext⟩ := run_nextAttribute hd hn
    exact .lift hnext isNext
  obtain ⟨walked, hwalked, ascending, all, -⟩ :=
    run_walk hd (fun _ hn => Table.lt_size_of_kind? hn.1) (.lift hfirst isFirst) next
  obtain rfl : walked.nodes = nodes :=
    ascending.eq_of_mem_iff sorted fun n => (all n).trans (mem n).symm
  exact run_bind_of_answer hwalked fun walked => pure walked.nodes

/-- Only elements have attributes. -/
theorem run_attributes_eq_nil (hk : d.nodes.kind? n = some k) (other : k ≠ .element) :
    run d (attributes n) = .answer [] := by
  obtain ⟨r, hr, rfl⟩ := Table.exists_get?_of_kind? hk
  have first : run d (firstAttribute n) = .answer none := by
    rw [firstAttribute, run_record_bind hr, if_pos other]
    rfl
  have next : ∀ m : Nat, False →
      Finds d (fun j => m < j ∧ False) (ExceptT.lift (nextAttribute m)) := fun _ => False.elim
  obtain ⟨walked, hwalked, -, all, -⟩ :=
    run_walk hd (P := fun _ => False) (fun _ => False.elim) (.lift first fun _ => id) next
  have none : walked.nodes = [] := List.eq_nil_iff_forall_not_mem.2 fun n hn => (all n).1 hn
  rw [← none]
  exact run_bind_of_answer hwalked fun walked => pure walked.nodes

end Attributes

end Query

end XmlTable
