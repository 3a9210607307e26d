import XmlTable.Proofs.Navigation
import XmlTable.Proofs.Runs

/-!
# The axes partition the document

From a node of a complete document, going on to the next node below it, to the next one after it, to
the one before it and to its parent comes to every structural node once and only once. Each of these
ways is a scan of its own; what they have in common is that every step goes to the nearest node that
has the property the way is about.
-/

namespace XmlTable

open Node

/-! ### The nearest node -/

/-- The number is the nearest to another, in a direction, of those that have a property; there is
none if no number in that direction has the property. -/
def IsNearest (r : Nat → Nat → Prop) (P : Nat → Prop) (n : Nat) : Option Nat → Prop
  | some m => r n m ∧ P m ∧ ∀ j, r n j → P j → j = m ∨ r m j
  | none => ∀ j, r n j → ¬ P j

section Nearest

variable {P : Nat → Prop} {n : Nat} {nearest : Option Nat}

theorem IsFirst.isNearest (h : IsFirst (fun m => n < m ∧ P m) nearest) :
    IsNearest (· < ·) P n nearest := by
  cases nearest with
  | none => exact fun j hj hp => h j ⟨hj, hp⟩
  | some m =>
    obtain ⟨⟨hnm, hm⟩, least⟩ := h
    exact ⟨hnm, hm, fun j hj hp => (Nat.eq_or_lt_of_le (least j ⟨hj, hp⟩)).imp_left Eq.symm⟩

/-- Going down, a number without the property is passed over. -/
theorem IsNearest.pass (h : IsNearest (· > ·) P n nearest) (hn : ¬ P n) :
    IsNearest (· > ·) P (n + 1) nearest := by
  have below : ∀ j, n + 1 > j → P j → n > j := fun j hj hp =>
    Nat.lt_of_le_of_ne (Nat.le_of_lt_succ hj) fun he => hn (he ▸ hp)
  cases nearest with
  | none => exact fun j hj hp => h j (below j hj hp) hp
  | some m => exact ⟨Nat.lt_succ_of_lt h.1, h.2.1, fun j hj hp => h.2.2 j (below j hj hp) hp⟩

/-- Going down, a number with the property is the nearest one. -/
theorem isNearest_pred (hn : P n) : IsNearest (· > ·) P (n + 1) (some n) :=
  ⟨Nat.lt_succ_self n, hn, fun _ hj _ => (Nat.eq_or_lt_of_le (Nat.le_of_lt_succ hj))⟩

end Nearest

namespace Node.Table

variable {t : Table} {n m a c : Nat}

/-- Everything is within the document node. -/
theorem Layout.within_documentId (h : t.Layout) (hn : n < t.size) : t.Within documentId n := by
  induction n using Nat.strongRecOn with
  | ind n ih =>
    by_cases h0 : n = documentId
    · rw [h0]
      exact .self
    · obtain ⟨p, hp⟩ := h.exists_parent? hn h0
      have hlt := h.parent_lt hp
      exact .step hp (ih p hlt (Nat.lt_trans hlt hn))

end Node.Table

namespace Query

variable {d : Document} {n m a c i p fuel : Nat}

/-! ### Ancestors -/

section Ancestors

variable (hd : d.WellFormed)
include hd

theorem run_isOnPath (hp : p < d.nodes.size) (hf : p < fuel) :
    ∃ b, run d (isOnPath a fuel (some p)) = .answer b ∧ (b = true ↔ d.nodes.Within a p) := by
  induction fuel generalizing p with
  | zero => cases hf
  | succ fuel ih =>
    rw [isOnPath]
    split
    · next same =>
      subst same
      exact ⟨true, rfl, iff_of_true rfl .self⟩
    · next other =>
      split
      · next hlt =>
        refine ⟨false, rfl, iff_of_false Bool.false_ne_true fun hw => ?_⟩
        exact Nat.not_le.2 hlt (hw.le hd.layout)
      · next hle =>
        obtain ⟨k, hk⟩ := Table.exists_kind?_iff.2 hp
        obtain ⟨r, hr, -⟩ := Table.exists_get?_of_kind? hk
        have above : a < p := Nat.lt_of_le_of_ne (Nat.le_of_not_lt hle) (Ne.symm other)
        obtain ⟨q, hq⟩ := hd.layout.exists_parent? hp (Nat.ne_zero_of_lt above)
        have hlt := hd.layout.parent_lt hq
        obtain ⟨b, hrun, iff⟩ := ih (p := q) (by omega) (by omega)
        refine ⟨b, ?_, iff.trans ?_⟩
        · rw [run_record_bind hr, ← Table.parent?_of_get? hr, hq]
          exact hrun
        · rw [Table.within_iff (n := p), hq]
          simp [other]

/-- Whether a node is above another is told right. -/
theorem run_isAncestor (hn : n < d.nodes.size) :
    ∃ b, run d (isAncestor a n) = .answer b ∧ (b = true ↔ n ≠ a ∧ d.nodes.Within a n) := by
  unfold isAncestor
  split
  · next hle =>
    refine ⟨false, rfl, iff_of_false Bool.false_ne_true fun hw => hw.1 ?_⟩
    exact Nat.le_antisymm hle (hw.2.le hd.layout)
  · next hlt =>
    obtain ⟨k, hk⟩ := Table.exists_kind?_iff.2 hn
    obtain ⟨r, hr, -⟩ := Table.exists_get?_of_kind? hk
    have above : a < n := Nat.lt_of_not_le hlt
    have other : n ≠ a := Nat.ne_of_gt above
    obtain ⟨q, hq⟩ := hd.layout.exists_parent? hn (Nat.ne_zero_of_lt above)
    have hqn := hd.layout.parent_lt hq
    obtain ⟨b, hrun, iff⟩ := run_isOnPath hd (a := a) (Nat.lt_trans hqn hn) hqn
    refine ⟨b, ?_, iff.trans ?_⟩
    · rw [run_record_bind hr, ← Table.parent?_of_get? hr, hq]
      exact hrun
    · rw [Table.within_iff (n := n), hq]
      simp [other]

theorem run_isStructural {r : Record} (hr : d.nodes.get? n = some r) :
    ∃ b, run d (isStructural r) = .answer b ∧ (b = true ↔ d.nodes.IsStructural n) := by
  have hk := Table.kind?_of_get? hr
  unfold isStructural
  split
  · next hv =>
    refine ⟨false, rfl, iff_of_false Bool.false_ne_true ?_⟩
    rintro ⟨⟨k, hk', plain⟩, -⟩
    obtain rfl := Option.some.inj (hk.symm.trans hk')
    rw [hv] at plain
    cases plain
  · next hv =>
    obtain ⟨b, hrun, iff⟩ := run_isValueNode hd hr
    rw [Bool.not_eq_true] at hv
    refine ⟨!b, run_bind_of_answer hrun _, ?_⟩
    rw [Bool.not_eq_true', ← Bool.not_eq_true, iff]
    exact (and_iff_right ⟨r.kind, hk, hv⟩).symm

end Ancestors

/-! ### Nodes below and after -/

section Scans

variable (hd : d.Quiescent)
include hd

/-- The scan for what comes after a node passes over its value, if it has one. -/
theorem run_scanStart (hn : n < d.nodes.size) :
    ∃ start : Nat, run d (scanStart n).run = .answer (.ok start) ∧ n < start ∧
      ¬ d.nodes.IsValue start ∧
      ∀ m, start ≤ m ∧ d.nodes.IsStructural m ↔ n < m ∧ d.nodes.IsStructural m := by
  have layout := hd.wellFormed.layout
  obtain ⟨k, hk⟩ := Table.exists_kind?_iff.2 hn
  obtain ⟨r, hr, rfl⟩ := Table.exists_get?_of_kind? hk
  rw [scanStart, run_startRecord_bind hr]
  by_cases hv : r.kind.hasValueNode = true
  · refine ⟨n + 2, by rw [if_pos hv]; rfl, by omega, ?_, fun m => ⟨fun hm => ?_, fun hm => ?_⟩⟩
    · exact layout.not_isValue_succ ((layout hk).value hv).1 rfl
    · exact ⟨by omega, hm.2⟩
    · exact ⟨layout.add_two_le hk hv hm.2 (Nat.le_of_lt hm.1), hm.2⟩
  · refine ⟨n + 1, by rw [if_neg hv]; rfl, Nat.lt_succ_self n, ?_, fun m => Iff.rfl⟩
    exact layout.not_isValue_succ hk (Bool.not_eq_true _ ▸ hv)

/-- The next node below another, going on from a node there. -/
theorem finds_nextDescendant (hw : d.nodes.Within c n) (hn : n < d.nodes.size) :
    Finds d (fun m => n < m ∧ d.nodes.IsStructural m ∧ d.nodes.Within c m)
      (nextDescendant c n) := by
  have layout := hd.wellFormed.layout
  have hcn := hw.le layout
  obtain ⟨start, hstart, -, hv, iff⟩ := run_scanStart hd hn
  have bound : d.nodes.size ≤ start + indexBound :=
    Nat.le_trans hd.wellFormed.size_le_indexBound (Nat.le_add_left ..)
  have scan := yields_structuralFrom hd indexBound bound hv
  simp only [iff] at scan
  refine Yields.of_run_eq ?_ (run_reading_bind hstart _)
  refine (scan.mono (fun _ h => h) fun none m hm => none m ⟨hm.1, hm.2.1⟩).bind ?_
  rintro (_ | ⟨m, r⟩) ⟨first, held⟩
  · exact .pure fun m hm => first m ⟨hm.1, hm.2.1⟩
  · obtain ⟨⟨hnm, hm⟩, least⟩ := first
    obtain ⟨b, hrun, above⟩ := run_isAncestor hd.wellFormed (a := c) hm.lt_size
    refine Yields.of_run_eq ?_ (run_reading_bind (run_lift hrun) _)
    by_cases hb : b = true
    · rw [if_pos hb]
      exact .pure ⟨⟨hnm, hm, (above.1 hb).2⟩, fun j hj => least j ⟨hj.1, hj.2.1⟩⟩
    · -- Nothing later is below the node either, since all that is below it stands together.
      rw [if_neg hb]
      refine .pure fun j ⟨hj, hs, hw⟩ => hb (above.2 ⟨?_, ?_⟩)
      · exact Nat.ne_of_gt (Nat.lt_of_le_of_lt hcn hnm)
      · exact hw.between layout (Nat.le_trans hcn (Nat.le_of_lt hnm)) (least j ⟨hj, hs⟩)

/-- The first structural node at or after an index that is not below another. -/
theorem finds_outsideFrom (hf : d.nodes.size ≤ i + fuel) (hc : c < i)
    (hv : ¬ d.nodes.IsValue i) :
    Finds d (fun m => i ≤ m ∧ d.nodes.IsStructural m ∧ ¬ d.nodes.Within c m)
      (outsideFrom c fuel i) := by
  induction fuel generalizing i with
  | zero =>
    refine .pure fun m hm => ?_
    have := hm.2.1.lt_size
    omega
  | succ fuel ih =>
    have bound : d.nodes.size ≤ i + indexBound :=
      Nat.le_trans hd.wellFormed.size_le_indexBound (Nat.le_add_left ..)
    refine ((yields_structuralFrom hd indexBound bound hv).mono (fun _ h => h)
      fun none m hm => none m ⟨hm.1, hm.2.1⟩).bind ?_
    rintro (_ | ⟨m, r⟩) ⟨first, held⟩
    · exact .pure fun m hm => first m ⟨hm.1, hm.2.1⟩
    · have first : (i ≤ m ∧ d.nodes.IsStructural m) ∧
          ∀ j, i ≤ j ∧ d.nodes.IsStructural j → m ≤ j := first
      obtain ⟨⟨him, hm⟩, least⟩ := first
      obtain ⟨b, hrun, above⟩ := run_isAncestor hd.wellFormed (a := c) hm.lt_size
      refine Yields.of_run_eq ?_ (run_reading_bind (run_lift hrun) _)
      by_cases hb : b = true
      · rw [if_pos hb]
        obtain ⟨⟨k, hk, plain⟩, -⟩ := hm
        refine Finds.congr (ih (i := m + 1) (by omega) (by omega)
          (hd.wellFormed.layout.not_isValue_succ hk plain)) fun j => ?_
        constructor
        · exact fun hj => ⟨by omega, hj.2⟩
        · rintro ⟨hij, hs, hw⟩
          have hmj := least j ⟨hij, hs⟩
          refine ⟨Nat.lt_of_le_of_ne hmj fun he => hw ?_, hs, hw⟩
          rw [← he]
          exact (above.1 hb).2
      · rw [if_neg hb]
        refine .pure ⟨⟨him, hm, fun hw => hb (above.2 ⟨?_, hw⟩)⟩, fun j hj =>
          least j ⟨hj.1, hj.2.1⟩⟩
        exact Nat.ne_of_gt (Nat.lt_of_lt_of_le hc him)

/-- The next node after another and not below it, going on from a node that does not come before. -/
theorem finds_nextFollowing (hc : c ≤ n) (hn : n < d.nodes.size) :
    Finds d (fun m => n < m ∧ d.nodes.IsStructural m ∧ ¬ d.nodes.Within c m)
      (nextFollowing c n) := by
  obtain ⟨start, hstart, hlt, hv, iff⟩ := run_scanStart hd hn
  have bound : d.nodes.size ≤ start + indexBound :=
    Nat.le_trans hd.wellFormed.size_le_indexBound (Nat.le_add_left ..)
  have scan := finds_outsideFrom hd bound (Nat.lt_of_le_of_lt hc hlt) hv
  refine Finds.congr (scan.of_run_eq (run_reading_bind hstart _)) fun m => ?_
  rw [← and_assoc, iff, and_assoc]

end Scans

/-! ### Nodes before -/

section Back

variable (hd : d.WellFormed)
include hd

/-- The node before another and not above it, going on from a node that does not come after. -/
theorem run_nextPreceding (hc : c < d.nodes.size) (hn : n ≤ c) :
    ∃ nearest, run d (nextPreceding c n) = .answer nearest ∧
      IsNearest (· > ·) (fun m => d.nodes.IsStructural m ∧ ¬ d.nodes.Within m c) n nearest := by
  -- The document node is above all others, so that nothing is missed when the search ends.
  have top : ∀ j, j < 1 → ¬ (d.nodes.IsStructural j ∧ ¬ d.nodes.Within j c) := by
    intro j hj
    obtain rfl : j = documentId := Nat.lt_one_iff.1 hj
    exact fun h => h.2 (hd.layout.within_documentId hc)
  induction n using Nat.strongRecOn with
  | ind n ih =>
    match n with
    | 0 => exact ⟨none, rfl, fun j hj => top j (Nat.lt_succ_of_lt hj)⟩
    | 1 => exact ⟨none, rfl, fun j hj => top j hj⟩
    | i + 2 =>
      obtain ⟨k, hk⟩ := Table.exists_kind?_iff.2 (Nat.lt_of_lt_of_le hn (Nat.le_of_lt hc))
      obtain ⟨r, hr, -⟩ := Table.exists_get?_of_kind? hk
      obtain ⟨structural, hrun, iff⟩ := run_isStructural hd hr
      obtain ⟨above, hrun', iff'⟩ := run_isAncestor hd (a := i + 1) hc
      obtain ⟨nearest, later, isNearest⟩ := ih (i + 1) (by omega) (by omega)
      rw [nextPreceding, run_record_bind hr, run_bind_of_answer hrun]
      cases structural with
      | false =>
        exact ⟨nearest, later, isNearest.pass fun h => Bool.false_ne_true (iff.2 h.1)⟩
      | true =>
        rw [if_neg (by decide), run_bind_of_answer hrun']
        cases above with
        | true => exact ⟨nearest, later, isNearest.pass fun h => h.2 (iff'.1 rfl).2⟩
        | false =>
          refine ⟨some (i + 1), rfl, isNearest_pred ⟨iff.1 rfl, fun hw => ?_⟩⟩
          exact Bool.false_ne_true (iff'.2 ⟨by omega, hw⟩)

/-- The structural node before another. -/
theorem run_before (hn : n < d.nodes.size) :
    ∃ nearest, run d (before n) = .answer nearest ∧
      IsNearest (· > ·) d.nodes.IsStructural n nearest := by
  induction n with
  | zero => exact ⟨none, rfl, fun j hj => absurd hj (Nat.not_lt_zero j)⟩
  | succ i ih =>
    have hi : i < d.nodes.size := Nat.lt_of_succ_lt hn
    obtain ⟨k, hk⟩ := Table.exists_kind?_iff.2 hi
    obtain ⟨r, hr, -⟩ := Table.exists_get?_of_kind? hk
    obtain ⟨structural, hrun, iff⟩ := run_isStructural hd hr
    rw [before, run_record_bind hr, run_bind_of_answer hrun]
    cases structural with
    | false =>
      obtain ⟨nearest, later, isNearest⟩ := ih hi
      exact ⟨nearest, later, isNearest.pass fun h => Bool.false_ne_true (iff.2 h)⟩
    | true => exact ⟨some i, rfl, isNearest_pred (iff.1 rfl)⟩

end Back

/-! ### Ways through the document -/

/-- A step that is asked from a node on, each time with its own answer, comes to the nodes of a list
and then to none. -/
def Leads (d : Document) (step : NodeId → Reading (Option NodeId)) : NodeId → List NodeId → Prop
  | node, [] => run d (step node).run = .answer (.ok none)
  | node, next :: rest => run d (step node).run = .answer (.ok (some next)) ∧ Leads d step next rest

/-- Steps that go to the nearest node with a property come to all nodes with it, in order. -/
theorem exists_leads {r : Nat → Nat → Prop} (trans : ∀ {i j k : Nat}, r i j → r j k → r i k)
    (rank : Nat → Nat) {P Q : Nat → Prop}
    (lower : ∀ {n m : Nat}, P n → r n m → Q m → P m ∧ rank m < rank n)
    {step : NodeId → Reading (Option NodeId)}
    (next : ∀ n, P n → ∃ nearest, run d (step n).run = .answer (.ok nearest) ∧
      IsNearest r Q n nearest) (hn : P n) :
    ∃ nodes, Leads d step n nodes ∧ nodes.Pairwise r ∧ ∀ m, m ∈ nodes ↔ r n m ∧ Q m := by
  induction hr : rank n using Nat.strongRecOn generalizing n with
  | ind k ih =>
    subst hr
    obtain ⟨_ | m, hrun, nearest⟩ := next n hn
    · exact ⟨[], hrun, .nil, fun m => ⟨nofun, fun hm => absurd hm.2 (nearest m hm.1)⟩⟩
    · obtain ⟨hnm, hm, least⟩ := nearest
      obtain ⟨hpm, hlt⟩ := lower hn hnm hm
      obtain ⟨rest, leads, sorted, mem⟩ := ih (rank m) hlt hpm rfl
      refine ⟨m :: rest, ⟨hrun, leads⟩, ?_, fun j => ?_⟩
      · exact List.pairwise_cons.2 ⟨fun j hj => ((mem j).1 hj).1, sorted⟩
      · rw [List.mem_cons, mem]
        constructor
        · rintro (rfl | ⟨hmj, hj⟩)
          · exact ⟨hnm, hm⟩
          · exact ⟨trans hnm hmj, hj⟩
        · exact fun ⟨hnj, hj⟩ => (least j hnj hj).imp_right fun hmj => ⟨hmj, hj⟩

/-- Steps to the next node with a property lead to all later ones. -/
theorem exists_leads_up (done : d.isDone = true) {P Q : Nat → Prop}
    {step : NodeId → Reading (Option NodeId)}
    (next : ∀ n, P n → Finds d (fun m => n < m ∧ Q m) (step n))
    (lt_size : ∀ m, Q m → m < d.nodes.size) (keeps : ∀ {n m : Nat}, P n → n < m → Q m → P m)
    (hn : P n) :
    ∃ nodes, Leads d step n nodes ∧ nodes.Pairwise (· < ·) ∧ ∀ m, m ∈ nodes ↔ n < m ∧ Q m := by
  refine exists_leads (r := (· < ·)) Nat.lt_trans (d.nodes.size - ·)
    (fun hn hnm hm => ⟨keeps hn hnm hm, ?_⟩) (fun n hn => ?_) hn
  · have := lt_size _ hm
    omega
  · obtain ⟨nearest, hrun, first⟩ := (next n hn).of_done done
    exact ⟨nearest, hrun, first.isNearest⟩

/-- Steps to the last node with a property lead to all earlier ones. -/
theorem exists_leads_down {P Q : Nat → Prop} {step : NodeId → Query (Option NodeId)}
    (next : ∀ n, P n → ∃ nearest, run d (step n) = .answer nearest ∧
      IsNearest (· > ·) Q n nearest)
    (keeps : ∀ {n m : Nat}, P n → m < n → P m) (hn : P n) :
    ∃ nodes, Leads d (fun node => ExceptT.lift (step node)) n nodes ∧ nodes.Pairwise (· > ·) ∧
      ∀ m, m ∈ nodes ↔ m < n ∧ Q m := by
  refine exists_leads (r := (· > ·)) (fun hij hjk => Nat.lt_trans hjk hij) id
    (fun hn hnm _ => ⟨keeps hn hnm, hnm⟩) (fun n hn => ?_) hn
  obtain ⟨nearest, hrun, isNearest⟩ := next n hn
  exact ⟨nearest, run_lift hrun, isNearest⟩

/-- A walk goes where its steps lead. -/
theorem Leads.run_walkFrom {step : NodeId → Reading (Option NodeId)} {nodes : List NodeId}
    (h : Leads d step n nodes) (hf : nodes.length ≤ fuel) (before : List NodeId) :
    run d (walkFrom step fuel before (step n)) = .answer ⟨before.reverse ++ nodes, none⟩ := by
  induction nodes generalizing n fuel before with
  | nil =>
    rw [List.append_nil]
    cases fuel with
    | zero => rfl
    | succ fuel =>
      rw [walkFrom, run_bind_of_answer h]
      rfl
  | cons next rest ih =>
    obtain ⟨fuel, rfl⟩ : ∃ fuel', fuel = fuel' + 1 := ⟨fuel - 1, by
      rw [List.length_cons] at hf
      omega⟩
    rw [walkFrom, run_bind_of_answer h.1]
    have later := ih h.2 (Nat.le_of_succ_le_succ hf) (next :: before)
    rwa [List.reverse_cons, List.append_assoc, List.singleton_append] at later

theorem run_parent (hn : n < d.nodes.size) : run d (parent n) = .answer (d.nodes.parent? n) := by
  obtain ⟨k, hk⟩ := Table.exists_kind?_iff.2 hn
  obtain ⟨r, hr, -⟩ := Table.exists_get?_of_kind? hk
  rw [parent, run_record_bind hr, Table.parent?_of_get? hr]
  rfl

/-- Going from parent to parent comes to all nodes above a node, nearest first. -/
theorem exists_leads_parent (hd : d.WellFormed) (hn : n < d.nodes.size) :
    ∃ nodes, Leads d (fun node => ExceptT.lift (parent node)) n nodes ∧
      nodes.Pairwise (· > ·) ∧ nodes.length ≤ n ∧
      ∀ m, m ∈ nodes ↔ m < n ∧ d.nodes.Within m n := by
  induction n using Nat.strongRecOn with
  | ind n ih =>
    have hrun := run_parent hn
    have above : ∀ m, m < n ∧ d.nodes.Within m n ↔
        ∃ p, d.nodes.parent? n = some p ∧ d.nodes.Within m p := by
      intro m
      constructor
      · rintro ⟨hlt, hw⟩
        exact (Table.within_iff.1 hw).resolve_left (Nat.ne_of_gt hlt)
      · rintro ⟨p, hp, hw⟩
        exact ⟨Nat.lt_of_le_of_lt (hw.le hd.layout) (hd.layout.parent_lt hp), .step hp hw⟩
    simp only [above]
    cases hp : d.nodes.parent? n with
    | none =>
      rw [hp] at hrun
      exact ⟨[], run_lift hrun, .nil, Nat.zero_le n, fun m => by simp⟩
    | some p =>
      rw [hp] at hrun
      have hpn := hd.layout.parent_lt hp
      obtain ⟨rest, leads, sorted, length, mem⟩ := ih p hpn (Nat.lt_trans hpn hn)
      refine ⟨p :: rest, ⟨run_lift hrun, leads⟩, ?_, ?_, fun m => ?_⟩
      · exact List.pairwise_cons.2 ⟨fun m hm => ((mem m).1 hm).1, sorted⟩
      · rw [List.length_cons]
        exact Nat.lt_of_le_of_lt length hpn
      · rw [List.mem_cons, mem]
        constructor
        · rintro (rfl | ⟨-, hw⟩)
          · exact ⟨m, rfl, .self⟩
          · exact ⟨p, rfl, hw⟩
        · rintro ⟨_, ⟨⟩, hw⟩
          exact (Nat.eq_or_lt_of_le (hw.le hd.layout)).imp_right fun hlt => ⟨hlt, hw⟩

/-- The walk over the nodes above a node comes to all of them. -/
theorem run_ancestors (hd : d.WellFormed) (hn : n < d.nodes.size) :
    ∃ nodes, run d (ancestors n) = .answer nodes ∧ nodes.Pairwise (· > ·) ∧
      ∀ m, m ∈ nodes ↔ m < n ∧ d.nodes.Within m n := by
  obtain ⟨nodes, leads, sorted, length, mem⟩ := exists_leads_parent hd hn
  have bound : nodes.length ≤ indexBound :=
    Nat.le_trans length (Nat.le_trans (Nat.le_of_lt hn) hd.size_le_indexBound)
  refine ⟨nodes, ?_, sorted, mem⟩
  exact run_bind_of_answer (leads.run_walkFrom bound []) fun walked => pure walked.nodes

/-- The ways that lead away from a node: to what is below it, to what follows it, to what precedes
it, to all that comes before it, and to what is above it. -/
structure Axes (d : Document) (c : NodeId) where
  /-- What is below the node. -/
  descendants : List NodeId
  /-- What follows it. -/
  following : List NodeId
  /-- What precedes it. -/
  preceding : List NodeId
  /-- What comes before it. -/
  before : List NodeId
  /-- What is above it. -/
  ancestors : List NodeId
  /-- These are the answers about what is below it. -/
  leads_descendants : Leads d (nextDescendant c) c descendants
  /-- These are the answers about what follows it. -/
  leads_following : Leads d (nextFollowing c) c following
  /-- These are the answers about what precedes it. -/
  leads_preceding : Leads d (fun node => ExceptT.lift (nextPreceding c node)) c preceding
  /-- These are the answers about what comes before it. -/
  leads_before : Leads d (fun node => ExceptT.lift (Query.before node)) c before
  /-- These are the answers about what is above it. -/
  run_ancestors : run d (Query.ancestors c) = .answer ancestors

/-- The ways lead to what they should, in order. -/
structure Axes.Complete {d : Document} {c : NodeId} (axes : Axes d c) : Prop where
  /-- The nodes below are in document order. -/
  descendants_sorted : axes.descendants.Pairwise (· < ·)
  /-- The nodes that follow are in document order. -/
  following_sorted : axes.following.Pairwise (· < ·)
  /-- The nodes that precede are in reverse document order. -/
  preceding_sorted : axes.preceding.Pairwise (· > ·)
  /-- The nodes before are in reverse document order. -/
  before_sorted : axes.before.Pairwise (· > ·)
  /-- The nodes above are in reverse document order. -/
  ancestors_sorted : axes.ancestors.Pairwise (· > ·)
  /-- The nodes below. -/
  mem_descendants : ∀ n, n ∈ axes.descendants ↔
    c < n ∧ d.nodes.IsStructural n ∧ d.nodes.Within c n
  /-- The nodes that follow. -/
  mem_following : ∀ n, n ∈ axes.following ↔
    c < n ∧ d.nodes.IsStructural n ∧ ¬ d.nodes.Within c n
  /-- The nodes that precede. -/
  mem_preceding : ∀ n, n ∈ axes.preceding ↔
    n < c ∧ d.nodes.IsStructural n ∧ ¬ d.nodes.Within n c
  /-- The nodes before. -/
  mem_before : ∀ n, n ∈ axes.before ↔ n < c ∧ d.nodes.IsStructural n
  /-- The nodes above. -/
  mem_ancestors : ∀ n, n ∈ axes.ancestors ↔ n < c ∧ d.nodes.Within n c

/-- In a complete document the ways lead to what they should. -/
theorem exists_axes (hd : d.WellFormed) (done : d.isDone = true) (hc : c < d.nodes.size) :
    ∃ axes : Axes d c, axes.Complete := by
  have quiet := hd.quiescent done
  obtain ⟨D, leadsD, sortedD, memD⟩ := exists_leads_up done
    (P := fun n => n < d.nodes.size ∧ d.nodes.Within c n)
    (fun n hn => finds_nextDescendant quiet hn.2 hn.1) (fun m hm => hm.1.lt_size)
    (fun _ _ hm => ⟨hm.1.lt_size, hm.2⟩) ⟨hc, .self⟩
  obtain ⟨F, leadsF, sortedF, memF⟩ := exists_leads_up done
    (P := fun n => n < d.nodes.size ∧ c ≤ n)
    (fun n hn => finds_nextFollowing quiet hn.2 hn.1) (fun m hm => hm.1.lt_size)
    (fun hn hnm hm => ⟨hm.1.lt_size, Nat.le_trans hn.2 (Nat.le_of_lt hnm)⟩) ⟨hc, Nat.le_refl c⟩
  obtain ⟨P, leadsP, sortedP, memP⟩ := exists_leads_down (P := (· ≤ c))
    (fun n hn => run_nextPreceding hd hc hn)
    (fun hn hnm => Nat.le_trans (Nat.le_of_lt hnm) hn) (Nat.le_refl c)
  obtain ⟨B, leadsB, sortedB, memB⟩ := exists_leads_down (P := (· < d.nodes.size))
    (fun n hn => run_before hd hn) (fun hn hnm => Nat.lt_trans hnm hn) hc
  obtain ⟨A, hrun, sortedA, memA⟩ := run_ancestors hd hc
  exact ⟨⟨D, F, P, B, A, leadsD, leadsF, leadsP, leadsB, hrun⟩,
    ⟨sortedD, sortedF, sortedP, sortedB, sortedA, memD, memF, memP, memB, memA⟩⟩

/-- Every structural node is on one way only, or is the node itself. -/
theorem Axes.Complete.count_eq_one {axes : Axes d c} (h : axes.Complete)
    (hn : d.nodes.IsStructural n) : (axes.descendants ++ axes.following ++ axes.preceding ++
      axes.ancestors ++ [c]).count n = 1 := by
  classical
  have below : axes.descendants.Nodup := h.descendants_sorted.imp Nat.ne_of_lt
  have after : axes.following.Nodup := h.following_sorted.imp Nat.ne_of_lt
  have before : axes.preceding.Nodup := h.preceding_sorted.imp Nat.ne_of_gt
  have above : axes.ancestors.Nodup := h.ancestors_sorted.imp Nat.ne_of_gt
  simp only [List.count_append, below.count, after.count, before.count, above.count,
    List.count_singleton, h.mem_descendants, h.mem_following, h.mem_preceding, h.mem_ancestors,
    hn, true_and]
  -- What decides is whether the node comes before or after, and whether one is within the other.
  rcases Nat.lt_trichotomy n c with hlt | rfl | hgt
  · have other : ¬ c < n := Nat.lt_asymm hlt
    by_cases hw : d.nodes.Within n c <;> simp [hlt, other, hw, Nat.ne_of_gt hlt]
  · simp
  · have other : ¬ n < c := Nat.lt_asymm hgt
    by_cases hw : d.nodes.Within c n <;> simp [hgt, other, hw, Nat.ne_of_lt hgt]

end Query

namespace Builder

variable {config : Config} {changes : List Change} {k c : Nat}

/-- In a complete document, going on from any node with the answers of the questions for the next
node below it, the next one after it, the one before it, the one before or above it, and the one
above it, comes to an end. What is below and after is in document order, what is before in reverse
order. Every structural node is below the node, after it, before it, above it, or is the node
itself, and only one of these; nothing but structural nodes is below, after and before it. What is
below are the structural nodes within it, and what is before or above are the structural ones of the
nodes before and of those above. -/
theorem axes_partition (h : IsRun config changes)
    (done : ((Document.initial config).moment changes k).isDone = true)
    (hc : c < ((Document.initial config).moment changes k).nodes.size) :
    let d := (Document.initial config).moment changes k
    ∃ axes : Query.Axes d c,
      (axes.descendants.Pairwise (· < ·) ∧ axes.following.Pairwise (· < ·) ∧
        axes.preceding.Pairwise (· > ·) ∧ axes.before.Pairwise (· > ·)) ∧
      (∀ n, d.nodes.IsStructural n → (axes.descendants ++ axes.following ++ axes.preceding ++
        axes.ancestors ++ [c]).count n = 1) ∧
      (∀ n ∈ axes.descendants ++ axes.following ++ axes.preceding, d.nodes.IsStructural n) ∧
      (∀ n, n ∈ axes.descendants ↔ d.nodes.IsStructural n ∧ n ≠ c ∧ d.nodes.Within c n) ∧
      (∀ n, n ∈ axes.before ↔
        d.nodes.IsStructural n ∧ (n ∈ axes.ancestors ∨ n ∈ axes.preceding)) := by
  intro d
  have hd := h.grows.wellFormed (Document.wellFormed_initial config) k
  obtain ⟨axes, complete⟩ := Query.exists_axes hd done hc
  refine ⟨axes, ⟨complete.descendants_sorted, complete.following_sorted,
    complete.preceding_sorted, complete.before_sorted⟩, fun n hn => complete.count_eq_one hn,
    fun n hn => ?_, fun n => ?_, fun n => ?_⟩
  · rcases List.mem_append.1 hn with hn | hn
    · rcases List.mem_append.1 hn with hn | hn
      · exact ((complete.mem_descendants n).1 hn).2.1
      · exact ((complete.mem_following n).1 hn).2.1
    · exact ((complete.mem_preceding n).1 hn).2.1
  · rw [complete.mem_descendants]
    constructor
    · rintro ⟨hlt, hs, hw⟩
      exact ⟨hs, Nat.ne_of_gt hlt, hw⟩
    · rintro ⟨hs, hne, hw⟩
      exact ⟨Nat.lt_of_le_of_ne (hw.le hd.layout) hne.symm, hs, hw⟩
  · rw [complete.mem_before, complete.mem_ancestors, complete.mem_preceding]
    constructor
    · rintro ⟨hlt, hs⟩
      by_cases hw : d.nodes.Within n c
      · exact ⟨hs, .inl ⟨hlt, hw⟩⟩
      · exact ⟨hs, .inr ⟨hlt, hs, hw⟩⟩
    · rintro ⟨hs, ⟨hlt, -⟩ | ⟨hlt, -⟩⟩
      · exact ⟨hlt, hs⟩
      · exact ⟨hlt, hs⟩

/-- In an element with an attribute, a comment and an empty child, the comment is on one of the ways
from the child, and the attribute on none that leads to structural nodes only. -/
theorem axes_partition_of_last_child :
    let changes := ((acceptAll [.startDocument, .startElement "a" [{ name := "x", value := "1" }],
      .comment "c", .startElement "b" [], .endElement, .endElement, .endDocument]).run.run
        (start .standard, { handler := .lenient })).2.1.history.toList
    let d := (Document.initial .standard).moment changes changes.length
    d.isDone = true ∧ ∃ axes : Query.Axes d 5,
      (axes.descendants ++ axes.following ++ axes.preceding ++ axes.ancestors ++ [5]).count 4 = 1 ∧
        2 ∉ axes.descendants ++ axes.following ++ axes.preceding := by
  intro changes d
  have isRun : IsRun .standard changes :=
    ⟨_, _, reaches_acceptAll _ _, List.filter_eq_self.2 (List.all_eq_true.1 (by decide +kernel))⟩
  have done : d.isDone = true := by decide +kernel
  obtain ⟨axes, -, once, structural, -⟩ := axes_partition (c := 5) isRun done (by decide +kernel)
  have comment : d.nodes.kind? 4 = some .comment := by decide +kernel
  have attr : d.nodes.kind? 2 = some .attr := by decide +kernel
  refine ⟨done, axes, once 4 ⟨⟨.comment, comment, rfl⟩, fun h => ?_⟩, fun h => ?_⟩
  · cases comment.symm.trans h.1
  · obtain ⟨⟨k, hk, plain⟩, -⟩ := structural 2 h
    obtain rfl := Option.some.inj (attr.symm.trans hk)
    cases plain

end Builder

end XmlTable
