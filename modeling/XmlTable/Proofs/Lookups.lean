import XmlTable.Proofs.Axes
import XmlTable.Query.Properties

/-!
# Walks, lookups and properties that last

A walk that was not stopped lasts as its steps do. What is looked up by name is found again, since
names, identifiers and entities keep their meaning, and it is missing only when nothing more will be
added. The strings of a record are stored before the record is published.
-/

namespace XmlTable.Timeline

open Node Query

variable {T : Timeline} {fails : Nat → Prop} {k k' j n : Nat} {r : Record}

/-! ### Walks -/

/-- A walk goes from nodes with a property to nodes with it. If it was not stopped, it lasts. -/
theorem fine_walkFrom {P : Nat → Nat → Prop}
    (hP : ∀ {i j m : Nat}, P i m → i ≤ j → P j m) {step : NodeId → Reading (Option NodeId)}
    (hstep : ∀ k m, P k m →
      T.LastsOk fails k (step m) (step m) (AreNodes P))
    (fuel : Nat) {done : List NodeId} (hdone : ∀ m ∈ done, P k m)
    {query : Reading (Option NodeId)}
    (hq : T.LastsOk fails k query query (AreNodes P)) :
    T.Fine (walkFrom step fuel done query) k fun k' w => (∀ m ∈ w.nodes, P k' m) ∧
      match w.stopped with
      | some _ => fails k'
      | none => ∀ j, k' ≤ j →
        Query.run (T.moment j) (walkFrom step fuel done query) = .answer w := by
  induction fuel generalizing k done query with
  | zero => exact ⟨fun m hm => hdone m (List.mem_reverse.1 hm), fun _ _ => rfl⟩
  | succ fuel ih =>
    refine Fine.bind (Fine.mono hq fun k₁ a hk₁ ha => ?_)
    have kept : ∀ m ∈ done.reverse, P k₁ m := fun m hm =>
      hP (hdone m (List.mem_reverse.1 hm)) hk₁
    have again : ∀ {i : Nat}, k₁ ≤ i → ∀ o, a = .ok o →
        Query.run (T.moment i) query.run = .answer (.ok o) := by
      rintro i hi o rfl
      obtain ⟨o', hrun, rfl, -⟩ := ha i hi
      exact hrun
    cases a with
    | error failure => exact ⟨kept, ha⟩
    | ok o =>
      cases o with
      | none =>
        refine ⟨kept, fun j hj => ?_⟩
        show Query.run (T.moment j) (Query.bind query.run _) = _
        rw [Query.run_bind, again hj none rfl]
        rfl
      | some m =>
        obtain ⟨_, -, -, hm⟩ := ha k₁ (Nat.le_refl _)
        have hm : P k₁ m := hm m rfl
        have rest := ih (List.forall_mem_cons.2 ⟨hm, fun m' hm' => hP (hdone m' hm') hk₁⟩)
          (hstep k₁ m hm)
        refine rest.mono fun k₂ w hk₂ ⟨nodes, hw⟩ => ⟨nodes, ?_⟩
        split
        · next hs =>
          rw [hs] at hw
          exact hw
        · next hs =>
          rw [hs] at hw
          intro j hj
          show Query.run (T.moment j) (Query.bind query.run _) = _
          rw [Query.run_bind, again (Nat.le_trans hk₂ hj) (some m) rfl]
          exact hw j hj

/-- A walk of steps that need no wait is not stopped. -/
theorem lasts_plainWalk {P : Nat → Nat → Prop}
    (hP : ∀ {i j m : Nat}, P i m → i ≤ j → P j m) {first : Query (Option NodeId)}
    {step : NodeId → Query (Option NodeId)}
    (hfirst : T.Lasts k first first (AreNodes P))
    (hstep : ∀ k m, P k m → T.Lasts k (step m) (step m) (AreNodes P)) :
    T.Lasts k (plainWalk first step) (plainWalk first step) (AreNodes P) := by
  have hfirst' : T.LastsOk (fun _ => False) k (ExceptT.lift first) (ExceptT.lift first)
      (AreNodes P) := .lift hfirst
  have hstep' : ∀ k m, P k m → T.LastsOk (fun _ => False) k (ExceptT.lift (step m))
      (ExceptT.lift (step m)) (AreNodes P) := fun k m hm => .lift (hstep k m hm)
  have walk := fine_walkFrom (P := P) hP hstep' indexBound (List.forall_mem_nil _) hfirst'
  refine Fine.bind (walk.mono fun k' w _ ⟨nodes, hw⟩ => ?_)
  split at hw
  · exact hw.elim
  · intro j hj
    refine ⟨w.nodes, ?_, rfl, nodes⟩
    show Query.run (T.moment j) (Query.bind (walkFrom _ _ _ _) _) = _
    rw [Query.run_bind, hw j hj]
    rfl

theorem lasts_attributes (hn : T.Produced k n) :
    T.Lasts k (attributes n) (attributes n) (AreNodes (T.IsAttributeOf n)) :=
  lasts_plainWalk (P := T.IsAttributeOf n) IsAttributeOf.mono (lasts_firstAttribute hn)
    fun _ _ hm => lasts_nextAttribute (fun _ => hm.1) fun hi _ => (hm.mono hi).2

theorem lasts_ancestors (hn : T.Produced k n) :
    T.Lasts k (ancestors n) (ancestors n) (AreNodes T.Produced) :=
  lasts_plainWalk (P := T.Produced) Produced.mono (lasts_parent hn) fun _ _ => lasts_parent

theorem lasts_preceding (hn : T.Produced k n) :
    T.Lasts k (preceding n) (preceding n) (AreNodes T.Produced) := by
  have walk : T.Lasts k (preceding n) (preceding n)
      (AreNodes fun i m => T.Produced i n ∧ T.Produced i m) := by
    refine lasts_plainWalk (P := fun i m => T.Produced i n ∧ T.Produced i m)
      (fun h hi => ⟨h.1.mono hi, h.2.mono hi⟩) ?_ fun i m hm => ?_
    · exact (lasts_nextPreceding hn hn).mono fun _ _ _ hk ⟨same, ha⟩ =>
        ⟨same, fun m hm => ⟨hn.mono hk, ha m hm⟩⟩
    · exact (lasts_nextPreceding hm.1 hm.2).mono fun _ _ _ hk ⟨same, ha⟩ =>
        ⟨same, fun m' hm' => ⟨hm.1.mono hk, ha m' hm'⟩⟩
  exact walk.mono fun _ _ _ _ ⟨same, ha⟩ => ⟨same, fun m hm => (ha m hm).2⟩

theorem lasts_allBefore (hn : T.Produced k n) :
    T.Lasts k (allBefore n) (allBefore n) (AreNodes T.Produced) :=
  lasts_plainWalk (P := T.Produced) Produced.mono (lasts_before hn) fun _ _ => lasts_before

/-! ### Names, identifiers and entities -/

theorem lasts_elementById {id : String} (hf : T.Waits fails) :
    T.LastsOk fails k (elementById id) (elementById id) IsSame := by
  refine .await hf (fun j _ hd => ?_) fun times k' j ha hr hj => ?_
  · rw [hd, Bool.true_or]
  · dsimp only at hr ⊢
    have after : ∀ i, times i ≤ j := fun i => Nat.le_trans (ha.within i).2 hj
    cases hseen : knownElement id (T.moment (times 1)) (T.moment (times 2)) with
    | some e =>
      obtain ⟨v, hv, he⟩ := Option.bind_eq_some_iff.1 hseen
      have again : knownElement id (T.moment j) (T.moment j) = some e := by
        rw [knownElement, (T.extension (after 1)).lookup hv]
        exact (T.extension (after 2)).identifier he
      rw [again]
      exact ⟨Bool.or_true _, rfl⟩
    | none =>
      rw [hseen, Option.isSome_none, Bool.or_false] at hr
      have same : ∀ {i}, times 0 ≤ i →
          (T.moment i).names = (T.moment (times 0)).names ∧
            (T.moment i).identifiers = (T.moment (times 0)).identifiers :=
        fun hi => by rw [(T.extension hi).done hr]; exact ⟨rfl, rfl⟩
      have h01 := same (ha.sorted (Fin.zero_le 1))
      have h02 := same (ha.sorted (Fin.zero_le 2))
      have h0j := same (after 0)
      refine ⟨by rw [(T.extension (after 0)).isDone hr, Bool.true_or], ?_⟩
      rw [knownElement, h01.1, h02.2] at hseen
      rw [IsSame, knownElement, h0j.1, h0j.2, hseen]

theorem lasts_entity {name : String} (hf : T.Waits fails) :
    T.LastsOk fails k (entity name) (entity name) IsSame := by
  refine .await hf (fun j _ hd => ?_) fun times k' j ha hr hj => ?_
  · rw [hd, Bool.or_true, Bool.true_or]
  · dsimp only at hr ⊢
    have after : ∀ i, times i ≤ j := fun i => Nat.le_trans (ha.within i).2 hj
    cases hseen : (T.moment (times 2)).entities.get? name with
    | some e =>
      rw [(T.extension (after 2)).entity hseen]
      exact ⟨Bool.or_true _, rfl⟩
    | none =>
      rw [hseen, Option.isSome_none, Bool.or_false, Bool.or_eq_true] at hr
      rcases hr with hsealed | hd
      · have h02 := (T.extension (ha.sorted (Fin.zero_le 2))).closed hsealed
        have h0j := (T.extension (after 0)).closed hsealed
        rw [h02] at hseen
        rw [h0j, hsealed, hseen]
        exact ⟨rfl, rfl⟩
      · have h12 := (T.extension (ha.sorted (Fin.le_of_lt (by decide : (1 : Fin 3) < 2)))).done hd
        have h1j := (T.extension (after 1)).done hd
        rw [h12] at hseen
        constructor
        · rw [(T.extension (after 1)).isDone hd, Bool.or_true, Bool.true_or]
        · rw [IsSame, h1j]
          exact hseen

theorem lasts_entityValue {name : String} (hf : T.Waits fails) :
    T.LastsOk fails k (entityValue name) (entityValue name) IsSame := by
  apply (lasts_entity hf).bind
  intro k₁ a a' _ same
  obtain rfl := same
  exact .pure rfl

theorem lasts_elementAmong (hf : T.Waits fails) (fuel : Nat) {current : Option NodeId}
    (hc : ∀ m ∈ current, T.Produced k m) :
    T.LastsOk fails k (elementAmong fuel current) (elementAmong fuel current) T.IsNode := by
  induction fuel generalizing k current with
  | zero => exact .pure ⟨rfl, nofun⟩
  | succ fuel ih =>
    cases current with
    | none => exact .pure ⟨rfl, nofun⟩
    | some m =>
      have hm := hc m rfl
      refine (LastsOk.lift (lasts_record hm)).bind fun k₁ own own' hk₁ ⟨held, l, hl⟩ => ?_
      rw [hl, Record.kind_withLink]
      have hm₁ := hm.mono hk₁
      split
      · refine .pure ⟨rfl, fun m' hm' => ?_⟩
        obtain rfl := Option.some.inj hm'
        exact hm₁
      · refine (lasts_nextSibling hf hm₁).bind fun k₂ a a' _ ⟨same, ha⟩ => ?_
        rw [same]
        exact ih ha

theorem lasts_documentElement (hf : T.Waits fails) :
    T.LastsOk fails k documentElement documentElement T.IsNode := by
  refine (lasts_firstChild hf awaited_document).bind fun k₁ a a' _ ⟨same, ha⟩ => ?_
  rw [same]
  exact lasts_elementAmong hf indexBound ha

theorem lasts_awaitDone (hf : T.Waits fails) :
    T.LastsOk fails k awaitDone awaitDone IsSame := by
  refine .await hf (fun j _ hd => hd) fun times k' j ha hr hj => ?_
  exact ⟨(T.extension (Nat.le_trans (ha.within 0).2 hj)).isDone hr, rfl⟩

/-! ### Attributes by name -/

theorem lasts_findNamed {id : SymbolId} {nodes : List NodeId}
    (hn : ∀ m ∈ nodes, T.Produced k m) :
    T.Lasts k (findNamed id nodes) (findNamed id nodes) T.IsNode := by
  induction nodes generalizing k with
  | nil => exact .pure ⟨rfl, nofun⟩
  | cons m rest ih =>
    obtain ⟨hm, hrest⟩ := List.forall_mem_cons.1 hn
    refine .record_bind hm fun k₁ own l hk₁ held => ?_
    rw [Record.name_withLink]
    split
    · refine .pure ⟨rfl, fun m' hm' => ?_⟩
      obtain rfl := Option.some.inj hm'
      exact hm.mono hk₁
    · exact ih fun m' hm' => (hrest m' hm').mono hk₁

/-- A name that no node has is not found among the nodes. -/
theorem run_findNamed {d : Document} {id : SymbolId} {nodes : List NodeId}
    (h : ∀ m ∈ nodes, ∃ r, d.Holds m r ∧ r.name ≠ id) :
    Query.run d (findNamed id nodes) = .answer none := by
  induction nodes with
  | nil => rfl
  | cons m rest ih =>
    obtain ⟨⟨r, ⟨l, hl⟩, hne⟩, hrest⟩ := List.forall_mem_cons.1 h
    show Query.run d (Query.bind (record m) _) = _
    rw [Query.run_bind, record, run, hl]
    dsimp only [run]
    rw [Record.name_withLink, if_neg hne]
    exact ih hrest

/-- A name that gets its symbol later is not the name of a record that is there. -/
theorem name_ne_of_lookup {d d' : Document} (hd : d.WellFormed) (he : d.Extends d')
    {name : String} {id : SymbolId} (old : d.names.lookup name = none)
    (new : d'.names.lookup name = some id) (held : d.Holds n r) : r.name ≠ id := by
  rintro rfl
  obtain ⟨s, hs⟩ := Option.isSome_iff_exists.1 (held.resolves hd).name
  have same : s = name := by
    have later := he.name hs
    rw [(Symbol.Pool.lookup_eq_some_iff ..).1 new] at later
    exact (Option.some.inj later).symm
  rw [← same, (Symbol.Pool.lookup_eq_some_iff ..).2 hs] at old
  cases old

/-- The names of the attributes of an element are known when the element is there. -/
theorem lasts_attributeByName {name : String} (hn : n < (T.moment k).nodes.size) :
    T.Lasts k (attributeByName n name) (attributeByName n name) T.IsNode := by
  have produced : ∀ {i}, k ≤ i → T.Produced i n := fun hi => Produced.mono (fun _ => hn) hi
  refine Lasts.bind (R := fun k₁ a a' => a' = a ∨ a = none ∧ ∀ id, a' = some id →
    ∀ m r, (T.moment k₁).Holds m r → r.name ≠ id) (.observe fun k₁ j hk₁ hj => ?_) ?_
  · cases hseen : (T.moment k₁).names.lookup name with
    | some id => exact .inl ((T.extension hj).lookup hseen)
    | none =>
      exact .inr ⟨rfl, fun id hid m r held =>
        name_ne_of_lookup (T.wellFormed k₁) (T.extension hj) hseen hid held⟩
  · rintro k₁ a a' hk₁ (rfl | ⟨rfl, new⟩)
    · cases a' with
      | none => exact .pure ⟨rfl, nofun⟩
      | some id =>
        refine (lasts_attributes (produced hk₁)).bind fun k₂ nodes nodes' _ ⟨same, ha⟩ => ?_
        rw [same]
        exact lasts_findNamed fun m hm _ => Table.lt_size_of_kind? (ha m hm).1
    · cases a' with
      | none => exact .pure ⟨rfl, nofun⟩
      | some id =>
        -- The attributes that are there later were there already, under other names.
        intro j hj
        have hj' := Nat.le_trans hk₁ hj
        let S := still (T.moment j) (T.wellFormed j) False
        have found : S.Lasts 0 (attributes n) (attributes n) (AreNodes (S.IsAttributeOf n)) :=
          lasts_attributes fun _ => Nat.lt_of_lt_of_le hn (T.extension hj').size_le
        obtain ⟨nodes, hrun, hnodes⟩ := Fine.answer found
        obtain ⟨_, -, rfl, hnodes⟩ := hnodes 0 (Nat.le_refl _)
        refine ⟨none, ?_, rfl, nofun⟩
        show Query.run (T.moment j) (Query.bind (attributes n) _) = _
        rw [Query.run_bind, hrun]
        apply run_findNamed
        intro m hm
        have hn₁ : n < (T.moment k₁).nodes.size :=
          Nat.lt_of_lt_of_le hn (T.extension hk₁).size_le
        have hm₁ := (T.extension hj).attr hn₁ (hnodes m hm).1 (hnodes m hm).2
        obtain ⟨kind, hkind⟩ := Table.exists_kind?_iff.2 hm₁
        obtain ⟨r, hr, -⟩ := Table.exists_get?_of_kind? hkind
        have held := Document.Holds.of_get? hr
        exact ⟨r, held.mono (T.extension hj), new id rfl m r held⟩

end XmlTable.Timeline
