import XmlTable.Proofs.Timeline
import XmlTable.Query.Axes

/-!
# Answers that last

Every query on a growing document gives answers that last. A plain read is about a record, which
stays as it is up to its link, or about an attribute, which is there as soon as its element is. A
wait ends only when what it saw stays, and the queries go on without looking at a link that may
still change. The nodes that a query names on its way are nodes of the document, so that a careful
reader never makes it a mistake.
-/

namespace XmlTable.Timeline

open Node Query

variable {T : Timeline} {fails : Nat → Prop} {k k' j n : Nat} {r : Record}

/-- The node is there at a moment, at least for careful readers. -/
def Produced (T : Timeline) (k n : Nat) : Prop :=
  T.careful → n < (T.moment k).nodes.size

theorem Produced.mono (h : T.Produced k n) (hk : k ≤ j) : T.Produced j n :=
  fun hc => Nat.lt_of_lt_of_le (h hc) (T.extension hk).size_le

/-- The node is there when the document is complete, at least for careful readers. -/
def Awaited (T : Timeline) (k n : Nat) : Prop :=
  T.careful → ∀ i, k ≤ i → (T.moment i).isDone = true → n < (T.moment i).nodes.size

theorem Produced.awaited (h : T.Produced k n) : T.Awaited k n :=
  fun hc _ hi _ => h.mono hi hc

/-- A complete document has its first node. -/
theorem awaited_document : T.Awaited k documentId :=
  fun _ i _ hd => (T.wellFormed i).nonempty hd

theorem produced_of_holds (h : (T.moment k).Holds n r) : T.Produced k n :=
  fun _ => h.lt_size

theorem produced_parent {p : Nat} (h : (T.moment k).Holds n r) (hp : r.parent = some p) :
    T.Produced k p := fun _ =>
  Nat.lt_trans ((T.wellFormed k).layout.parent_lt (h.parent?.trans hp)) h.lt_size

/-- The value of an attribute or entity is there with it. -/
theorem produced_value (h : (T.moment k).Holds n r) (hv : r.kind.hasValueNode = true) :
    T.Produced k (n + 1) := fun _ =>
  Table.lt_size_of_kind? (((T.wellFormed k).layout h.kind?).value hv).1

/-- Two answers are one record, up to its link, and the node has it. -/
def IsRecord (T : Timeline) (n k : Nat) (r r' : Record) : Prop :=
  (T.moment k).Holds n r ∧ ∃ l, r' = r.withLink l

/-- Two answers are the same. -/
def IsSame {α : Type} (_ : Nat) (a a' : α) : Prop :=
  a' = a

/-- Two answers are the same, and the nodes in them have a property at the moment. -/
def AreNodes {γ : Type} [Membership Nat γ] (P : Nat → Nat → Prop) (k : Nat) (a a' : γ) : Prop :=
  a' = a ∧ ∀ m ∈ a, P k m

/-- Two answers are the same, and the node in them is there. -/
abbrev IsNode (T : Timeline) : Nat → Option NodeId → Option NodeId → Prop :=
  AreNodes T.Produced

/-- The node is an attribute of an element at a moment. -/
def IsAttributeOf (T : Timeline) (e k m : Nat) : Prop :=
  (T.moment k).nodes.kind? m = some .attr ∧ (T.moment k).nodes.parent? m = some e

theorem IsAttributeOf.mono {e m : Nat} (h : T.IsAttributeOf e k m) (hk : k ≤ j) :
    T.IsAttributeOf e j m :=
  ⟨(T.extension hk).continues.kind? h.1, (T.extension hk).continues.parent? h.2⟩

/-! ### Records -/

theorem lasts_record (hn : T.Produced k n) :
    T.Lasts k (record n) (record n) (T.IsRecord n) := by
  intro k' hk
  dsimp only
  split
  · next r hr =>
    intro j hj
    obtain ⟨l, hl⟩ := (T.extension hj).record hr
    refine ⟨r.withLink l, ?_, .of_get? hr, l, rfl⟩
    rw [record, run, hl]
    rfl
  · next hr =>
    intro hc
    obtain ⟨kind, hkind⟩ := Table.exists_kind?_iff.2 (hn.mono hk hc)
    obtain ⟨r, hr', -⟩ := Table.exists_get?_of_kind? hkind
    rw [hr] at hr'
    cases hr'

theorem lasts_awaitRecord (hf : T.Waits fails) :
    T.LastsOk fails k (awaitRecord n) (awaitRecord n) fun k' a a' =>
      match a with
      | some r => ∃ r', a' = some r' ∧ T.IsRecord n k' r r'
      | none => a' = none ∧ (T.moment k').isDone = true ∧ ¬ n < (T.moment k').nodes.size := by
  refine .await hf (fun j _ hd => ?_) fun times k' j ha hr hj => ?_
  · rw [hd, Bool.or_true]
  · dsimp only at hr ⊢
    cases hseen : (T.moment (times 1)).nodes.get? n with
    | some r =>
      obtain ⟨l, hl⟩ := (T.extension (Nat.le_trans (ha.within 1).2 hj)).record hseen
      have held := Document.Holds.of_get? hseen
      refine ⟨by rw [hl]; rfl, r.withLink l, hl, held.mono (T.extension (ha.within 1).2), l, rfl⟩
    | none =>
      rw [hseen, Option.isSome_none, Bool.false_or] at hr
      have same : ∀ {i}, times 0 ≤ i → (T.moment i).nodes = (T.moment (times 0)).nodes :=
        fun hi => by rw [(T.extension hi).done hr]
      have h01 : times 0 ≤ times 1 := ha.sorted (Fin.zero_le 1)
      have h0j : times 0 ≤ j := Nat.le_trans (ha.within 0).2 hj
      rw [same h01] at hseen
      refine ⟨?_, ?_, (T.extension (ha.within 0).2).isDone hr, ?_⟩
      · rw [(T.extension h0j).isDone hr, Bool.or_true]
      · rw [same h0j, hseen]
      · rw [same (ha.within 0).2, ← Table.isSome_get?_iff, hseen]
        exact Bool.false_ne_true

/-- What is asked about a record is asked about the same record later. -/
theorem Lasts.record_bind {α : Type} {f f' : Record → Query α} {S : Nat → α → α → Prop}
    (hn : T.Produced k n)
    (hf : ∀ k' r l, k ≤ k' → (T.moment k').Holds n r → T.Lasts k' (f r) (f' (r.withLink l)) S) :
    T.Lasts k (record n >>= f) (record n >>= f') S := by
  refine (lasts_record hn).bind fun k' r r' hk ⟨held, l, hl⟩ => ?_
  rw [hl]
  exact hf k' r l hk held

theorem lasts_startRecord (hf : T.Waits fails) (hn : T.Awaited k n) :
    T.LastsOk fails k (startRecord n) (startRecord n) (T.IsRecord n) := by
  apply (lasts_awaitRecord hf).bind
  intro k' a a' hk ha
  cases a with
  | some r =>
    obtain ⟨r', rfl, same⟩ := ha
    exact .pure same
  | none =>
    obtain ⟨rfl, hd, hlt⟩ := ha
    exact .lift (lasts_record fun hc => absurd (hn hc k' hk hd) hlt)

theorem LastsOk.startRecord_bind {α : Type} {f f' : Record → Reading α}
    {S : Nat → α → α → Prop} (hf : T.Waits fails) (hn : T.Awaited k n)
    (h : ∀ k' r l, k ≤ k' → (T.moment k').Holds n r →
      T.LastsOk fails k' (f r) (f' (r.withLink l)) S) :
    T.LastsOk fails k (startRecord n >>= f) (startRecord n >>= f') S := by
  refine (lasts_startRecord hf hn).bind fun k' r r' hk ⟨held, l, hl⟩ => ?_
  rw [hl]
  exact h k' r l hk held

/-- Whether a record is a value is a matter of its parent. -/
theorem lasts_isValueNode (held : (T.moment k).Holds n r) {l : Link} :
    T.Lasts k (isValueNode r) (isValueNode (r.withLink l)) IsSame := by
  unfold isValueNode
  rw [Record.kind_withLink, Record.parent_withLink]
  split
  · exact .pure rfl
  · split
    · next p hp =>
      refine .record_bind (produced_parent held hp) fun k' own l' _ _ => ?_
      rw [Record.kind_withLink]
      exact .pure rfl
    · exact .pure rfl

/-! ### Children and siblings -/

theorem lasts_structuralFrom (hf : T.Waits fails) (fuel : Nat) {i : Nat} :
    T.LastsOk fails k (structuralFrom fuel i) (structuralFrom fuel i) fun k' a a' =>
      match a with
      | some (m, r) => ∃ r', a' = some (m, r') ∧ T.IsRecord m k' r r'
      | none => a' = none := by
  induction fuel generalizing k i with
  | zero => exact .pure rfl
  | succ fuel ih =>
    apply (lasts_awaitRecord hf).bind
    intro k' a a' hk ha
    cases a with
    | none =>
      obtain ⟨rfl, -⟩ := ha
      exact .pure rfl
    | some found =>
      obtain ⟨_, rfl, held, l, rfl⟩ := ha
      dsimp only
      rw [Record.kind_withLink]
      split
      · exact ih
      · exact .pure ⟨_, rfl, held, l, rfl⟩

/-- A scan that asks for the parent of what it finds. -/
theorem LastsOk.structuralFrom_bind {α : Type} {i : Nat}
    {f : Option (NodeId × Record) → Reading α} {S : Nat → α → α → Prop}
    (hf : T.Waits fails)
    (some : ∀ k' m r l, k ≤ k' → (T.moment k').Holds m r →
      T.LastsOk fails k' (f (some (m, r))) (f (some (m, r.withLink l))) S)
    (none : ∀ k', k ≤ k' → T.LastsOk fails k' (f none) (f none) S) :
    T.LastsOk fails k (structuralFrom indexBound i >>= f) (structuralFrom indexBound i >>= f)
      S := by
  apply (lasts_structuralFrom hf indexBound).bind
  intro k' a a' hk ha
  cases a with
  | none =>
    obtain rfl := ha
    exact none k' hk
  | some found =>
    obtain ⟨m, r⟩ := found
    obtain ⟨_, rfl, held, l, rfl⟩ := ha
    exact some k' m r l hk held

theorem lasts_firstChild (hf : T.Waits fails) (hn : T.Awaited k n) :
    T.LastsOk fails k (firstChild n) (firstChild n) T.IsNode := by
  refine .startRecord_bind hf hn fun k₁ own l hk₁ held => ?_
  rw [Record.kind_withLink]
  split
  · next hv =>
    refine .pure ⟨rfl, fun m hm => ?_⟩
    obtain rfl := Option.some.inj hm
    exact produced_value held hv
  · split
    · exact .pure ⟨rfl, nofun⟩
    · refine .structuralFrom_bind hf (fun k₂ m r l' _ held' => ?_) fun _ _ => .pure ⟨rfl, nofun⟩
      dsimp only
      rw [Record.parent_withLink]
      split
      · refine .pure ⟨rfl, fun m' hm => ?_⟩
        obtain rfl := Option.some.inj hm
        exact produced_of_holds held'
      · exact .pure ⟨rfl, nofun⟩

/-- Only the link of a node that has one is waited for, and that is known in the end. -/
theorem lasts_awaitLink (hf : T.Waits fails) (held : (T.moment k).Holds n r)
    (hl : r.kind.isLinked = true) :
    T.LastsOk fails k (awaitLink n) (awaitLink n) T.IsNode := by
  refine .await hf (fun j hj hd => ?_) fun times k' j ha hr hj => ?_
  · have hkind := (held.mono (T.extension hj)).kind?
    have hsome := ((T.wellFormed j).linked hkind).isSome_link?
    rw [hl, Option.isSome_iff_exists] at hsome
    obtain ⟨link, hlink⟩ := hsome
    have settled := (T.wellFormed j).settled hd n
    dsimp only
    rw [hlink] at settled ⊢
    cases link with
    | pending => exact absurd rfl settled
    | last => rfl
    | next m => rfl
  · dsimp only at hr ⊢
    have hle := (ha.within 0).2
    cases hlink : (T.moment (times 0)).nodes.link? n with
    | none =>
      rw [hlink] at hr
      cases hr
    | some link =>
      cases link with
      | pending =>
        rw [hlink] at hr
        cases hr
      | last =>
        rw [(T.extension (Nat.le_trans hle hj)).link hlink nofun]
        exact ⟨rfl, rfl, nofun⟩
      | next m =>
        rw [(T.extension (Nat.le_trans hle hj)).link hlink nofun]
        refine ⟨rfl, rfl, fun m' hm => ?_⟩
        obtain rfl := Option.some.inj hm
        obtain ⟨kind, hkind⟩ := Table.exists_kind?_iff.2 (Table.lt_size_of_link? hlink)
        have next := ((T.wellFormed _).linked hkind).next hlink
        exact Produced.mono (fun _ => next.1.lt_size) hle

theorem lasts_nextSibling (hf : T.Waits fails) (hn : T.Produced k n) :
    T.LastsOk fails k (nextSibling n) (nextSibling n) T.IsNode := by
  refine .startRecord_bind hf hn.awaited fun k₁ own l hk₁ held => ?_
  rw [Record.kind_withLink]
  split
  · exact .pure ⟨rfl, nofun⟩
  · split
    · next hl => exact lasts_awaitLink hf held hl
    · apply (LastsOk.lift (lasts_isValueNode held)).bind
      intro k₂ a a' _ same
      obtain rfl := same
      split
      · exact .pure ⟨rfl, nofun⟩
      · simp only [Record.parent_withLink]
        refine .structuralFrom_bind hf (fun k₃ m r l' _ held' => ?_) fun _ _ => .pure ⟨rfl, nofun⟩
        dsimp only
        rw [Record.parent_withLink]
        split
        · refine .pure ⟨rfl, fun m' hm => ?_⟩
          obtain rfl := Option.some.inj hm
          exact produced_of_holds held'
        · exact .pure ⟨rfl, nofun⟩

/-- The node before another among its siblings. -/
theorem lasts_siblingBefore (hf : T.Waits fails) (fuel : Nat)
    {previous current : Option NodeId} (hp : ∀ m ∈ previous, T.Produced k m)
    (hc : ∀ m ∈ current, T.Produced k m) :
    T.LastsOk fails k (siblingBefore n fuel previous current)
      (siblingBefore n fuel previous current) T.IsNode := by
  induction fuel generalizing k previous current with
  | zero => exact .pure ⟨rfl, nofun⟩
  | succ fuel ih =>
    cases current with
    | none => exact .pure ⟨rfl, nofun⟩
    | some m =>
      rw [siblingBefore]
      have hm := hc m rfl
      split
      · exact .pure ⟨rfl, hp⟩
      · refine (lasts_nextSibling hf hm).bind fun k' a a' hk ⟨same, ha⟩ => ?_
        rw [same]
        refine ih (fun m' hm' => ?_) ha
        obtain rfl := Option.some.inj hm'
        exact hm.mono hk

theorem lasts_lastSibling (hf : T.Waits fails) (fuel : Nat)
    {last current : Option NodeId} (hl : ∀ m ∈ last, T.Produced k m)
    (hc : ∀ m ∈ current, T.Produced k m) :
    T.LastsOk fails k (lastSibling fuel last current) (lastSibling fuel last current)
      T.IsNode := by
  induction fuel generalizing k last current with
  | zero => exact .pure ⟨rfl, hl⟩
  | succ fuel ih =>
    cases current with
    | none => exact .pure ⟨rfl, hl⟩
    | some m =>
      have hm := hc m rfl
      refine (lasts_nextSibling hf hm).bind fun k' a a' hk ⟨same, ha⟩ => ?_
      rw [same]
      refine ih (fun m' hm' => ?_) ha
      obtain rfl := Option.some.inj hm'
      exact hm.mono hk

theorem lasts_lastChild (hf : T.Waits fails) (hn : T.Produced k n) :
    T.LastsOk fails k (lastChild n) (lastChild n) T.IsNode := by
  refine (lasts_firstChild hf hn.awaited).bind fun k' a a' hk ⟨same, ha⟩ => ?_
  rw [same]
  exact lasts_lastSibling hf indexBound nofun ha

/-! ### Attributes and entities -/

/-- An element is published with its attributes, so none is missed. -/
theorem lasts_firstAttribute (hn : T.Produced k n) :
    T.Lasts k (firstAttribute n) (firstAttribute n) (AreNodes (T.IsAttributeOf n)) := by
  refine .record_bind hn fun k₁ own l hk₁ held => ?_
  rw [Record.kind_withLink]
  split
  · exact .pure ⟨rfl, nofun⟩
  · refine Lasts.bind (R := fun k₂ a a' => match a with
      | some r => T.IsRecord (n + 1) k₂ r (a'.getD r) ∧ a'.isSome
      | none => ∀ r ∈ a', ¬ (r.kind = .attr ∧ r.parent = some n)) ?_ ?_
    · refine .observe fun k₂ j hk₂ hj => ?_
      cases hseen : (T.moment k₂).nodes.get? (n + 1) with
      | some r =>
        obtain ⟨l', hl'⟩ := (T.extension hj).record hseen
        rw [hl']
        exact ⟨⟨.of_get? hseen, l', rfl⟩, rfl⟩
      | none =>
        intro r hr ⟨hkind, hparent⟩
        have hlt := (T.extension hj).attr (held.mono (T.extension hk₂)).lt_size
          ((Table.kind?_of_get? hr).trans (congrArg _ hkind))
          ((Table.parent?_of_get? hr).trans hparent)
        rw [← Table.isSome_get?_iff, hseen] at hlt
        cases hlt
    · intro k₂ a a' hk₂ ha
      cases a with
      | some r =>
        cases a' with
        | none => cases ha.2
        | some r' =>
          obtain ⟨⟨held', l', hr'⟩, -⟩ := ha
          obtain rfl : r' = r.withLink l' := hr'
          dsimp only
          rw [Record.kind_withLink, Record.parent_withLink]
          split
          · next hattr =>
            refine .pure ⟨rfl, fun m hm => ?_⟩
            obtain rfl := Option.some.inj hm
            exact ⟨by rw [held'.kind?, hattr.1], by rw [held'.parent?, hattr.2]⟩
          · exact .pure ⟨rfl, nofun⟩
      | none =>
        cases a' with
        | none => exact .pure ⟨rfl, nofun⟩
        | some r' =>
          dsimp only
          rw [if_neg (ha r' rfl)]
          exact .pure ⟨rfl, nofun⟩

/-- The link of an attribute is known, and it leads to an attribute of the same element. -/
theorem lasts_nextAttribute {e : Nat}
    (hn : T.careful → (T.moment k).nodes.kind? n = some .attr)
    (he : ∀ {i : Nat}, k ≤ i → (T.moment i).nodes.kind? n = some .attr →
      (T.moment i).nodes.parent? n = some e) :
    T.Lasts k (nextAttribute n) (nextAttribute n) (AreNodes (T.IsAttributeOf e)) := by
  have hproduced : T.Produced k n := fun hc => Table.lt_size_of_kind? (hn hc)
  refine .record_bind hproduced fun k₁ own l hk₁ held => ?_
  dsimp only
  rw [Record.kind_withLink]
  split
  · next hkind =>
    intro hc
    have hattr := (T.extension hk₁).continues.kind? (hn hc)
    rw [held.kind?] at hattr
    exact hkind (Option.some.inj hattr)
  · next hkind =>
    have hattr : own.kind = .attr := Classical.not_not.1 hkind
    refine Lasts.bind (R := fun k₂ a a' => a' = a ∧ ∃ link, a = some link ∧ link ≠ .pending ∧
      ∀ m, link = .next m → (T.moment k₂).nodes.IsNext n m) ?_ ?_
    · refine .observe fun k₂ j hk₂ hj => ?_
      have hkind₂ := (held.mono (T.extension hk₂)).kind?
      have nodeLink := (T.wellFormed k₂).linked hkind₂
      have known := nodeLink.isSome_link?
      rw [hattr, Kind.isLinked, Option.isSome_iff_exists] at known
      obtain ⟨link, hlink⟩ := known
      have pending : link ≠ .pending := by
        rintro rfl
        exact nodeLink.attr hattr hlink
      refine ⟨?_, link, hlink, pending, fun m hm => nodeLink.next (hm ▸ hlink)⟩
      rw [hlink, (T.extension hj).link hlink pending]
    · rintro k₂ a a' hk₂ ⟨rfl, link, rfl, pending, hnext⟩
      cases link with
      | pending => exact absurd rfl pending
      | last => exact .pure ⟨rfl, fun _ hm => absurd hm (Option.not_mem_none _)⟩
      | next m =>
        refine .pure ⟨rfl, fun m' hm => ?_⟩
        obtain rfl := Option.some.inj hm
        have hkind₂ : (T.moment k₂).nodes.kind? n = some .attr := by
          rw [(held.mono (T.extension hk₂)).kind?, hattr]
        obtain ⟨-, follows⟩ := (hnext m rfl).1
        rw [hkind₂] at follows
        exact ⟨follows.1, follows.2.trans (he (Nat.le_trans hk₁ hk₂) hkind₂)⟩

theorem lasts_parent (hn : T.Produced k n) : T.Lasts k (parent n) (parent n) T.IsNode := by
  refine .record_bind hn fun k₁ own l hk₁ held => ?_
  rw [Record.parent_withLink]
  exact .pure ⟨rfl, fun p hp => produced_parent held hp⟩

theorem lasts_entityFrom (hf : T.Waits fails) (fuel : Nat) {i : Nat} :
    T.LastsOk fails k (entityFrom fuel i) (entityFrom fuel i) T.IsNode := by
  induction fuel generalizing k i with
  | zero => exact .pure ⟨rfl, nofun⟩
  | succ fuel ih =>
    apply (lasts_awaitRecord hf).bind
    intro k' a a' hk ha
    cases a with
    | none =>
      obtain ⟨rfl, -⟩ := ha
      exact .pure ⟨rfl, nofun⟩
    | some found =>
      obtain ⟨_, rfl, held, l, rfl⟩ := ha
      dsimp only
      rw [Record.kind_withLink]
      split
      · refine .pure ⟨rfl, fun m hm => ?_⟩
        obtain rfl := Option.some.inj hm
        exact produced_of_holds held
      · exact .pure ⟨rfl, nofun⟩
      · exact ih
      · exact ih

theorem lasts_firstEntity (hf : T.Waits fails) :
    T.LastsOk fails k firstEntity firstEntity T.IsNode :=
  lasts_entityFrom hf indexBound

theorem lasts_previousSibling (hf : T.Waits fails) (hn : T.Produced k n) :
    T.LastsOk fails k (previousSibling n) (previousSibling n) T.IsNode := by
  refine .startRecord_bind hf hn.awaited fun k₁ own l hk₁ held => ?_
  simp only [Record.kind_withLink, Record.parent_withLink]
  split
  · exact .pure ⟨rfl, nofun⟩
  · split
    · next owner howner =>
      refine (LastsOk.lift (lasts_firstAttribute (produced_parent held howner))).bind
        fun k₂ a a' hk₂ ⟨same, ha⟩ => ?_
      rw [same]
      exact lasts_siblingBefore hf indexBound nofun fun m hm _ => Table.lt_size_of_kind? (ha m hm).1
    · exact .pure ⟨rfl, nofun⟩
  · refine (lasts_firstEntity hf).bind fun k₂ a a' hk₂ ⟨same, ha⟩ => ?_
    rw [same]
    exact lasts_siblingBefore hf indexBound nofun ha
  · apply (LastsOk.lift (lasts_isValueNode held)).bind
    intro k₂ a a' hk₂ same
    obtain rfl := same
    split
    · exact .pure ⟨rfl, nofun⟩
    · split
      · next p hp =>
        have hp₂ := (produced_parent held hp).mono hk₂
        refine (lasts_firstChild hf hp₂.awaited).bind fun k₃ a a' hk₃ ⟨same, ha⟩ => ?_
        rw [same]
        exact lasts_siblingBefore hf indexBound nofun ha
      · exact .pure ⟨rfl, nofun⟩

/-! ### Ancestors and document order -/

theorem lasts_isOnPath {ancestor : Nat} (fuel : Nat) {current : Option NodeId}
    (hc : ∀ m ∈ current, T.Produced k m) :
    T.Lasts k (isOnPath ancestor fuel current) (isOnPath ancestor fuel current) IsSame := by
  induction fuel generalizing k current with
  | zero => exact .pure rfl
  | succ fuel ih =>
    cases current with
    | none => exact .pure rfl
    | some m =>
      rw [isOnPath]
      split
      · exact .pure rfl
      · split
        · exact .pure rfl
        · refine .record_bind (hc m rfl) fun k₁ own l hk₁ held => ?_
          rw [Record.parent_withLink]
          exact ih fun p hp => produced_parent held hp

theorem lasts_isAncestor {ancestor : Nat} (hn : T.Produced k n) :
    T.Lasts k (isAncestor ancestor n) (isAncestor ancestor n) IsSame := by
  unfold isAncestor
  split
  · exact .pure rfl
  · refine .record_bind hn fun k₁ own l hk₁ held => ?_
    rw [Record.parent_withLink]
    exact lasts_isOnPath n fun p hp => produced_parent held hp

theorem lasts_scanStart (hf : T.Waits fails) (hn : T.Produced k n) :
    T.LastsOk fails k (scanStart n) (scanStart n) IsSame := by
  refine .startRecord_bind hf hn.awaited fun k₁ own l hk₁ held => ?_
  rw [Record.kind_withLink]
  split
  · exact .pure rfl
  · exact .pure rfl

theorem lasts_nextDescendant {root : Nat} (hf : T.Waits fails)
    (hn : T.Produced k n) :
    T.LastsOk fails k (nextDescendant root n) (nextDescendant root n) T.IsNode := by
  apply (lasts_scanStart hf hn).bind
  intro k₁ a a' _ same
  obtain rfl := same
  refine .structuralFrom_bind hf (fun k₂ m r l _ held => ?_) fun _ _ => .pure ⟨rfl, nofun⟩
  have hm := produced_of_holds held
  apply (LastsOk.lift (lasts_isAncestor hm)).bind
  intro k₃ b b' hk₃ same
  obtain rfl := same
  refine .pure ⟨rfl, fun m' hm' => ?_⟩
  split at hm'
  · obtain rfl := Option.some.inj hm'
    exact hm.mono hk₃
  · cases hm'

theorem lasts_outsideFrom {context : Nat} (hf : T.Waits fails) (fuel : Nat)
    {i : Nat} :
    T.LastsOk fails k (outsideFrom context fuel i) (outsideFrom context fuel i) T.IsNode := by
  induction fuel generalizing k i with
  | zero => exact .pure ⟨rfl, nofun⟩
  | succ fuel ih =>
    refine .structuralFrom_bind hf (fun k₁ m r l _ held => ?_) fun _ _ => .pure ⟨rfl, nofun⟩
    have hm := produced_of_holds held
    apply (LastsOk.lift (lasts_isAncestor hm)).bind
    intro k₂ b b' hk₂ same
    obtain rfl := same
    split
    · exact ih
    · refine .pure ⟨rfl, fun m' hm' => ?_⟩
      obtain rfl := Option.some.inj hm'
      exact hm.mono hk₂

theorem lasts_nextFollowing {context : Nat} (hf : T.Waits fails)
    (hn : T.Produced k n) :
    T.LastsOk fails k (nextFollowing context n) (nextFollowing context n) T.IsNode := by
  apply (lasts_scanStart hf hn).bind
  intro k₁ a a' _ same
  obtain rfl := same
  exact lasts_outsideFrom hf indexBound

theorem lasts_isStructural (held : (T.moment k).Holds n r) {l : Link} :
    T.Lasts k (isStructural r) (isStructural (r.withLink l)) IsSame := by
  unfold isStructural
  rw [Record.kind_withLink]
  split
  · exact .pure rfl
  · apply (lasts_isValueNode held).bind
    intro k₁ a a' _ same
    obtain rfl := same
    exact .pure rfl

theorem lasts_nextPreceding {context : Nat} (hcontext : T.Produced k context)
    (hn : T.Produced k n) :
    T.Lasts k (nextPreceding context n) (nextPreceding context n) T.IsNode := by
  -- The search goes down one node at a time, past the nodes 1 and 0.
  induction n using Nat.strongRecOn generalizing k with
  | ind n ih =>
    match n with
    | 0 | 1 => exact .pure ⟨rfl, nofun⟩
    | i + 2 =>
      have hi : T.Produced k (i + 1) := fun hc => Nat.lt_of_succ_lt (hn hc)
      refine .record_bind hi fun k₁ own l hk₁ held => ?_
      apply (lasts_isStructural held).bind
      intro k₂ a a' hk₂ same
      obtain rfl := same
      have hk := Nat.le_trans hk₁ hk₂
      split
      · exact ih _ (Nat.lt_succ_self _) (hcontext.mono hk) (hi.mono hk)
      · apply (lasts_isAncestor (hcontext.mono hk)).bind
        intro k₃ b b' hk₃ same
        obtain rfl := same
        split
        · exact ih _ (Nat.lt_succ_self _) (hcontext.mono (Nat.le_trans hk hk₃))
            (hi.mono (Nat.le_trans hk hk₃))
        · refine .pure ⟨rfl, fun m hm => ?_⟩
          obtain rfl := Option.some.inj hm
          exact hi.mono (Nat.le_trans hk hk₃)

theorem lasts_before (hn : T.Produced k n) : T.Lasts k (before n) (before n) T.IsNode := by
  induction n generalizing k with
  | zero => exact .pure ⟨rfl, nofun⟩
  | succ i ih =>
    have hi : T.Produced k i := fun hc => Nat.lt_of_succ_lt (hn hc)
    refine .record_bind hi fun k₁ own l hk₁ held => ?_
    apply (lasts_isStructural held).bind
    intro k₂ a a' hk₂ same
    obtain rfl := same
    have hi₂ := hi.mono (Nat.le_trans hk₁ hk₂)
    split
    · refine .pure ⟨rfl, fun m hm => ?_⟩
      obtain rfl := Option.some.inj hm
      exact hi₂
    · exact ih hi₂

end XmlTable.Timeline
