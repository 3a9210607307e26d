import XmlTable.Proofs.Lookups

/-!
# Properties that last

The strings of a record are stored before the record is published, and symbols keep their strings.
So what a node is called and what it holds is known as soon as the node is there.
-/

namespace XmlTable

open Node Query

/-! ### The strings of a record -/

namespace Document

variable {d d' : Document} {n : Nat} {r : Record}

theorem Holds.name_eq (h : d.Holds n r) (hd : d.WellFormed) (he : d.Extends d') :
    d'.name r.name = d.name r.name := by
  obtain ⟨s, hs⟩ := Option.isSome_iff_exists.1 (h.resolves hd).name
  rw [name, name, hs, he.name hs]

/-- A record without a link has a payload. -/
theorem Holds.exists_payload (h : d.Holds n r) (hd : d.WellFormed)
    (hk : r.kind.isLinked = false) : ∃ s, r.link = .payload s := by
  have unlinked := (hd.linked h.kind?).isSome_link?
  obtain ⟨l, hl⟩ := h
  rw [Table.link?_of_get? hl, hk] at unlinked
  cases hr : r.link with
  | payload s => exact ⟨s, rfl⟩
  | sibling l' =>
    rw [Record.withLink, hr] at unlinked
    cases unlinked

theorem Holds.text_eq (h : d.Holds n r) (hd : d.WellFormed) (he : d.Extends d')
    (hk : r.kind.isLinked = false) (hne : r.kind ≠ .document) :
    d'.text r.payload = d.text r.payload := by
  obtain ⟨p, hp⟩ := h.exists_payload hd hk
  have same : r.payload = p := by rw [Record.payload, hp]
  obtain ⟨s, hs⟩ := Option.isSome_iff_exists.1 ((h.resolves hd).payload hne p hp)
  rw [same, text, text, Symbol.Store.get, Symbol.Store.get, hs, he.text hs]

theorem Holds.namespaceUri?_eq (h : d.Holds n r) (hd : d.WellFormed) (he : d.Extends d') :
    d'.namespaceUri? r.namespaceId = d.namespaceUri? r.namespaceId := by
  by_cases h0 : r.namespaceId = 0
  · rw [namespaceUri?, namespaceUri?, if_pos h0, if_pos h0]
  · obtain ⟨s, hs⟩ := Option.isSome_iff_exists.1 ((h.resolves hd).namespaceId h0)
    rw [namespaceUri?, namespaceUri?, if_neg h0, if_neg h0, hs, he.namespaceUri hs]

end Document

namespace Timeline

variable {T : Timeline} {fails : Nat → Prop} {k k' j n : Nat} {r : Record}

theorem lasts_name (held : (T.moment k).Holds n r) :
    T.Lasts k (observe (·.name r.name)) (observe (·.name r.name)) IsSame :=
  .observe fun k' _ hk hj =>
    (held.mono (T.extension hk)).name_eq (T.wellFormed k') (T.extension hj)

theorem lasts_text (held : (T.moment k).Holds n r) (hk : r.kind.isLinked = false)
    (hne : r.kind ≠ .document) :
    T.Lasts k (observe (·.text r.payload)) (observe (·.text r.payload)) IsSame :=
  .observe fun k' _ hk' hj =>
    (held.mono (T.extension hk')).text_eq (T.wellFormed k') (T.extension hj) hk hne

theorem lasts_namespace (held : (T.moment k).Holds n r) :
    T.Lasts k (observe (·.namespaceUri? r.namespaceId)) (observe (·.namespaceUri? r.namespaceId))
      IsSame :=
  .observe fun k' _ hk hj =>
    (held.mono (T.extension hk)).namespaceUri?_eq (T.wellFormed k') (T.extension hj)

/-! ### Names and values -/

theorem lasts_kind (hn : T.Produced k n) :
    T.Lasts k (Query.kind n) (Query.kind n) IsSame := by
  refine .record_bind hn fun k₁ own l _ _ => ?_
  rw [Record.kind_withLink]
  exact .pure rfl

theorem lasts_nodeName (hn : T.Produced k n) :
    T.Lasts k (nodeName n) (nodeName n) IsSame := by
  refine .record_bind hn fun k₁ own l _ held => ?_
  simp only [Record.kind_withLink, Record.flags_withLink, Record.name_withLink]
  split
  · exact .pure rfl
  · exact .pure rfl
  · exact .pure rfl
  · exact lasts_name held

theorem lasts_localName (hn : T.Produced k n) :
    T.Lasts k (localName n) (localName n) IsSame := by
  refine .record_bind hn fun k₁ own l _ held => ?_
  simp only [Record.kind_withLink, Record.name_withLink]
  have tail : T.Lasts k₁ (do return QName.tail (← observe (·.name own.name)))
      (do return QName.tail (← observe (·.name own.name))) IsSame :=
    (lasts_name held).bind fun k₂ a a' _ same => by
      obtain rfl := same
      exact .pure rfl
  split
  · exact tail
  · exact tail
  · exact lasts_name held
  · exact lasts_name held
  · exact lasts_name held
  · exact .pure rfl
  · exact .pure rfl
  · exact .pure rfl

theorem lasts_namePrefix (hn : T.Produced k n) :
    T.Lasts k (namePrefix? n) (namePrefix? n) IsSame := by
  refine .record_bind hn fun k₁ own l _ held => ?_
  simp only [Record.kind_withLink, Record.name_withLink]
  have lead : T.Lasts k₁ (do
        let lead := QName.lead (← observe (·.name own.name))
        return if lead.isEmpty then none else some lead)
      (do
        let lead := QName.lead (← observe (·.name own.name))
        return if lead.isEmpty then none else some lead) IsSame :=
    (lasts_name held).bind fun k₂ a a' _ same => by
      obtain rfl := same
      exact .pure rfl
  split
  · exact lead
  · exact lead
  · exact .pure rfl

theorem lasts_nodeValue (hn : T.Produced k n) :
    T.Lasts k (nodeValue? n) (nodeValue? n) IsSame := by
  refine .record_bind hn fun k₁ own l _ held => ?_
  simp only [Record.kind_withLink, Record.payload_withLink]
  have text : ∀ {i m : Nat} {r : Record}, (T.moment i).Holds m r → r.kind.isLinked = false →
      r.kind ≠ .document → T.Lasts i (do return some (← observe (·.text r.payload)))
        (do return some (← observe (·.text r.payload))) IsSame :=
    fun held hk hne => (lasts_text held hk hne).bind fun _ a a' _ same => by
      obtain rfl := same
      exact .pure rfl
  have value : own.kind.hasValueNode = true → T.Lasts k₁
      (do let value ← record (n + 1); return some (← observe (·.text value.payload)))
      (do let value ← record (n + 1); return some (← observe (·.text value.payload))) IsSame := by
    intro hv
    refine .record_bind (produced_value held hv) fun k₂ own' l' hk₂ held' => ?_
    have hkind := ((T.wellFormed k₂).layout (held.mono (T.extension hk₂)).kind?).value hv
    rw [held'.kind?] at hkind
    have hkind := Option.some.inj hkind.1
    simp only [Record.payload_withLink]
    exact text held' (by rw [hkind]; rfl) (by rw [hkind]; exact nofun)
  cases hkind : own.kind with
  | text => exact text held (by rw [hkind]; rfl) (by rw [hkind]; exact nofun)
  | comment => exact text held (by rw [hkind]; rfl) (by rw [hkind]; exact nofun)
  | instruction => exact text held (by rw [hkind]; rfl) (by rw [hkind]; exact nofun)
  | attr => exact value (by rw [hkind]; rfl)
  | entity => exact value (by rw [hkind]; rfl)
  | document => exact .pure rfl
  | element => exact .pure rfl
  | reference => exact .pure rfl

theorem lasts_namespaceUri (hn : T.Produced k n) :
    T.Lasts k (namespaceUri? n) (namespaceUri? n) IsSame := by
  refine .record_bind hn fun k₁ own l _ held => ?_
  simp only [Record.kind_withLink, Record.namespaceId_withLink]
  split
  · exact lasts_namespace held
  · exact lasts_namespace held
  · exact .pure rfl

/-- A question about the kind and the flags of a record. -/
theorem lasts_flags {f : Kind → TextFlags → Bool} (hn : T.Produced k n) :
    T.Lasts k (do let own ← record n; return f own.kind own.flags)
      (do let own ← record n; return f own.kind own.flags) IsSame := by
  refine .record_bind hn fun k₁ own l _ _ => ?_
  rw [Record.kind_withLink, Record.flags_withLink]
  exact .pure rfl

theorem lasts_isIgnorable (hn : T.Produced k n) :
    T.Lasts k (isIgnorable n) (isIgnorable n) IsSame :=
  lasts_flags (f := fun kind flags => kind = .text && flags.ignorable) hn

theorem lasts_isCData (hn : T.Produced k n) :
    T.Lasts k (isCData n) (isCData n) IsSame :=
  lasts_flags (f := fun kind flags => kind = .text && flags.cdata) hn

/-! ### String values -/

theorem lasts_textBelow {root : Nat} (hf : T.Waits fails) (fuel : Nat) {before : String}
    (hn : T.Produced k n) :
    T.LastsOk fails k (textBelow root fuel before n) (textBelow root fuel before n) IsSame := by
  induction fuel generalizing k before n with
  | zero => exact .pure rfl
  | succ fuel ih =>
    refine (lasts_nextDescendant hf hn).bind fun k₁ a a' hk₁ ⟨same, ha⟩ => ?_
    rw [same]
    cases a with
    | none => exact .pure rfl
    | some m =>
      have hm := ha m rfl
      refine (LastsOk.lift (lasts_record hm)).bind fun k₂ own own' hk₂ ⟨held, l, hl⟩ => ?_
      rw [hl, Record.kind_withLink, Record.payload_withLink]
      have hm₂ := hm.mono hk₂
      split
      · next hkind =>
        have observed := lasts_text held (by rw [hkind]; rfl) (by rw [hkind]; exact nofun)
        apply (LastsOk.lift observed).bind
        intro k₃ text text' hk₃ same
        obtain rfl := same
        exact ih (hm₂.mono hk₃)
      · exact ih hm₂

theorem lasts_stringValue (hf : T.Waits fails) (hn : T.Produced k n) :
    T.LastsOk fails k (stringValue n) (stringValue n) IsSame := by
  refine .startRecord_bind hf hn.awaited fun k₁ own l hk₁ held => ?_
  simp only [Record.kind_withLink, Record.name_withLink]
  have hn₁ := hn.mono hk₁
  split
  · exact lasts_textBelow hf indexBound hn₁
  · exact lasts_textBelow hf indexBound hn₁
  · apply (LastsOk.lift (lasts_name held)).bind
    intro k₂ name name' _ same
    obtain rfl := same
    apply (lasts_entity hf).bind
    intro k₃ a a' _ same
    obtain rfl := same
    exact .pure rfl
  · apply (LastsOk.lift (lasts_nodeValue hn₁)).bind
    intro k₂ a a' _ same
    obtain rfl := same
    exact .pure rfl

end Timeline

end XmlTable
