import XmlTable.Proofs.Reading
import XmlTable.Proofs.Shape
import XmlTable.Proofs.SiblingLinks

/-!
# Texts are in normal form

Characters are held back until they are complete, so that what is between two tags becomes one text
node. A text node in an element is therefore not empty, no text node comes right after another one,
and the document node has none. The first two rest on what is held back, which is never empty, and
on the last child of the node at hand: when characters are appended it is no text, because after
each text something else was appended, an element was ended or the construction failed.
-/

namespace XmlTable

open Node

/-! ### Documents -/

namespace Document

variable {d d' : Document} {n m p c : Nat}

/-- The texts in a document are in normal form. -/
structure NormalTexts (d : Document) : Prop where
  /-- A text in an element is not empty. -/
  nonempty : ∀ {n p : Nat} {r : Record} {text : String}, d.Holds n r → r.kind = .text →
    r.parent = some p → d.nodes.kind? p = some .element → d.texts.resolve r.payload = some text →
    text ≠ ""
  /-- No text comes right after another one. -/
  apart : ∀ {n m : Nat}, d.nodes.IsNext n m → d.nodes.kind? n = some .text →
    d.nodes.kind? m ≠ some .text
  /-- The document node has no text. -/
  outside : ∀ {n : Nat}, d.nodes.kind? n = some .text → d.nodes.parent? n ≠ some documentId

/-- What is true of a document was true of it before. -/
theorem NormalTexts.of_extends (h : d'.NormalTexts) (he : d.Extends d') (hd : d.WellFormed) :
    d.NormalTexts where
  nonempty held hk hp hpk hs :=
    h.nonempty (held.mono he) hk hp (he.continues.kind? hpk) (he.text hs)
  apart next hn hm :=
    h.apart (next.mono hd.layout he.continues) (he.continues.kind? hn) (he.continues.kind? hm)
  outside hn hp := h.outside (he.continues.kind? hn) (he.continues.parent? hp)

/-- Nothing but nodes and texts matters. -/
theorem NormalTexts.of_same (h : d.NormalTexts) (nodes : d'.nodes = d.nodes)
    (texts : d'.texts = d.texts) : d'.NormalTexts where
  nonempty {n p r text} held := by
    have held : d.Holds n r := by rwa [Holds, nodes] at held
    rw [nodes, texts]
    exact h.nonempty held
  apart := by
    rw [nodes]
    exact h.apart
  outside := by
    rw [nodes]
    exact h.outside

/-- The payload of a record without a link is a string, unless it is the document node. -/
theorem Holds.isSome_payload {r : Record} (h : d.Holds n r) (hd : d.WellFormed)
    (plain : r.kind.isLinked = false) (hne : r.kind ≠ .document) :
    (d.texts.resolve r.payload).isSome := by
  have resolves := h.resolves hd
  obtain ⟨l, hl⟩ := h
  have unlinked := (hd.linked (Table.kind?_of_get? hl)).isSome_link?
  rw [Table.link?_of_get? hl, Record.kind_withLink, plain] at unlinked
  rcases r with ⟨_, _, _, _, link, _⟩
  cases link with
  | sibling => cases unlinked
  | payload symbol => exact resolves.payload hne symbol rfl

/-- A text below the document or an element is part of the tree. -/
theorem isStructural_of_text (hk : d.nodes.kind? n = some .text)
    (hp : d.nodes.parent? n = some p) {k : Kind} (hpk : d.nodes.kind? p = some k)
    (plain : k.hasValueNode = false) : d.nodes.IsStructural n := by
  refine ⟨⟨_, hk, rfl⟩, ?_⟩
  rintro ⟨-, q, kq, hq, hkq, hv⟩
  obtain rfl := Option.some.inj (hp.symm.trans hq)
  obtain rfl := Option.some.inj (hpk.symm.trans hkq)
  cases plain.symm.trans hv

/-- A document grew, and among the new nodes only the first may be a text in the tree, which then
is what was held back for the node `c`. -/
structure AddsText (held : Option (String × TextFlags)) (c : Nat) (d d' : Document) : Prop where
  /-- The document grew. -/
  extension : d.Extends d'
  /-- The new text. -/
  text : ∀ {n : Nat}, d.nodes.size ≤ n → d'.nodes.kind? n = some .text →
    d'.nodes.IsStructural n → n = d.nodes.size ∧ ∃ text flags payload, held = some (text, flags) ∧
      d'.Holds n (.leaf .text flags c payload 0) ∧ d'.texts.resolve payload = some text

namespace AddsText

variable {held : Option (String × TextFlags)}

theorem refl (d : Document) : AddsText held c d d where
  extension := .refl d
  text hn hk _ := absurd (Table.lt_size_of_kind? hk) (Nat.not_lt.2 hn)

/-- What is appended later adds no text if it adds no nodes. -/
theorem trans_size {d'' : Document} (h : AddsText held c d d') (he : d'.Extends d'')
    (size : d''.nodes.size = d'.nodes.size) (hd : d'.WellFormed) : AddsText held c d d'' where
  extension := h.extension.trans he
  text {n} hn hk structural := by
    have hlt : n < d'.nodes.size := size ▸ Table.lt_size_of_kind? hk
    rw [(he.continues n hlt).1] at hk
    obtain ⟨same, text, flags, payload, kept, holds, hs⟩ :=
      h.text hn hk ((he.continues.isStructural_iff hd.layout hlt).1 structural)
    exact ⟨same, text, flags, payload, kept, holds.mono he, he.text hs⟩

/-- A text that comes right before one that is added was the last child. -/
theorem isLastChild (h : AddsText held c d d') (hd : d.WellFormed) {m : Nat}
    (next : d'.nodes.IsNext n m) (hn : d'.nodes.kind? n = some .text)
    (hm : d'.nodes.kind? m = some .text) (new : d.nodes.size ≤ m) :
    d.nodes.IsLastChild c n ∧ d.nodes.kind? n = some .text := by
  have order := next.1.1
  obtain ⟨structural, hp⟩ : d'.nodes.IsStructural m ∧
      d'.nodes.parent? m = d'.nodes.parent? n := by
    have follows := next.1.2
    rwa [hn] at follows
  obtain ⟨rfl, text, flags, payload, -, holds, -⟩ := h.text new hm structural
  have hpm : d'.nodes.parent? d.nodes.size = some c := holds.parent?
  rw [hpm] at hp
  have notValue : ¬ d'.nodes.IsValue n := by
    rintro ⟨-, q, k, hq, hkq, hv⟩
    obtain rfl := Option.some.inj (hp.trans hq)
    exact structural.2 ⟨hm, c, k, hpm, hkq, hv⟩
  have child' : d'.nodes.IsChild c n := ⟨⟨⟨_, hn, rfl⟩, notValue⟩, hp.symm⟩
  have child := (h.extension.continues.isChild_iff hd.layout order).1 child'
  refine ⟨⟨child, fun q hq => Nat.le_of_not_lt fun hnq => ?_⟩,
    by rwa [(h.extension.continues n order).1] at hn⟩
  have hq' := (h.extension.continues.isChild_iff hd.layout hq.1.lt_size).2 hq
  have := next.2 q ((child'.follows_iff).2 ⟨hnq, hq'⟩)
  exact absurd hq.1.lt_size (Nat.not_lt.2 this)

/-- Texts stay in normal form if what was held back is no empty text and is put after something
else, below an element. -/
theorem normalTexts (h : AddsText held c d d') (hd : d.WellFormed) (hd' : d'.WellFormed)
    (texts : d.NormalTexts) (inside : ∀ {text flags}, held = some (text, flags) →
      text ≠ "" ∧ c ≠ documentId)
    (last : ∀ n, d.nodes.IsLastChild c n → d.nodes.kind? n ≠ some .text) : d'.NormalTexts where
  nonempty {n p r text} holds hk hp hpk hs := by
    have kind : d'.nodes.kind? n = some .text := holds.kind?.trans (congrArg _ hk)
    by_cases hn : n < d.nodes.size
    · have before := holds.of_extends h.extension hn
      have hpn : p < n := hd'.layout.parent_lt (holds.parent?.trans hp)
      rw [(h.extension.continues p (Nat.lt_trans hpn hn)).1] at hpk
      have known := before.isSome_payload hd (by rw [hk]; rfl) (by rw [hk]; nofun)
      exact texts.nonempty before hk hp hpk (text_of_extends h.extension hs known)
    · obtain ⟨-, text', flags, payload, kept, holds', hs'⟩ := h.text (Nat.le_of_not_lt hn) kind
        (isStructural_of_text kind (holds.parent?.trans hp) hpk rfl)
      have same : r.payload = payload := by
        obtain ⟨l, hl⟩ := holds
        obtain ⟨l', hl'⟩ := holds'
        have := congrArg Record.payload (Option.some.inj (hl.symm.trans hl'))
        rwa [Record.payload_withLink, Record.payload_withLink] at this
      rw [same, hs'] at hs
      obtain rfl := Option.some.inj hs
      exact (inside kept).1
  apart {n m} next hn hm := by
    by_cases hlt : m < d.nodes.size
    · rw [(h.extension.continues n (Nat.lt_trans next.1.1 hlt)).1] at hn
      rw [(h.extension.continues m hlt).1] at hm
      refine texts.apart ⟨(h.extension.continues.follows_iff hd.layout hlt).1 next.1,
        fun q follows => ?_⟩ hn hm
      exact next.2 q ((h.extension.continues.follows_iff hd.layout follows.lt_size).2 follows)
    · obtain ⟨child, text⟩ := h.isLastChild hd next hn hm (Nat.le_of_not_lt hlt)
      exact last n child text
  outside {n} hk hp := by
    by_cases hn : n < d.nodes.size
    · rw [(h.extension.continues n hn).1] at hk
      rw [(h.extension.continues n hn).2] at hp
      exact texts.outside hk hp
    · have nonempty : 0 < d'.nodes.size := Nat.zero_lt_of_lt (Table.lt_size_of_kind? hk)
      obtain ⟨-, _, _, _, kept, holds, -⟩ := h.text (Nat.le_of_not_lt hn) hk
        (isStructural_of_text hk hp (hd'.layout.kind?_zero nonempty) rfl)
      exact (inside kept).2 (Option.some.inj (holds.parent?.symm.trans hp))

end AddsText

end Document

namespace Builder

variable {config : Config} {s s' : Builder × Journal}

/-! ### What an event adds -/

/-- Of what is appended after the characters held back nothing is a text in the tree. -/
theorem Adds.addsText {uris : List String} {texts rest : List Record}
    (h : Adds config uris (texts ++ rest) s s')
    (text : TextRecords s'.1.document s.1.cursor s.1.held texts)
    (plain : ∀ {n : Nat}, s.1.document.nodes.size + texts.length ≤ n →
      s'.1.document.nodes.kind? n = some .text → ¬ s'.1.document.nodes.IsStructural n) :
    Document.AddsText s.1.pending s.1.cursor s.1.document s'.1.document where
  extension := h.keeps.extension
  text {n} hn hk structural := by
    have hlt : n < s.1.document.nodes.size + texts.length :=
      Nat.lt_of_not_le fun hle => plain hle hk structural
    cases kept : s.1.held with
    | none =>
      rw [kept] at text
      obtain rfl : texts = [] := text
      exact absurd hlt (Nat.not_lt.2 hn)
    | some content =>
      rw [kept] at text
      obtain ⟨payload, rfl, hs⟩ := text
      obtain rfl : n = s.1.document.nodes.size := by
        rw [List.length_singleton] at hlt
        omega
      have holds := h.holds_left (i := 0) rfl
      exact ⟨rfl, content.1, content.2, payload, (Option.filter_eq_some_iff.1 kept).1, holds, hs⟩

theorem Flushes.addsText {texts own : List Record} (h : Flushes config texts own s s')
    (plain : ∀ {n : Nat}, s.1.document.nodes.size + texts.length ≤ n →
      s'.1.document.nodes.kind? n = some .text → ¬ s'.1.document.nodes.IsStructural n) :
    Document.AddsText s.1.pending s.1.cursor s.1.document s'.1.document :=
  h.adds.addsText h.text plain

/-- The leaf that an event stands for is no text. -/
theorem LeafRecord.kind {d : Document} {c : Nat} {event : Event} {own : Record}
    (h : LeafRecord d c event own) :
    own.kind ≠ .text ∧ own.kind.hasValueNode = false ∧ own.parent = some c := by
  cases h <;> exact ⟨nofun, rfl, rfl⟩

theorem AddsLeaf.addsText {event : Event} (h : AddsLeaf config event s s') :
    Document.AddsText s.1.pending s.1.cursor s.1.document s'.1.document := by
  obtain ⟨texts, own, flushes, leaf⟩ := h
  refine flushes.addsText fun {n} hn hk _ => leaf.kind.1 ?_
  have hlt := flushes.adds.lt_of_kind? hk
  rw [List.length_append, List.length_singleton] at hlt
  obtain rfl : n = s.1.document.nodes.size + texts.length := by omega
  have holds := flushes.adds.holds_right (i := 0) (r := own) rfl
  exact Option.some.inj (holds.kind?.symm.trans hk)

/-- Nothing comes after characters that are appended alone. -/
theorem Flushes.nothing_after {texts : List Record} (h : Flushes config texts [] s s') {n : Nat}
    (hn : s.1.document.nodes.size + texts.length ≤ n) : ¬ s'.1.document.nodes.IsStructural n := by
  intro structural
  have hlt := structural.lt_size
  rw [h.adds.size, List.append_nil] at hlt
  omega

/-- Neither an entity nor its value is part of the tree. -/
theorem Flushes.not_isStructural {texts own : List Record} {name value : String}
    (h : Flushes config texts own s s')
    (records : EntityRecords s'.1.document (s.1.document.nodes.size + texts.length) name value own)
    {n : Nat} (hn : s.1.document.nodes.size + texts.length ≤ n) :
    ¬ s'.1.document.nodes.IsStructural n := by
  intro structural
  obtain ⟨id, payload, rfl, -⟩ := records
  have entity := h.adds.holds_right (i := 0) rfl
  have value := h.adds.holds_right (i := 1) rfl
  have hlt := structural.lt_size
  simp only [h.adds.size, List.length_append, List.length_cons, List.length_nil] at hlt
  rcases Nat.eq_or_lt_of_le hn with rfl | hlt'
  · obtain ⟨⟨k, hk, plain⟩, -⟩ := structural
    obtain rfl := Option.some.inj (entity.kind?.symm.trans hk)
    cases plain
  · obtain rfl : n = s.1.document.nodes.size + texts.length + 1 := by omega
    exact structural.2 ⟨value.kind?, _, _, value.parent?, entity.kind?, rfl⟩

theorem DeclaresEntity.addsText {name value : String}
    (h : DeclaresEntity config name value s s') :
    Document.AddsText s.1.pending s.1.cursor s.1.document s'.1.document := by
  cases h with
  | known flushes => exact flushes.addsText fun hn _ => flushes.nothing_after hn
  | new flushes _ records => exact flushes.addsText fun hn _ => flushes.not_isStructural records hn

theorem StartsElement.addsText {name : String} {attributes : List Event.Attribute}
    {texts : List Record} {own : Record} {stored : List StoredAttribute}
    (h : StartsElement config name attributes texts own stored s s') :
    Document.AddsText s.1.pending s.1.cursor s.1.document s'.1.document := by
  refine h.adds.addsText h.text fun {n} hn hk => ?_
  rw [← h.cursor] at hn
  rcases Nat.eq_or_lt_of_le hn with rfl | hlt
  · cases (h.eq_cursor_iff _).1 rfl |>.2.symm.trans hk
  · refine h.attributesAt.not_isStructural hlt ?_
    rw [List.length_map, h.next_eq]
    exact Table.lt_size_of_kind? hk

theorem Refuses.addsText (h : Refuses config s s') :
    Document.AddsText s.1.pending s.1.cursor s.1.document s'.1.document := by
  rcases h with rfl | ⟨-, h⟩
  · exact .refl _
  · obtain ⟨uris, texts, adds, text⟩ := h.adds
    have nothing : ∀ {n : Nat}, s.1.document.nodes.size + texts.length ≤ n →
        s'.1.document.nodes.kind? n = some .text → ¬ s'.1.document.nodes.IsStructural n :=
      fun hn hk => absurd (adds.lt_of_kind? hk) (Nat.not_lt.2 hn)
    rcases text with rfl | text
    · exact ⟨adds.keeps.extension, fun hn hk structural => absurd structural (nothing hn hk)⟩
    · have adds : Adds config uris (texts ++ []) s s' := by rwa [List.append_nil]
      exact adds.addsText text nothing

/-! ### Runs -/

/-- While content is accepted, what is held back is no empty text and stands in an element, and the
last child of the node at hand is no text. -/
structure HoldsText (b : Builder) : Prop where
  /-- What is held back. -/
  pending : ∀ {text flags}, b.pending = some (text, flags) → text ≠ "" ∧ b.cursor ≠ documentId
  /-- The last child. -/
  last : ∀ n, b.document.nodes.IsLastChild b.cursor n → b.document.nodes.kind? n ≠ some .text

/-- The texts of a document are in normal form, and stay so whatever comes. -/
structure IsNormal (b : Builder) : Prop where
  /-- The texts of the document. -/
  texts : b.document.NormalTexts
  /-- What comes. -/
  holds : b.stage = .documentOpen → b.HoldsText

theorem IsNormal.addsText (h : s.1.IsNormal) (hs : s.1.Open config) (hs' : s'.1.Sound config)
    (adds : Document.AddsText s.1.pending s.1.cursor s.1.document s'.1.document) :
    s'.1.document.NormalTexts :=
  adds.normalTexts hs.sound.wellFormed hs'.wellFormed h.texts
    (h.holds hs.open_stage).pending (h.holds hs.open_stage).last

/-- A failure leaves the nodes as they are, and ends what may come. -/
theorem isNormal_failed (texts : s.1.document.NormalTexts) (cause : Failure) :
    (failed cause s).1.IsNormal := by
  refine ⟨texts.of_same (nodes_failed cause s) ?_, fun hopen => absurd hopen (stage_failed cause s)⟩
  rcases failed_cases cause s with same | ⟨-, same⟩
  · rw [same]
  · rw [same, record, Document.apply]
    split <;> rfl

/-- At the document node the last child is no text because no child is. -/
theorem HoldsText.ofDocument {b : Builder} (texts : b.document.NormalTexts)
    (pending : b.pending = none) (cursor : b.cursor = documentId) : b.HoldsText where
  pending hp := by cases pending.symm.trans hp
  last n hn hk := by
    rw [cursor] at hn
    exact texts.outside hk hn.1.2

/-- A leaf that was appended is the last child. -/
theorem Flushes.isLastChild {texts : List Record} {own : Record} {event : Event}
    (h : Flushes config texts [own] s s')
    (leaf : LeafRecord s'.1.document s.1.cursor event own) :
    s'.1.document.nodes.IsLastChild s'.1.cursor (s.1.document.nodes.size + texts.length) ∧
      s'.1.document.nodes.kind? (s.1.document.nodes.size + texts.length) = some own.kind := by
  have holds := h.adds.holds_right (i := 0) (r := own) rfl
  have child : s'.1.document.nodes.IsChild s'.1.cursor
      (s.1.document.nodes.size + texts.length) := by
    rw [h.cursor]
    refine ⟨⟨⟨_, holds.kind?, leaf.kind.2.1⟩, fun value => ?_⟩, ?_⟩
    · exact leaf.kind.1 (Option.some.inj (holds.kind?.symm.trans value.1))
    · exact holds.parent?.trans leaf.kind.2.2
  refine ⟨child.isLastChild ?_, holds.kind?⟩
  rw [h.adds.size, List.length_append]
  rfl

/-- The last record that was appended is the last child. -/
theorem AddsLeaf.holdsText {event : Event} (h : AddsLeaf config event s s') :
    s'.1.HoldsText := by
  obtain ⟨texts, own, flushes, leaf⟩ := h
  obtain ⟨last, kind⟩ := flushes.isLastChild leaf
  refine ⟨fun hp => ?_, fun n hn hk => ?_⟩
  · cases flushes.pending.symm.trans hp
  · rw [hn.unique last, kind] at hk
    exact leaf.kind.1 (Option.some.inj hk)

section Element

variable {name : String} {attributes : List Event.Attribute} {texts : List Record} {own : Record}
  {stored : List StoredAttribute}

/-- A new element has no child. -/
theorem StartsElement.not_isChild (h : StartsElement config name attributes texts own stored s s')
    (n : Nat) : ¬ s'.1.document.nodes.IsChild s'.1.cursor n := by
  intro child
  have order := h.adds.isOpen.layout.parent_lt child.2
  refine h.attributesAt.not_isStructural order ?_ child.1
  rw [List.length_map, h.next_eq]
  exact child.1.lt_size

theorem StartsElement.holdsText (h : StartsElement config name attributes texts own stored s s') :
    s'.1.HoldsText where
  pending hp := by cases h.pending.symm.trans hp
  last n hn _ := h.not_isChild n hn.1

/-- The last child is the element that was ended. -/
theorem EndsElement.isLastChild (h : EndsElement config texts s s') (hs : s.1.Open config) :
    s'.1.document.nodes.IsLastChild s'.1.cursor s.1.cursor := by
  have order := h.adds.isOpen.layout.parent_lt h.parent
  refine ⟨⟨⟨⟨_, h.kind, rfl⟩, fun value => ?_⟩, h.parent⟩, fun n hn => ?_⟩
  · cases h.kind.symm.trans value.1
  -- What comes after the element is below it, so it is no child of the parent.
  apply Nat.le_of_not_lt
  intro hlt
  suffices below : s.1.cursor ≤ s'.1.cursor from absurd order (Nat.not_lt.2 below)
  by_cases hsize : n < s.1.document.nodes.size
  · refine hs.frontier.after hlt ?_
    rw [← (h.adds.keeps.extension.continues n hsize).2]
    exact hn.2
  · have hn' := hn.1.lt_size
    rw [h.adds.size] at hn'
    have hi : n - s.1.document.nodes.size < texts.length := by omega
    have holds := h.adds.holds (List.getElem?_eq_getElem hi)
    rw [Nat.add_sub_cancel' (Nat.le_of_not_lt hsize)] at holds
    have parent := h.text.parent _ (List.getElem_mem hi)
    exact Nat.le_of_eq (Option.some.inj (parent.symm.trans (holds.parent?.symm.trans hn.2)))

theorem EndsElement.holdsText (h : EndsElement config texts s s') (hs : s.1.Open config) :
    s'.1.HoldsText where
  pending hp := by cases h.pending.symm.trans hp
  last n hn hk := by
    rw [hn.unique (h.isLastChild hs), h.kind] at hk
    cases hk

end Element

/-- Characters in an element are held back. -/
theorem HoldsText.afterCharacters {b : Builder} (h : b.HoldsText) (text : String)
    (flags : TextFlags) : (b.afterCharacters text flags).HoldsText := by
  unfold Builder.afterCharacters
  split
  · exact h
  · next inside =>
    refine ⟨fun hp => ⟨?_, inside⟩, h.last⟩
    simp only [holding] at hp
    split at hp
    · exact (h.pending hp).1
    · next nonempty =>
      rw [String.isEmpty_iff] at nonempty
      split at hp
      · obtain ⟨rfl, -⟩ := Prod.mk.inj (Option.some.inj hp)
        exact fun empty => nonempty (String.append_eq_empty_iff.1 empty).2
      · obtain ⟨rfl, -⟩ := Prod.mk.inj (Option.some.inj hp)
        exact nonempty

/-- An event that is taken keeps texts in normal form. -/
theorem Effect.isNormal {event : Event} (h : Effect config s s' event)
    (hs : s.1.Consistent config) (normal : s.1.IsNormal) : s'.1.IsNormal := by
  have hs' := (h.consistent hs).sound
  cases h with
  | startDocument idle starts =>
    have adds : Document.AddsText none s.1.cursor s.1.document s'.1.document := by
      refine ⟨starts.keeps.extension, fun {n} _ hk _ => ?_⟩
      have hn := Table.lt_size_of_kind? hk
      rw [starts.size, Nat.lt_one_iff] at hn
      subst hn
      cases (starts.isOpen.layout hk).document_iff.2 rfl
    have texts := adds.normalTexts idle.sound.wellFormed hs'.wellFormed normal.texts nofun
      fun n hn => absurd hn.1.1.lt_size (by rw [idle.size]; exact Nat.not_lt_zero n)
    exact ⟨texts, fun _ => .ofDocument texts starts.pending starts.cursor⟩
  | endDocument ho ends =>
    refine ⟨?_, fun hopen => by cases ends.stage.symm.trans hopen⟩
    obtain ⟨s₁, flushes, extension, size, -⟩ := ends.flushed
    have flushed := flushes.addsText fun hn _ => flushes.nothing_after hn
    exact normal.addsText ho hs'
      (flushed.trans_size extension size flushes.adds.isOpen.sound.wellFormed)
  | startElement ho starts =>
    exact ⟨normal.addsText ho hs' starts.addsText, fun _ => starts.holdsText⟩
  | @endElement texts ho ends =>
    have adds : Adds config [] (texts ++ []) s s' := by
      rw [List.append_nil]
      exact ends.adds
    refine ⟨normal.addsText ho hs' (adds.addsText ends.text fun {n} hn hk => ?_),
      fun _ => ends.holdsText ho⟩
    exact absurd (ends.adds.lt_of_kind? hk) (Nat.not_lt.2 hn)
  | content ho contributes =>
    cases contributes with
    | characters same =>
      subst same
      refine ⟨?_, fun _ => (normal.holds ho.open_stage).afterCharacters ..⟩
      rw [document_afterCharacters]
      exact normal.texts
    | leaf adds => exact ⟨normal.addsText ho hs' adds.addsText, fun _ => adds.holdsText⟩
    | entity declares =>
      have texts := normal.addsText ho hs' declares.addsText
      refine ⟨texts, fun _ => ?_⟩
      cases declares with
      | known flushes outside | new flushes outside =>
        exact .ofDocument texts flushes.pending (flushes.cursor.trans outside)
  | fatalError same =>
    subst same
    exact isNormal_failed normal.texts _

/-- Whatever a builder does, texts stay in normal form. -/
theorem Reaches.isNormal {journal : Journal} (h : Reaches (start config, journal) s) :
    s.1.IsNormal := by
  obtain ⟨events, taken⟩ := h.exists_takes
  refine taken.induct (P := fun _ s => s.1.IsNormal) (consistent_start config) ?_
    (fun consistent effect normal => effect.isNormal consistent normal) ?_
  · refine ⟨⟨fun held => ?_, fun next => ?_, fun hk => ?_⟩, nofun⟩
    · exact absurd held.lt_size (Nat.not_lt_zero _)
    · exact absurd next.1.lt_size (Nat.not_lt_zero _)
    · exact absurd (Table.lt_size_of_kind? hk) (Nat.not_lt_zero _)
  · intro _ s' s'' cause consistent refuses normal
    refine isNormal_failed ?_ cause
    rcases refuses with rfl | ⟨ho, breaks⟩
    · exact normal.texts
    · have sound :=
        ((show Refuses config s' s'' from .inr ⟨ho, breaks⟩).consistent consistent).sound
      exact normal.addsText ho sound (Refuses.addsText (.inr ⟨ho, breaks⟩))

/-- Texts are in normal form in every state that a builder reaches, and at every moment of the way
there: a text in an element has a value that is not empty, a text never comes right after another
one among the children of a node, and no text is a child of the document node. -/
theorem texts_are_normal {journal : Journal} (h : Reaches (start config, journal) s) (j : Nat) :
    let d := (Document.initial config).moment s.1.history.toList j
    (∀ n p, d.nodes.kind? n = some .text → d.nodes.parent? n = some p →
      d.nodes.kind? p = some .element →
        ∃ text, (Query.nodeValue? n).run d = .answer (some text) ∧ text ≠ "") ∧
      (∀ n m, d.nodes.IsNext n m →
        ¬ (d.nodes.kind? n = some .text ∧ d.nodes.kind? m = some .text)) ∧
      ∀ n, d.nodes.kind? n = some .text → d.nodes.parent? n ≠ some documentId := by
  intro d
  have sound := (h.consistent (consistent_start config)).sound
  have hd : d.WellFormed := sound.wellFormed_moment j
  have texts : d.NormalTexts := h.isNormal.texts.of_extends (sound.extends_moment j) hd
  refine ⟨fun n p hk hp hpk => ?_, fun n m next both => texts.apart next both.1 both.2,
    fun n hk => texts.outside hk⟩
  obtain ⟨r, hr, kind⟩ := Table.exists_get?_of_kind? hk
  have held := Document.Holds.of_get? hr
  obtain ⟨text, hs⟩ := Option.isSome_iff_exists.1
    (held.isSome_payload hd (by rw [kind]; rfl) (by rw [kind]; nofun))
  refine ⟨text, Query.run_nodeValue? held (.inl kind) hs, ?_⟩
  exact texts.nonempty held kind ((Table.parent?_of_get? hr).symm.trans hp) hpk hs

/-- Characters come in four runs, one of them empty, around a comment and an element: three texts
are stored, with other nodes between them. -/
theorem texts_are_normal_of_broken_runs :
    let s := ((acceptAll [.startDocument, .startElement "a" [], .characters "x" {},
      .characters "" {}, .characters "y" {}, .comment "c", .characters "z" {},
      .startElement "b" [], .endElement, .characters "w" {}]).run.run
        (start .standard, { handler := .lenient })).2
    let s' := ((accept .endElement).run.run s).2
    (s'.1.document.nodes.toList.map (·.kind)) =
        [.document, .element, .text, .comment, .text, .element, .text] ∧
      ∀ n m, s'.1.document.nodes.IsNext n m → ¬ (s'.1.document.nodes.kind? n = some .text ∧
        s'.1.document.nodes.kind? m = some .text) := by
  intro s s'
  have reached : Reaches (start .standard, { handler := .lenient }) s' :=
    .accept (reaches_acceptAll _ _) .endElement
  have last := (reached.consistent (consistent_start _)).sound.document_eq
  obtain ⟨-, apart, -⟩ := texts_are_normal reached s'.1.history.size
  rw [Document.moment_of_length_le (Nat.le_of_eq Array.length_toList), ← last] at apart
  exact ⟨by decide +kernel, apart⟩

end Builder

end XmlTable
