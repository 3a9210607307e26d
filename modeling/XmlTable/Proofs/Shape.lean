import Mathlib.Data.List.Sort
import XmlTable.Proofs.Delivery

/-!
# The shape of the table

Every scan of a table relies on where its records stand: the document node first, each attribute and
each entity next to its value, the attributes of an element right after it, entities before all
elements. That is so at every moment of every run, also after a failure. The elements are those of
the start events that were taken, in order, each with the attributes of its event: one that was
refused leaves nothing behind.
-/

namespace XmlTable

open Node

/-! ### The nodes of a kind -/

namespace Node.Table

variable {t t' : Table} {n e : Nat} {k : Kind}

/-- The nodes of a kind, in order. -/
def ofKind (t : Table) (k : Kind) : List Nat :=
  (List.range t.size).filter fun n => t.kind? n = some k

theorem mem_ofKind : n ∈ t.ofKind k ↔ t.kind? n = some k := by
  simpa [ofKind] using lt_size_of_kind?

theorem ofKind_ascending (t : Table) (k : Kind) : (t.ofKind k).Pairwise (· < ·) :=
  List.pairwise_lt_range.filter _

/-- The nodes of a kind in a table that grows are the old ones and then the new ones. -/
theorem ofKind_eq_append (c : t.Continues t') {new : List Nat} (sorted : new.Pairwise (· < ·))
    (mem : ∀ n, n ∈ new ↔ t.size ≤ n ∧ t'.kind? n = some k) :
    t'.ofKind k = t.ofKind k ++ new := by
  refine (t'.ofKind_ascending k).eq_of_mem_iff ?_ fun n => ?_
  · refine List.pairwise_append.2 ⟨t.ofKind_ascending k, sorted, fun n hn m hm => ?_⟩
    have := lt_size_of_kind? (mem_ofKind.1 hn)
    have := ((mem m).1 hm).1
    omega
  · rw [List.mem_append, mem_ofKind, mem_ofKind, mem]
    by_cases hn : n < t.size
    · simp [(c n hn).1, hn]
    · have hk : t.kind? n ≠ some k := fun hk => hn (lt_size_of_kind? hk)
      simp [hk, Nat.le_of_not_lt hn]

/-- A table that grows by nodes of other kinds has the same nodes of a kind. -/
theorem ofKind_eq (c : t.Continues t') (other : ∀ n, t.size ≤ n → t'.kind? n ≠ some k) :
    t'.ofKind k = t.ofKind k := by
  have := ofKind_eq_append c List.Pairwise.nil fun n => by simpa using other n
  rwa [List.append_nil] at this

/-- The elements of a table, in order. -/
def elements (t : Table) : List Nat :=
  (List.range t.size).filter fun n => t.kind? n = some .element

theorem mem_elements : n ∈ t.elements ↔ t.kind? n = some .element :=
  mem_ofKind

theorem elements_eq_append (c : t.Continues t') {new : List Nat} (sorted : new.Pairwise (· < ·))
    (mem : ∀ n, n ∈ new ↔ t.size ≤ n ∧ t'.kind? n = some .element) :
    t'.elements = t.elements ++ new :=
  ofKind_eq_append c sorted mem

/-- A table that grows by no elements has the same elements. -/
theorem elements_eq (c : t.Continues t') (plain : ∀ n, t.size ≤ n → t'.kind? n ≠ some .element) :
    t'.elements = t.elements :=
  ofKind_eq c plain

/-- The elements of an earlier table are the first ones of a later one. -/
theorem elements_prefix (c : t.Continues t') : t.elements <+: t'.elements := by
  refine ⟨t'.elements.filter (t.size ≤ ·), (elements_eq_append c ?_ fun n => ?_).symm⟩
  · exact (t'.ofKind_ascending .element).filter _
  · simp [mem_elements, and_comm]

end Node.Table

/-! ### Elements with their attributes -/

namespace Document

variable {d d' : Document} {n e : Nat} {r : Record} {pairs : List (String × String)}

/-- The attributes of an element, by names and values: they stand right after it, each followed by
its value, and it has no others. -/
structure Carries (d : Document) (e : Nat) (pairs : List (String × String)) : Prop where
  /-- They stand there in order. -/
  stand : d.AttributesAt e (e + 1) pairs
  /-- There are no others. -/
  attribute_iff : ∀ n, d.nodes.IsAttribute e n ↔ ∃ i < pairs.length, n = e + 1 + 2 * i

/-- A record that stands in a later document stands in an earlier one with as many nodes. -/
theorem Holds.of_extends (h : d'.Holds n r) (he : d.Extends d') (hn : n < d.nodes.size) :
    d.Holds n r := by
  obtain ⟨own, hown⟩ := Option.isSome_iff_exists.1 ((Table.isSome_get?_iff d.nodes n).2 hn)
  obtain ⟨l, hl⟩ := he.record hown
  obtain ⟨l', hl'⟩ := h
  obtain ⟨l₀, hl₀⟩ := Record.exists_withLink_eq_self own
  refine ⟨l₀, ?_⟩
  -- The two records differ in their links only, so the link of the earlier one makes them equal.
  have same : own.withLink l = r.withLink l' := Option.some.inj (hl.symm.trans hl')
  rw [hown, ← hl₀, ← Record.withLink_withLink own l l₀, same, Record.withLink_withLink]

theorem name_of_extends (he : d.Extends d') {id : SymbolId} {name : String}
    (h : d'.names.resolve id = some name) (hs : (d.names.resolve id).isSome) :
    d.names.resolve id = some name := by
  obtain ⟨s, hs⟩ := Option.isSome_iff_exists.1 hs
  rw [hs, ← h, he.name hs]

theorem text_of_extends (he : d.Extends d') {id : SymbolId} {text : String}
    (h : d'.texts.resolve id = some text) (hs : (d.texts.resolve id).isSome) :
    d.texts.resolve id = some text := by
  obtain ⟨s, hs⟩ := Option.isSome_iff_exists.1 hs
  rw [hs, ← h, he.text hs]

/-- Attributes that stand in a later document stand in an earlier one that has their nodes. -/
theorem AttributesAt.of_extends (h : d'.AttributesAt e n pairs) (he : d.Extends d')
    (hd : d.WellFormed) (hn : n + 2 * pairs.length ≤ d.nodes.size) :
    d.AttributesAt e n pairs := by
  induction pairs generalizing n with
  | nil => trivial
  | cons pair rest ih =>
    obtain ⟨namespaceId, id, link, payload, held, hid, value, hp, later⟩ := h
    rw [List.length_cons] at hn
    have held := held.of_extends he (by omega)
    have value := value.of_extends he (by omega)
    refine ⟨namespaceId, id, link, payload, held, ?_, value, ?_, ih later (by omega)⟩
    · exact name_of_extends he hid (held.resolves hd).name
    · exact text_of_extends he hp ((value.resolves hd).payload nofun payload rfl)

namespace Carries

theorem mono (h : d.Carries e pairs) (he : d.Extends d') (hs : e < d.nodes.size) :
    d'.Carries e pairs where
  stand := h.stand.mono he
  attribute_iff n := by
    rw [← h.attribute_iff n]
    constructor
    · rintro ⟨hk, hp⟩
      have hn := he.attr hs hk hp
      exact ⟨(he.continues n hn).1 ▸ hk, (he.continues n hn).2 ▸ hp⟩
    · rintro ⟨hk, hp⟩
      exact ⟨he.continues.kind? hk, he.continues.parent? hp⟩

/-- The nodes of the attributes of an element are there as soon as the element is. -/
theorem size_le (h : d'.Carries e pairs) (he : d.Extends d') (hd : d.WellFormed)
    (hs : e < d.nodes.size) : e + 1 + 2 * pairs.length ≤ d.nodes.size := by
  rcases hp : pairs.length with _ | count
  · omega
  · obtain ⟨hk, hq⟩ := (h.attribute_iff (e + 1 + 2 * count)).2 ⟨count, by omega, rfl⟩
    have hn := he.attr hs hk hq
    rw [(he.continues _ hn).1] at hk
    have := Table.lt_size_of_kind? ((hd.layout hk).value rfl).1
    omega

/-- What an element carries it carried as soon as it was there. -/
theorem of_extends (h : d'.Carries e pairs) (he : d.Extends d') (hd : d.WellFormed)
    (hs : e < d.nodes.size) : d.Carries e pairs where
  stand := h.stand.of_extends he hd (h.size_le he hd hs)
  attribute_iff n := by
    rw [← h.attribute_iff n]
    constructor
    · rintro ⟨hk, hp⟩
      exact ⟨he.continues.kind? hk, he.continues.parent? hp⟩
    · rintro ⟨hk, hp⟩
      have hn := he.attr hs hk hp
      exact ⟨(he.continues n hn).1 ▸ hk, (he.continues n hn).2 ▸ hp⟩

end Carries

theorem AttributesAt.isAttribute (h : d.AttributesAt e n pairs) {i : Nat} (hi : i < pairs.length) :
    d.nodes.IsAttribute e (n + 2 * i) := by
  induction pairs generalizing n i with
  | nil => cases hi
  | cons pair rest ih =>
    obtain ⟨_, _, _, _, held, -, -, -, later⟩ := h
    cases i with
    | zero => exact ⟨held.kind?, held.parent?⟩
    | succ i =>
      have := ih later (Nat.lt_of_succ_lt_succ hi)
      rwa [Nat.add_assoc, Nat.add_comm 2] at this

/-- An element carries what stands after it up to a place where no attribute of it is. -/
theorem AttributesAt.carries (h : d.AttributesAt e (e + 1) pairs) (hd : d.WellFormed)
    (stop : ¬ d.nodes.IsAttribute e (e + 1 + 2 * pairs.length)) : d.Carries e pairs where
  stand := h
  attribute_iff n := by
    refine ⟨fun ha => ?_, fun ⟨i, hi, hn⟩ => hn ▸ h.isAttribute hi⟩
    -- A place is reached from the first one by steps of two, none of which leads to the stop.
    obtain ⟨i, hi, rfl⟩ : ∃ i ≤ pairs.length, n = e + 1 + 2 * i := by
      induction n using Nat.strongRecOn with
      | ind n ih =>
        rcases hd.layout.isAttribute_cases ha with rfl | ⟨hlt, before⟩
        · exact ⟨0, Nat.zero_le _, rfl⟩
        · obtain ⟨i, hi, hn⟩ := ih (n - 2) (by omega) before
          rw [hn] at before
          have : i ≠ pairs.length := by
            rintro rfl
            exact stop before
          exact ⟨i + 1, by omega, by omega⟩
    have : i ≠ pairs.length := by
      rintro rfl
      exact stop ha
    exact ⟨i, by omega, rfl⟩

/-- The element is as its start event said: it has the name, and it carries the attributes. -/
structure IsAsStarted (d : Document) (e : Nat) (start : String × List (String × String)) :
    Prop where
  /-- The name. -/
  name : ∃ r, d.nodes.get? e = some r ∧ d.names.resolve r.name = some start.1
  /-- The attributes. -/
  attributes : d.Carries e start.2

theorem IsAsStarted.mono {start : String × List (String × String)} (h : d.IsAsStarted e start)
    (he : d.Extends d') : d'.IsAsStarted e start where
  name := by
    obtain ⟨r, hr, hn⟩ := h.name
    obtain ⟨l, hl⟩ := he.record hr
    exact ⟨_, hl, by rw [Record.name_withLink]; exact he.name hn⟩
  attributes := by
    obtain ⟨r, hr, -⟩ := h.name
    exact h.attributes.mono he (Table.lt_size_of_get? hr)

theorem IsAsStarted.of_extends {start : String × List (String × String)}
    (h : d'.IsAsStarted e start) (he : d.Extends d') (hd : d.WellFormed)
    (hs : e < d.nodes.size) : d.IsAsStarted e start where
  name := by
    obtain ⟨r', hr', hn⟩ := h.name
    obtain ⟨r, hr⟩ := Option.isSome_iff_exists.1 ((Table.isSome_get?_iff d.nodes e).2 hs)
    obtain ⟨l, hl⟩ := he.record hr
    obtain rfl : r.withLink l = r' := Option.some.inj (hl.symm.trans hr')
    rw [Record.name_withLink] at hn
    exact ⟨r, hr, name_of_extends he hn (hd.resolves hr).name⟩
  attributes := h.attributes.of_extends he hd hs

/-- The elements are those of some start events, one by one. -/
structure Matches (d : Document) (starts : List (String × List (String × String))) : Prop where
  /-- There are as many. -/
  length_eq : d.nodes.elements.length = starts.length
  /-- Each is as its start event said. -/
  isAsStarted : ∀ {i e : Nat} {start : String × List (String × String)},
    d.nodes.elements[i]? = some e → starts[i]? = some start → d.IsAsStarted e start

namespace Matches

variable {starts : List (String × List (String × String))}

/-- Elements match the same events as long as none are added. -/
theorem mono (h : d.Matches starts) (he : d.Extends d')
    (plain : ∀ n, d.nodes.size ≤ n → d'.nodes.kind? n ≠ some .element) : d'.Matches starts := by
  have same := Table.elements_eq he.continues plain
  refine ⟨by rw [same, h.length_eq], fun hi hs => ?_⟩
  rw [same] at hi
  exact (h.isAsStarted hi hs).mono he

/-- One more element matches one more event. -/
theorem append (h : d.Matches starts) (he : d.Extends d')
    {start : String × List (String × String)} (new : d'.IsAsStarted e start)
    (mem : ∀ n, n = e ↔ d.nodes.size ≤ n ∧ d'.nodes.kind? n = some .element) :
    d'.Matches (starts ++ [start]) := by
  have same := Table.elements_eq_append he.continues (List.pairwise_singleton _ e)
    fun n => by rw [List.mem_singleton, mem]
  refine ⟨by rw [same, List.length_append, List.length_append, h.length_eq]; rfl, ?_⟩
  intro i e' start' hi hs
  rw [same] at hi
  rcases Nat.lt_or_ge i starts.length with hlt | hge
  · rw [List.getElem?_append_left (by rwa [h.length_eq])] at hi
    rw [List.getElem?_append_left hlt] at hs
    exact (h.isAsStarted hi hs).mono he
  · rw [List.getElem?_append_right (by rwa [h.length_eq]), h.length_eq] at hi
    rw [List.getElem?_append_right hge] at hs
    obtain rfl := List.mem_singleton.1 (List.mem_of_getElem? hi)
    obtain rfl := List.mem_singleton.1 (List.mem_of_getElem? hs)
    exact new

/-- The elements of an earlier document match the first of the events. -/
theorem take (h : d'.Matches starts) (he : d.Extends d') (hd : d.WellFormed) :
    d.Matches (starts.take d.nodes.elements.length) := by
  obtain ⟨rest, later⟩ := Table.elements_prefix he.continues
  refine ⟨?_, fun {i e start} hi hs => ?_⟩
  · rw [List.length_take, ← h.length_eq, ← later, List.length_append]
    omega
  · have hlt := (List.getElem?_eq_some_iff.1 hi).1
    rw [List.getElem?_take_of_lt hlt] at hs
    have hi' : d'.nodes.elements[i]? = some e := by
      rw [← later, List.getElem?_append_left hlt, hi]
    exact (h.isAsStarted hi' hs).of_extends he hd
      (Table.lt_size_of_kind? (Table.mem_elements.1 (List.mem_of_getElem? hi)))

end Matches

/-- How records stand in a table whose elements were started by some events. -/
structure Shape (d : Document) (starts : List (String × List (String × String))) : Prop where
  /-- The first record is the document node, and no other one is. -/
  document_iff : ∀ n, d.nodes.kind? n = some .document ↔ n = 0 ∧ 0 < d.nodes.size
  /-- An attribute or entity is followed by a text, its value, and is the parent of nothing else. -/
  value : ∀ n, d.nodes.kind? n = some .attr ∨ d.nodes.kind? n = some .entity →
    d.nodes.kind? (n + 1) = some .text ∧ ∀ m, d.nodes.parent? m = some n ↔ m = n + 1
  /-- Attributes belong to elements. -/
  belongs : ∀ n, d.nodes.kind? n = some .attr →
    ∃ e, d.nodes.kind? e = some .element ∧ d.nodes.IsAttribute e n
  /-- The elements and their attributes are those of the events. -/
  elements : d.Matches starts
  /-- Whatever else there is belongs to an earlier element or to the document node. -/
  parent : ∀ n k, d.nodes.kind? n = some k → k ≠ .document → k ≠ .attr → ¬ d.nodes.IsValue n →
    ∃ p, d.nodes.parent? n = some p ∧ p < n ∧
      (d.nodes.kind? p = some .document ∨ d.nodes.kind? p = some .element)
  /-- Entities belong to the document node and come before all elements. -/
  entity : ∀ n, d.nodes.kind? n = some .entity → d.nodes.parent? n = some documentId ∧
    ∀ e, d.nodes.kind? e = some .element → n < e

theorem WellFormed.shape (h : d.WellFormed) {starts : List (String × List (String × String))}
    (elements : d.Matches starts) : d.Shape starts where
  document_iff n := by
    constructor
    · intro hk
      have hn := (h.layout hk).document_iff.1 rfl
      have := Table.lt_size_of_kind? hk
      omega
    · rintro ⟨rfl, hs⟩
      exact h.layout.kind?_zero hs
  value n hk := by
    obtain ⟨k, hk, hv⟩ : ∃ k, d.nodes.kind? n = some k ∧ k.hasValueNode = true := by
      rcases hk with hk | hk
      · exact ⟨_, hk, rfl⟩
      · exact ⟨_, hk, rfl⟩
    exact ⟨((h.layout hk).value hv).1, fun m => h.layout.parent?_iff hk hv⟩
  belongs n hk := by
    obtain ⟨e, hp, he, -⟩ := (h.layout hk).attr rfl
    exact ⟨e, he, hk, hp⟩
  elements := elements
  parent n k hk hdoc _ hvalue := by
    have hn : n ≠ 0 := fun h0 => hdoc ((h.layout hk).document_iff.2 h0)
    obtain ⟨p, hp⟩ := h.layout.exists_parent? (Table.lt_size_of_kind? hk) hn
    exact ⟨p, hp, h.layout.parent_lt hp, h.layout.kind?_parent hp hvalue⟩
  entity n hk := by
    obtain ⟨hp, before⟩ := (h.layout hk).entity rfl
    refine ⟨hp, fun e he => ?_⟩
    rcases Nat.lt_trichotomy n e with hlt | rfl | hgt
    · exact hlt
    · cases hk.symm.trans he
    · exact absurd he (before e hgt)

end Document

/-! ### Runs -/

/-- What a start event says of its element: its name, and its attributes by names and values. -/
def Event.start? : Event → Option (String × List (String × String))
  | startElement name attributes => some (name, attributes.map fun attr => (attr.name, attr.value))
  | _ => none

namespace Builder

variable {config : Config} {s s' : Builder × Journal}

section Starts

variable {name : String} {attributes : List Event.Attribute} {texts : List Record} {own : Record}
  {stored : List StoredAttribute}

/-- A new element is as its start event said. -/
theorem StartsElement.isAsStarted (h : StartsElement config name attributes texts own stored s s') :
    s'.1.document.IsAsStarted s'.1.cursor
      (name, attributes.map fun attr => (attr.name, attr.value)) where
  name := by
    obtain ⟨_, _, rfl, hid⟩ := h.own
    obtain ⟨l, hl⟩ := h.holds
    exact ⟨_, hl, by rwa [Record.name_withLink]⟩
  attributes := h.attributesAt.carries h.adds.isOpen.sound.wellFormed fun ha => by
    have hlt := Table.lt_size_of_kind? ha.1
    rw [List.length_map, h.next_eq] at hlt
    exact Nat.lt_irrefl _ hlt

/-- The only element that a start event adds is the one that the cursor is on. -/
theorem StartsElement.eq_cursor_iff
    (h : StartsElement config name attributes texts own stored s s') (n : Nat) :
    n = s'.1.cursor ↔
      s.1.document.nodes.size ≤ n ∧ s'.1.document.nodes.kind? n = some .element := by
  constructor
  · rintro rfl
    obtain ⟨_, _, rfl, -⟩ := h.own
    exact ⟨by rw [h.cursor]; exact Nat.le_add_right .., h.holds.kind?⟩
  · rintro ⟨hn, hk⟩
    rcases Nat.lt_trichotomy n s'.1.cursor with hlt | rfl | hgt
    · -- What comes before is text that was held back.
      rw [h.cursor] at hlt
      have hi : n - s.1.document.nodes.size < texts.length := by omega
      have held := h.adds.holds_left (List.getElem?_eq_getElem hi)
      rw [Nat.add_sub_cancel' hn] at held
      rw [held.kind?, h.text.kind _ (List.getElem_mem hi)] at hk
      cases hk
    · rfl
    · -- What comes after are attributes and their values.
      have hlt := Table.lt_size_of_kind? hk
      rw [← h.next_eq] at hlt
      obtain ⟨i, hi, place⟩ : ∃ i < attributes.length,
          n = s'.1.cursor + 1 + 2 * i ∨ n = s'.1.cursor + 1 + 2 * i + 1 :=
        ⟨(n - s'.1.cursor - 1) / 2, by omega, by omega⟩
      have attr := (h.attributesAt.isAttribute (by rwa [List.length_map])).1
      rcases place with rfl | rfl
      · cases hk.symm.trans attr
      · cases hk.symm.trans ((h.adds.isOpen.layout attr).value rfl).1

/-- A start event adds one element. -/
theorem StartsElement.elements_eq
    (h : StartsElement config name attributes texts own stored s s') :
    s'.1.document.nodes.elements = s.1.document.nodes.elements ++ [s'.1.cursor] :=
  Table.elements_eq_append h.adds.keeps.extension.continues (List.pairwise_singleton ..)
    fun n => by rw [List.mem_singleton, h.eq_cursor_iff]

end Starts

/-- The elements in the table are those of the start events that were taken. -/
theorem Takes.matches {events : List Event} (h : Takes s events s') (hs : s.1.Idle config)
    (idle : s.1.stage = .idle) : s'.1.document.Matches (events.filterMap Event.start?) := by
  refine h.induct (P := fun events s => s.1.document.Matches (events.filterMap Event.start?))
    (hs.consistent idle) ?_ ?_ ?_
  · refine ⟨?_, fun _ hi => nomatch hi⟩
    rw [Table.elements, hs.size]
    rfl
  · intro events s' s'' event consistent effect before
    rw [List.filterMap_append]
    by_cases other : ∀ name attributes, event ≠ .startElement name attributes
    · have grows := effect.growsPlain consistent other
      have none : event.start? = none := by
        cases event with
        | startElement name attributes => exact absurd rfl (other name attributes)
        | _ => rfl
      rw [List.filterMap_cons_none none, List.filterMap_nil, List.append_nil]
      exact before.mono grows.extension fun n hn hk => (grows.kind hn hk).1 rfl
    · simp only [not_forall, not_not] at other
      obtain ⟨name, attributes, rfl⟩ := other
      cases effect with
      | startElement _ starts =>
        exact before.append starts.adds.keeps.extension starts.isAsStarted starts.eq_cursor_iff
      | content _ contributes => exact absurd rfl (contributes.other name attributes)
  · intro events s' s'' cause consistent refuses before
    have grows := refuses.growsPlain.failed (refuses.consistent consistent) cause
    exact before.mono grows.extension fun n hn hk => (grows.kind hn hk).1 rfl

/-- Records stand where they belong in every state that a builder reaches from a fresh one, by
events of which it took some and refused others, and at every moment of the way there. The elements
are those of the start events that were taken, each with all of its attributes, and at an earlier
moment the first ones of them. -/
theorem table_layout {journal : Journal} {events : List Event}
    (h : Takes (start config, journal) events s) :
    s.1.document.Shape (events.filterMap Event.start?) ∧
      ∀ j, ∃ k, ((Document.initial config).moment s.1.history.toList j).Shape
        ((events.filterMap Event.start?).take k) := by
  have consistent := h.reaches.consistent (consistent_start config)
  have elements := h.matches (idle_start config) rfl
  refine ⟨consistent.sound.wellFormed.shape elements, fun j => ?_⟩
  have earlier := consistent.sound.wellFormed_moment j
  exact ⟨_, earlier.shape (elements.take (consistent.sound.extends_moment j) earlier)⟩

/-- An element for which there is no room leaves nothing behind: the only element is the one before
it, with the attribute that it was started with. -/
theorem table_layout_of_full_table :
    let config := (Config.standard.withChunkBits 1).withMaxChunks 2
    let before := (acceptAll [.startDocument,
      .startElement "a" [{ name := "x", value := "1" }]]).run.run
        (start config, { handler := .lenient })
    let after := (accept (.startElement "b" [])).run.run before.2
    after.1 = .error (.capacity "node table is full") ∧ after.2.1.document.nodes.elements = [1] ∧
      ∀ n, after.2.1.document.nodes.IsAttribute 1 n ↔ n = 2 := by
  intro config before after
  have taken : Takes (start config, { handler := .lenient })
      [.startDocument, .startElement "a" [{ name := "x", value := "1" }]] before.2 :=
    takes_acceptAll (Prod.ext (by decide +kernel) rfl)
  have refused : after = (.error (.capacity "node table is full"), after.2) :=
    Prod.ext (by decide +kernel) rfl
  obtain ⟨shape, -⟩ := table_layout (taken.refuse refused)
  have first : after.2.1.document.nodes.elements = [1] := by decide +kernel
  refine ⟨congrArg Prod.fst refused, first, fun n => ?_⟩
  have carries := (shape.elements.isAsStarted (i := 0) (by rw [first]; rfl) rfl).attributes
  rw [carries.attribute_iff]
  simp

end Builder

end XmlTable
