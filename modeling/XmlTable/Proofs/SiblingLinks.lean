import XmlTable.Proofs.Runs

/-!
# What the links to siblings mean

While content is accepted a link is unknown for one of three reasons: its element is open, a
sibling may still come after its node, or an entity may. Every other link names the next sibling,
or says that there is none, which stays true whatever is appended later. The links of a complete
document are all known.
-/

namespace XmlTable

open Node

namespace Node.Table

/-- The node is the last child of another, so far. -/
def IsLastChild (t : Table) (p n : Nat) : Prop :=
  t.IsChild p n ∧ ∀ m, t.IsChild p m → m ≤ n

/-- The node is the last entity, so far. -/
def IsLastEntity (t : Table) (n : Nat) : Prop :=
  t.kind? n = some .entity ∧ ∀ m, t.kind? m = some .entity → m ≤ n

variable {t : Table} {n c : Nat} {previous : Option (Nat × Kind)} {lastEntity : Option Nat}
  {closed : Bool}

/-- The last child is the one that the producer remembers. -/
theorem Frontier.isLastChild_iff (f : t.Frontier c previous lastEntity closed) {k : Kind}
    (hk : t.kind? n = some k) : t.IsLastChild c n ↔ previous = some (n, k) := by
  constructor
  · rintro ⟨hc, hlast⟩
    obtain ⟨m, k', hp, hle⟩ := f.child_le hc
    obtain ⟨hm, hk'⟩ := f.child hp
    obtain rfl : m = n := Nat.le_antisymm (hlast m hm) hle
    rw [hp, Option.some.inj (hk'.symm.trans hk)]
  · intro hp
    refine ⟨(f.child hp).1, fun m hm => ?_⟩
    obtain ⟨n', k', hp', hle⟩ := f.child_le hm
    rw [hp] at hp'
    rwa [(Prod.mk.inj (Option.some.inj hp')).1]

/-- There is one last child at most. -/
theorem IsLastChild.unique {m : Nat} (h : t.IsLastChild c n) (h' : t.IsLastChild c m) : n = m :=
  Nat.le_antisymm (h'.2 n h.1) (h.2 m h'.1)

/-- A child that is the last of all nodes is the last child. -/
theorem IsChild.isLastChild (h : t.IsChild c n) (last : t.size = n + 1) : t.IsLastChild c n := by
  refine ⟨h, fun m hm => ?_⟩
  have := hm.1.lt_size
  omega

/-- The last entity is the one that the producer remembers. -/
theorem EntityChain.isLastEntity_iff (f : t.EntityChain lastEntity closed) :
    t.IsLastEntity n ↔ lastEntity = some n := by
  constructor
  · rintro ⟨hk, hlast⟩
    obtain ⟨e, he, hle⟩ := f.entity_le hk
    rw [he, Nat.le_antisymm (hlast e (f.lastEntity_kind he)) hle]
  · intro he
    refine ⟨f.lastEntity_kind he, fun m hm => ?_⟩
    obtain ⟨e, he', hle⟩ := f.entity_le hm
    rw [he] at he'
    rwa [Option.some.inj he']

/-- Which links are not known while a table grows. -/
theorem Frontier.pending_iff (f : t.Frontier c previous lastEntity closed) (hl : t.Linked)
    {k : Kind} (hk : t.kind? n = some k) (hlinked : k.isLinked = true) :
    t.link? n = some .pending ↔
      k = .element ∧ t.Within n c ∨
        (k = .element ∨ k = .reference) ∧ t.IsLastChild c n ∨
        k = .entity ∧ t.IsLastEntity n ∧ closed = false := by
  cases k
  case element =>
    rw [f.element hk, f.isLastChild_iff hk]
    simp
  case reference =>
    rw [f.reference hk, f.isLastChild_iff hk]
    simp
  case entity =>
    rw [f.entity hk, f.isLastEntity_iff]
    simp [and_comm]
  case attr =>
    have := (hl hk).attr rfl
    simp [this]
  all_goals cases hlinked

/-- A link that is known names the next sibling, if there is one. -/
theorem Linked.next_iff (hl : t.Linked) {k : Kind} (hk : t.kind? n = some k)
    (hlinked : k.isLinked = true) (hne : t.link? n ≠ some .pending) (m : Nat) :
    t.link? n = some (.next m) ↔ t.IsNext n m := by
  refine ⟨(hl hk).next, fun i => ?_⟩
  have hsome := (hl hk).isSome_link?
  rw [hlinked] at hsome
  obtain ⟨l, h⟩ := Option.isSome_iff_exists.1 hsome
  cases l with
  | pending => exact absurd h hne
  | last => exact absurd i.1 ((hl hk).last h m)
  | next m' => rw [h, i.unique ((hl hk).next h)]

end Node.Table

namespace Builder

variable {config : Config} {journal : Journal} {s : Builder × Journal}

/-- In every state that a builder reaches from a fresh one, the links to siblings mean what they
say. While content is accepted a link is unknown exactly for an element at or above the cursor, for
an element or reference that is the last child there, and for the last entity while entities may
come; when the document is complete no link is unknown. A link that is known is that to the next
sibling exactly if there is one, and a node that is said to be the last one stays so. -/
theorem sibling_links (h : Reaches (start config, journal) s) :
    (s.1.stage = .documentOpen → ∀ (n : Nat) (k : Kind),
      s.1.document.nodes.kind? n = some k → k.isLinked = true →
      (s.1.document.nodes.link? n = some .pending ↔
        k = .element ∧ s.1.document.nodes.Within n s.1.cursor ∨
          (k = .element ∨ k = .reference) ∧ s.1.document.nodes.IsLastChild s.1.cursor n ∨
          k = .entity ∧ s.1.document.nodes.IsLastEntity n ∧ s.1.entitiesClosed = false)) ∧
    (s.1.stage = .documentClosed → ∀ n, s.1.document.nodes.link? n ≠ some .pending) ∧
    (∀ (n : Nat) (k : Kind), s.1.document.nodes.kind? n = some k → k.isLinked = true →
      s.1.document.nodes.link? n ≠ some .pending →
      (∀ m, s.1.document.nodes.link? n = some (.next m) ↔ s.1.document.nodes.IsNext n m) ∧
      (s.1.document.nodes.link? n = some .last →
        ∀ s', Reaches s s' → ∀ m, ¬ s'.1.document.nodes.Follows n m)) := by
  have hs := h.consistent (consistent_start config)
  have linked := hs.sound.wellFormed.linked
  refine ⟨fun ho n k hk hlinked => ?_, fun hc => ?_, fun n k hk hlinked hne => ⟨fun m => ?_, ?_⟩⟩
  · exact (hs.isOpen ho).frontier.pending_iff linked hk hlinked
  · exact hs.sound.wellFormed.settled (hs.closed hc)
  · exact linked.next_iff hk hlinked hne m
  · intro hlast s' h' m
    have ext := h'.extension hs
    have later := (h'.consistent hs).sound.wellFormed.linked
    exact (later (ext.continues.kind? hk)).last (ext.link hlast nofun) m

/-- After one child of an open element has ended, its link is unknown because it is the last child,
and that of the element because it is open. -/
theorem sibling_links_of_one_child :
    let s := ((acceptAll [.startDocument, .startElement "a" [], .startElement "b" [],
      .endElement]).run.run (start .standard, { handler := .lenient })).2
    s.1.stage = .documentOpen ∧
      (s.1.document.nodes.Within 1 s.1.cursor ∨ s.1.document.nodes.IsLastChild s.1.cursor 1) ∧
      (s.1.document.nodes.Within 2 s.1.cursor ∨ s.1.document.nodes.IsLastChild s.1.cursor 2) := by
  have h := sibling_links (reaches_acceptAll [.startDocument, .startElement "a" [],
    .startElement "b" [], .endElement] (start .standard, { handler := .lenient }))
  have unknown := h.1 (by decide +kernel)
  have first := (unknown 1 .element (by decide +kernel) rfl).1 (by decide +kernel)
  have second := (unknown 2 .element (by decide +kernel) rfl).1 (by decide +kernel)
  refine ⟨by decide +kernel, ?_, ?_⟩
  · rcases first with ⟨-, hw⟩ | ⟨-, hl⟩ | ⟨he, -⟩
    · exact .inl hw
    · exact .inr hl
    · cases he
  · rcases second with ⟨-, hw⟩ | ⟨-, hl⟩ | ⟨he, -⟩
    · exact .inl hw
    · exact .inr hl
    · cases he

end Builder

end XmlTable
