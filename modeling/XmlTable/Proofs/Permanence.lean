import XmlTable.Proofs.Runs

/-!
# Records are written once

What is said here of two moments of a run is what a reader may rely on who has looked at a record
and looks again: the record is the same up to its link, the link has at most become known, and the
numbers in it stand for the same strings. A link therefore changes in one step of a run at most.
-/

namespace XmlTable

open Node

/-- A record as it was and as it is later: only the link of a linked kind may have become known. -/
structure Node.Record.IsKept (r r' : Record) : Prop where
  /-- The kind stays. -/
  kind : r'.kind = r.kind
  /-- The flags stay. -/
  flags : r'.flags = r.flags
  /-- The namespace stays. -/
  namespaceId : r'.namespaceId = r.namespaceId
  /-- The parent stays. -/
  parent : r'.parent = r.parent
  /-- The name stays. -/
  name : r'.name = r.name
  /-- The payload of a kind without a link stays. -/
  payload : r.kind.isLinked = false → ∃ s, r.link = .payload s ∧ r'.link = .payload s
  /-- The link of the other kinds stays or becomes known. -/
  link : r.kind.isLinked = true → ∃ l l', r.link = .sibling l ∧ r'.link = .sibling l' ∧
    (l' = l ∨ l = .pending ∧ (l' = .last ∨ ∃ m, l' = .next m))

namespace Document

variable {d d' : Document} {n : NodeId} {r : Record}

/-- What two moments of a document have in common: the records of the earlier one, the strings that
their numbers stand for, and the entries of the tables beside them. -/
structure Keeps (d d' : Document) : Prop where
  /-- A record stays at its index. -/
  record : ∀ {n : NodeId} {r : Record}, d.nodes.get? n = some r →
    ∃ r', d'.nodes.get? n = some r' ∧ r.IsKept r'
  /-- The name of a record stands for a string, and for the same one later. -/
  name : ∀ {n : NodeId} {r : Record}, d.nodes.get? n = some r →
    ∃ s, d.names.resolve r.name = some s ∧ d'.names.resolve r.name = some s
  /-- So does its payload. The document node has none. -/
  text : ∀ {n : NodeId} {r : Record} {id : SymbolId}, d.nodes.get? n = some r →
    r.kind ≠ .document → r.link = .payload id →
      ∃ s, d.texts.resolve id = some s ∧ d'.texts.resolve id = some s
  /-- So does its namespace, if it has one. -/
  namespaceUri : ∀ {n : NodeId} {r : Record}, d.nodes.get? n = some r → r.namespaceId ≠ 0 →
    ∃ s, d.namespaceUris.resolve r.namespaceId = some s ∧
      d'.namespaceUris.resolve r.namespaceId = some s
  /-- The element with an identifier stays. -/
  identifier : ∀ {id : SymbolId} {e : NodeId}, d.identifiers.get? id = some e →
    d'.identifiers.get? id = some e
  /-- What is known of an entity stays. -/
  entity : ∀ {name : String} {e : Entity.Entry}, d.entities.get? name = some e →
    d'.entities.get? name = some e

/-- A string that there is and that is kept is there before and after. -/
theorem exists_kept {found found' : Option String} (h : found.isSome)
    (kept : ∀ {s : String}, found = some s → found' = some s) :
    ∃ s, found = some s ∧ found' = some s := by
  obtain ⟨s, hs⟩ := Option.isSome_iff_exists.1 h
  exact ⟨s, hs, kept hs⟩

/-- A link of a document that grows stays or becomes known. -/
theorem Extends.link_cases {l l' : Link} (h : d.Extends d') (hl : d.nodes.link? n = some l)
    (hl' : d'.nodes.link? n = some l') :
    l' = l ∨ l = .pending ∧ (l' = .last ∨ ∃ m, l' = .next m) := by
  by_cases pending : l = .pending
  · cases l' with
    | pending => exact .inl pending.symm
    | last => exact .inr ⟨pending, .inl rfl⟩
    | next m => exact .inr ⟨pending, .inr ⟨m, rfl⟩⟩
  · exact .inl (Option.some.inj (hl'.symm.trans (h.link hl pending)))

/-- A record of a document that grows stays up to its link. -/
theorem Extends.isKept (h : d.Extends d') (hd : d.WellFormed) (hr : d.nodes.get? n = some r) :
    ∃ r', d'.nodes.get? n = some r' ∧ r.IsKept r' := by
  obtain ⟨l, hl⟩ := h.record hr
  have known := (hd.linked (Table.kind?_of_get? hr)).isSome_link?
  rw [Table.link?_of_get? hr] at known
  refine ⟨_, hl, r.kind_withLink l, r.flags_withLink l, r.namespaceId_withLink l,
    r.parent_withLink l, r.name_withLink l, fun plain => ?_, fun linked => ?_⟩
  · cases hf : r.link with
    | sibling old =>
      rw [Record.link?, hf, plain] at known
      cases known
    | payload s => exact ⟨s, rfl, by rw [Record.withLink, hf, hf]⟩
  · cases hf : r.link with
    | sibling old =>
      have new : (r.withLink l).link = .sibling l := by rw [Record.withLink, hf]
      refine ⟨old, l, rfl, new, h.link_cases (n := n) ?_ ?_⟩
      · rw [Table.link?_of_get? hr, Record.link?, hf]
      · rw [Table.link?_of_get? hl, Record.link?, new]
    | payload s =>
      rw [Record.link?, hf, linked] at known
      cases known

/-- A well-formed document that grows keeps what it has. -/
theorem Extends.keeps (h : d.Extends d') (hd : d.WellFormed) : d.Keeps d' where
  record hr := h.isKept hd hr
  name hr := exists_kept (hd.resolves hr).name h.name
  text hr inner hs := exists_kept ((hd.resolves hr).payload inner _ hs) h.text
  namespaceUri hr hne := exists_kept ((hd.resolves hr).namespaceId hne) h.namespaceUri
  identifier he := h.identifier he
  entity he := h.entity he

/-- A link that has changed does not change again. -/
theorem Extends.link?_eq_of_ne {d'' : Document} (h : d.Extends d') (h' : d'.Extends d'')
    (hn : n < d.nodes.size) (changed : d.nodes.link? n ≠ d'.nodes.link? n) :
    d''.nodes.link? n = d'.nodes.link? n := by
  obtain ⟨r, hr⟩ := Option.isSome_iff_exists.1 ((d.nodes.isSome_get?_iff n).2 hn)
  obtain ⟨l, hl⟩ := h.record hr
  rw [Table.link?_of_get? hr, Table.link?_of_get? hl] at changed
  cases hf : r.link with
  | payload s => exact absurd (by rw [Record.withLink, hf]) changed
  | sibling old =>
    have known : d.nodes.link? n = some old := by rw [Table.link?_of_get? hr, Record.link?, hf]
    have known' : d'.nodes.link? n = some l := by
      rw [Table.link?_of_get? hl, Record.link?, Record.withLink, hf]
    rcases h.link_cases known known' with rfl | ⟨-, written⟩
    · exact absurd (by rw [Record.link?, Record.link?, Record.withLink, hf]) changed
    · have settled : l ≠ .pending := by
        rintro rfl
        rcases written with same | ⟨m, same⟩ <;> cases same
      exact (h'.link known' settled).trans known'.symm

end Document

namespace Builder

variable {config : Config} {changes : List Change}

/-- Records are written once. Between any two moments of any run every record stays at its index
with its kind, flags, namespace, parent, name and payload, and its link stays or becomes known; the
numbers in it stand for the same strings, and what is known of identifiers and entities stays known.
The link of a record changes in one step of the run at most. -/
theorem records_are_written_once (h : IsRun config changes) :
    let moment := (Document.initial config).moment changes
    (∀ j k, j ≤ k → (moment j).Keeps (moment k)) ∧
      ∀ (n : NodeId) (i i' : Nat), n < (moment i).nodeCount → n < (moment i').nodeCount →
        (moment i).nodes.link? n ≠ (moment (i + 1)).nodes.link? n →
        (moment i').nodes.link? n ≠ (moment (i' + 1)).nodes.link? n → i = i' := by
  intro moment
  have wellFormed := h.grows.wellFormed (Document.wellFormed_initial config)
  have extension : ∀ {j k : Nat}, j ≤ k → (moment j).Extends (moment k) := h.grows.extension
  -- After the first of two steps that change a link, the second finds it as it is from then on.
  have stays : ∀ {n : NodeId} {i i' : Nat}, n < (moment i).nodeCount →
      (moment i).nodes.link? n ≠ (moment (i + 1)).nodes.link? n → i < i' →
        (moment i').nodes.link? n = (moment (i' + 1)).nodes.link? n := by
    intro n i i' hn changed later
    have step := extension (Nat.le_succ i)
    have now := step.link?_eq_of_ne (extension (Nat.succ_le_of_lt later)) hn changed
    have next := step.link?_eq_of_ne (extension (Nat.succ_le_succ (Nat.le_of_lt later))) hn changed
    exact now.trans next.symm
  refine ⟨fun j k hjk => (extension hjk).keeps (wellFormed j), fun n i i' hn hn' hc hc' => ?_⟩
  rcases Nat.lt_trichotomy i i' with before | same | after
  · exact absurd (stays hn hc before) hc'
  · exact same
  · exact absurd (stays hn' hc' after) hc

/-- The link of a closed element becomes known when the comment behind it does, and does not change
in any later step, while the record of the element stays. -/
theorem records_are_written_once_of_closed_element :
    let changes := ((acceptAll [.startDocument, .startElement "a" [], .startElement "b" [],
      .endElement, .comment "c", .startElement "d" []]).run.run
        (start .standard, { handler := .lenient })).2.1.history.toList
    let moment := (Document.initial .standard).moment changes
    (moment 8).nodes.link? 2 = some .pending ∧ (moment 9).nodes.link? 2 = some (.next 3) ∧
      (∀ k, 8 < k → (moment k).nodes.link? 2 = (moment (k + 1)).nodes.link? 2) ∧
      (moment 8).Keeps (moment changes.length) := by
  intro changes moment
  have isRun : IsRun .standard changes :=
    ⟨_, _, reaches_acceptAll _ _, List.filter_eq_self.2 (List.all_eq_true.1 (by decide +kernel))⟩
  obtain ⟨keeps, once⟩ := records_are_written_once isRun
  have before : (moment 8).nodes.link? 2 = some .pending := by decide +kernel
  have after : (moment 9).nodes.link? 2 = some (.next 3) := by decide +kernel
  have there : 2 < (moment 8).nodeCount := by decide +kernel
  refine ⟨before, after, fun k hk => Classical.byContradiction fun changed => ?_,
    keeps 8 changes.length (by decide +kernel)⟩
  have produced : 2 < (moment k).nodeCount := Nat.lt_of_lt_of_le there
    (isRun.grows.extension (Nat.le_of_lt hk)).size_le
  have moved : (moment 8).nodes.link? 2 ≠ (moment 9).nodes.link? 2 := by
    rw [before, after]
    decide
  exact Nat.ne_of_lt hk (once 2 8 k there produced moved changed)

end Builder

end XmlTable
