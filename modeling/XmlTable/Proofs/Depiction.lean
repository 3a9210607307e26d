import XmlTable.Proofs.Outline

/-!
# Complete documents as they are told

What a reader learns of a node of a complete document is what the outline of the document tells of
it: the properties, the parent, and the tree of a node of which nothing is the child.
-/

namespace XmlTable

open Node Outline

/-! ### What is told to a reader -/

namespace Outline

/-- The name of a node. -/
def Entry.nodeName (e : Entry) : String :=
  match e.kind with
  | .document => "#document"
  | .text => if e.flags.cdata then "#cdata-section" else "#text"
  | .comment => "#comment"
  | _ => e.name

/-- The name of a node without its prefix. -/
def Entry.localName (e : Entry) : String :=
  match e.kind with
  | .element | .attr => QName.tail e.name
  | .instruction | .entity | .reference => e.name
  | .document | .text | .comment => ""

/-- The prefix of the name of a node. -/
def Entry.namePrefix? (e : Entry) : Option String :=
  match e.kind with
  | .element | .attr => if (QName.lead e.name).isEmpty then none else some (QName.lead e.name)
  | _ => none

/-- The namespace of a node. -/
def Entry.namespaceUri? (e : Entry) : Option String :=
  match e.kind with
  | .element | .attr => e.uri?.filter (· ≠ "")
  | _ => none

/-- The value of a node, if it is known what the text of the node after it is. -/
def Entry.value? (e : Entry) (after : Option String) : Option String :=
  match e.kind with
  | .text | .comment | .instruction => some e.text
  | .attr | .entity => after
  | .document | .element | .reference => none

/-- The value of a node. -/
def nodeValue? (l : List Entry) (n : Nat) : Option String :=
  l[n]?.bind fun e => e.value? (l[n + 1]?.map (·.text))

/-- The node is part of a tree. -/
def Entry.IsPart (e : Entry) : Prop :=
  e.kind ≠ .document ∧ e.kind ≠ .attr ∧ e.kind ≠ .entity

/-- The tree of a node of which nothing is the child. -/
def Entry.leaf (e : Entry) : StoredTree :=
  match e.kind with
  | .text => .text e.text e.flags
  | .comment => .comment e.text
  | .instruction => .instruction e.name e.text
  | _ => .reference e.name

end Outline

namespace Document

variable {d : Document} {l : List Entry} {e : Entry} {n p : Nat}

/-- What is told of a node is the name that a reader meets. -/
theorem Depicts.observe_name {r : Record} (h : d.Depicts r e) (link : Link) :
    (Query.observe (·.name (r.withLink link).name)).run d = .answer e.name := by
  show Outcome.answer (d.name (r.withLink link).name) = _
  rw [Record.name_withLink, Document.name, h.name]
  rfl

/-- A complete document whose nodes are what some entries say. -/
structure Realizes (d : Document) (l : List Entry) : Prop where
  /-- The document is well formed. -/
  wellFormed : d.WellFormed
  /-- It is complete. -/
  isDone : d.isDone = true
  /-- The nodes. -/
  shows : d.Shows l
  /-- Values follow what they are the values of. -/
  values : HasValues l

namespace Realizes

variable (h : d.Realizes l)
include h

theorem exists_entry (hn : n < d.nodes.size) : ∃ e, l[n]? = some e := by
  rw [h.shows.size_eq] at hn
  exact ⟨_, List.getElem?_eq_getElem hn⟩

theorem lt_size (hn : l[n]? = some e) : n < d.nodes.size := by
  rw [h.shows.size_eq]
  exact (List.getElem?_eq_some_iff.1 hn).1

theorem kind? (hn : l[n]? = some e) : d.nodes.kind? n = some e.kind :=
  (h.shows.showsAt hn).kind?

theorem parent? (hn : l[n]? = some e) : d.nodes.parent? n = e.parent :=
  (h.shows.showsAt hn).parent?

/-! #### Properties -/

theorem run_kind (hn : l[n]? = some e) : (Query.kind n).run d = .answer e.kind :=
  Query.run_kind (h.kind? hn)

theorem run_flags (hn : l[n]? = some e) :
    (Query.isIgnorable n).run d = .answer (decide (e.kind = .text) && e.flags.ignorable) ∧
      (Query.isCData n).run d = .answer (decide (e.kind = .text) && e.flags.cdata) := by
  obtain ⟨r, ⟨link, hl⟩, depicts⟩ := h.shows.showsAt hn
  rw [Query.isIgnorable, Query.isCData, Query.run_record_bind hl, Query.run_record_bind hl,
    Record.kind_withLink, Record.flags_withLink, depicts.kind, depicts.flags]
  exact ⟨rfl, rfl⟩

theorem run_parent (hn : l[n]? = some e) : (Query.parent n).run d = .answer e.parent := by
  obtain ⟨r, ⟨link, hl⟩, depicts⟩ := h.shows.showsAt hn
  rw [Query.parent, Query.run_record_bind hl, Record.parent_withLink, depicts.parent]
  rfl

theorem run_nodeName (hn : l[n]? = some e) : (Query.nodeName n).run d = .answer e.nodeName := by
  obtain ⟨r, ⟨link, hl⟩, depicts⟩ := h.shows.showsAt hn
  have own : (Query.observe (·.name (r.withLink link).name)).run d = .answer e.name :=
    depicts.observe_name link
  rw [Query.nodeName, Query.run_record_bind hl, Record.kind_withLink, Record.flags_withLink,
    depicts.kind, depicts.flags, Entry.nodeName]
  cases e.kind
  case document | text | comment => rfl
  all_goals exact own

theorem run_localName (hn : l[n]? = some e) :
    (Query.localName n).run d = .answer e.localName ∧
      (Query.namePrefix? n).run d = .answer e.namePrefix? := by
  obtain ⟨r, ⟨link, hl⟩, depicts⟩ := h.shows.showsAt hn
  have own : (Query.observe (·.name (r.withLink link).name)).run d = .answer e.name :=
    depicts.observe_name link
  rw [Query.localName, Query.namePrefix?, Query.run_record_bind hl, Query.run_record_bind hl,
    Record.kind_withLink, depicts.kind, Entry.localName, Entry.namePrefix?]
  constructor
  all_goals cases e.kind
  case left.element | left.attr | right.element | right.attr =>
    dsimp only
    rw [Query.run_bind_of_answer own]
    rfl
  case left.instruction | left.entity | left.reference => exact own
  all_goals rfl

theorem run_namespaceUri? (hn : l[n]? = some e) :
    (Query.namespaceUri? n).run d = .answer e.namespaceUri? := by
  obtain ⟨r, ⟨link, hl⟩, depicts⟩ := h.shows.showsAt hn
  have own : (Query.observe (·.namespaceUri? (r.withLink link).namespaceId)).run d =
      .answer (e.uri?.filter (· ≠ "")) := by
    show Outcome.answer (d.namespaceUri? (r.withLink link).namespaceId) = _
    rw [Record.namespaceId_withLink, depicts.uri.namespaceUri?_eq]
  rw [Query.namespaceUri?, Query.run_record_bind hl, Record.kind_withLink, depicts.kind,
    Entry.namespaceUri?]
  cases e.kind
  case element | attr => exact own
  all_goals rfl

theorem run_nodeValue? (hn : l[n]? = some e) :
    (Query.nodeValue? n).run d = .answer (nodeValue? l n) := by
  obtain ⟨r, held, depicts⟩ := h.shows.showsAt hn
  have plain : e.kind = .text ∨ e.kind = .comment ∨ e.kind = .instruction →
      (Query.nodeValue? n).run d = .answer (some e.text) := fun hk => by
    rw [← depicts.kind] at hk
    exact Query.run_nodeValue? held hk (depicts.text hk)
  have valued : e.kind = .attr ∨ e.kind = .entity →
      (Query.nodeValue? n).run d = .answer (l[n + 1]?.map (·.text)) := fun hk => by
    obtain ⟨value, next⟩ := h.values n e hn (by rcases hk with hk | hk <;> rw [hk] <;> rfl)
    obtain ⟨r', held', depicts'⟩ := h.shows.showsAt next
    rw [← depicts.kind] at hk
    rw [next]
    exact Query.run_nodeValue?_of_value held hk held' (depicts'.text (.inl depicts'.kind))
  have bare : e.kind = .document ∨ e.kind = .element ∨ e.kind = .reference →
      (Query.nodeValue? n).run d = .answer none := fun hk => by
    obtain ⟨link, hl⟩ := held
    rw [Query.nodeValue?, Query.run_record_bind hl, Record.kind_withLink, depicts.kind]
    rcases hk with hk | hk | hk <;> rw [hk] <;> rfl
  rw [nodeValue?, hn, Option.bind_some, Entry.value?]
  cases hk : e.kind
  case text | comment | instruction => exact plain (by simp [hk])
  case attr | entity => exact valued (by simp [hk])
  all_goals exact bare (by simp [hk])

/-! #### Trees without branches -/

/-- A node of which nothing is the child is read as what is told of it. -/
theorem run_readTree_leaf (hn : l[n]? = some e) (part : e.IsPart) (leaf : e.kind ≠ .element)
    (depth : Nat) : (Query.readTree (depth + 1) n).run d = .answer (some e.leaf) := by
  obtain ⟨document, attr, entity⟩ := part
  have name := h.run_nodeName hn
  have value := h.run_nodeValue? hn
  obtain ⟨ignorable, cdata⟩ := h.run_flags hn
  rw [nodeValue?, hn, Option.bind_some, Entry.value?] at value
  rw [Entry.nodeName] at name
  rw [Query.readTree, Query.run_bind_of_answer (h.run_kind hn), Entry.leaf]
  cases hk : e.kind
  case document => exact absurd hk document
  case attr => exact absurd hk attr
  case entity => exact absurd hk entity
  case element => exact absurd hk leaf
  all_goals
    rw [hk] at name value ignorable cdata
    dsimp only at name value ⊢
  case text =>
    rw [Query.run_bind_of_answer ignorable, Query.run_bind_of_answer cdata,
      Query.run_bind_of_answer value]
    rfl
  case comment =>
    rw [Query.run_bind_of_answer value]
    rfl
  case instruction =>
    rw [Query.run_bind_of_answer name, Query.run_bind_of_answer value]
    rfl
  case reference =>
    rw [Query.run_bind_of_answer name]
    rfl

end Realizes

end Document

end XmlTable
