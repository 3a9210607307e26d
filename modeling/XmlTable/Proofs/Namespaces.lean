import XmlTable.Proofs.Declarations

/-!
# Namespaces read off a table

A builder resolves a name when it comes to it, by the frames of the elements that are open. A reader
of the finished table has no frames, but can go from the element outwards and look for a
declaration. Both find the same, for every element and every attribute, and what the builder
reported are the names for which a reader finds no declaration, each of them once and in order.
-/

namespace XmlTable

open Node Namespace

/-! ### Prefixes that are not declared -/

/-- What is reported of a prefix for which nothing is declared. -/
def Namespace.undeclaredPrefix (p : String) : Failure :=
  .construction ("undeclared namespace prefix '" ++ p ++ "'")

/-- The prefix of a name, if it has one and nothing is declared for it. -/
def Namespace.Declared.lacking? (declared : Declared) (name : String) : Option String :=
  if QName.lead name ≠ "" ∧ declared (QName.lead name) = none then some (QName.lead name) else none

/-! ### What a reader finds -/

namespace Document

variable {d d' : Document} {n e c owner : Nat} {name p : String} {uri? : Option String}
  {scopes : Scopes} {declared : Declared}

/-- An element or attribute with its name and the element whose declarations count for it. -/
def Bears (d : Document) (n owner : Nat) (name : String) : Prop :=
  (Query.nodeName n).run d = .answer name ∧
    (d.nodes.kind? n = some .element ∧ owner = n ∨ d.nodes.IsAttribute owner n)

theorem Bears.unique {owner' : Nat} {name' : String} (h : d.Bears n owner name)
    (h' : d.Bears n owner' name') : owner = owner' ∧ name = name' := by
  obtain ⟨hn, ho⟩ := h
  obtain ⟨hn', ho'⟩ := h'
  refine ⟨?_, Outcome.answer.inj (hn.symm.trans hn')⟩
  rcases ho with ⟨hk, rfl⟩ | ⟨hk, hp⟩ <;> rcases ho' with ⟨hk', rfl⟩ | ⟨hk', hp'⟩
  · rfl
  · cases hk.symm.trans hk'
  · cases hk.symm.trans hk'
  · exact Option.some.inj (hp.symm.trans hp')

/-- The namespace of an element or attribute by the rules of scoping: the declarations of the owner
and of the elements around it count, the nearest one before the others. -/
structure IsScoped (d : Document) (n owner : Nat) (name : String) (uri? : Option String) :
    Prop where
  /-- Declarations have the namespace of declarations. -/
  declaration : d.nodes.kind? n = some .attr → (name = "xmlns" ∨ ∃ p, name = "xmlns:" ++ p) →
    uri? = some xmlnsUri
  /-- One reserved prefix has its namespace, whatever is declared. -/
  xml : QName.lead name = "xml" → uri? = some xmlUri
  /-- So has the other one. -/
  xmlns : QName.lead name = "xmlns" → uri? = some xmlnsUri
  /-- Any other prefix has the namespace that is declared for it. -/
  other : QName.lead name ≠ "" → QName.lead name ≠ "xml" → QName.lead name ≠ "xmlns" →
    ∃ found, d.Nearest ("xmlns:" ++ QName.lead name) owner found ∧ uri? = found.filter (· ≠ "")
  /-- An element without a prefix has the default namespace. -/
  element : d.nodes.kind? n = some .element → QName.lead name = "" →
    ∃ found, d.Nearest "xmlns" owner found ∧ uri? = found.filter (· ≠ "")
  /-- An attribute without a prefix has none. -/
  attr : d.nodes.kind? n = some .attr → name ≠ "xmlns" → QName.lead name = "" → uri? = none

/-- The name of a node has a prefix for which nothing is declared. -/
def LacksDeclaration (d : Document) (n : Nat) (p : String) : Prop :=
  ∃ owner name, d.Bears n owner name ∧ QName.lead name = p ∧ p ≠ "" ∧ p ≠ "xml" ∧ p ≠ "xmlns" ∧
    d.Nearest ("xmlns:" ++ p) owner none

theorem LacksDeclaration.kind (h : d.LacksDeclaration n p) :
    d.nodes.kind? n = some .element ∨ d.nodes.kind? n = some .attr := by
  obtain ⟨_, _, bears, -⟩ := h
  exact bears.2.imp And.left And.left

/-! ### What a builder finds -/

namespace InScope

theorem declared_xml (h : d.InScope c scopes declared) : declared "xml" = some xmlUri :=
  h.declared_of_reserved (.inl rfl)

theorem declared_xmlns (h : d.InScope c scopes declared) : declared "xmlns" = some xmlnsUri :=
  h.declared_of_reserved (.inr rfl)

/-- What is declared for a prefix is what the nearest declaration says. -/
theorem nearest_declaration (h : d.InScope c scopes declared) (hp : p ≠ "") (hx : p ≠ "xml")
    (hn : p ≠ "xmlns") : d.Nearest ("xmlns:" ++ p) c (declared p) := by
  have := h.nearest (p := p) (not_or.2 ⟨hx, hn⟩)
  rwa [declarationName, if_neg hp] at this

/-- Nothing is declared for the prefix of a name if a reader finds no declaration. -/
theorem lacking?_iff (h : d.InScope c scopes declared) (hd : d.WellFormed) :
    declared.lacking? name = some p ↔ QName.lead name = p ∧ p ≠ "" ∧ p ≠ "xml" ∧ p ≠ "xmlns" ∧
      d.Nearest ("xmlns:" ++ p) c none := by
  unfold Declared.lacking?
  rw [Option.ite_none_right_eq_some, Option.some.injEq]
  constructor
  · rintro ⟨⟨hne, none⟩, rfl⟩
    have hx : QName.lead name ≠ "xml" := fun he => by
      rw [he, h.declared_xml] at none
      cases none
    have hn : QName.lead name ≠ "xmlns" := fun he => by
      rw [he, h.declared_xmlns] at none
      cases none
    have nearest := h.nearest_declaration hne hx hn
    rw [none] at nearest
    exact ⟨rfl, hne, hx, hn, nearest⟩
  · rintro ⟨rfl, hne, hx, hn, none⟩
    exact ⟨⟨hne, (h.nearest_declaration hne hx hn).unique hd none⟩, rfl⟩

/-- An element has the namespace that is declared for its prefix. -/
theorem isScoped_element (h : d.InScope n scopes declared)
    (hk : d.nodes.kind? n = some .element) (name : String) :
    d.IsScoped n n name ((declared.ofElement name).filter (· ≠ "")) where
  declaration hk' := by cases hk.symm.trans hk'
  xml hl := by
    rw [Declared.ofElement, hl, h.declared_xml]
    rfl
  xmlns hl := by
    rw [Declared.ofElement, hl, h.declared_xmlns]
    rfl
  other hne hx hn := ⟨_, h.nearest_declaration hne hx hn, rfl⟩
  element _ hl := by
    rw [Declared.ofElement, hl]
    exact ⟨_, h.nearest (p := "") (by decide), rfl⟩
  attr hk' := by cases hk.symm.trans hk'

/-- So has an attribute, unless it is a declaration itself or has no prefix. -/
theorem isScoped_attribute {attr : Event.Attribute} (h : d.InScope e scopes declared)
    (hk : d.nodes.kind? n = some .attr) :
    d.IsScoped n e attr.name ((declared.ofAttribute attr).filter (· ≠ "")) := by
  unfold Declared.ofAttribute
  by_cases hd : attr.declaresNamespace = true
  · rw [if_pos hd]
    have lead := Event.Attribute.lead_of_declaresNamespace hd
    refine ⟨fun _ _ => rfl, fun hl => ?_, fun _ => rfl, fun hne _ hn => ?_, fun hk' => ?_,
      fun _ hn hl => ?_⟩
    · rw [hl] at lead
      simp at lead
    · exact (lead.elim (fun lead => hne lead.2) hn).elim
    · cases hk.symm.trans hk'
    · rw [hl] at lead
      exact absurd (lead.elim And.left fun lead => absurd lead (by decide)) hn
  · rw [if_neg hd]
    refine ⟨fun _ hn => absurd (Event.Attribute.declaresNamespace_iff.2 hn) hd, fun hl => ?_,
      fun hl => ?_, fun hne hx hn => ?_, fun hk' => ?_, fun _ _ hl => ?_⟩
    · rw [hl, if_neg (by decide), h.declared_xml]
      rfl
    · rw [hl, if_neg (by decide), h.declared_xmlns]
      rfl
    · rw [if_neg hne]
      exact ⟨_, h.nearest_declaration hne hx hn, rfl⟩
    · cases hk.symm.trans hk'
    · rw [if_pos hl]
      rfl

end InScope

/-- The record of a node has a name and the number of a namespace. -/
def Names (d : Document) (n : Nat) (name : String) (uri? : Option String) : Prop :=
  ∃ r, d.Holds n r ∧ (r.kind = .element ∨ r.kind = .attr) ∧
    d.names.resolve r.name = some name ∧ d.Numbers r.namespaceId uri?

namespace Names

theorem mono (h : d.Names n name uri?) (he : d.Extends d') : d'.Names n name uri? := by
  obtain ⟨r, held, hk, hn, hu⟩ := h
  exact ⟨r, held.mono he, hk, he.name hn, hu.mono he⟩

theorem run_nodeName (h : d.Names n name uri?) : (Query.nodeName n).run d = .answer name := by
  obtain ⟨r, held, hk, hn, -⟩ := h
  refine Query.run_nodeName held ?_ hn
  rcases hk with hk | hk <;> rw [hk] <;> exact ⟨nofun, nofun, nofun⟩

theorem run_namespaceUri? (h : d.Names n name uri?) :
    (Query.namespaceUri? n).run d = .answer (uri?.filter (· ≠ "")) := by
  obtain ⟨r, ⟨l, hl⟩, hk, -, hu⟩ := h
  have found : (Query.observe (·.namespaceUri? (r.withLink l).namespaceId)).run d =
      .answer (uri?.filter (· ≠ "")) := by
    show Outcome.answer (d.namespaceUri? (r.withLink l).namespaceId) = _
    rw [Record.namespaceId_withLink, hu.namespaceUri?_eq]
  rw [Query.namespaceUri?, Query.run_record_bind hl, Record.kind_withLink]
  rcases hk with hk | hk
  · rw [hk]
    exact found
  · rw [hk]
    exact found

end Names

end Document

/-! ### Entries -/

/-- A name in a table, with what is declared for it. -/
structure NameEntry where
  /-- The node that has the name. -/
  node : Nat
  /-- The element whose declarations count. -/
  owner : Nat
  /-- The name. -/
  name : String
  /-- What is declared for it. -/
  uri? : Option String
  /-- The prefix for which nothing is declared. -/
  lacking? : Option String

namespace NameEntry

variable {d d' : Document} {declared : Declared} {entry : NameEntry} {n e : Nat} {p : String}
  {attributes : List Event.Attribute}

/-- The name of an element. -/
def ofElement (declared : Declared) (n : Nat) (name : String) : NameEntry :=
  ⟨n, n, name, declared.ofElement name, declared.lacking? name⟩

/-- The name of an attribute. -/
def ofAttribute (declared : Declared) (e n : Nat) (attr : Event.Attribute) : NameEntry :=
  ⟨n, e, attr.name, declared.ofAttribute attr,
    if attr.declaresNamespace then none else declared.lacking? attr.name⟩

/-- The names of the attributes of an element, of which the first has the node `n`. -/
def ofAttributes (declared : Declared) (e : Nat) : Nat → List Event.Attribute → List NameEntry
  | _, [] => []
  | n, attr :: rest => ofAttribute declared e n attr :: ofAttributes declared e (n + 2) rest

/-- What is reported of a name. -/
def complaints (entry : NameEntry) : List Failure :=
  entry.lacking?.toList.map undeclaredPrefix

/-- The node with the prefix for which nothing is declared. -/
def lack? (entry : NameEntry) : Option (Nat × String) :=
  entry.lacking?.map (entry.node, ·)

theorem lack?_eq_some_iff {lack : Nat × String} :
    entry.lack? = some lack ↔ entry.node = lack.1 ∧ entry.lacking? = some lack.2 := by
  obtain ⟨n, p⟩ := lack
  rw [lack?, Option.map_eq_some_iff]
  simp [and_comm]

theorem flatMap_complaints (log : List NameEntry) :
    log.flatMap complaints = (log.filterMap lack?).map fun lack => undeclaredPrefix lack.2 := by
  rw [List.filterMap_eq_flatMap_toList, List.map_flatMap]
  refine List.flatMap_congr fun entry _ => ?_
  unfold complaints lack?
  cases entry.lacking? <;> rfl

theorem complaints_ofElement (declared : Declared) (n : Nat) (name : String) :
    (ofElement declared n name).complaints = declared.complaints name := by
  unfold complaints ofElement Declared.lacking? Declared.complaints
  dsimp only
  split <;> rfl

theorem complaints_ofAttribute (declared : Declared) (e n : Nat) (attr : Event.Attribute) :
    (ofAttribute declared e n attr).complaints = declared.attributeComplaints attr := by
  unfold Declared.attributeComplaints
  rw [← complaints_ofElement declared n]
  unfold complaints ofAttribute ofElement
  dsimp only
  split <;> rfl

theorem complaints_ofAttributes (declared : Declared) (e n : Nat)
    (attributes : List Event.Attribute) :
    (ofAttributes declared e n attributes).flatMap complaints =
      attributes.flatMap declared.attributeComplaints := by
  induction attributes generalizing n with
  | nil => rfl
  | cons attr rest ih =>
    rw [ofAttributes, List.flatMap_cons, List.flatMap_cons, ih, complaints_ofAttribute]

theorem mem_ofAttributes : entry ∈ ofAttributes declared e n attributes ↔
    ∃ (i : Nat) (attr : Event.Attribute), attributes[i]? = some attr ∧
      entry = ofAttribute declared e (n + 2 * i) attr := by
  induction attributes generalizing n with
  | nil => simp [ofAttributes]
  | cons attr rest ih =>
    have shift : ∀ i, n + 2 * (i + 1) = n + 2 + 2 * i := fun i => by omega
    rw [ofAttributes, List.mem_cons, ih]
    constructor
    · rintro (rfl | ⟨i, other, hi, rfl⟩)
      · exact ⟨0, attr, rfl, rfl⟩
      · exact ⟨i + 1, other, hi, by rw [shift]⟩
    · rintro ⟨_ | i, other, hi, rfl⟩
      · obtain rfl := Option.some.inj hi
        exact .inl rfl
      · exact .inr ⟨i, other, hi, by rw [shift]⟩

theorem le_of_mem_ofAttributes (h : entry ∈ ofAttributes declared e n attributes) :
    n ≤ entry.node := by
  obtain ⟨i, attr, -, rfl⟩ := mem_ofAttributes.1 h
  exact Nat.le_add_right ..

theorem ofAttributes_ascending (declared : Declared) (e n : Nat)
    (attributes : List Event.Attribute) :
    (ofAttributes declared e n attributes).Pairwise (·.node < ·.node) := by
  induction attributes generalizing n with
  | nil => exact .nil
  | cons attr rest ih =>
    refine List.pairwise_cons.2 ⟨fun entry h => ?_, ih _⟩
    exact Nat.lt_of_lt_of_le (Nat.lt_add_of_pos_right Nat.two_pos) (le_of_mem_ofAttributes h)

/-- The name stands in the document, with the namespace that was declared for it. -/
inductive Stands (d : Document) : NameEntry → Prop
  | element {n : Nat} {name : String} {scopes : Scopes} {declared : Declared} :
      d.nodes.kind? n = some .element → d.Names n name (declared.ofElement name) →
      d.InScope n scopes declared → Stands d (.ofElement declared n name)
  | attr {e n : Nat} {attr : Event.Attribute} {scopes : Scopes} {declared : Declared} :
      d.nodes.IsAttribute e n → d.Names n attr.name (declared.ofAttribute attr) →
      d.InScope e scopes declared → Stands d (.ofAttribute declared e n attr)

namespace Stands

theorem mono (h : entry.Stands d) (he : d.Extends d') : entry.Stands d' := by
  cases h with
  | element hk names inside =>
    exact .element (he.continues.kind? hk) (names.mono he) (inside.mono he)
  | attr ha names inside =>
    exact .attr ⟨he.continues.kind? ha.1, he.continues.parent? ha.2⟩ (names.mono he)
      (inside.mono he)

theorem names (h : entry.Stands d) : d.Names entry.node entry.name entry.uri? := by
  cases h with
  | element _ names => exact names
  | attr _ names => exact names

theorem lt_size (h : entry.Stands d) : entry.node < d.nodes.size := by
  obtain ⟨r, ⟨l, hl⟩, -⟩ := h.names
  exact Table.lt_size_of_get? hl

theorem bears (h : entry.Stands d) : d.Bears entry.node entry.owner entry.name := by
  refine ⟨h.names.run_nodeName, ?_⟩
  cases h with
  | element hk => exact .inl ⟨hk, rfl⟩
  | attr ha => exact .inr ha

/-- The namespace of a name that stands in a document follows the rules. -/
theorem isScoped (h : entry.Stands d) :
    d.IsScoped entry.node entry.owner entry.name (entry.uri?.filter (· ≠ "")) := by
  cases h with
  | element hk _ inside => exact inside.isScoped_element hk _
  | attr ha _ inside => exact inside.isScoped_attribute ha.1

/-- Nothing is declared for the prefix of a name if a reader finds no declaration. -/
theorem lacking?_iff (h : entry.Stands d) (hd : d.WellFormed) :
    entry.lacking? = some p ↔ d.LacksDeclaration entry.node p := by
  have reader : d.LacksDeclaration entry.node p ↔ QName.lead entry.name = p ∧ p ≠ "" ∧
      p ≠ "xml" ∧ p ≠ "xmlns" ∧ d.Nearest ("xmlns:" ++ p) entry.owner none := by
    constructor
    · rintro ⟨owner, name, bears, rules⟩
      obtain ⟨rfl, rfl⟩ := bears.unique h.bears
      exact rules
    · exact fun rules => ⟨_, _, h.bears, rules⟩
  rw [reader]
  cases h with
  | element _ _ inside => exact inside.lacking?_iff hd
  | @attr e n attr _ declared _ _ inside =>
    show (if attr.declaresNamespace then none else declared.lacking? attr.name) = some p ↔ _
    split
    · next hdecl =>
      refine iff_of_false nofun ?_
      rintro ⟨rfl, hne, -, hn, -⟩
      exact (Event.Attribute.lead_of_declaresNamespace hdecl).elim (fun lead => hne lead.2) hn
    · exact inside.lacking?_iff hd

end Stands

end NameEntry

/-! ### Runs -/

namespace Builder

open NameEntry

variable {config : Config} {s s' : Builder × Journal} {before : List Failure}
  {log : List NameEntry}

/-- The names in the table, in order, and what was reported of them. -/
structure Logged (before : List Failure) (s : Builder × Journal) (log : List NameEntry) :
    Prop where
  /-- The names are in order. -/
  sorted : log.Pairwise (·.node < ·.node)
  /-- They stand in the document. -/
  stands : ∀ entry ∈ log, entry.Stands s.1.document
  /-- There are no others. -/
  covers : ∀ n, s.1.document.nodes.kind? n = some .element ∨
    s.1.document.nodes.kind? n = some .attr → ∃ entry ∈ log, entry.node = n
  /-- What was reported. -/
  errors : s.2.errors = before ++ log.flatMap complaints

namespace Logged

/-- More names stand in a document that grew. -/
theorem append (h : Logged before s log) (he : s.1.document.Extends s'.1.document)
    (new : List NameEntry) (sorted : new.Pairwise (·.node < ·.node))
    (stands : ∀ entry ∈ new, entry.Stands s'.1.document)
    (later : ∀ entry ∈ new, s.1.document.nodes.size ≤ entry.node)
    (covers : ∀ n, s.1.document.nodes.size ≤ n → s'.1.document.nodes.kind? n = some .element ∨
      s'.1.document.nodes.kind? n = some .attr → ∃ entry ∈ new, entry.node = n)
    (errors : s'.2.errors = s.2.errors ++ new.flatMap complaints) :
    Logged before s' (log ++ new) where
  sorted := List.pairwise_append.2 ⟨h.sorted, sorted, fun entry hl other hn =>
    Nat.lt_of_lt_of_le (h.stands entry hl).lt_size (later other hn)⟩
  stands entry hm := (List.mem_append.1 hm).elim (fun hl => (h.stands entry hl).mono he)
    (stands entry)
  covers n hk := by
    rcases Nat.lt_or_ge n s.1.document.nodes.size with hlt | hge
    · rw [(he.continues n hlt).1] at hk
      obtain ⟨entry, hl, hn⟩ := h.covers n hk
      exact ⟨entry, List.mem_append_left _ hl, hn⟩
    · obtain ⟨entry, hl, hn⟩ := covers n hge hk
      exact ⟨entry, List.mem_append_right _ hl, hn⟩
  errors := by rw [errors, h.errors, List.flatMap_append, List.append_assoc]

/-- The names stay the same when no element and no attribute is added. -/
theorem mono (h : Logged before s log) (grows : GrowsPlain s s')
    (errors : s'.2.errors = s.2.errors) : Logged before s' log := by
  have := h.append grows.extension [] .nil nofun nofun
    (fun n hn hk => absurd hk (not_or.2
      ⟨fun hk => (grows.kind hn hk).1 rfl, fun hk => (grows.kind hn hk).2 rfl⟩))
    (by rw [errors, List.flatMap_nil, List.append_nil])
  rwa [List.append_nil] at this

end Logged

section Starts

variable {name : String} {attributes : List Event.Attribute} {texts : List Record} {own : Record}
  {stored : List StoredAttribute} {declared : Declared}

/-- The scopes in a new element are those around it with a frame for the element. -/
theorem StartsElement.inScope (h : StartsElement config name attributes texts own stored s s')
    (outside : s.1.document.InScope s.1.cursor s.1.scopes declared)
    (plain : ∀ attr ∈ attributes, attr.name ≠ "xmlns:") :
    s'.1.document.InScope s'.1.cursor s'.1.scopes
      ((Declared.nothing.addAll attributes).shadowing declared) := by
  obtain ⟨frame, pushed, binds⟩ := h.scopes
  obtain ⟨_, _, same, -⟩ := h.own
  have held := h.holds
  rw [same] at held
  rw [pushed]
  exact .element held.kind? held.parent? h.isAsStarted.attributes plain binds
    (outside.mono h.adds.keeps.extension)

/-- A new element has the namespace that is declared for its name. -/
theorem StartsElement.names_element
    (h : StartsElement config name attributes texts own stored s s')
    (binds : s.1.document.Binds s.1.scopes.resolve declared) :
    s'.1.document.Names s'.1.cursor name
      (((Declared.nothing.addAll attributes).shadowing declared).ofElement name) := by
  obtain ⟨_, _, same, hn⟩ := h.own
  refine ⟨own, h.holds, .inl (by rw [same]; rfl), ?_, (h.names binds).own⟩
  rw [same]
  exact hn

/-- So does each of its attributes. -/
theorem StartsElement.names_attribute
    (h : StartsElement config name attributes texts own stored s s')
    (binds : s.1.document.Binds s.1.scopes.resolve declared) {i : Nat} {attr : Event.Attribute}
    (ha : attributes[i]? = some attr) :
    s'.1.document.Names (s'.1.cursor + 1 + 2 * i) attr.name
      (((Declared.nothing.addAll attributes).shadowing declared).ofAttribute attr) := by
  have hi := (List.getElem?_eq_some_iff.1 ha).1
  rw [← h.attributes.length_eq] at hi
  have hs := List.getElem?_eq_getElem hi
  have held := h.adds.holds_right (i := 1 + 2 * i)
    (by rw [Nat.add_comm 1, List.getElem?_cons_succ]
        exact (getElem?_attributePairs ..).2 ⟨i, _, hs, .inl ⟨rfl, rfl⟩⟩)
  rw [← h.cursor, ← Nat.add_assoc] at held
  exact ⟨_, held, .inr rfl, (h.attributes.standsFor hs ha).name,
    (h.names binds).attributes i _ attr hs ha⟩

/-- The names that a start event adds are those of the element and of its attributes. -/
theorem StartsElement.logged (h : StartsElement config name attributes texts own stored s s')
    (outside : s.1.document.InScope s.1.cursor s.1.scopes declared)
    (plain : ∀ attr ∈ attributes, attr.name ≠ "xmlns:") (logged : Logged before s log) :
    ∃ log, Logged before s' log := by
  have inside := h.inScope outside plain
  generalize hd : (Declared.nothing.addAll attributes).shadowing declared = inner at inside
  have carries := h.isAsStarted.attributes
  have extension := h.adds.keeps.extension
  obtain ⟨first, kind⟩ := (h.eq_cursor_iff _).1 rfl
  refine ⟨_, logged.append extension (ofElement inner s'.1.cursor name ::
    ofAttributes inner s'.1.cursor (s'.1.cursor + 1) attributes) ?_ ?_ ?_ ?_ ?_⟩
  · exact List.pairwise_cons.2 ⟨fun entry hm => le_of_mem_ofAttributes hm,
      ofAttributes_ascending ..⟩
  · intro entry hm
    rcases List.mem_cons.1 hm with rfl | hm
    · exact .element kind (hd ▸ h.names_element outside.binds) inside
    · obtain ⟨i, attr, ha, rfl⟩ := mem_ofAttributes.1 hm
      refine .attr ((carries.attribute_iff _).2 ⟨i, ?_, rfl⟩)
        (hd ▸ h.names_attribute outside.binds ha) inside
      rw [List.length_map]
      exact (List.getElem?_eq_some_iff.1 ha).1
  · intro entry hm
    rcases List.mem_cons.1 hm with rfl | hm
    · exact first
    · exact Nat.le_trans first (Nat.le_of_succ_le (le_of_mem_ofAttributes hm))
  · rintro n hn (hk | hk)
    · obtain rfl := (h.eq_cursor_iff n).2 ⟨hn, hk⟩
      exact ⟨_, List.mem_cons_self .., rfl⟩
    · -- A new attribute belongs to a new element, and there is only one.
      obtain ⟨e, hp, he, -⟩ := (h.adds.isOpen.layout hk).attr rfl
      have new : s.1.document.nodes.size ≤ e := Nat.le_of_not_lt fun hlt =>
        absurd (extension.attr hlt hk hp) (Nat.not_lt.2 hn)
      obtain rfl := (h.eq_cursor_iff e).2 ⟨new, he⟩
      obtain ⟨i, hi, rfl⟩ := (carries.attribute_iff n).1 ⟨hk, hp⟩
      rw [List.length_map] at hi
      exact ⟨_, List.mem_cons_of_mem _
        (mem_ofAttributes.2 ⟨i, _, List.getElem?_eq_getElem hi, rfl⟩), rfl⟩
  · rw [List.flatMap_cons, complaints_ofElement, complaints_ofAttributes,
      (h.names outside.binds).errors, hd]

end Starts

/-- What is known of the names while the construction has not failed: those in the table, and what
is in scope for those to come. -/
structure Tracks (before : List Failure) (s : Builder × Journal) : Prop where
  /-- The names in the table. -/
  logged : ∃ log, Logged before s log
  /-- At first the reserved prefixes are bound. -/
  idle : s.1.stage = .idle → s.1.document.Binds s.1.scopes.resolve .reserved
  /-- Then the scopes are those of the cursor. -/
  inside : s.1.stage = .documentOpen →
    ∃ declared, s.1.document.InScope s.1.cursor s.1.scopes declared

theorem tracks_start (config : Config) (journal : Journal) :
    Tracks journal.errors (start config, journal) where
  logged := by
    refine ⟨[], .nil, nofun, fun n hk => ?_, (List.append_nil _).symm⟩
    rcases hk with hk | hk <;> cases Table.lt_size_of_kind? hk
  idle _ := binds_start config
  inside := nofun

/-- The scopes of the cursor are those of the names to come. -/
theorem Tracks.ofOpen (ho : s.1.Open config) (logged : ∃ log, Logged before s log)
    {declared : Declared} (inside : s.1.document.InScope s.1.cursor s.1.scopes declared) :
    Tracks before s where
  logged := logged
  idle hs := by cases hs.symm.trans ho.open_stage
  inside _ := ⟨declared, inside⟩

/-- An event that is taken keeps track of the names. -/
theorem Effect.tracks {event : Event} (h : Effect config s s' event) (hs : s.1.Consistent config)
    (plain : ∀ name attributes, event = .startElement name attributes →
      ∀ attr ∈ attributes, attr.name ≠ "xmlns:")
    (tracks : s.1.stage ≠ .failed → Tracks before s) (going : s'.1.stage ≠ .failed) :
    Tracks before s' := by
  have opened : s.1.Open config → Tracks before s := fun ho =>
    tracks fun hf => by cases hf.symm.trans ho.open_stage
  cases h with
  | startDocument idle starts =>
    have stage := idle.stage_eq hs
    have known := tracks fun hf => by cases hf.symm.trans stage
    obtain ⟨log, logged⟩ := known.logged
    have grows := (Effect.startDocument idle starts).growsPlain hs nofun
    have binds := (known.idle stage).mono grows.extension
    rw [← starts.quiet.scopes] at binds
    have root := starts.isOpen.layout.kind?_zero (by rw [starts.size]; exact Nat.one_pos)
    have inside := Document.InScope.document root binds
    rw [← starts.cursor] at inside
    exact .ofOpen starts.isOpen ⟨log, logged.mono grows starts.quiet.errors⟩ inside
  | endDocument ho ends =>
    obtain ⟨log, logged⟩ := (opened ho).logged
    exact
      { logged := ⟨log, logged.mono ((Effect.endDocument ho ends).growsPlain hs nofun) ends.errors⟩
        idle := fun hi => by cases hi.symm.trans ends.stage
        inside := fun hi => by cases hi.symm.trans ends.stage }
  | @startElement name attributes _ _ _ ho starts =>
    obtain ⟨log, logged⟩ := (opened ho).logged
    obtain ⟨declared, outside⟩ := (opened ho).inside ho.open_stage
    have plain := plain name attributes rfl
    exact .ofOpen starts.adds.isOpen (starts.logged outside plain logged)
      (starts.inScope outside plain)
  | endElement ho ends =>
    obtain ⟨log, logged⟩ := (opened ho).logged
    obtain ⟨declared, inside⟩ := (opened ho).inside ho.open_stage
    obtain ⟨outer, outside⟩ := (inside.mono ends.adds.keeps.extension).pop ends.kind ends.parent
    rw [← ends.scopes] at outside
    exact .ofOpen ends.adds.isOpen
      ⟨log, logged.mono ((Effect.endElement ho ends).growsPlain hs nofun) ends.errors⟩ outside
  | content ho contributes quiet =>
    have adds := contributes.addsContent ho quiet
    obtain ⟨log, logged⟩ := (opened ho).logged
    obtain ⟨declared, inside⟩ := (opened ho).inside ho.open_stage
    have grows := (Effect.content ho contributes quiet).growsPlain hs contributes.other
    have inside := inside.mono grows.extension
    rw [← adds.cursor, ← adds.quiet.scopes] at inside
    obtain ⟨_, appends, -⟩ := adds.adds
    exact .ofOpen appends.isOpen ⟨log, logged.mono grows adds.quiet.errors⟩ inside
  | fatalError same =>
    subst same
    obtain ⟨-, same⟩ := failed_of_stage going
    rw [same] at going ⊢
    exact tracks going

/-- Unless the construction fails, the names are known at the end of a run. -/
theorem Takes.tracks {journal : Journal} {events : List Event}
    (h : Takes (start config, journal) events s)
    (plain : ∀ name attributes, .startElement name attributes ∈ events →
      ∀ attr ∈ attributes, attr.name ≠ "xmlns:") (going : s.1.stage ≠ .failed) :
    Tracks journal.errors s := by
  refine h.induct (P := fun events s => (∀ name attributes,
      .startElement name attributes ∈ events → ∀ attr ∈ attributes, attr.name ≠ "xmlns:") →
      s.1.stage ≠ .failed → Tracks journal.errors s)
    (consistent_start config) ?_ ?_ ?_ plain going
  · exact fun _ _ => tracks_start config journal
  · intro events s' s'' event consistent effect before plain going
    refine effect.tracks consistent (fun name attributes he => ?_) (before ?_) going
    · exact plain name attributes (by rw [he]; exact List.mem_concat_self)
    · exact fun name attributes hm => plain name attributes (List.mem_append_left _ hm)
  · intro events s' s'' cause consistent refuses before plain going
    obtain ⟨-, same⟩ := refuses.of_ended going
    rw [same] at going ⊢
    exact before plain going

/-- Namespaces follow the rules of scoping in every complete document that a builder makes, whatever
events it took and refused on the way. The name of an element or attribute has the namespace that a
reader of the table finds for it by going outwards from its owner. The prefixes for which there is
no declaration are what was reported, one report for each node, in order, and nothing else was. -/
theorem namespaces_are_scoped {journal : Journal} {events : List Event}
    (h : Takes (start config, journal) events s) (done : s.1.document.isDone = true)
    (plain : ∀ name attributes, .startElement name attributes ∈ events →
      ∀ attr ∈ attributes, attr.name ≠ "xmlns:") :
    (∀ n, s.1.document.nodes.kind? n = some .element ∨ s.1.document.nodes.kind? n = some .attr →
      ∃ owner name uri?, s.1.document.Bears n owner name ∧
        (Query.namespaceUri? n).run s.1.document = .answer uri? ∧
        s.1.document.IsScoped n owner name uri?) ∧
    ∃ undeclared : List (Nat × String), undeclared.Pairwise (·.1 < ·.1) ∧
      (∀ n p, (n, p) ∈ undeclared ↔ s.1.document.LacksDeclaration n p) ∧
      s.2.errors = journal.errors ++ undeclared.map fun lack => undeclaredPrefix lack.2 := by
  have consistent := h.reaches.consistent (consistent_start config)
  have wellFormed := consistent.sound.wellFormed
  have going : s.1.stage ≠ .failed := fun hf => by
    rw [consistent.unfinished hf] at done
    cases done
  obtain ⟨log, logged⟩ := (h.tracks plain going).logged
  constructor
  · intro n hk
    obtain ⟨entry, hm, rfl⟩ := logged.covers n hk
    have stands := logged.stands entry hm
    exact ⟨_, _, _, stands.bears, stands.names.run_namespaceUri?, stands.isScoped⟩
  · refine ⟨log.filterMap NameEntry.lack?, ?_, fun n p => ?_, ?_⟩
    · refine logged.sorted.filterMap _ fun entry other hlt lack hl lack' hl' => ?_
      rw [← (lack?_eq_some_iff.1 hl).1, ← (lack?_eq_some_iff.1 hl').1]
      exact hlt
    · rw [List.mem_filterMap]
      constructor
      · rintro ⟨entry, hm, hl⟩
        obtain ⟨rfl, lacking⟩ := lack?_eq_some_iff.1 hl
        exact ((logged.stands entry hm).lacking?_iff wellFormed).1 lacking
      · rintro lacks
        obtain ⟨entry, hm, rfl⟩ := logged.covers n lacks.kind
        exact ⟨entry, hm, lack?_eq_some_iff.2
          ⟨rfl, ((logged.stands entry hm).lacking?_iff wellFormed).2 lacks⟩⟩
    · rw [logged.errors, flatMap_complaints]

/-- What an element declares is out of scope after it. The prefix that the last element has is
declared by the first element and by the one between, and the nearest declaration is the outer one.
The prefix of the element between is declared nowhere, which was reported once. -/
theorem namespaces_are_scoped_of_siblings :
    let events : List Event := [.startDocument,
      .startElement "a" [{ name := "xmlns:p", value := "outer" }],
      .startElement "q:b" [{ name := "xmlns:p", value := "inner" }], .endElement,
      .startElement "p:c" [], .endElement, .endElement, .endDocument]
    let run := (acceptAll events).run.run (start .standard, { handler := .lenient })
    run.1 = .ok () ∧ run.2.2.errors = [undeclaredPrefix "q"] ∧
      (∃ m q, ∀ n p, run.2.1.document.LacksDeclaration n p ↔ n = m ∧ p = q) ∧
      ∃ found, run.2.1.document.Nearest "xmlns:p" 7 found ∧
        some "outer" = found.filter (· ≠ "") := by
  intro events run
  obtain ⟨ok, told, done, kind, name_eq, uri_eq⟩ : run.1 = .ok () ∧
      run.2.2.errors = [undeclaredPrefix "q"] ∧ run.2.1.document.isDone = true ∧
      run.2.1.document.nodes.kind? 7 = some .element ∧
      (Query.nodeName 7).run run.2.1.document = .answer "p:c" ∧
      (Query.namespaceUri? 7).run run.2.1.document = .answer (some "outer") := by decide +kernel
  have taken : Takes (start .standard, { handler := .lenient }) events run.2 := takes_of_ok ok
  obtain ⟨named, undeclared, -, mem, errors⟩ := namespaces_are_scoped taken done fun _ _ h => by
    simp only [events, List.mem_cons, List.not_mem_nil, Event.startElement.injEq, reduceCtorEq,
      false_or, or_false] at h
    rcases h with ⟨-, rfl⟩ | ⟨-, rfl⟩ | ⟨-, rfl⟩ <;> simp
  refine ⟨ok, told, ?_, ?_⟩
  · have fresh : ({ handler := .lenient } : Journal).errors = [] := rfl
    rw [told, fresh, List.nil_append] at errors
    obtain ⟨⟨m, q⟩, rfl, -⟩ := List.map_eq_singleton_iff.1 errors.symm
    exact ⟨m, q, fun n p => by rw [← mem, List.mem_singleton, Prod.mk.injEq]⟩
  · obtain ⟨owner, name, uri?, ⟨hname, howner⟩, huri, rules⟩ := named 7 (.inl kind)
    obtain rfl := Outcome.answer.inj (name_eq.symm.trans hname)
    obtain rfl := Outcome.answer.inj (uri_eq.symm.trans huri)
    obtain ⟨-, rfl⟩ | ⟨hk, -⟩ := howner
    · exact rules.other (by decide) (by decide) (by decide)
    · cases kind.symm.trans hk

end Builder

end XmlTable
