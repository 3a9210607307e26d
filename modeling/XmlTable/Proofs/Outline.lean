import Mathlib.Data.List.Induction
import XmlTable.Proofs.Entities

/-!
# Outlines of documents

What a builder makes of some events can be told without its stores, its links and the nodes that it
remembers. An outline is such an account: it keeps the elements that are open on a stack, each with
its attributes, and says of every node what it is, in strings and not in symbols. The document that
a builder has made of the events that it took is what their outline says.
-/

namespace XmlTable

open Node Namespace

/-! ### What is told of nodes -/

/-- What a node is. -/
structure Outline.Entry where
  /-- The kind. -/
  kind : Kind
  /-- The flags of character data. -/
  flags : TextFlags := {}
  /-- The parent; the owning element of an attribute. -/
  parent : Option NodeId := none
  /-- The name, empty for kinds without one. -/
  name : String := ""
  /-- What is declared for the prefix of the name. -/
  uri? : Option String := none
  /-- The text, empty for kinds without one. -/
  text : String := ""
  deriving DecidableEq, Repr

/-- The elements that are open, innermost first, each with its attributes. -/
abbrev Outline.Opened : Type := List (NodeId × List Event.Attribute)

/-- An account of a document while events come. -/
structure Outline where
  /-- The nodes so far. -/
  entries : List Outline.Entry := []
  /-- The elements that are open. -/
  opened : Outline.Opened := []
  /-- Characters that are no node yet. -/
  pending : Option (String × TextFlags) := none
  /-- The entities that were introduced, with their values. -/
  entities : List (String × String) := []

namespace Outline

namespace Entry

/-- Character data under a node. -/
def ofText (parent : NodeId) (run : String × TextFlags) : Entry :=
  { kind := .text, flags := run.2, parent := some parent, text := run.1 }

/-- The value of an attribute or entity. -/
def ofValue (owner : NodeId) (value : String) : Entry :=
  .ofText owner (value, {})

/-- An attribute of an element. -/
def ofAttribute (declared : Declared) (element : NodeId) (attr : Event.Attribute) : Entry :=
  { kind := .attr, parent := some element, name := attr.name, uri? := declared.ofAttribute attr }

/-- The attributes of an element, each followed by its value, of which the first has a node. -/
def ofAttributes (declared : Declared) (element : NodeId) :
    NodeId → List Event.Attribute → List Entry
  | _, [] => []
  | node, attr :: rest =>
    .ofAttribute declared element attr :: .ofValue node attr.value ::
      ofAttributes declared element (node + 2) rest

/-- An element with its attributes. -/
def ofElement (declared : Declared) (parent element : NodeId) (name : String)
    (attributes : List Event.Attribute) : List Entry :=
  { kind := .element, parent := some parent, name, uri? := declared.ofElement name } ::
    ofAttributes declared element (element + 1) attributes

/-- An entity with its value. -/
def ofEntity (entity : NodeId) (name value : String) : List Entry :=
  [{ kind := .entity, parent := some documentId, name }, .ofValue entity value]

end Entry

/-- The node under which things come. -/
def Opened.cursor : Opened → NodeId
  | [] => documentId
  | (element, _) :: _ => element

/-- What is declared for prefixes in the innermost element. -/
def Opened.declared : Opened → Declared
  | [] => .reserved
  | (_, attributes) :: outer =>
    (Declared.nothing.addAll attributes).shadowing (Opened.declared outer)

variable (strip : Bool) (o : Outline)

/-- The characters that become a node, if any. -/
def held : Option (String × TextFlags) :=
  o.pending.filter fun run => !(run.2.ignorable && strip)

/-- The outline after the characters that are pending came to their end. -/
def flush : Outline :=
  { o with
    entries := o.entries ++ (o.held strip).toList.map (.ofText o.opened.cursor)
    pending := none }

/-- An entity with the name is known. -/
def Knows (name : String) : Prop :=
  (Entity.predefined.lookup name).isSome ∨ name ∈ o.entities.map (·.1)

instance (name : String) : Decidable (o.Knows name) :=
  inferInstanceAs (Decidable (_ ∨ _))

/-- The nodes that an event adds after characters. -/
def added : Event → List Entry
  | .startDocument => [{ kind := .document }]
  | .startElement name attributes =>
    Entry.ofElement (Opened.declared ((o.entries.length, attributes) :: o.opened)) o.opened.cursor
      o.entries.length name attributes
  | .comment text => [{ kind := .comment, parent := some o.opened.cursor, text }]
  | .instruction target data =>
    [{ kind := .instruction, parent := some o.opened.cursor, name := target, text := data }]
  | .entityReference name => [{ kind := .reference, parent := some o.opened.cursor, name }]
  | .entityDeclaration name value =>
    if o.Knows name then [] else Entry.ofEntity o.entries.length name value
  | .endDocument | .endElement | .characters .. | .fatalError _ => []

/-- The elements that are open after an event. -/
def openedAfter : Event → Opened
  | .startElement _ attributes => (o.entries.length, attributes) :: o.opened
  | .endElement => o.opened.tail
  | _ => o.opened

/-- The entities that were introduced, after an event. -/
def entitiesAfter : Event → List (String × String)
  | .entityDeclaration name value =>
    if o.Knows name then o.entities else o.entities ++ [(name, value)]
  | _ => o.entities

/-- The outline with what an event adds after characters. -/
def take (event : Event) : Outline where
  entries := o.entries ++ o.added event
  opened := o.openedAfter event
  pending := o.pending
  entities := o.entitiesAfter event

/-- The outline after an event. Characters outside the document element are dropped, and a failure
adds nothing. -/
def step : Event → Outline
  | .characters text flags =>
    if o.opened.isEmpty then o else { o with pending := Builder.holding o.pending text flags }
  | .fatalError _ => o
  | event => (o.flush strip).take event

/-- The outline of some events. -/
def ofEvents (strip : Bool) (events : List Event) : Outline :=
  events.foldl (step strip) {}

variable {strip o} {event : Event} {events : List Event}

theorem ofEvents_concat :
    ofEvents strip (events ++ [event]) = (ofEvents strip events).step strip event := by
  rw [ofEvents, List.foldl_append]
  rfl

theorem entities_step (strip : Bool) (o : Outline) (event : Event) :
    (o.step strip event).entities = o.entitiesAfter event := by
  cases event with
  | characters =>
    rw [step]
    split <;> rfl
  | _ => rfl

/-- The entities of an outline are those that the events introduced. -/
theorem entities_ofEvents (strip : Bool) (events : List Event) :
    (ofEvents strip events).entities = Event.introduced events := by
  induction events using List.reverseRecOn with
  | nil => rfl
  | append_singleton events event ih =>
    rw [ofEvents_concat, entities_step]
    cases event with
    | entityDeclaration name value =>
      rw [Event.introduced_declaration, ← ih]
      rfl
    | _ =>
      rw [Event.introduced_of_not_declared rfl]
      exact ih

/-! ### Values -/

/-- Attributes and entities are followed by their values. -/
def HasValues (l : List Entry) : Prop :=
  ∀ (n : Nat) (e : Entry), l[n]? = some e → e.kind.hasValueNode = true →
    ∃ value, l[n + 1]? = some (.ofValue n value)

variable {l m : List Entry}

theorem HasValues.append (h : HasValues l) (new : ∀ (i : Nat) (e : Entry), m[i]? = some e →
    e.kind.hasValueNode = true → ∃ value, m[i + 1]? = some (.ofValue (l.length + i) value)) :
    HasValues (l ++ m) := by
  intro n e hn hv
  rcases Nat.lt_or_ge n l.length with hlt | hge
  · rw [List.getElem?_append_left hlt] at hn
    obtain ⟨value, next⟩ := h n e hn hv
    exact ⟨value, by rw [List.getElem?_append_left (List.getElem?_eq_some_iff.1 next).1, next]⟩
  · rw [List.getElem?_append_right hge] at hn
    obtain ⟨value, next⟩ := new _ e hn hv
    rw [Nat.add_sub_cancel' hge] at next
    refine ⟨value, ?_⟩
    rwa [List.getElem?_append_right (Nat.le_succ_of_le hge), Nat.succ_sub hge]

theorem Entry.value_of_ofAttributes {declared : Declared} {element node : NodeId}
    {attributes : List Event.Attribute} {i : Nat} {e : Entry}
    (h : (Entry.ofAttributes declared element node attributes)[i]? = some e)
    (hv : e.kind.hasValueNode = true) : ∃ value,
      (Entry.ofAttributes declared element node attributes)[i + 1]? =
        some (.ofValue (node + i) value) := by
  induction attributes generalizing node i with
  | nil => cases h
  | cons attr rest ih =>
    match i with
    | 0 => exact ⟨attr.value, rfl⟩
    | 1 =>
      obtain rfl := Option.some.inj h
      cases hv
    | i + 2 =>
      obtain ⟨value, next⟩ := ih h
      refine ⟨value, next.trans ?_⟩
      rw [Nat.add_assoc, Nat.add_comm 2]

/-- What an event adds has its values with it. -/
theorem value_of_added {i : Nat} {e : Entry} (h : (o.added event)[i]? = some e)
    (hv : e.kind.hasValueNode = true) :
    ∃ value, (o.added event)[i + 1]? = some (.ofValue (o.entries.length + i) value) := by
  cases event with
  | startElement name attributes =>
    cases i with
    | zero =>
      obtain rfl := Option.some.inj h
      cases hv
    | succ i =>
      obtain ⟨value, next⟩ := Entry.value_of_ofAttributes h hv
      refine ⟨value, next.trans ?_⟩
      rw [Nat.add_assoc, Nat.add_comm 1]
  | entityDeclaration name value =>
    rw [added] at h ⊢
    split at h
    · cases h
    · next unknown =>
      rw [if_neg unknown]
      match i with
      | 0 => exact ⟨value, rfl⟩
      | 1 =>
        obtain rfl := Option.some.inj h
        cases hv
      | i + 2 => cases h
  | endDocument | endElement | characters | fatalError => cases h
  | _ =>
    rw [List.mem_singleton.1 (List.mem_of_getElem? h)] at hv
    cases hv

theorem hasValues_step (strip : Bool) (event : Event) (h : HasValues o.entries) :
    HasValues (o.step strip event).entries := by
  have flushed : HasValues (o.flush strip).entries := h.append fun i e hi hv => by
    obtain ⟨run, -, rfl⟩ := List.mem_map.1 (List.mem_of_getElem? hi)
    cases hv
  have taken : HasValues ((o.flush strip).take event).entries :=
    flushed.append fun i e hi hv => value_of_added hi hv
  cases event with
  | characters =>
    rw [step]
    split <;> exact h
  | fatalError => exact h
  | _ => exact taken

theorem hasValues_ofEvents (strip : Bool) (events : List Event) :
    HasValues (ofEvents strip events).entries := by
  induction events using List.reverseRecOn with
  | nil => exact nofun
  | append_singleton events event ih =>
    rw [ofEvents_concat]
    exact hasValues_step strip event ih

/-! ### Parents -/

theorem Entry.length_ofAttributes (declared : Declared) (element node : Nat)
    (attributes : List Event.Attribute) :
    (Entry.ofAttributes declared element node attributes).length = 2 * attributes.length := by
  induction attributes generalizing node with
  | nil => rfl
  | cons attr rest ih =>
    rw [Entry.ofAttributes, List.length_cons, List.length_cons, ih, List.length_cons]
    omega

/-- Attributes belong to their element, and values to attributes. -/
theorem Entry.parent_of_mem_ofAttributes {declared : Declared} {element node p : Nat}
    {attributes : List Event.Attribute} {e : Entry}
    (h : e ∈ Entry.ofAttributes declared element node attributes) (hp : e.parent = some p) :
    p = element ∨ p < node + 2 * attributes.length := by
  induction attributes generalizing node with
  | nil => cases h
  | cons attr rest ih =>
    rw [List.length_cons]
    rcases List.mem_cons.1 h with rfl | h
    · exact .inl (Option.some.inj hp).symm
    rcases List.mem_cons.1 h with rfl | h
    · obtain rfl : node = p := Option.some.inj hp
      exact .inr (by omega)
    · exact (ih h).imp_right fun hlt => by omega

/-- What an event adds belongs to the node under which things come or to what comes with it. -/
theorem parent_of_mem_added {e : Entry} {p : Nat} (h : e ∈ o.added event)
    (hp : e.parent = some p) :
    p = o.opened.cursor ∨ p < o.entries.length + (o.added event).length := by
  cases event with
  | startDocument =>
    obtain rfl := List.mem_singleton.1 h
    cases hp
  | startElement name attributes =>
    rcases List.mem_cons.1 h with rfl | h
    · exact .inl (Option.some.inj hp).symm
    · rw [added, Entry.ofElement, List.length_cons, Entry.length_ofAttributes]
      rcases Entry.parent_of_mem_ofAttributes h hp with rfl | hlt
      · exact .inr (by omega)
      · exact .inr (by omega)
  | entityDeclaration name value =>
    rw [added] at h ⊢
    split at h
    · cases h
    · next unknown =>
      rw [if_neg unknown]
      rcases List.mem_cons.1 h with rfl | h
      · obtain rfl : documentId = p := Option.some.inj hp
        exact .inr (Nat.lt_add_left _ Nat.two_pos)
      · obtain rfl := List.mem_singleton.1 h
        obtain rfl : o.entries.length = p := Option.some.inj hp
        exact .inr (Nat.lt_add_of_pos_right Nat.two_pos)
  | endDocument | endElement | characters | fatalError => cases h
  | _ =>
    obtain rfl := List.mem_singleton.1 h
    exact .inl (Option.some.inj hp).symm

/-- The texts among attributes are the values of some. -/
theorem Entry.owner_of_ofAttributes {declared : Declared} {element node : NodeId}
    {attributes : List Event.Attribute} {i : Nat} {e : Entry}
    (h : (Entry.ofAttributes declared element node attributes)[i]? = some e)
    (hk : e.kind = .text) : ∃ j owner, e.parent = some (node + j) ∧
      (Entry.ofAttributes declared element node attributes)[j]? = some owner ∧
        owner.kind = .attr := by
  induction attributes generalizing node i with
  | nil => cases h
  | cons attr rest ih =>
    match i with
    | 0 =>
      obtain rfl := Option.some.inj h
      cases hk
    | 1 =>
      obtain rfl := Option.some.inj h
      exact ⟨0, _, rfl, rfl, rfl⟩
    | i + 2 =>
      obtain ⟨j, owner, parent, found, attr⟩ := ih h
      exact ⟨j + 2, owner, by rw [parent, Nat.add_assoc, Nat.add_comm 2], found, attr⟩

/-- The texts that an event adds are values of what comes with them, which is no element. -/
theorem owner_of_added {i : Nat} {e : Entry} (h : (o.added event)[i]? = some e)
    (hk : e.kind = .text) : ∃ j owner, e.parent = some (o.entries.length + j) ∧
      (o.added event)[j]? = some owner ∧ owner.kind ≠ .element := by
  cases event with
  | startElement name attributes =>
    cases i with
    | zero =>
      obtain rfl := Option.some.inj h
      cases hk
    | succ i =>
      obtain ⟨j, owner, parent, found, attr⟩ := Entry.owner_of_ofAttributes h hk
      refine ⟨j + 1, owner, by rw [parent, Nat.add_assoc, Nat.add_comm 1], found, ?_⟩
      rw [attr]
      nofun
  | entityDeclaration name value =>
    rw [added] at h ⊢
    split at h
    · cases h
    · next unknown =>
      rw [if_neg unknown]
      match i with
      | 0 =>
        obtain rfl := Option.some.inj h
        cases hk
      | 1 =>
        obtain rfl := Option.some.inj h
        exact ⟨0, _, rfl, rfl, nofun⟩
      | i + 2 => cases h
  | endDocument | endElement | characters | fatalError => cases h
  | _ =>
    rw [List.mem_singleton.1 (List.mem_of_getElem? h)] at hk
    cases hk

end Outline

open Outline

/-! ### Documents as they are told of -/

namespace Document

variable {d d' : Document} {n p : Nat} {r : Record} {e : Entry} {l : List Entry}

/-- A record is what an entry says. -/
structure Depicts (d : Document) (r : Record) (e : Entry) : Prop where
  /-- The kind. -/
  kind : r.kind = e.kind
  /-- The flags. -/
  flags : r.flags = e.flags
  /-- The parent. -/
  parent : r.parent = e.parent
  /-- The name. -/
  name : d.names.resolve r.name = some e.name
  /-- What is declared for its prefix. -/
  uri : d.Numbers r.namespaceId e.uri?
  /-- The text. -/
  text : r.kind = .text ∨ r.kind = .comment ∨ r.kind = .instruction →
    d.texts.resolve r.payload = some e.text

theorem Depicts.mono (h : d.Depicts r e) (he : d.Extends d') : d'.Depicts r e where
  kind := h.kind
  flags := h.flags
  parent := h.parent
  name := he.name h.name
  uri := h.uri.mono he
  text hk := he.text (h.text hk)

theorem depicts_document (d : Document) : d.Depicts .document { kind := .document } where
  kind := rfl
  flags := rfl
  parent := rfl
  name := d.names.entries_zero
  uri := d.numbers_zero
  text hk := by rcases hk with hk | hk | hk <;> cases hk

/-- The record of a leaf is what its text and its name say. -/
theorem depicts_leaf {kind : Kind} {flags : TextFlags} {payload name : SymbolId} {text s : String}
    (ht : d.texts.resolve payload = some text) (hn : d.names.resolve name = some s) :
    d.Depicts (.leaf kind flags p payload name)
      { kind, flags, parent := some p, name := s, text } where
  kind := rfl
  flags := rfl
  parent := rfl
  name := hn
  uri := d.numbers_zero
  text _ := ht

/-- A record with a link is what its name and its namespace say. -/
theorem depicts_linked {kind : Kind} {namespaceId : NamespaceId} {name : SymbolId} {link : Link}
    {s : String} {uri? : Option String} (hk : kind.isLinked = true)
    (hn : d.names.resolve name = some s) (hu : d.Numbers namespaceId uri?) :
    d.Depicts (.linked kind namespaceId p name link)
      { kind, parent := some p, name := s, uri? } where
  kind := rfl
  flags := rfl
  parent := rfl
  name := hn
  uri := hu
  text other := by
    rcases other with rfl | rfl | rfl <;> cases hk

theorem depicts_value {payload : SymbolId} {value : String}
    (hv : d.texts.resolve payload = some value) :
    d.Depicts (.valueNode p payload) (.ofValue p value) :=
  depicts_leaf hv d.names.entries_zero

/-- The node is what an entry says. -/
def ShowsAt (d : Document) (n : Nat) (e : Entry) : Prop :=
  ∃ r, d.Holds n r ∧ d.Depicts r e

theorem ShowsAt.mono (h : d.ShowsAt n e) (he : d.Extends d') : d'.ShowsAt n e := by
  obtain ⟨r, held, depicts⟩ := h
  exact ⟨r, held.mono he, depicts.mono he⟩

theorem ShowsAt.kind? (h : d.ShowsAt n e) : d.nodes.kind? n = some e.kind := by
  obtain ⟨r, held, depicts⟩ := h
  rw [held.kind?, depicts.kind]

theorem ShowsAt.parent? (h : d.ShowsAt n e) : d.nodes.parent? n = e.parent := by
  obtain ⟨r, held, depicts⟩ := h
  rw [held.parent?, depicts.parent]

/-- The nodes are what some entries say, one by one. -/
structure Shows (d : Document) (l : List Entry) : Prop where
  /-- There is a node for each entry. -/
  size_eq : d.nodes.size = l.length
  /-- It is what the entry says. -/
  showsAt : ∀ {n : Nat} {e : Entry}, l[n]? = some e → d.ShowsAt n e

/-- What is done later without new nodes changes nothing about the nodes. -/
theorem Shows.mono (h : d.Shows l) (he : d.Extends d') (size : d'.nodes.size = d.nodes.size) :
    d'.Shows l where
  size_eq := size.trans h.size_eq
  showsAt hn := (h.showsAt hn).mono he

/-- The elements are open, one in the other, and the scopes are theirs. -/
inductive Opens (d : Document) : Opened → Scopes → Prop
  | outside {scopes : Scopes} : d.Binds scopes.resolve .reserved → Opens d [] scopes
  | inside {element : NodeId} {attributes : List Event.Attribute} {outer : Opened}
      {frame : Frame} {scopes : Scopes} : d.nodes.parent? element = some outer.cursor →
      d.Binds frame.get? (Declared.nothing.addAll attributes) → Opens d outer scopes →
      Opens d ((element, attributes) :: outer) (scopes.push frame)

namespace Opens

variable {opened : Opened} {scopes : Scopes}

theorem mono (h : d.Opens opened scopes) (he : d.Extends d') : d'.Opens opened scopes := by
  induction h with
  | outside binds => exact .outside (binds.mono he)
  | inside parent binds _ ih => exact .inside (he.continues.parent? parent) (binds.mono he) ih

/-- Things come under the document node if no element is open. -/
theorem cursor_eq_iff (h : d.Opens opened scopes) (layout : d.nodes.Layout) :
    opened.cursor = documentId ↔ opened = [] := by
  cases h with
  | outside => exact iff_of_true rfl rfl
  | inside parent =>
    exact iff_of_false (Nat.ne_of_gt (Nat.zero_lt_of_lt (layout.parent_lt parent))) nofun

theorem binds (h : d.Opens opened scopes) : d.Binds scopes.resolve opened.declared := by
  induction h with
  | outside binds => exact binds
  | inside _ binds _ ih => exact binds.push ih

end Opens

end Document

namespace Builder

open Reporting

variable {config : Config} {s s' : Builder × Journal} {o : Outline}

/-! ### What becomes of an event -/

/-- A builder has made what an outline says, and is where the outline is unless it has seen the
end. -/
structure Traces (o : Outline) (s : Builder × Journal) : Prop where
  /-- The nodes. -/
  shows : s.1.document.Shows o.entries
  /-- The node under which things come. -/
  cursor : s.1.stage ≠ .documentClosed → s.1.cursor = o.opened.cursor
  /-- The characters held back. -/
  pending : s.1.stage ≠ .documentClosed → s.1.pending = o.pending
  /-- The elements that are open. -/
  opens : s.1.stage ≠ .documentClosed → s.1.document.Opens o.opened s.1.scopes

theorem traces_start (config : Config) (journal : Journal) : Traces {} (start config, journal) where
  shows := ⟨rfl, nofun⟩
  cursor _ := rfl
  pending _ := rfl
  opens _ := .outside (binds_start config)

/-- Records that are appended are what further entries say. -/
theorem Adds.shows {uris : List String} {records : List Record} {l entries : List Entry}
    (h : Adds config uris records s s') (before : s.1.document.Shows l)
    (new : List.Forall₂ s'.1.document.Depicts records entries) :
    s'.1.document.Shows (l ++ entries) where
  size_eq := by rw [h.size, before.size_eq, List.length_append, new.length_eq]
  showsAt {n e} hn := by
    rcases Nat.lt_or_ge n l.length with hlt | hge
    · rw [List.getElem?_append_left hlt] at hn
      exact (before.showsAt hn).mono h.keeps.extension
    · rw [List.getElem?_append_right hge] at hn
      have hi := (List.getElem?_eq_some_iff.1 hn).1
      rw [← new.length_eq] at hi
      have held := h.holds (List.getElem?_eq_getElem hi)
      rw [before.size_eq, Nat.add_sub_cancel' hge] at held
      refine ⟨_, held, ?_⟩
      have depicts := new.get hi (new.length_eq ▸ hi)
      rw [List.get_eq_getElem, List.get_eq_getElem] at depicts
      rwa [(List.getElem?_eq_some_iff.1 hn).2] at depicts

theorem TextRecords.depicts {d : Document} {c : Nat} {text : Option (String × TextFlags)}
    {records : List Record} (h : TextRecords d c text records) :
    List.Forall₂ d.Depicts records (text.toList.map (.ofText c)) := by
  rcases text with _ | ⟨text, flags⟩
  · obtain rfl : records = [] := h
    exact .nil
  · obtain ⟨payload, rfl, ht⟩ := h
    exact .cons (Document.depicts_leaf ht d.names.entries_zero) .nil

theorem depicts_attributePairs {d : Document} {stored : List StoredAttribute}
    {attributes : List Event.Attribute} {declared : Declared} (stand : StandFor d stored attributes)
    (numbers : NumbersFor d declared stored attributes) (element node : Nat) :
    List.Forall₂ d.Depicts (attributePairs element node stored)
      (Entry.ofAttributes declared element node attributes) := by
  induction stored generalizing attributes node with
  | nil =>
    cases attributes with
    | nil => exact .nil
    | cons => exact stand.elim
  | cons first rest ih =>
    cases attributes with
    | nil => exact stand.elim
    | cons attr attrs =>
      exact .cons (Document.depicts_linked rfl stand.1.name (numbers 0 first attr rfl rfl))
        (.cons (Document.depicts_value stand.1.value)
          (ih stand.2 (fun i own other hs ha => numbers (i + 1) own other hs ha) _))

section Flush

variable {uris : List String} {texts own : List Record} {entries : List Entry}
  (ho : s.1.Open config) (t : Traces o s)
  (text : TextRecords s'.1.document s.1.cursor s.1.held texts)
include ho t text

/-- The characters that are appended are those that an outline tells of. -/
theorem Traces.depicts_texts : List.Forall₂ s'.1.document.Depicts texts
    ((o.held config.stripIgnorable).toList.map (.ofText o.opened.cursor)) := by
  have going := ho.not_closed
  have same : s.1.held = o.held config.stripIgnorable := by
    rw [held, Outline.held, t.pending going, ho.sound.extension.config]
    rfl
  rw [← same, ← t.cursor going]
  exact text.depicts

/-- What comes after the characters has the nodes after theirs. -/
theorem Traces.length_flush :
    (o.flush config.stripIgnorable).entries.length = s.1.document.nodes.size + texts.length := by
  rw [t.shows.size_eq, (t.depicts_texts ho text).length_eq]
  exact List.length_append

theorem Traces.shows_flush (adds : Adds config uris (texts ++ own) s s')
    (new : List.Forall₂ s'.1.document.Depicts own entries) :
    s'.1.document.Shows ((o.flush config.stripIgnorable).entries ++ entries) := by
  have shows := adds.shows t.shows (List.rel_append (t.depicts_texts ho text) new)
  rwa [← List.append_assoc] at shows

end Flush

/-- A leaf is what its event says. -/
theorem LeafRecord.depicts {d : Document} {event : Event} {own : Record}
    (h : LeafRecord d o.opened.cursor event own) :
    List.Forall₂ d.Depicts [own] (o.added event) := by
  cases h with
  | comment ht => exact .cons (Document.depicts_leaf ht d.names.entries_zero) .nil
  | instruction ht hn => exact .cons (Document.depicts_leaf ht hn) .nil
  | reference hn => exact .cons (Document.depicts_linked rfl hn d.numbers_zero) .nil

/-- A builder that accepts content goes on as an outline does. -/
theorem Traces.ofOpen {o' : Outline} (shows : s'.1.document.Shows o'.entries)
    (cursor : s'.1.cursor = o'.opened.cursor) (pending : s'.1.pending = o'.pending)
    (opens : s'.1.document.Opens o'.opened s'.1.scopes) : Traces o' s' where
  shows := shows
  cursor _ := cursor
  pending _ := pending
  opens _ := opens

section Events

variable (ho : s.1.Open config) (t : Traces o s)
include ho t

theorem Traces.flushes {texts own : List Record} {event : Event}
    (flushes : Flushes config texts own s s') (quiet : Quiet s s')
    (new : List.Forall₂ s'.1.document.Depicts own
      ((o.flush config.stripIgnorable).added event))
    (plain : (o.flush config.stripIgnorable).openedAfter event = o.opened) :
    Traces ((o.flush config.stripIgnorable).take event) s' := by
  have going := ho.not_closed
  refine .ofOpen (t.shows_flush ho flushes.text flushes.adds new) ?_ flushes.pending ?_
  · rw [flushes.cursor, t.cursor going]
    exact congrArg _ plain.symm
  · rw [quiet.scopes]
    show s'.1.document.Opens ((o.flush config.stripIgnorable).openedAfter event) _
    rw [plain]
    exact (t.opens going).mono flushes.adds.keeps.extension

theorem Traces.startElement {name : String} {attributes : List Event.Attribute}
    {texts : List Record} {own : Record} {stored : List StoredAttribute}
    (starts : StartsElement config name attributes texts own stored s s') :
    Traces (o.step config.stripIgnorable (.startElement name attributes)) s' := by
  have going := ho.not_closed
  have element := starts.cursor.trans (t.length_flush ho starts.text).symm
  have opens := t.opens going
  have names := starts.names opens.binds
  obtain ⟨namespaceId, id, same, named⟩ := starts.own
  have held := starts.holds
  obtain ⟨frame, pushed, binds⟩ := starts.scopes
  have outer := t.cursor going
  subst same
  rw [outer] at held
  refine .ofOpen (t.shows_flush ho starts.text starts.adds ?_) element starts.pending ?_
  · rw [outer, element]
    exact .cons (Document.depicts_linked rfl named names.own)
      (depicts_attributePairs starts.attributes names.attributes _ _)
  · rw [pushed]
    show s'.1.document.Opens ((_, attributes) :: o.opened) _
    rw [← element]
    exact .inside held.parent? binds (opens.mono starts.adds.keeps.extension)

theorem Traces.endElement {texts : List Record} (ends : EndsElement config texts s s') :
    Traces (o.step config.stripIgnorable .endElement) s' := by
  have going := ho.not_closed
  have adds := ends.adds
  rw [← List.append_nil texts] at adds
  have shows := t.shows_flush ho ends.text adds .nil
  have opens := (t.opens going).mono ends.adds.keeps.extension
  have cursor := t.cursor going
  have parent := ends.parent
  rw [cursor] at parent
  obtain ⟨entries, opened, pending, entities⟩ := o
  generalize hs : s.1.scopes = scopes at opens
  cases opens with
  | outside => exact absurd cursor ends.inside
  | inside outer _ opens =>
    refine .ofOpen shows (Option.some.inj (parent.symm.trans outer)) ends.pending ?_
    rw [ends.scopes, hs]
    exact opens

theorem Traces.content {event : Event} (known : ∀ name,
    s.1.document.entities.contains name = true ↔ o.Knows name)
    (contributes : Contributes config s s' event) (quiet : Quiet s s') :
    Traces (o.step config.stripIgnorable event) s' := by
  have going := ho.not_closed
  cases contributes with
  | @characters text flags same =>
    subst same
    have outside := (t.opens going).cursor_eq_iff ho.layout
    rw [← t.cursor going, ← List.isEmpty_iff] at outside
    show Traces (if o.opened.isEmpty then o else _) (s.1.afterCharacters text flags, s.2)
    unfold afterCharacters
    by_cases hc : s.1.cursor = documentId
    · rw [if_pos hc, if_pos (outside.1 hc)]
      exact t
    · rw [if_neg hc, if_neg (mt outside.2 hc)]
      refine .ofOpen t.shows (t.cursor going) ?_ (t.opens going)
      rw [← t.pending going]
  | leaf adds =>
    obtain ⟨texts, own, flushes, leaf⟩ := adds
    rw [t.cursor going] at leaf
    have new := LeafRecord.depicts (o := o.flush config.stripIgnorable) leaf
    cases leaf
    all_goals exact t.flushes ho flushes quiet new rfl
  | @entity name value declares =>
    cases declares with
    | known flushes _ contains =>
      refine t.flushes ho flushes quiet ?_ rfl
      have knows : (o.flush config.stripIgnorable).Knows name := (known name).1 contains
      rw [added, if_pos knows]
      exact .nil
    | new flushes _ records contains =>
      refine t.flushes ho flushes quiet ?_ rfl
      have unknown : ¬ (o.flush config.stripIgnorable).Knows name := fun knows =>
        Bool.eq_false_iff.1 contains ((known name).2 knows)
      rw [added, if_neg unknown, t.length_flush ho flushes.text]
      obtain ⟨id, payload, rfl, named, valued⟩ := records
      exact .cons (Document.depicts_linked rfl named (Document.numbers_zero _))
        (.cons (Document.depicts_value valued) .nil)

end Events

/-- An event that is taken takes the outline on as well. -/
theorem Effect.traces {event : Event} (h : Effect config s s' event) (hs : s.1.Consistent config)
    (known : ∀ name, s.1.document.entities.contains name = true ↔ o.Knows name)
    (t : s.1.stage ≠ .failed → Traces o s) (going : s'.1.stage ≠ .failed) :
    Traces (o.step config.stripIgnorable event) s' := by
  have opened : s.1.Open config → Traces o s := fun ho =>
    t fun hf => by cases hf.symm.trans ho.open_stage
  cases h with
  | startDocument idle starts =>
    have stage := idle.stage_eq hs
    have t := t fun hf => by cases hf.symm.trans stage
    have early : s.1.stage ≠ .documentClosed := fun hc => by cases hc.symm.trans stage
    have none := t.shows.size_eq.symm.trans idle.size
    have opens := t.opens early
    have pending := idle.pending.symm.trans (t.pending early)
    obtain ⟨entries, opened, _, entities⟩ := o
    obtain rfl : entries = [] := List.eq_nil_of_length_eq_zero none
    subst pending
    generalize hs : s.1.scopes = scopes at opens
    cases opens with
    | outside binds =>
      refine .ofOpen ⟨starts.size, fun {n e} hn => ?_⟩ starts.cursor starts.pending ?_
      · obtain ⟨hlt, rfl⟩ := List.getElem?_eq_some_iff.1 hn
        obtain rfl : n = 0 := Nat.lt_one_iff.1 hlt
        exact ⟨_, starts.holds, Document.depicts_document _⟩
      · rw [starts.quiet.scopes, hs]
        exact .outside (binds.mono starts.keeps.extension)
    | inside parent =>
      have := Table.lt_size_of_parent? parent
      rw [idle.size] at this
      exact absurd this (Nat.not_lt_zero _)
  | endDocument ho ends =>
    have t := opened ho
    obtain ⟨s₁, flushes, extension, size, -⟩ := ends.flushed
    have closed : ¬ s'.1.stage ≠ .documentClosed := fun other => other ends.stage
    refine ⟨?_, fun other => absurd other closed, fun other => absurd other closed,
      fun other => absurd other closed⟩
    exact (t.shows_flush ho flushes.text flushes.adds .nil).mono extension size
  | startElement ho starts => exact (opened ho).startElement ho starts
  | endElement ho ends => exact (opened ho).endElement ho ends
  | content ho contributes quiet => exact (opened ho).content ho known contributes quiet
  | fatalError same =>
    subst same
    obtain ⟨-, same⟩ := failed_of_stage going
    rw [same] at going ⊢
    exact t going

/-- A builder that has not failed has made what the outline of the events says that it took. -/
theorem Takes.traces {journal : Journal} {events : List Event}
    (h : Takes (start config, journal) events s) (going : s.1.stage ≠ .failed) :
    Traces (ofEvents config.stripIgnorable events) s := by
  -- A failure of a builder that has not failed changes nothing.
  have fails : ∀ {s s₁ s' : Builder × Journal} {cause : Failure} {o : Outline},
      Refuses config s s₁ → s' = failed cause s₁ → (s.1.stage ≠ .failed → Traces o s) →
      s'.1.stage ≠ .failed → Traces o s' := by
    rintro s s₁ _ cause o refuses rfl t going
    obtain ⟨-, same⟩ := refuses.of_ended going
    rw [same] at going ⊢
    exact t going
  induction h with
  | refl => exact traces_start config journal
  | @accept events s₁ _ event before run ih =>
    have consistent := before.reaches.consistent (consistent_start config)
    rw [ofEvents_concat]
    refine ((accept_meets consistent event).of_ok run).traces consistent (fun name => ?_) ih going
    rw [Knows, entities_ofEvents]
    exact before.declares.contains_iff (Event.nodup_introduced events) name
  | @refuse events s₁ _ event _ before run ih =>
    have consistent := before.reaches.consistent (consistent_start config)
    obtain ⟨s₂, refuses, same⟩ := (accept_meets consistent event).of_error run
    exact fails refuses same ih going
  | @drop events s₁ before ih => exact fails (.inl rfl) (drop_run s₁) ih going

/-- The nodes of a complete document are what the outline of the events says that were taken. -/
theorem Takes.shows {journal : Journal} {events : List Event}
    (h : Takes (start config, journal) events s) (done : s.1.document.isDone = true) :
    s.1.document.Shows (ofEvents config.stripIgnorable events).entries := by
  have consistent := h.reaches.consistent (consistent_start config)
  refine (h.traces fun failed => ?_).shows
  rw [consistent.unfinished failed] at done
  cases done

end Builder

end XmlTable
