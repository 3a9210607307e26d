import XmlTable.Proofs.Outline

/-!
# Passages of character data

Character data of an element comes in parts: text with its references expanded, and the contents of
CDATA sections. Parts that nothing stands between make up a passage, and every passage that is not
empty is to become a node. What its flags should be can be told from where its parts are from.

Here passages are told apart by marks alone: where elements begin and end, what parts there are, and
where something else stands between them. An outline keeps to this if the texts in the content of
its elements are the passages.
-/

namespace XmlTable

open Node Namespace
open Subset (Declarations)

/-! ### Passages -/

/-- Text that comes at once. -/
structure Passage.Part where
  /-- The text. -/
  text : String
  /-- It is the content of a CDATA section. -/
  isCData : Bool
  deriving DecidableEq, Repr

/-- Character data of an element with nothing in between. -/
structure Passage where
  /-- The name of the element. -/
  element : String
  /-- The parts in order. -/
  parts : List Passage.Part
  deriving DecidableEq, Repr

namespace Passage

/-- The text of all parts. -/
def text (passage : Passage) : String :=
  String.join (passage.parts.map (·.text))

/-- Can be ignored: the element is declared to contain elements only, and there is nothing but white
space, none of it from a CDATA section. -/
def IsIgnorable (declarations : Declarations) (passage : Passage) : Prop :=
  declarations.isElementOnly passage.element = true ∧ Text.isAllSpace passage.text = true ∧
    ∀ part ∈ passage.parts, part.isCData = true → part.text = ""

/-- Whatever there is is from a CDATA section. -/
def IsCData (passage : Passage) : Prop :=
  ∀ part ∈ passage.parts, part.text ≠ "" → part.isCData = true

instance (declarations : Declarations) : DecidablePred (IsIgnorable declarations) := fun _ =>
  inferInstanceAs (Decidable (_ ∧ _ ∧ _))

instance : DecidablePred IsCData := fun _ =>
  inferInstanceAs (Decidable (∀ _ ∈ _, _))

/-- What the flags of a passage say. -/
def flags (declarations : Declarations) (passage : Passage) : TextFlags where
  ignorable := decide (passage.IsIgnorable declarations)
  cdata := decide passage.IsCData

/-- The characters of a passage with their flags. -/
def run (declarations : Declarations) (passage : Passage) : String × TextFlags :=
  (passage.text, passage.flags declarations)

variable {declarations : Declarations} {element : String} {parts more : List Part}

theorem text_append (element : String) (parts more : List Part) :
    text ⟨element, parts ++ more⟩ = text ⟨element, parts⟩ ++ text ⟨element, more⟩ := by
  simp [text, String.join_append]

theorem text_singleton (element : String) (part : Part) : text ⟨element, [part]⟩ = part.text :=
  String.join_cons.trans String.append_empty

theorem text_eq_empty : text ⟨element, parts⟩ = "" ↔ ∀ part ∈ parts, part.text = "" := by
  induction parts with
  | nil => exact iff_of_true rfl nofun
  | cons part rest ih =>
    rw [List.forall_mem_cons, ← ih, ← String.append_eq_empty_iff]
    exact iff_of_eq (congrArg (· = "") String.join_cons)

/-- Parts are flagged together as they are apart. -/
theorem flags_append (declarations : Declarations) (element : String) (parts more : List Part) :
    flags declarations ⟨element, parts ++ more⟩ =
      (flags declarations ⟨element, parts⟩).merge (flags declarations ⟨element, more⟩) := by
  have space : Text.isAllSpace (text ⟨element, parts ++ more⟩) =
      (Text.isAllSpace (text ⟨element, parts⟩) && Text.isAllSpace (text ⟨element, more⟩)) := by
    rw [text_append, Text.isAllSpace, String.toList_append, List.all_append]
    rfl
  have ignorable : IsIgnorable declarations ⟨element, parts ++ more⟩ ↔
      IsIgnorable declarations ⟨element, parts⟩ ∧ IsIgnorable declarations ⟨element, more⟩ := by
    simp only [IsIgnorable, space, Bool.and_eq_true, List.forall_mem_append]
    tauto
  have cdata : IsCData ⟨element, parts ++ more⟩ ↔
      IsCData ⟨element, parts⟩ ∧ IsCData ⟨element, more⟩ :=
    List.forall_mem_append
  simp only [flags, TextFlags.merge, ignorable, cdata, Bool.decide_and]

/-- Parts without text do not count with others. -/
theorem flags_empty (empty : text ⟨element, parts⟩ = "") : flags declarations ⟨element, parts⟩ =
    { ignorable := declarations.isElementOnly element, cdata := true } := by
  have none := text_eq_empty.1 empty
  have ignorable : IsIgnorable declarations ⟨element, parts⟩ ↔
      declarations.isElementOnly element = true := by
    refine ⟨And.left, fun only => ⟨only, ?_, fun part hm _ => none part hm⟩⟩
    rw [empty]
    rfl
  have cdata : IsCData ⟨element, parts⟩ := fun part hm some => absurd (none part hm) some
  simp only [flags, ignorable, cdata, decide_true, Bool.decide_eq_true]

/-- An element that does not contain elements only has nothing that can be ignored. -/
theorem merge_empty (passage : Passage) : (flags declarations passage).merge
    { ignorable := declarations.isElementOnly passage.element, cdata := true } =
      flags declarations passage := by
  have only : (decide (IsIgnorable declarations passage) &&
      declarations.isElementOnly passage.element) = decide (IsIgnorable declarations passage) := by
    by_cases h : IsIgnorable declarations passage
    · rw [decide_eq_true h, h.1]
      rfl
    · rw [decide_eq_false h]
      rfl
  rw [TextFlags.merge, flags, only, Bool.and_true]

/-- Text that is not from a CDATA section is flagged as a reader flags it. -/
theorem flags_plain (plain : ∀ part ∈ parts, part.isCData = false)
    (some : text ⟨element, parts⟩ ≠ "") : flags declarations ⟨element, parts⟩ =
      { ignorable := declarations.isElementOnly element &&
          Text.isAllSpace (text ⟨element, parts⟩) } := by
  have ignorable : IsIgnorable declarations ⟨element, parts⟩ ↔
      (declarations.isElementOnly element && Text.isAllSpace (text ⟨element, parts⟩)) = true := by
    rw [Bool.and_eq_true]
    refine and_congr_right fun _ => and_iff_left fun part hm quoted => ?_
    cases (plain part hm).symm.trans quoted
  have cdata : ¬ IsCData ⟨element, parts⟩ := fun quoted =>
    some (text_eq_empty.2 fun part hm => by_contra fun more =>
      Bool.false_ne_true ((plain part hm).symm.trans (quoted part hm more)))
  simp only [flags, ignorable, cdata, decide_false, Bool.decide_eq_true]

/-- The content of a CDATA section is flagged as such. -/
theorem flags_section {content : String} (some : content ≠ "") :
    flags declarations ⟨element, [⟨content, true⟩]⟩ = { cdata := true } := by
  have ignorable : ¬ IsIgnorable declarations ⟨element, [⟨content, true⟩]⟩ := fun h =>
    some (h.2.2 _ List.mem_cons_self rfl)
  have cdata : IsCData ⟨element, [⟨content, true⟩]⟩ := by
    rintro part hm -
    rw [List.mem_singleton.1 hm]
  simp only [flags, ignorable, cdata, decide_false, decide_true]

/-! ### Marks -/

/-- What is marked for passages. -/
inductive Mark where
  /-- An element begins. -/
  | starts (element : String)
  /-- The innermost open element ends. -/
  | ends
  /-- There is a part. -/
  | part (part : Part)
  /-- There is something that is no character data. -/
  | gap
  deriving DecidableEq, Repr

end Passage

/-- Passages while marks come. -/
structure Passages where
  /-- The names of the open elements, innermost first. -/
  opened : List String := []
  /-- The parts since the last mark that ends a passage. -/
  parts : List Passage.Part := []
  /-- The passages that came to their end. -/
  ended : List Passage := []

namespace Passages

/-- The passage that goes on, unless it is empty so far. -/
def current? (passages : Passages) : Option Passage :=
  (passages.opened.head?.map (⟨·, passages.parts⟩)).filter (·.text ≠ "")

/-- The passage that goes on comes to its end. -/
def close (passages : Passages) : Passages :=
  { passages with parts := [], ended := passages.ended ++ passages.current?.toList }

/-- The passages after a mark. -/
def step (passages : Passages) : Passage.Mark → Passages
  | .starts element => { passages.close with opened := element :: passages.opened }
  | .ends => { passages.close with opened := passages.opened.tail }
  | .part part => { passages with parts := passages.parts ++ [part] }
  | .gap => passages.close

/-- The passages after some marks. -/
def after (passages : Passages) (marks : List Passage.Mark) : Passages :=
  marks.foldl step passages

variable {passages : Passages} {marks later : List Passage.Mark} {element : String}
  {outer : List String} {declarations : Declarations}

theorem after_append (passages : Passages) (marks later : List Passage.Mark) :
    passages.after (marks ++ later) = (passages.after marks).after later :=
  List.foldl_append

/-- Outside of elements there are no passages. -/
theorem current?_of_outside (outside : passages.opened = []) : passages.current? = none := by
  rw [current?, outside]
  rfl

theorem ended_close (outside : passages.opened = []) : passages.close.ended = passages.ended := by
  rw [close, current?_of_outside outside, Option.toList_none, List.append_nil]

theorem current?_of_inside (inside : passages.opened = element :: outer) : passages.current? =
    if Passage.text ⟨element, passages.parts⟩ = "" then none
      else some ⟨element, passages.parts⟩ := by
  rw [current?, inside, List.head?_cons, Option.map_some, Option.filter_some]
  simp only [decide_not, Bool.not_eq_true', decide_eq_false_iff_not, ite_not]

theorem current?_of_nil (empty : passages.parts = []) : passages.current? = none := by
  rw [current?, empty]
  cases passages.opened <;> rfl

/-- The passage that goes on is in the innermost open element. -/
theorem exists_of_current? {passage : Passage} (h : passages.current? = some passage) :
    ∃ outer, passages.opened = passage.element :: outer := by
  cases inside : passages.opened with
  | nil => cases (current?_of_outside inside).symm.trans h
  | cons element outer =>
    rw [current?_of_inside inside] at h
    split at h
    · cases h
    · cases h
      exact ⟨outer, rfl⟩

/-- The characters of the passage that goes on, with their flags. -/
def held (declarations : Declarations) (passages : Passages) : Option (String × TextFlags) :=
  passages.current?.map (·.run declarations)

/-- Parts that come as characters with their flags are held back with those before. -/
theorem holding_held (inside : passages.opened = element :: outer) {text : String}
    {flags : TextFlags} {more : List Passage.Part} (same : text = Passage.text ⟨element, more⟩)
    (told : text ≠ "" → flags = Passage.flags declarations ⟨element, more⟩) :
    Builder.holding (passages.held declarations) text flags =
      held declarations { passages with parts := passages.parts ++ more } := by
  have both : ∀ {parts : List Passage.Part} {passages' : Passages},
      passages' = { passages with parts } → passages'.held declarations =
        if Passage.text ⟨element, parts⟩ = "" then none
          else some (Passage.run declarations ⟨element, parts⟩) := by
    rintro parts passages' rfl
    have inside' : Passages.opened { passages with parts } = element :: outer := inside
    rw [held, current?_of_inside inside']
    split <;> rfl
  rw [@both passages.parts passages rfl, both rfl, Passage.run, Passage.run, Passage.text_append,
    Passage.flags_append, ← same]
  unfold Builder.holding
  by_cases more_empty : text = ""
  · rw [if_pos (String.isEmpty_iff.2 more_empty), more_empty, String.append_empty,
      Passage.flags_empty (same.symm.trans more_empty), Passage.merge_empty]
  · rw [if_neg (mt String.isEmpty_iff.1 more_empty), told more_empty]
    by_cases empty : Passage.text ⟨element, passages.parts⟩ = ""
    · rw [if_pos empty, empty, String.empty_append, if_neg more_empty, Passage.flags_empty empty,
        TextFlags.merge_comm, Passage.merge_empty]
    · rw [if_neg empty, if_neg fun none => empty (String.append_eq_empty_iff.1 none).1]

end Passages

/-! ### Texts in the content of elements -/

namespace Outline

variable {l m : List Entry} {e : Entry} {n : Nat} {name : String}

/-- The node is an element with a name. -/
def IsElement (l : List Entry) (n : Nat) (name : String) : Prop :=
  ∃ e, l[n]? = some e ∧ e.kind = .element ∧ e.name = name

theorem IsElement.append (h : IsElement l n name) (m : List Entry) : IsElement (l ++ m) n name := by
  obtain ⟨e, found, rest⟩ := h
  refine ⟨e, ?_, rest⟩
  rw [List.getElem?_append_left (List.getElem?_eq_some_iff.1 found).1, found]

/-- The node is a text in an element. -/
def isContent (l : List Entry) (n : Nat) : Bool :=
  l[n]?.any fun e => e.kind = .text && (e.parent.bind (l[·]?)).any (·.kind = .element)

/-- The texts in elements, in order. -/
def contents (l : List Entry) : List Nat :=
  (List.range l.length).filter (isContent l)

/-- No node belongs to one that has not come. -/
def IsGrounded (l : List Entry) : Prop :=
  ∀ e ∈ l, ∀ p, e.parent = some p → p < l.length

theorem isContent_append_left (h : IsGrounded l) (hn : n < l.length) :
    isContent (l ++ m) n = isContent l n := by
  have found : (l ++ m)[n]? = l[n]? := List.getElem?_append_left hn
  rw [isContent, isContent, found, List.getElem?_eq_getElem hn, Option.any_some, Option.any_some]
  cases hp : l[n].parent with
  | none => rfl
  | some p =>
    have below := h _ (List.getElem_mem hn) p hp
    rw [Option.bind_some, Option.bind_some, List.getElem?_append_left below]

/-- The texts among more nodes are those that there were and then those that are new. -/
theorem contents_append (h : IsGrounded l) : contents (l ++ m) = contents l ++
    ((List.range m.length).map (l.length + ·)).filter (isContent (l ++ m)) := by
  rw [contents, List.length_append, List.range_add, List.filter_append, contents]
  congr 1
  exact List.filter_congr fun n hn => isContent_append_left h (List.mem_range.1 hn)

/-- The texts among what an event adds are no content. -/
theorem contents_append_added {o : Outline} {event : Event} (h : IsGrounded o.entries) :
    contents (o.entries ++ o.added event) = contents o.entries := by
  rw [contents_append h, List.filter_eq_nil_iff.2, List.append_nil]
  intro n hn
  obtain ⟨i, hi, rfl⟩ := List.mem_map.1 hn
  have hi := List.mem_range.1 hi
  rw [isContent, List.getElem?_append_right (Nat.le_add_right ..), Nat.add_sub_cancel_left,
    List.getElem?_eq_getElem hi, Option.any_some, Bool.and_eq_true]
  rintro ⟨text, content⟩
  obtain ⟨j, owner, parent, found, other⟩ :=
    owner_of_added (List.getElem?_eq_getElem hi) (of_decide_eq_true text)
  rw [parent, Option.bind_some, List.getElem?_append_right (Nat.le_add_right ..),
    Nat.add_sub_cancel_left, found] at content
  exact other (of_decide_eq_true content)

/-- A text that comes under an element is content. -/
theorem contents_append_text (h : IsGrounded l) (element : IsElement l n name)
    (run : String × TextFlags) : contents (l ++ [.ofText n run]) = contents l ++ [l.length] := by
  obtain ⟨e, found, kind, -⟩ := element
  have content : isContent (l ++ [.ofText n run]) l.length = true := by
    rw [isContent, List.getElem?_append_right (Nat.le_refl _), Nat.sub_self]
    show (decide (Kind.text = .text) && ((l ++ [Entry.ofText n run])[n]?).any _) = true
    rw [List.getElem?_append_left (List.getElem?_eq_some_iff.1 found).1, found, Option.any_some,
      kind]
    rfl
  rw [contents_append h]
  show _ ++ [l.length].filter _ = _
  rw [List.filter_cons_of_pos content, List.filter_nil]

/-- What belongs to nodes that have come, or that come with it, keeps this so. -/
theorem IsGrounded.append (h : IsGrounded l)
    (new : ∀ e ∈ m, ∀ p, e.parent = some p → p < l.length + m.length) : IsGrounded (l ++ m) := by
  intro e he p hp
  rw [List.length_append]
  rcases List.mem_append.1 he with he | he
  · exact Nat.lt_add_right _ (h e he p hp)
  · exact new e he p hp

end Outline

/-! ### Outlines that keep to passages -/

open Outline

/-- The node is what becomes of a passage. -/
def Passage.IsAt (declarations : Declarations) (l : List Entry) (n : Nat) (passage : Passage) :
    Prop :=
  ∃ element, l[n]? = some (.ofText element (passage.run declarations)) ∧
    IsElement l element passage.element

theorem Passage.IsAt.append {declarations : Declarations} {l : List Entry} {n : Nat}
    {passage : Passage} (h : passage.IsAt declarations l n) (m : List Entry) :
    passage.IsAt declarations (l ++ m) n := by
  obtain ⟨element, found, named⟩ := h
  refine ⟨element, ?_, named.append m⟩
  rw [List.getElem?_append_left (List.getElem?_eq_some_iff.1 found).1, found]

/-- An outline keeps to passages: the elements that are open are the same, and the texts in elements
are the passages that came to their end. -/
structure Outline.KeepsTo (declarations : Declarations) (passages : Passages) (o : Outline) :
    Prop where
  /-- The elements that are open. -/
  opened : List.Forall₂ (fun name element => IsElement o.entries element.1 name) passages.opened
    o.opened
  /-- The characters that are no node yet. -/
  pending : o.pending = passages.held declarations
  /-- The texts. -/
  ended : List.Forall₂ (fun passage n => passage.IsAt declarations o.entries n) passages.ended
    (contents o.entries)
  /-- Nodes belong to nodes. -/
  grounded : IsGrounded o.entries
  /-- There is the document node. -/
  begun : 0 < o.entries.length

namespace Outline.KeepsTo

variable {declarations : Declarations} {passages passages' : Passages} {o : Outline}

/-- After the start of a document there are no passages and no texts. -/
theorem start : KeepsTo declarations {} (ofEvents false [.startDocument]) where
  opened := .nil
  pending := rfl
  ended := .nil
  grounded e he p hp := by
    obtain rfl := List.mem_singleton.1 he
    cases hp
  begun := Nat.one_pos

variable (h : KeepsTo declarations passages o)
include h

theorem cursor_lt : o.opened.cursor < o.entries.length := by
  have opened := h.opened
  cases hc : o.opened with
  | nil => exact h.begun
  | cons element outer =>
    rw [hc] at opened
    obtain ⟨_, _, ⟨e, found, -⟩, -, -⟩ := List.forall₂_cons_right_iff.1 opened
    exact (List.getElem?_eq_some_iff.1 found).1

/-- Where no element is open, parts do not matter. -/
theorem outside (outside : passages.opened = []) (same : passages'.opened = passages.opened)
    (ended : passages'.ended = passages.ended) : KeepsTo declarations passages' o := by
  have none : passages'.held declarations = passages.held declarations := by
    rw [Passages.held, Passages.held, Passages.current?_of_outside outside,
      Passages.current?_of_outside (same.trans outside)]
  exact ⟨same ▸ h.opened, h.pending.trans none.symm, ended ▸ h.ended, h.grounded, h.begun⟩

/-- More nodes and passages. -/
theorem append {m : List Entry} {opened : List String} {opened' : Opened} {ended : List Passage}
    (opens : List.Forall₂ (fun name element => IsElement (o.entries ++ m) element.1 name) opened
      opened')
    (ends : List.Forall₂ (fun passage n => passage.IsAt declarations (o.entries ++ m) n)
      (passages.ended ++ ended) (contents (o.entries ++ m)))
    (new : ∀ e ∈ m, ∀ p, e.parent = some p → p < o.entries.length + m.length)
    (entities : List (String × String)) :
    KeepsTo declarations ⟨opened, [], passages.ended ++ ended⟩
      ⟨o.entries ++ m, opened', none, entities⟩ where
  opened := opens
  pending := by
    rw [Passages.held, Passages.current?_of_nil rfl]
    rfl
  ended := ends
  grounded := h.grounded.append new
  begun := Nat.lt_of_lt_of_le h.begun (List.length_append ▸ Nat.le_add_right ..)

/-- The elements and the texts that there were are there among more nodes. -/
theorem mono (m : List Entry) :
    List.Forall₂ (fun name element => IsElement (o.entries ++ m) element.1 name) passages.opened
      o.opened ∧
    List.Forall₂ (fun passage n => passage.IsAt declarations (o.entries ++ m) n) passages.ended
      (contents o.entries) :=
  ⟨h.opened.imp fun _ _ element => element.append m, h.ended.imp fun _ _ text => text.append m⟩

/-- When characters come to their end, so does the passage. -/
theorem flush : KeepsTo declarations passages.close (o.flush false) := by
  have held : o.held false = passages.held declarations := by
    rw [← h.pending, Outline.held]
    cases o.pending with
    | none => rfl
    | some run => exact Option.filter_some.trans (if_pos (by rw [Bool.and_false]; rfl))
  rw [Outline.flush, held, Passages.held, Passages.close]
  cases hc : passages.current? with
  | none =>
    obtain ⟨opens, ends⟩ := h.mono []
    refine h.append opens ?_ (List.forall_mem_nil _) o.entities
    rw [List.append_nil] at ends
    rw [Option.toList_none, List.append_nil, List.append_nil]
    exact ends
  | some passage =>
    obtain ⟨outer, inside⟩ := Passages.exists_of_current? hc
    obtain ⟨opens, ends⟩ := h.mono [.ofText o.opened.cursor (passage.run declarations)]
    have element : IsElement o.entries o.opened.cursor passage.element := by
      have opened := h.opened
      rw [inside] at opened
      obtain ⟨_, _, named, -, same⟩ := List.forall₂_cons_left_iff.1 opened
      rw [same]
      exact named
    refine h.append opens ?_ (fun e he p hp => ?_) o.entities
    · rw [contents_append_text h.grounded element]
      refine List.rel_append ends (.cons ⟨_, ?_, element.append _⟩ .nil)
      rw [List.getElem?_append_right (Nat.le_refl _), Nat.sub_self]
      rfl
    · obtain rfl := List.mem_singleton.1 he
      obtain rfl := Option.some.inj hp
      exact Nat.lt_add_right _ h.cursor_lt

/-- An event that is no character data ends the passage and adds no text. -/
theorem take {event : Event} {opened : List String}
    (opens : List.Forall₂ (fun name element =>
      IsElement ((o.flush false).entries ++ (o.flush false).added event) element.1 name) opened
      ((o.flush false).openedAfter event)) :
    KeepsTo declarations { passages.close with opened } ((o.flush false).take event) := by
  have flushed := h.flush
  obtain ⟨-, ends⟩ := flushed.mono ((o.flush false).added event)
  rw [← contents_append_added flushed.grounded, ← List.append_nil passages.close.ended] at ends
  have step := flushed.append opens ends (fun e he p hp => ?_) ((o.flush false).entitiesAfter event)
  · rw [List.append_nil] at step
    exact step
  · rcases parent_of_mem_added he hp with rfl | hlt
    · exact Nat.lt_add_right _ flushed.cursor_lt
    · exact hlt

/-- An element begins. -/
theorem starts (name : String) (attributes : List Event.Attribute) :
    KeepsTo declarations (passages.step (.starts name))
      (o.step false (.startElement name attributes)) := by
  have element : ((o.flush false).entries ++
      (o.flush false).added (.startElement name attributes))[(o.flush false).entries.length]? =
        ((o.flush false).added (.startElement name attributes)).head? := by
    rw [List.getElem?_append_right (Nat.le_refl _), Nat.sub_self]
    rfl
  exact h.take (.cons ⟨_, element, rfl, rfl⟩ (h.flush.mono _).1)

/-- An element ends. -/
theorem ends : KeepsTo declarations (passages.step .ends) (o.step false .endElement) := by
  refine h.take ?_
  obtain ⟨opens, -⟩ := h.flush.mono ((o.flush false).added .endElement)
  show List.Forall₂ _ passages.opened.tail o.opened.tail
  change List.Forall₂ _ passages.opened o.opened at opens
  generalize passages.opened = names, o.opened = elements at opens ⊢
  cases opens with
  | nil => exact .nil
  | cons _ rest => exact rest

/-- Something comes that is no character data and no part of an element. -/
theorem gap {event : Event} (same : (o.flush false).openedAfter event = o.opened) :
    KeepsTo declarations (passages.step .gap) ((o.flush false).take event) := by
  refine h.take ?_
  rw [same]
  exact (h.flush.mono _).1

/-- Parts come. -/
theorem characters {element : String} {outer : List String}
    (inside : passages.opened = element :: outer) {text : String} {flags : TextFlags}
    {more : List Passage.Part} (same : text = Passage.text ⟨element, more⟩)
    (told : text ≠ "" → flags = Passage.flags declarations ⟨element, more⟩) :
    KeepsTo declarations { passages with parts := passages.parts ++ more }
      (o.step false (.characters text flags)) := by
  have opened := h.opened
  rw [inside] at opened
  obtain ⟨_, _, -, -, some⟩ := List.forall₂_cons_left_iff.1 opened
  have within : o.opened.isEmpty = false := by
    rw [some]
    rfl
  rw [step, within]
  refine ⟨h.opened, ?_, h.ended, h.grounded, h.begun⟩
  rw [← Passages.holding_held inside same told, ← h.pending]
  rfl

end Outline.KeepsTo

end XmlTable
