import XmlTable.Proofs.Handover
import XmlTable.Proofs.Markup

/-!
# What was written is read

A reader delivers the events of the tree that a source was written for, no others, and comes to the
end of the document.
-/

namespace XmlTable

/-! ### Events that are taken -/

namespace Sink

variable {σ : Type} {sink : Sink σ} {s t u : σ × Journal} {events later : List Event}

/-- A receiver takes some events one after the other. -/
inductive Takes (sink : Sink σ) : σ × Journal → List Event → σ × Journal → Prop
  | nil {s : σ × Journal} : Takes sink s [] s
  | cons {event : Event} {events : List Event} {s t u : σ × Journal} :
    (sink.accept event).run.run s = (.ok (), t) → Takes sink t events u →
    Takes sink s (event :: events) u

theorem Takes.exists_of_append (h : sink.Takes s (events ++ later) u) :
    ∃ t, sink.Takes s events t ∧ sink.Takes t later u := by
  induction events generalizing s with
  | nil => exact ⟨s, .nil, h⟩
  | cons event rest ih =>
    obtain _ | ⟨accepted, h⟩ := h
    obtain ⟨t, first, second⟩ := ih h
    exact ⟨t, .cons accepted first, second⟩

/-- A receiver that collects events takes any. -/
theorem takes_recorder (collected : Array Event) (journal : Journal) (events : List Event) :
    (recorder none).Takes (collected, journal) events (collected ++ events.toArray, journal) := by
  induction events generalizing collected with
  | nil => exact Array.append_empty ▸ .nil
  | cons event rest ih =>
    have taken := ih (collected.push event)
    refine .cons rfl ?_
    simpa using taken

end Sink

/-! ### Work that delivers given events -/

namespace Delivery

variable {σ α β : Type} {sink : Sink σ} {reader reader' reader'' : Reader}
  {work : Delivery σ α} {next : α → Delivery σ β} {events later : List Event} {a : α} {b : β}

/-- Work of a reader delivers some events and is done: when the receiver takes the events, the work
ends with an answer, and nothing else has happened to the receiver. -/
def Hands (sink : Sink σ) (reader : Reader) (work : Delivery σ α) (events : List Event) (a : α)
    (reader' : Reader) : Prop :=
  ∀ s t : σ × Journal, sink.Takes s events t → work.ending reader s = ((.ok a, reader'), t)

namespace Hands

theorem pure (sink : Sink σ) (reader : Reader) (a : α) :
    Hands sink reader (pure a) [] a reader := by
  intro s t taken
  cases taken
  rfl

theorem bind (h : Hands sink reader work events a reader')
    (hn : Hands sink reader' (next a) later b reader'') :
    Hands sink reader (work >>= next) (events ++ later) b reader'' := by
  intro s u taken
  obtain ⟨t, first, second⟩ := taken.exists_of_append
  rw [ending_bind, h _ _ first]
  exact hn _ _ second

/-- What follows a look at the reader may use it. -/
theorem get {next : Reader → Delivery σ β} (h : Hands sink reader (next reader) events b reader') :
    Hands sink reader (get >>= next) events b reader' :=
  h

/-- What follows a change of the reader starts from the new one. -/
theorem modify {next : Unit → Delivery σ β} {change : Reader → Reader}
    (h : Hands sink (change reader) (next ()) events b reader') :
    Hands sink reader (modify change >>= next) events b reader' :=
  h

theorem deliver (event : Event) :
    Hands sink reader (Reader.deliver sink event) [event] () reader := by
  intro s t taken
  obtain _ | ⟨accepted, taken⟩ := taken
  cases taken
  rw [Reader.deliver_eq, Reader.ending_perform, accepted]

theorem deliverAt (position : Nat) (event : Event) :
    Hands sink reader (Reader.deliverAt sink position event) [event] () reader := by
  intro s t taken
  obtain _ | ⟨accepted, taken⟩ := taken
  cases taken
  rw [Reader.deliverAt_eq, Reader.ending_perform, accepted]

end Hands

end Delivery

namespace Reader

open Delivery Reference

variable {σ : Type} {sink : Sink σ} {reader : Reader}

/-! ### Texts -/

theorem hands_decodeBytes (part text : String) :
    Hands sink reader (decodeBytes part (Bytes.encode text)) [] text reader := by
  rw [decodeBytes, Bytes.utf8?_encode]
  exact .pure sink reader text

/-- What is written for a text is expanded to the text, and the budget stays as it is. -/
theorem hands_expandText {reserved : List Char} {text : String} {ws : List Char} (position : Nat)
    (written : Written reserved text.toList ws) (ampersand : '&' ∈ reserved) :
    Hands sink reader (expandText position (String.ofList ws)) []
      (text, ⟨wholePieces text reader.budget, reader.budget, none⟩) reader := by
  have decoded := written.decode ampersand reader.declarations.entity? reader.budget
  refine .bind (.get (.pure sink reader _)) (.bind (.modify (.pure sink _ ())) ?_)
  rw [decoded]
  refine .bind (.pure sink _ ()) ?_
  dsimp only
  rw [writtenText_wholePieces]
  exact .pure sink reader _

/-- The value of an attribute is read as it was written. -/
theorem hands_attributeValue {value : String} {ws : List Char} (position : Nat)
    (written : Written reservedInValue value.toList ws) :
    Hands sink reader (attributeValue position (String.ofList ws)) [] value reader := by
  have normal : Text.normalizeAttribute (String.ofList ws) = String.ofList ws := by
    apply Text.normalizeAttribute_of_notMem
    all_goals
      rw [String.toList_ofList]
      exact written.notMem (by decide) (by decide)
  rw [attributeValue, normal]
  refine .bind (hands_expandText position written (by decide)) ?_
  have none : firstReference? (wholePieces value reader.budget) = none := by
    rw [wholePieces]
    split <;> rfl
  dsimp only
  rw [none]
  exact .pure sink reader value

/-- Character data in an element is delivered as the text for which it was written, at once. -/
theorem hands_characters {run : String} {ws : List Char} {outer : List Bool} (position : Nat)
    (opens : reader.openElements = false :: outer) (ne : run ≠ "")
    (written : Written reserved run.toList ws) :
    Hands sink reader (characters sink position (String.ofList ws)) [.characters run {}] ()
      reader := by
  have normal : Text.normalizeLineEnds (String.ofList ws) = String.ofList ws := by
    apply Text.normalizeLineEnds_of_notMem
    rw [String.toList_ofList]
    exact written.notMem (by decide) (by decide)
  have decoded := written.decode (by decide) reader.declarations.entity? reader.budget
  rw [wholePieces, if_neg (by rwa [String.isEmpty_iff])] at decoded
  refine .get ?_
  rw [opens, normal]
  dsimp only
  refine .bind (.get (.pure sink reader _)) ?_
  rw [decoded]
  have piece : Hands sink reader
      (deliverPieces sink position false [(.text run, reader.budget)]) [.characters run {}] ()
      reader :=
    .modify (.bind (.deliverAt position _) (.pure sink reader ()))
  exact .bind piece (.modify (.pure sink reader ()))

/-! ### Elements -/

/-- The attributes of a tag are those that were written. -/
theorem hands_writtenAttributes {found : List Tag.Attribute} {attributes : List Event.Attribute}
    (position : Nat) (element : String) (undeclared : reader.declarations = .none)
    (writes : List.Forall₂ Tag.Attribute.Writes found attributes)
    (ids : ∀ attr ∈ attributes, attr.isId = decide (attr.name = idName))
    (done : List Event.Attribute) :
    Hands sink reader (writtenAttributes position element found done) []
      (done.reverse ++ attributes) reader := by
  induction writes generalizing done with
  | nil =>
    rw [List.append_nil]
    exact .pure sink reader _
  | @cons raw attr found attributes own _ ih =>
    obtain ⟨key, ws, written, value⟩ := own
    have same : (⟨attr.name, attr.value,
        decide (attr.name = idName) || reader.declarations.isId element attr.name⟩ :
        Event.Attribute) = attr := by
      rw [undeclared, ← ids attr List.mem_cons_self]
      exact congrArg _ (Bool.or_false _)
    have rest := ih (fun other ho => ids other (List.mem_cons_of_mem _ ho)) (attr :: done)
    rw [List.reverse_cons, List.append_assoc] at rest
    rw [writtenAttributes, key, value]
    refine .bind (hands_decodeBytes _ _) (.bind (hands_decodeBytes _ _)
      (.bind (hands_attributeValue position written) (.get ?_)))
    dsimp only
    rw [same]
    exact rest

/-- A reader that has met no declarations and spent nothing of its budget, with so many elements
open. -/
def bare (limit depth : Nat) (seenRoot : Bool) : Reader where
  openElements := List.replicate depth false
  seenRoot := seenRoot
  budget := .full limit

variable {limit depth : Nat} {seenRoot : Bool} {name : String} {attributes : List Event.Attribute}
  {tag : Tag}

/-- The start of an element is delivered with the attributes that were written for it. The document
element may begin if it has not begun before. -/
theorem hands_startElement (position : Nat) (begins : seenRoot = decide (0 < depth))
    (written : Tag.Written name attributes tag) (readable : Tag.Readable attributes)
    (ids : ∀ attr ∈ attributes, attr.isId = decide (attr.name = idName)) :
    Hands sink (bare limit depth seenRoot) (startElement sink position tag)
      [.startElement name attributes] name (bare limit depth true) := by
  have begun : Hands sink (bare limit depth true) (beginElement sink position tag)
      [.startElement name attributes] name (bare limit depth true) := by
    obtain ⟨found, writes, read⟩ := written.exists_attributes readable
    rw [beginElement, written.name_eq, read]
    exact .bind (hands_decodeBytes _ _)
      (.bind (hands_writtenAttributes position name rfl writes ids [])
        (.get (.bind (.pure sink _ attributes) (.bind (.deliver _) (.pure sink _ name)))))
  subst begins
  rw [startElement_eq]
  cases depth with
  | zero => exact .get (.modify begun)
  | succ depth => exact .get begun

/-! ### Trees -/

variable {reader' reader'' : Reader} {patience : Nat} {events later : List Event}
  {read readLater : List (Nat × Token)}

/-- Tokens after others are read after them. -/
theorem hands_append
    (h : Hands sink reader (readTokens sink patience read) events () reader')
    (h' : Hands sink reader' (readTokens sink patience readLater) later () reader'') :
    Hands sink reader (readTokens sink patience (read ++ readLater)) (events ++ later) ()
      reader'' := by
  rw [readTokens_append]
  exact h.bind h'

/-- The tag of an element without content is read as its start and its end. -/
theorem hands_emptyElement (position : Nat) (begins : seenRoot = decide (0 < depth))
    (written : Tag.Written name attributes tag) (readable : Tag.Readable attributes)
    (ids : ∀ attr ∈ attributes, attr.isId = decide (attr.name = idName)) :
    Hands sink (bare limit depth seenRoot) (readTokens sink patience [(position, .empty tag)])
      [.startElement name attributes, .endElement] () (bare limit depth true) := by
  have both : Hands sink (bare limit depth seenRoot) (readToken sink patience position (.empty tag))
      [.startElement name attributes, .endElement] () (bare limit depth true) :=
    .bind (hands_startElement position begins written readable ids) (.deliver _)
  exact .bind both (.pure sink _ ())

/-- An element is read as its start, its content and its end. -/
theorem hands_element (first last : Nat) (closed : Bytes) (begins : seenRoot = decide (0 < depth))
    (written : Tag.Written name attributes tag) (readable : Tag.Readable attributes)
    (ids : ∀ attr ∈ attributes, attr.isId = decide (attr.name = idName))
    (inside : Hands sink (bare limit (depth + 1) true) (readTokens sink patience read) events ()
      (bare limit (depth + 1) true)) :
    Hands sink (bare limit depth seenRoot)
      (readTokens sink patience ((first, .start tag) :: (read ++ [(last, .close closed)])))
      (.startElement name attributes :: (events ++ [.endElement])) () (bare limit depth true) := by
  have opening : Hands sink (bare limit depth seenRoot)
      (readToken sink patience first (.start tag)) [.startElement name attributes] ()
      (bare limit (depth + 1) true) :=
    .bind (hands_startElement first begins written readable ids) (.modify (.pure sink _ ()))
  have closing : Hands sink (bare limit (depth + 1) true)
      (readToken sink patience last (.close closed)) [.endElement] () (bare limit depth true) :=
    .modify (.deliver _)
  exact .bind opening (hands_append inside (.bind closing (.pure sink _ ())))

/-- In an element, what was written for some trees is read as their events. -/
theorem hands_trees {trees : List (NodeTree Event.Attribute)} {tokens : List Token}
    (written : NodeTree.Written trees tokens) (normal : NodeTree.AllNormal trees) (depth : Nat)
    (found : read.map (·.2) = tokens) :
    Hands sink (bare limit (depth + 1) true) (readTokens sink patience read)
      (NodeTree.eventsAll trees) () (bare limit (depth + 1) true) := by
  induction written generalizing depth read with
  | nil =>
    rw [List.map_eq_nil_iff] at found
    subst found
    exact .pure sink _ ()
  | @element name _ _ _ _ _ _ tagged _ _ ihChildren ihRest =>
    obtain ⟨⟨readable, ids, inside⟩, normal⟩ := normal
    obtain ⟨⟨first, _⟩, _, rfl, rfl, foundMore⟩ := List.map_eq_cons_iff.1 found
    obtain ⟨content, _, rfl, foundInner, foundEnd⟩ := List.map_eq_append_iff.1 foundMore
    obtain ⟨⟨last, _⟩, after, rfl, rfl, foundAfter⟩ := List.map_eq_cons_iff.1 foundEnd
    have own := hands_element first last (Bytes.encode name)
      (decide_eq_true (Nat.succ_pos depth)).symm tagged readable ids
      (ihChildren inside (depth + 1) foundInner)
    have all := hands_append own (ihRest normal depth foundAfter)
    rw [NodeTree.eventsAll, NodeTree.events]
    simpa using all
  | emptyElement tagged _ ih =>
    obtain ⟨⟨readable, ids, _⟩, normal⟩ := normal
    obtain ⟨⟨position, _⟩, after, rfl, rfl, foundAfter⟩ := List.map_eq_cons_iff.1 found
    rw [NodeTree.eventsAll, NodeTree.events, NodeTree.eventsAll]
    exact hands_append (hands_emptyElement position (decide_eq_true (Nat.succ_pos depth)).symm
      tagged readable ids) (ih normal depth foundAfter)
  | text written _ ih =>
    obtain ⟨⟨ne, rfl⟩, normal⟩ := normal
    obtain ⟨⟨position, _⟩, after, rfl, rfl, foundAfter⟩ := List.map_eq_cons_iff.1 found
    rw [NodeTree.eventsAll, NodeTree.events]
    exact .bind (.bind (hands_decodeBytes _ _) (hands_characters position rfl ne written))
      (ih normal depth foundAfter)
  | @comment content _ _ _ ih =>
    obtain ⟨plain, normal⟩ := normal
    obtain ⟨⟨position, _⟩, after, rfl, rfl, foundAfter⟩ := List.map_eq_cons_iff.1 found
    have delivered : Hands sink (bare limit (depth + 1) true)
        (readToken sink patience position (.comment (Bytes.encode content))) [.comment content] ()
        (bare limit (depth + 1) true) := by
      refine .bind (hands_decodeBytes _ _) ?_
      rw [Text.normalizeLineEnds_of_notMem plain]
      exact .deliver _
    rw [NodeTree.eventsAll, NodeTree.events]
    exact .bind delivered (ih normal depth foundAfter)

/-! ### Documents -/

variable {children : List (NodeTree Event.Attribute)}

/-- What was written for a document element is read as its events. -/
theorem hands_root {tokens : List Token}
    (written : NodeTree.Written [.element name attributes children] tokens)
    (normal : (NodeTree.element name attributes children).IsNormal)
    (found : read.map (·.2) = tokens) :
    Hands sink (bare limit 0 false) (readTokens sink patience read)
      (NodeTree.element name attributes children).events () (bare limit 0 true) := by
  obtain ⟨readable, ids, inside⟩ := normal
  rw [NodeTree.events]
  cases written with
  | element tagged content rest =>
    cases rest
    obtain ⟨⟨first, _⟩, _, rfl, rfl, foundMore⟩ := List.map_eq_cons_iff.1 found
    obtain ⟨_, _, rfl, foundInner, foundEnd⟩ := List.map_eq_append_iff.1 foundMore
    obtain ⟨⟨last, _⟩, _, rfl, rfl, foundAfter⟩ := List.map_eq_cons_iff.1 foundEnd
    cases List.map_eq_nil_iff.1 foundAfter
    exact hands_element first last _ rfl tagged readable ids
      (hands_trees content inside 0 foundInner)
  | emptyElement tagged rest =>
    cases rest
    obtain ⟨⟨position, _⟩, _, rfl, rfl, foundAfter⟩ := List.map_eq_cons_iff.1 found
    cases List.map_eq_nil_iff.1 foundAfter
    exact hands_emptyElement position rfl tagged readable ids

/-- What was written for a document is read as its events. -/
theorem hands_document (patience limit : Nat) {stream : Token.Stream} {position : Nat}
    (written : NodeTree.Written [.element name attributes children] (stream.tokens.map (·.2)))
    (normal : (NodeTree.element name attributes children).IsNormal)
    (ends : stream.ending = .complete position) :
    Hands sink (start limit) (readDocument sink patience stream)
      ({ name, attributes, children } : DocumentTree).events () (bare limit 0 true) := by
  have finishes : Hands sink (bare limit 0 true) (finish sink stream.ending) [.endDocument] ()
      (bare limit 0 true) := by
    rw [ends]
    exact .get (.deliver _)
  have all : Hands sink (start limit) (readDocument sink patience stream)
      ([.startDocument] ++ ((NodeTree.element name attributes children).events ++ [.endDocument]))
      () (bare limit 0 true) :=
    .bind (.deliver _) (.bind (hands_root written normal rfl) finishes)
  simpa [DocumentTree.events, DocumentTree.root] using all

end Reader

end XmlTable
