import XmlTable.Proofs.Depiction
import XmlTable.Proofs.Meaning
import XmlTable.Proofs.Passages

/-!
# Where texts are from

The tokens of a source tell the passages of character data in it. When a document is built from the
source and ignorable white space is kept, the texts in its elements are these passages, one by one
and in order. So their flags mean what they say: a text is ignorable white space if its element is
declared to contain elements only, it is nothing but white space and none of it is from a CDATA
section; it is marked as CDATA if all of it is from CDATA sections.
-/

namespace XmlTable

open Node Outline
open Reference (Course Step Piece)
open Subset (Declarations)

/-! ### Passages of a source -/

/-- The text that some bytes encode, empty if they are not UTF-8. -/
def Bytes.text (bytes : Bytes) : String :=
  bytes.utf8?.getD ""

theorem Bytes.text_eq {bytes : Bytes} {text : String} (h : bytes.utf8? = some text) :
    bytes.text = text := by
  rw [Bytes.text, h, Option.getD_some]

/-- The mark of a step of an expansion. A payment leaves none. -/
def Reference.Step.mark? : Step → Option Passage.Mark
  | text content => some (.part ⟨content, false⟩)
  | reference _ => some .gap
  | payment _ => none

/-- The marks of a token. Text is marked as its expansion takes its course. A document type
declaration comes before all elements, and an XML declaration counts for nothing wherever it
stands. -/
def Token.marks (declared : String → Option String) : Token → List Passage.Mark
  | start tag => [.starts tag.name.text]
  | empty tag => [.starts tag.name.text, .ends]
  | close _ => [.ends]
  | text content =>
    (Course.ofText declared (Text.normalizeLineEnds content.text)).steps.filterMap Step.mark?
  | cdata content => [.part ⟨Text.normalizeLineEnds content.text, true⟩]
  | comment _ | instruction _ => [.gap]
  | doctype _ | declaration => []

/-- The marks of some tokens. -/
def Token.allMarks (declared : String → Option String) (tokens : List (Nat × Token)) :
    List Passage.Mark :=
  tokens.flatMap fun token => token.2.marks declared

/-- The passages of a source. -/
def Source.passages (declarations : Declarations) (source : Source) : List Passage :=
  (Passages.after {} (Token.allMarks declarations.entity? source.tokens.tokens)).ended

/-! ### Character data -/

section

variable {declarations : Declarations} {passages : Passages} {o : Outline} {element : String}
  {outer : List String}

/-- Text without references comes as a piece, unless it is empty. -/
theorem Outline.KeepsTo.ofText (h : KeepsTo declarations passages o)
    (inside : passages.opened = element :: outer) {parts : List Passage.Part}
    (plain : ∀ part ∈ parts, part.isCData = false) :
    KeepsTo declarations { passages with parts := passages.parts ++ parts }
      (((Piece.ofText (Passage.text ⟨element, parts⟩)).map
        (Reader.pieceEvent (declarations.isElementOnly element))).foldl (step false) o) := by
  by_cases empty : Passage.text ⟨element, parts⟩ = ""
  · have unchanged : o.step false (.characters "" {}) = o := by
      rw [step]
      split <;> rfl
    have same : KeepsTo declarations _ (o.step false (.characters "" {})) :=
      h.characters inside empty.symm fun some => absurd rfl some
    rw [unchanged] at same
    rw [empty]
    exact same
  · rw [Piece.ofText, if_neg (mt String.isEmpty_iff.1 empty)]
    exact h.characters inside rfl fun some => (Passage.flags_plain plain some).symm

/-- The pieces that some steps make up come as the steps are marked. Before them there are parts of
which there is no piece yet. -/
theorem Outline.KeepsTo.pieces (h : KeepsTo declarations passages o)
    (inside : passages.opened = element :: outer) {parts : List Passage.Part}
    (plain : ∀ part ∈ parts, part.isCData = false) (steps : List Step) :
    KeepsTo declarations
      (Passages.after { passages with parts := passages.parts ++ parts }
        (steps.filterMap Step.mark?))
      (((Step.pieces (Passage.text ⟨element, parts⟩) steps).map
        (Reader.pieceEvent (declarations.isElementOnly element))).foldl (step false) o) := by
  induction steps generalizing passages o parts with
  | nil => exact h.ofText inside plain
  | cons step rest ih =>
    cases step with
    | text content =>
      have more := @ih passages o h inside (parts ++ [⟨content, false⟩])
        (List.forall_mem_append.2 ⟨plain, List.forall_mem_singleton.2 rfl⟩)
      rw [Passage.text_append, Passage.text_singleton, ← List.append_assoc] at more
      exact more
    | reference name =>
      rw [Step.pieces, List.map_append, List.foldl_append]
      have ended : KeepsTo declarations _ (Outline.step false _ (.entityReference name)) :=
        (h.ofText inside plain).gap rfl
      have more := @ih _ _ ended inside [] (List.forall_mem_nil _)
      rw [List.append_nil] at more
      exact more
    | payment literal => exact ih h inside plain

/-- No element begins or ends in text. -/
theorem Passages.opened_after_steps (passages : Passages) (steps : List Step) :
    (passages.after (steps.filterMap Step.mark?)).opened = passages.opened := by
  induction steps generalizing passages with
  | nil => rfl
  | cons step rest ih => cases step <;> exact ih _

/-- Text outside of elements is in no passage. -/
theorem Passages.ended_after_steps (outside : passages.opened = []) (steps : List Step) :
    (passages.after (steps.filterMap Step.mark?)).ended = passages.ended := by
  induction steps generalizing passages with
  | nil => rfl
  | cons step rest ih =>
    cases step with
    | text content => exact ih outside
    | reference name => exact (@ih passages.close outside).trans (ended_close outside)
    | payment literal => exact ih outside

/-- What comes outside of elements leaves the passages as they are. -/
theorem Outline.KeepsTo.aside (h : KeepsTo declarations passages o)
    (outside : passages.opened = []) {event : Event}
    (same : (o.flush false).openedAfter event = o.opened) :
    KeepsTo declarations passages ((o.flush false).take event) :=
  (h.gap same).outside outside rfl (Passages.ended_close outside).symm

theorem Outline.KeepsTo.entities (h : KeepsTo declarations passages o)
    (outside : passages.opened = []) (entities : List (String × String)) :
    KeepsTo declarations passages
      ((entities.map fun entity => Event.entityDeclaration entity.1 entity.2).foldl (step false)
        o) := by
  induction entities generalizing o with
  | nil => exact h
  | cons entity rest ih => exact ih (h.aside outside rfl)

end

/-! ### Readers -/

namespace Reader

open Delivery

variable {σ : Type} {sink : Sink σ} {reader reader' reader'' : Reader} {events later : List Event}
  {declarations : Declarations} {passages passages' : Passages} {o o' : Outline}

/-- A reader has as many open elements as there are, and knows which of them contain elements only;
an outline keeps to the passages. -/
structure InStep (declarations : Declarations) (reader : Reader) (passages : Passages)
    (o : Outline) : Prop where
  /-- The elements that are open. -/
  elements : reader.openElements = passages.opened.map declarations.isElementOnly
  /-- The outline. -/
  keeps : o.KeepsTo declarations passages

/-- What comes of some reading: the events that were delivered come as some marks say, by the
declarations that are known after them. -/
structure Marks (marks : (String → Option String) → List Passage.Mark) (reader reader' : Reader)
    (events : List Event) : Prop where
  /-- Elements are open in the document element only. -/
  opens : reader'.openElements ≠ [] → reader'.seenRoot = true
  /-- Once the document element has begun, it has, and the declarations stay. -/
  begun : reader.seenRoot = true →
    reader'.seenRoot = true ∧ reader'.declarations = reader.declarations
  /-- What was in step stays in step. -/
  inStep : ∀ {declarations : Declarations} {passages : Passages} {o : Outline},
    (reader'.seenRoot = true → reader'.declarations = declarations) →
    InStep declarations reader passages o →
    InStep declarations reader' (passages.after (marks declarations.entity?))
      (events.foldl (step false) o)

theorem Marks.append {marks marks' : (String → Option String) → List Passage.Mark}
    (h : Marks marks reader reader' events) (h' : Marks marks' reader' reader'' later) :
    Marks (fun declared => marks declared ++ marks' declared) reader reader''
      (events ++ later) where
  opens := h'.opens
  begun seen := by
    obtain ⟨seen', same⟩ := h.begun seen
    obtain ⟨seen'', same'⟩ := h'.begun seen'
    exact ⟨seen'', same'.trans same⟩
  inStep force start := by
    rw [Passages.after_append, List.foldl_append]
    refine h'.inStep force (h.inStep (fun seen' => ?_) start)
    obtain ⟨seen'', same⟩ := h'.begun seen'
    exact same.symm.trans (force seen'')

/-- Little changes. -/
theorem Marks.of_same {marks : (String → Option String) → List Passage.Mark}
    (seen : reader.openElements ≠ [] → reader.seenRoot = true)
    (opens : reader'.openElements = reader.openElements)
    (root : reader'.seenRoot = reader.seenRoot)
    (known : reader'.declarations = reader.declarations)
    (keeps : ∀ {declarations : Declarations} {passages : Passages} {o : Outline},
      (reader.seenRoot = true → reader.declarations = declarations) →
      InStep declarations reader passages o →
      (passages.after (marks declarations.entity?)).opened = passages.opened ∧
        KeepsTo declarations (passages.after (marks declarations.entity?))
          (events.foldl (step false) o)) : Marks marks reader reader' events where
  opens := by
    rw [opens, root]
    exact seen
  begun begun := ⟨root.trans begun, known⟩
  inStep force start := by
    rw [root, known] at force
    obtain ⟨same, keeps⟩ := keeps force start
    exact ⟨by rw [opens, same, start.elements], keeps⟩

/-- A token is delivered as it is marked. -/
theorem Renders.marks {token : Token} (h : Renders reader token reader' events)
    (seen : reader.openElements ≠ [] → reader.seenRoot = true) :
    Marks token.marks reader reader' events := by
  have outside : ∀ {declarations : Declarations} {passages : Passages} {o : Outline},
      InStep declarations reader passages o → reader.openElements = [] → passages.opened = [] :=
    fun start none => List.map_eq_nil_iff.1 (start.elements.symm.trans none)
  cases h with
  | @start tag name attributes budget spelt =>
    refine ⟨fun _ => rfl, fun _ => ⟨rfl, rfl⟩, fun force start => ?_⟩
    obtain rfl := force rfl
    rw [Token.marks, Bytes.text_eq spelt.decoded]
    exact ⟨congrArg (_ :: ·) start.elements, start.keeps.starts name attributes⟩
  | @empty tag name attributes budget spelt =>
    refine ⟨fun _ => rfl, fun _ => ⟨rfl, rfl⟩, fun _ start => ?_⟩
    rw [Token.marks, Bytes.text_eq spelt.decoded]
    exact ⟨start.elements, (start.keeps.starts name attributes).ends⟩
  | close =>
    refine ⟨fun more => seen fun none => more ?_, fun begun => ⟨begun, rfl⟩,
      fun {declarations passages o} _ start => ⟨?_, start.keeps.ends⟩⟩
    · show reader.openElements.tail = []
      rw [none]
      rfl
    · show reader.openElements.tail = passages.opened.tail.map _
      rw [start.elements, List.map_tail]
  | blank decoded none =>
    refine .of_same seen rfl rfl rfl fun {declarations passages o} _ start => ?_
    rw [Token.marks, Bytes.text_eq decoded]
    have opened := passages.opened_after_steps
    exact ⟨opened _, start.keeps.outside (outside start none) (opened _)
      (Passages.ended_after_steps (outside start none) _)⟩
  | @text content written elementsOnly names pieces budget decoded inside made =>
    refine .of_same seen rfl rfl rfl fun {declarations passages o} force start => ?_
    rw [Token.marks, Bytes.text_eq decoded]
    refine ⟨passages.opened_after_steps _, ?_⟩
    obtain ⟨element, outer, opened, rfl, -⟩ :=
      List.map_eq_cons_iff.1 (start.elements.symm.trans inside)
    obtain rfl := force (seen (by rw [inside]; exact List.cons_ne_nil _ _))
    have keeps := start.keeps.pieces opened (List.forall_mem_nil _)
      (Course.ofText reader.declarations.entity? (Text.normalizeLineEnds written)).steps
    have none : Passage.text ⟨element, []⟩ = "" := rfl
    rw [List.append_nil, none, ← made, List.map_map] at keeps
    exact keeps
  | @cdata content written budget decoded inside =>
    refine .of_same seen rfl rfl rfl fun {declarations passages o} _ start => ?_
    rw [start.elements, ne_eq, List.map_eq_nil_iff] at inside
    obtain ⟨element, names, opened⟩ := List.exists_cons_of_ne_nil inside
    rw [Token.marks, Bytes.text_eq decoded]
    have text := Passage.text_singleton element ⟨Text.normalizeLineEnds written, true⟩
    exact ⟨rfl, start.keeps.characters opened text.symm fun some =>
      (Passage.flags_section some).symm⟩
  | comment | instruction =>
    exact .of_same seen rfl rfl rfl fun _ start => ⟨rfl, start.keeps.gap rfl⟩
  | subset unseen =>
    refine ⟨seen, fun begun => ?_, fun _ start => ⟨start.elements, ?_⟩⟩
    · cases unseen.symm.trans begun
    · have none : reader.openElements = [] :=
        by_contra fun more => Bool.false_ne_true (unseen.symm.trans (seen more))
      exact start.keeps.entities (outside start none) _
  | doctype | declaration =>
    exact .of_same seen rfl rfl rfl fun _ start => ⟨rfl, start.keeps⟩

/-- Some tokens are read as they are marked. -/
theorem yields_readTokens_marks (patience : Nat) (tokens : List (Nat × Token))
    (seen : reader.openElements ≠ [] → reader.seenRoot = true) :
    Yields sink (readTokens sink patience tokens) reader
      fun _ reader' events => Marks (Token.allMarks · tokens) reader reader' events := by
  induction tokens generalizing reader with
  | nil => exact .pure () (.of_same seen rfl rfl rfl fun _ start => ⟨rfl, start.keeps⟩)
  | cons token rest ih =>
    obtain ⟨position, token⟩ := token
    refine (yields_renders patience position token seen).bind fun _ reader' events renders => ?_
    have h := renders.marks seen
    exact (ih h.opens).mono fun _ _ _ h' => h.append h'

/-- A document that is read to its end is told so that the outline keeps to the passages, by the
declarations that are known in the end. -/
theorem yields_readDocument_marks (patience limit : Nat) (stream : Token.Stream) :
    Yields sink (readDocument sink patience stream) (start limit) fun _ reader' events =>
      KeepsTo reader'.declarations
        (Passages.after {} (Token.allMarks reader'.declarations.entity? stream.tokens))
        (ofEvents false events) := by
  have seen : (start limit).openElements ≠ [] → (start limit).seenRoot = true :=
    fun none => absurd rfl none
  refine (yields_deliver _).bind ?_
  rintro _ _ _ ⟨rfl, rfl⟩
  refine (yields_readTokens_marks patience stream.tokens seen).bind fun _ reader' events h => ?_
  have inStep := h.inStep (fun _ => rfl) ⟨rfl, KeepsTo.start⟩
  refine (yields_finish stream.ending).mono ?_
  rintro _ _ _ ⟨rfl, closed, rfl⟩
  have outside := List.map_eq_nil_iff.1 (inStep.elements.symm.trans closed)
  have ended : KeepsTo _ _ (Outline.step false _ .endDocument) := inStep.keeps.aside outside rfl
  rwa [ofEvents, List.foldl_append, List.foldl_append]

end Reader

/-! ### Builders -/

namespace Builder

variable {config : Config} {s t : Builder × Journal} {events : List Event} {o : Outline}

/-- A builder and an outline that know the same entities do so after an event. -/
theorem Learns.contains_iff {event : Event} (h : Learns event s t)
    (known : ∀ name, s.1.document.entities.contains name = true ↔ o.Knows name) (name : String) :
    t.1.document.entities.contains name = true ↔
      (o.step config.stripIgnorable event).Knows name := by
  have learnt : t.1.document.entities.contains name = true ↔
      o.Knows name ∨ (event.declared?.toList.lookup name).isSome = true := by
    have isSome : ∀ table : Entity.Table, table.contains name = (table.value? name).isSome :=
      fun _ => (Option.isSome_map ..).symm
    rw [← known, isSome, isSome, h name, Option.isSome_or, Bool.or_eq_true]
  rw [learnt, Knows, Knows, entities_step]
  cases event with
  | entityDeclaration declared value =>
    have lookup : (List.lookup name [(declared, value)]).isSome = true ↔ name = declared := by
      rw [List.lookup_cons, List.lookup_nil]
      by_cases same : name = declared
      · simp [same]
      · simp [beq_false_of_ne same, same]
    show _ ∨ (List.lookup name [(declared, value)]).isSome = true ↔ _
    rw [lookup, entitiesAfter]
    by_cases knows : o.Knows declared
    · rw [if_pos knows]
      exact or_iff_left_of_imp fun same => same ▸ knows
    · rw [if_neg knows, List.map_append, List.mem_append, or_assoc]
      exact or_congr_right (or_congr_right List.mem_singleton.symm)
  | _ => exact or_iff_left Bool.false_ne_true

/-- At first a builder and an outline know the predefined entities. -/
theorem knows_start (config : Config) (name : String) :
    (start config).document.entities.contains name = true ↔ ({} : Outline).Knows name := by
  show (Entity.Table.initial.get? name).isSome = true ↔ _
  rw [Entity.Table.get?_initial, Option.isSome_map]
  exact (or_iff_left List.not_mem_nil).symm

/-- A builder that takes some events makes what their outline says, whatever is reported between
them. -/
theorem traces_of_receives (h : sink.Receives s events t) (hs : s.1.Consistent config)
    (known : ∀ name, s.1.document.entities.contains name = true ↔ o.Knows name)
    (traces : s.1.stage ≠ .failed → Traces o s) (going : t.1.stage ≠ .failed) :
    Traces (events.foldl (step config.stripIgnorable) o) t := by
  induction h generalizing o with
  | done => exact { traces going with }
  | @take state _ journal event events t u accepted _ ih =>
    have meets := ((accept_meets (s := (state, journal)) hs event).and
      (accept_learns (s := (state, journal)) hs event)).of_ok accepted
    exact ih (meets.1.consistent hs) (meets.2.contains_iff known)
      (meets.1.traces hs known fun going => { traces going with }) going

end Builder

/-! ### Documents -/

namespace Document

variable {d : Document} {l : List Entry} {declarations : Declarations} {passage : Passage} {n : Nat}

/-- The texts in elements, in order. -/
def contents (d : Document) : List NodeId :=
  (d.nodes.ofKind .text).filter fun n =>
    decide ((d.nodes.parent? n).bind d.nodes.kind? = some .element)

theorem Shows.kind?_eq (h : d.Shows l) (n : Nat) : d.nodes.kind? n = l[n]?.map (·.kind) := by
  cases hn : l[n]? with
  | some e => exact (h.showsAt hn).kind?
  | none =>
    refine Option.eq_none_iff_forall_ne_some.2 fun kind there => ?_
    have := Table.lt_size_of_kind? there
    rw [h.size_eq] at this
    exact absurd (List.getElem?_eq_none_iff.1 hn) (Nat.not_le.2 this)

/-- The texts in elements are those that are told of. -/
theorem Shows.contents_eq (h : d.Shows l) : d.contents = Outline.contents l := by
  rw [contents, Table.ofKind, List.filter_filter, h.size_eq, Outline.contents]
  refine List.filter_congr fun n hn => ?_
  obtain ⟨e, hn⟩ : ∃ e, l[n]? = some e := ⟨_, List.getElem?_eq_getElem (List.mem_range.1 hn)⟩
  have owner : e.parent.bind d.nodes.kind? = (e.parent.bind (l[·]?)).map (·.kind) := by
    cases e.parent with
    | none => rfl
    | some p => exact h.kind?_eq p
  rw [isContent, hn, Option.any_some, (h.showsAt hn).parent?, owner, (h.showsAt hn).kind?]
  cases e.parent.bind (l[·]?) <;> simp [Bool.and_comm]

/-- A node is the text of a passage: it is in the element of the passage, has its text, and its
flags mean what they say. -/
structure Tells (d : Document) (declarations : Declarations) (passage : Passage) (text : NodeId) :
    Prop where
  /-- It is in an element with the name. -/
  parent : ∃ element, (Query.parent text).run d = .answer (some element) ∧
    (Query.kind element).run d = .answer .element ∧
    (Query.nodeName element).run d = .answer passage.element
  /-- It has the text. -/
  nodeValue? : (Query.nodeValue? text).run d = .answer (some passage.text)
  /-- It is ignorable white space if the passage is. -/
  isIgnorable : (Query.isIgnorable text).run d =
    .answer (decide (passage.IsIgnorable declarations))
  /-- It is CDATA if the passage is. -/
  isCData : (Query.isCData text).run d = .answer (decide passage.IsCData)

theorem Realizes.tells (h : d.Realizes l) (told : passage.IsAt declarations l n) :
    d.Tells declarations passage n := by
  obtain ⟨element, found, e, named, kind, name⟩ := told
  obtain ⟨ignorable, cdata⟩ := h.run_flags found
  refine ⟨⟨element, h.run_parent found, ?_, ?_⟩, ?_, ignorable, cdata⟩
  · rw [h.run_kind named, kind]
  · rw [h.run_nodeName named, Entry.nodeName, kind, name]
  · rw [h.run_nodeValue? found, Outline.nodeValue?, found]
    rfl

end Document

namespace Construction

open Reader Builder

variable {config : Config} {handler : Handler} {patience : Nat} {source : Source}

/-- The declarations that are in force in a source: those that its reader knows in the end. No
others are read once the document element has begun. -/
def declared (config : Config) (handler : Handler) (patience : Nat) (source : Source) :
    Declarations :=
  (Reader.run sink patience config.expansionLimit source (start config) { handler
    }).reader.declarations

end Construction

end XmlTable
