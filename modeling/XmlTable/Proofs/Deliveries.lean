import XmlTable.Proofs.Excerpts
import XmlTable.Proofs.Known
import XmlTable.Proofs.Order
import XmlTable.Proofs.Spelling

/-!
# What a reading that goes well has delivered

Work of a reader that ends with an answer has delivered certain events, all of which were taken. In
these events references are spelled out: by the values that the declarations give to entities. A
document type declaration with an internal subset delivers exactly these values.
-/

namespace XmlTable

/-! ### Work that ends with an answer -/

/-- A receiver takes some events one after the other, and between them other things may be
reported. -/
inductive Sink.Receives {σ : Type} (sink : Sink σ) : σ × Journal → List Event → σ × Journal → Prop
  | done {state : σ} {journal journal' : Journal} :
    Receives sink (state, journal) [] (state, journal')
  | take {state : σ} {journal journal' : Journal} {event : Event} {events : List Event}
    {t u : σ × Journal} : (sink.accept event).run.run (state, journal') = (.ok (), t) →
    Receives sink t events u → Receives sink (state, journal) (event :: events) u

namespace Sink.Receives

variable {σ : Type} {sink : Sink σ} {s t u : σ × Journal} {events later : List Event}

theorem refl (s : σ × Journal) : sink.Receives s [] s := .done

/-- A watched receiver answers as it would unwatched, and the call is kept. -/
theorem run_watched (sink : Sink σ) (event : Event) (state : σ) (calls : List Call)
    (journal : Journal) : (sink.watched.accept event).run.run ((state, calls), journal) =
      let r := (sink.accept event).run.run (state, journal)
      (r.1, (r.2.1, calls ++ [⟨event, r.1⟩]), r.2.2) :=
  rfl

theorem append (h : sink.Receives s events t) (h' : sink.Receives t later u) :
    sink.Receives s (events ++ later) u := by
  induction h with
  | done =>
    cases h' with
    | done => exact .done
    | take accepted rest => exact .take accepted rest
  | take accepted _ ih => exact .take accepted (ih h')

/-- A watched receiver takes what it would take unwatched, and the calls are kept. -/
theorem of_watched {s t : (σ × List Call) × Journal} (h : sink.watched.Receives s events t) :
    sink.Receives (s.1.1, s.2) events (t.1.1, t.2) ∧
      t.1.2 = s.1.2 ++ events.map fun event => ⟨event, .ok ()⟩ := by
  induction h with
  | done => exact ⟨.done, (List.append_nil _).symm⟩
  | @take state journal journal' event events t u accepted _ ih =>
    obtain ⟨plain, calls⟩ := state
    rw [run_watched] at accepted
    generalize hr : (sink.accept event).run.run (plain, journal') = r at accepted
    obtain ⟨answer, t'⟩ := r
    cases accepted
    refine ⟨.take hr ih.1, ih.2.trans ?_⟩
    rw [List.map_cons, List.append_assoc]
    rfl

end Sink.Receives

namespace Delivery

variable {σ α β : Type} {sink : Sink σ} {reader : Reader} {work : Delivery σ α}
  {next : α → Delivery σ β} {P : α → Reader → List Event → Prop}
  {Q : β → Reader → List Event → Prop} {F : α → Prop} {G : β → Prop}

/-- Work that ends with an answer does so in two steps. -/
theorem ending_bind_eq_ok {reader' : Reader} {s t : σ × Journal} {b : β}
    (ends : (work >>= next).ending reader s = ((.ok b, reader'), t)) :
    ∃ a reader₁ s₁, work.ending reader s = ((.ok a, reader₁), s₁) ∧
      (next a).ending reader₁ s₁ = ((.ok b, reader'), t) := by
  rw [ending_bind] at ends
  generalize hr : work.ending reader s = r at ends
  obtain ⟨⟨_ | a, reader₁⟩, s₁⟩ := r
  · cases ends
  · exact ⟨a, reader₁, s₁, rfl, ends⟩

/-- If work of a reader ends with an answer, the receiver has taken some events of which something
is true. -/
def Yields (sink : Sink σ) (work : Delivery σ α) (reader : Reader)
    (P : α → Reader → List Event → Prop) : Prop :=
  ∀ s a reader' t, work.ending reader s = ((.ok a, reader'), t) →
    ∃ events, sink.Receives s events t ∧ P a reader' events

/-- If work of a reader ends with an answer, something is true of the answer, no event was
delivered, and the reader has drawn on its budget at most. -/
def Finds (sink : Sink σ) (work : Delivery σ α) (reader : Reader) (F : α → Prop) : Prop :=
  Yields sink work reader fun a reader' events =>
    events = [] ∧ (∃ budget, reader' = { reader with budget }) ∧ F a

namespace Yields

theorem pure (a : α) (h : P a reader []) : Yields sink (pure a) reader P := by
  rintro s _ _ _ ⟨⟩
  exact ⟨[], .refl s, h⟩

theorem throw (stop : Stop) : Yields sink (throw stop) reader P := by
  rintro s _ _ _ ⟨⟩

theorem bind (h : Yields sink work reader P)
    (hn : ∀ a reader' events, P a reader' events →
      Yields sink (next a) reader' fun b reader'' later => Q b reader'' (events ++ later)) :
    Yields sink (work >>= next) reader Q := by
  intro s b reader'' u ends
  obtain ⟨a, reader', t, firstEnds, lastEnds⟩ := ending_bind_eq_ok ends
  obtain ⟨events, taken, first⟩ := h s a reader' t firstEnds
  obtain ⟨later, takenLater, second⟩ := hn a reader' events first t b reader'' u lastEnds
  exact ⟨events ++ later, taken.append takenLater, second⟩

/-- What follows a look at the reader may use it. -/
theorem get {next : Reader → Delivery σ β} (h : Yields sink (next reader) reader Q) :
    Yields sink (get >>= next) reader Q :=
  h

/-- What follows a change of the reader starts from the new one. -/
theorem modify {next : Unit → Delivery σ β} {change : Reader → Reader}
    (h : Yields sink (next ()) (change reader) Q) : Yields sink (modify change >>= next) reader Q :=
  h

theorem mono {P' : α → Reader → List Event → Prop} (h : Yields sink work reader P)
    (hp : ∀ a reader' events, P a reader' events → P' a reader' events) :
    Yields sink work reader P' := fun s a reader' t ends => by
  obtain ⟨events, taken, known⟩ := h s a reader' t ends
  exact ⟨events, taken, hp a reader' events known⟩

end Yields

namespace Finds

theorem pure (a : α) (h : F a) : Finds sink (Pure.pure a) reader F :=
  Yields.pure a ⟨rfl, ⟨reader.budget, rfl⟩, h⟩

theorem throw (stop : Stop) : Finds sink (MonadExcept.throw stop) reader F :=
  Yields.throw stop

/-- After work that finds something, the reader differs in its budget at most. -/
theorem andThen (h : Finds sink work reader F)
    (hn : ∀ a budget, F a → Yields sink (next a) { reader with budget } Q) :
    Yields sink (work >>= next) reader Q :=
  Yields.bind h fun a reader' events ⟨silent, ⟨budget, same⟩, found⟩ => by
    subst silent same
    exact hn a budget found

theorem bind (h : Finds sink work reader F)
    (hn : ∀ a budget, F a → Finds sink (next a) { reader with budget } G) :
    Finds sink (work >>= next) reader G :=
  h.andThen fun a budget found => (hn a budget found).mono
    fun _ _ _ ⟨silent, spends, found'⟩ => ⟨silent, spends, found'⟩

theorem mono {F' : α → Prop} (h : Finds sink work reader F) (hf : ∀ a, F a → F' a) :
    Finds sink work reader F' :=
  Yields.mono h fun a _ _ ⟨silent, spends, found⟩ => ⟨silent, spends, hf a found⟩

end Finds

end Delivery

namespace Reader

open Delivery Reference

variable {σ : Type} {sink : Sink σ} {reader : Reader}

/-! ### Texts -/

theorem finds_decodeBytes (part : String) (bytes : Bytes) :
    Finds sink (decodeBytes part bytes) reader fun text => bytes.utf8? = some text := by
  unfold decodeBytes
  split
  · next text same => exact .pure text same
  · exact .throw _

theorem finds_report (cause : Failure) : Finds sink (report cause) reader fun _ => True := by
  rintro s _ _ _ ends
  rw [report_eq, ending_perform, Reporting.run_report] at ends
  cases hr : (s.2.error cause).1 with
  | proceed =>
    rw [hr] at ends
    cases ends
    exact ⟨[], .done, rfl, ⟨reader.budget, rfl⟩, trivial⟩
  | abort =>
    rw [hr] at ends
    cases ends

theorem finds_setBudget (budget : Budget) : Finds sink (setBudget budget) reader fun _ => True := by
  rintro s _ _ _ ⟨⟩
  exact ⟨[], .refl s, rfl, ⟨budget, rfl⟩, trivial⟩

theorem finds_expansionOf (text : String) : Finds sink (expansionOf text) reader fun expansion =>
    expansion = decode reader.declarations.entity? reader.budget text :=
  Yields.get (Finds.pure _ rfl)

theorem finds_requireFaultless (position : Nat) (expansion : Expansion) :
    Finds sink (requireFaultless position expansion) reader fun _ => expansion.fault = none := by
  unfold requireFaultless
  split
  · exact .throw _
  · next faultless => exact .pure () faultless

/-- A text is expanded to what its course writes, which meets no fault. -/
theorem finds_expandText (position : Nat) (text : String) :
    Finds sink (expandText position text) reader fun expanded =>
      (Course.ofText reader.declarations.entity? text).fault = none ∧
        expanded.1 = valueOf reader.declarations.entity? text := by
  refine (finds_expansionOf text).bind fun expansion budget same => ?_
  refine (finds_setBudget _).bind fun _ budget' _ => ?_
  refine (finds_requireFaultless position expansion).bind fun _ budget'' faultless => ?_
  subst same
  exact .pure _ ⟨(taken_of_decode _ _ _ faultless).2, writtenText_decode _ _ _ faultless⟩

theorem finds_attributeValue (position : Nat) (written : String) :
    Finds sink (attributeValue position written) reader fun value =>
      value = spelled (values reader.declarations.entity?) (Text.normalizeAttribute written) := by
  refine (finds_expandText position _).bind fun ⟨value, expansion⟩ budget ⟨faultless, same⟩ => ?_
  have spelt := same.trans (Course.writtenText_ofText faultless)
  dsimp only
  split
  · exact (finds_report _).bind fun _ _ _ => .pure value spelt
  · exact .pure value spelt

end Reader

/-! ### What tokens are read as -/

/-- The entities that declarations declare, each with the value that they give it. -/
def Subset.Declarations.valued (declarations : Declarations) : List (String × String) :=
  declarations.entities.map fun entity =>
    (entity.1, Reference.valueOf declarations.entity? entity.2)

/-- Events that declare some entities. -/
theorem Event.declarations_entityDeclaration (entities : List (String × String)) :
    declarations (entities.map fun entity => entityDeclaration entity.1 entity.2) = entities := by
  induction entities with
  | nil => rfl
  | cons entity rest ih => exact congrArg (entity :: ·) ih

/-- The text of an event that is part of character data, a reference being written as it is. -/
def Event.written : Event → String
  | characters text _ => text
  | entityReference name => (Reference.Piece.reference name).written
  | _ => ""

/-- Events spell out character data with line ends normalized. Outside the document element there
are none. -/
def Event.SpellOut (value? : String → Option String) (reader : Reader) (written : String)
    (events : List Event) : Prop :=
  match reader.openElements with
  | [] => events = []
  | _ :: _ => (∀ event ∈ events, event.isCharacterData = true) ∧
      String.join (events.map Event.written) =
        Reference.spelled value? (Text.normalizeLineEnds written)

theorem Event.SpellOut.isCharacterData {value? : String → Option String} {reader : Reader}
    {written : String} {events : List Event} (h : SpellOut value? reader written events) :
    ∀ event ∈ events, event.isCharacterData = true := by
  unfold SpellOut at h
  split at h
  · subst h
    nofun
  · exact h.1

/-- An attribute has the name that was written and the value that was written, normalized and with
all references spelled out. -/
def Tag.Attribute.IsSpelled (value? : String → Option String) (raw : Tag.Attribute)
    (attr : Event.Attribute) : Prop :=
  ∃ written, raw.key.utf8? = some attr.name ∧ raw.value.utf8? = some written ∧
    attr.value = Reference.spelled value? (Text.normalizeAttribute written)

/-- An attribute has a value by default, with all references spelled out. -/
def Event.Attribute.IsDefault (value? : String → Option String)
    (defaults : List (Subset.AttributeDefinition × String)) (attr : Event.Attribute) : Prop :=
  ∃ definition literal, (definition, literal) ∈ defaults ∧ attr.name = definition.name ∧
    attr.value = Reference.spelled value? literal

/-- An element has the attributes that were written for it, and after them some by default. -/
structure Tag.IsSpelled (value? : String → Option String) (declarations : Subset.Declarations)
    (tag : Tag) (name : String) (attributes : List Event.Attribute) : Prop where
  /-- The name is the one that was written. -/
  decoded : tag.name.utf8? = some name
  /-- So are the first attributes. -/
  spelled : ∃ written defaults, attributes = written ++ defaults ∧
    List.Forall₂ (Tag.Attribute.IsSpelled value?) tag.attributes.list written ∧
    ∀ attr ∈ defaults, attr.IsDefault value? (declarations.defaults name)

namespace Reader

open Delivery Reference

variable {σ : Type} {sink : Sink σ} {reader : Reader}

/-! ### Elements -/

theorem finds_writtenAttributes (position : Nat) (element : String)
    (found : List Tag.Attribute) (done : List Event.Attribute) :
    Finds sink (writtenAttributes position element found done) reader fun attributes =>
      ∃ written, attributes = done.reverse ++ written ∧
        List.Forall₂ (Tag.Attribute.IsSpelled (values reader.declarations.entity?)) found
          written := by
  induction found generalizing done reader with
  | nil => exact .pure _ ⟨[], (List.append_nil _).symm, .nil⟩
  | cons raw rest ih =>
    refine (finds_decodeBytes _ _).bind fun name _ key => ?_
    refine (finds_decodeBytes _ _).bind fun text _ written => ?_
    refine (finds_attributeValue position text).bind fun value budget spelt => ?_
    refine Yields.get ?_
    refine (ih _).mono ?_
    rintro attributes ⟨later, same, rest⟩
    rw [List.reverse_cons, List.append_assoc, List.singleton_append] at same
    exact ⟨_, same, .cons ⟨text, key, written, spelt⟩ rest⟩

theorem finds_withDefaults (position : Nat)
    (defaults : List (Subset.AttributeDefinition × String)) (attributes : List Event.Attribute) :
    Finds sink (withDefaults position defaults attributes) reader fun all =>
      ∃ more, all = attributes ++ more ∧
        ∀ attr ∈ more, attr.IsDefault (values reader.declarations.entity?) defaults := by
  induction defaults generalizing attributes reader with
  | nil => exact .pure _ ⟨[], (List.append_nil _).symm, List.forall_mem_nil _⟩
  | cons default rest ih =>
    obtain ⟨definition, literal⟩ := default
    -- What is found among the later defaults is found among all.
    have later : ∀ {attr : Event.Attribute},
        attr.IsDefault (values reader.declarations.entity?) rest →
        attr.IsDefault (values reader.declarations.entity?)
          ((definition, literal) :: rest) := by
      rintro attr ⟨d, l, hm, found⟩
      exact ⟨d, l, List.mem_cons_of_mem _ hm, found⟩
    rw [withDefaults]
    split
    · refine (ih attributes).mono ?_
      rintro all ⟨more, same, known⟩
      exact ⟨more, same, fun attr hm => later (known attr hm)⟩
    · refine (finds_expandText position literal).bind ?_
      rintro ⟨value, _⟩ _ ⟨faultless, same⟩
      refine (ih _).mono ?_
      rintro all ⟨more, all_eq, known⟩
      rw [List.append_assoc] at all_eq
      refine ⟨_ :: more, all_eq, List.forall_mem_cons.2 ⟨?_, fun attr hm => later (known attr hm)⟩⟩
      exact ⟨definition, literal, List.mem_cons_self, rfl,
        same.trans (Course.writtenText_ofText faultless)⟩

/-- An event is delivered however its failure is placed. -/
theorem yields_perform (placed : Failure → Failure) (event : Event) :
    Yields sink (perform placed (sink.accept event)) reader
      fun _ reader' events => reader' = reader ∧ events = [event] := by
  rintro ⟨state, journal⟩ _ _ t ends
  rw [ending_perform] at ends
  generalize hr : (sink.accept event).run.run (state, journal) = r at ends
  obtain ⟨_ | _, t'⟩ := r
  · cases ends
  · cases ends
    exact ⟨[event], .take hr (.refl _), rfl, rfl⟩

theorem yields_deliver (event : Event) : Yields sink (deliver sink event) reader
    fun _ reader' events => reader' = reader ∧ events = [event] :=
  deliver_eq sink event ▸ yields_perform id event

theorem yields_deliverAt (position : Nat) (event : Event) :
    Yields sink (deliverAt sink position event) reader
      fun _ reader' events => reader' = reader ∧ events = [event] :=
  deliverAt_eq sink position event ▸ yields_perform _ event

/-- An element begins with its name and its attributes, and the document element has begun then. -/
theorem yields_startElement (position : Nat) (tag : Tag)
    (seen : reader.openElements ≠ [] → reader.seenRoot = true) :
    Yields sink (startElement sink position tag) reader fun name reader' events =>
      (∃ budget, reader' = { reader with seenRoot := true, budget }) ∧
        ∃ attributes, events = [.startElement name attributes] ∧
          tag.IsSpelled (values reader.declarations.entity?) reader.declarations name
            attributes := by
  have begins : ∀ reader₁ : Reader, reader₁ = { reader with seenRoot := true } →
      Yields sink (beginElement sink position tag) reader₁ fun name reader' events =>
        (∃ budget, reader' = { reader with seenRoot := true, budget }) ∧
          ∃ attributes, events = [.startElement name attributes] ∧
            tag.IsSpelled (values reader.declarations.entity?) reader.declarations name
              attributes := by
    rintro _ rfl
    refine (finds_decodeBytes _ _).andThen fun name _ decoded => ?_
    refine (finds_writtenAttributes position name tag.attributes.list []).andThen
      fun written _ ⟨own, same, spelt⟩ => ?_
    rw [List.reverse_nil, List.nil_append] at same
    subst same
    dsimp only
    split
    · exact .throw _
    · refine Yields.get ?_
      refine (finds_withDefaults position _ _).andThen
        fun attributes budget ⟨more, all, known⟩ => ?_
      refine (yields_deliver _).bind fun _ reader' events ⟨same, single⟩ => ?_
      subst same single
      exact .pure name ⟨⟨budget, rfl⟩, attributes, rfl, decoded, _, more, all, spelt, known⟩
  rw [startElement_eq]
  refine Yields.get ?_
  obtain ⟨declarations, openElements, seenRoot, budget⟩ := reader
  cases openElements with
  | nil =>
    cases seenRoot with
    | true => exact .throw _
    | false => exact Yields.modify (begins _ rfl)
  | cons elementsOnly outer =>
    cases seen nofun
    exact begins _ rfl

/-! ### Character data -/

theorem yields_deliverPieces (position : Nat) (elementsOnly : Bool)
    (pieces : List (Piece × Budget)) :
    Yields sink (deliverPieces sink position elementsOnly pieces) reader fun _ reader' events =>
      (∃ budget, reader' = { reader with budget }) ∧
        events = pieces.map fun piece => pieceEvent elementsOnly piece.1 := by
  induction pieces generalizing reader with
  | nil => exact .pure () ⟨⟨reader.budget, rfl⟩, rfl⟩
  | cons piece rest ih =>
    obtain ⟨piece, budget⟩ := piece
    refine Yields.modify ((yields_deliverAt position _).bind fun _ _ _ ⟨same, single⟩ => ?_)
    subst same single
    refine ih.mono ?_
    rintro _ _ events ⟨⟨budget, rfl⟩, rfl⟩
    exact ⟨⟨budget, rfl⟩, rfl⟩

/-- The events for some pieces are written as the pieces are. -/
theorem join_written_pieceEvent (elementsOnly : Bool) (pieces : List (Piece × Budget)) :
    String.join ((pieces.map fun piece => pieceEvent elementsOnly piece.1).map Event.written) =
      writtenText pieces := by
  have each : (Event.written ∘ fun piece : Piece × Budget => pieceEvent elementsOnly piece.1) =
      fun piece => piece.1.written := by
    funext ⟨piece, _⟩
    cases piece <;> rfl
  rw [List.map_map, each, writtenText, String.join, List.foldl_map]

/-- Character data in an element is delivered in the pieces of its expansion, which are those that
its course makes up; outside there is none. -/
theorem yields_pieces (position : Nat) (written : String) :
    Yields sink (characters sink position written) reader fun _ reader' events =>
      (∃ budget, reader' = { reader with budget }) ∧
        match reader.openElements with
        | [] => events = []
        | elementsOnly :: _ => ∃ pieces : List (Piece × Budget),
          events = (pieces.map fun piece => pieceEvent elementsOnly piece.1) ∧
            pieces.map (·.1) = Step.pieces ""
              (Course.ofText reader.declarations.entity? (Text.normalizeLineEnds written)).steps ∧
            writtenText pieces =
              spelled (values reader.declarations.entity?) (Text.normalizeLineEnds written) := by
  obtain ⟨declarations, openElements, seenRoot, budget⟩ := reader
  refine Yields.get ?_
  cases openElements with
  | nil =>
    dsimp only
    split
    · exact .throw _
    · exact .pure () ⟨⟨budget, rfl⟩, rfl⟩
  | cons elementsOnly outer =>
    dsimp only
    refine (finds_expansionOf _).andThen fun expansion _ same => ?_
    refine (yields_deliverPieces position elementsOnly _).bind ?_
    rintro _ _ events ⟨⟨_, rfl⟩, rfl⟩
    refine (finds_setBudget _).andThen fun _ _ _ => ?_
    refine Yields.mono (finds_requireFaultless position expansion) ?_
    rintro _ _ _ ⟨rfl, ⟨budget', rfl⟩, faultless⟩
    subst same
    rw [List.append_nil]
    refine ⟨⟨budget', rfl⟩, _, rfl, map_pieces_decode _ _ _ faultless, ?_⟩
    rw [writtenText_decode _ _ _ faultless]
    exact Course.writtenText_ofText (taken_of_decode _ _ _ faultless).2

/-- The pieces of character data in an element spell it out. -/
theorem spellOut_pieces {elementsOnly : Bool} {outer : List Bool} {written : String}
    {value? : String → Option String} {pieces : List (Piece × Budget)}
    (inside : reader.openElements = elementsOnly :: outer)
    (spelt : writtenText pieces = spelled value? (Text.normalizeLineEnds written)) :
    Event.SpellOut value? reader written
      (pieces.map fun piece => pieceEvent elementsOnly piece.1) := by
  rw [Event.SpellOut, inside]
  refine ⟨fun event hm => ?_, (join_written_pieceEvent elementsOnly pieces).trans spelt⟩
  obtain ⟨⟨piece, _⟩, -, rfl⟩ := List.mem_map.1 hm
  cases piece <;> rfl

/-! ### Declarations -/

theorem yields_deliverEntities (position : Nat) (entities : List (String × String)) :
    Yields sink (deliverEntities sink position entities) reader fun _ reader' events =>
      (∃ budget, reader' = { reader with budget }) ∧ events = entities.map fun entity =>
        .entityDeclaration entity.1 (valueOf reader.declarations.entity? entity.2) := by
  induction entities generalizing reader with
  | nil => exact .pure () ⟨⟨reader.budget, rfl⟩, rfl⟩
  | cons entity rest ih =>
    obtain ⟨name, literal⟩ := entity
    refine (finds_expandText position literal).andThen fun ⟨value, _⟩ _ ⟨_, valued⟩ => ?_
    refine (yields_deliver _).bind fun _ _ _ ⟨same, single⟩ => ?_
    subst same single
    refine ih.mono ?_
    rintro _ _ events ⟨spends, declared⟩
    exact ⟨spends,
      congrArg₂ (fun value later => Event.entityDeclaration name value :: later) valued declared⟩

/-- What is found by a scan of an internal subset is cut out of it. -/
theorem finds_scanSubset (patience base : Nat) (subset : String) :
    Finds sink (scanSubset patience base subset) reader (·.CutFrom subset.toList) := by
  refine Finds.bind (F := fun scanned : Except Stop Subset.Declarations =>
    ∀ declarations, scanned = .ok declarations → declarations.CutFrom subset.toList) ?_
      fun scanned _ found => ?_
  · -- The scan reports to the journal, and neither the receiver nor the reader has a part in it.
    rintro s _ _ _ ⟨⟩
    refine ⟨[], .done, rfl, ⟨reader.budget, rfl⟩, fun declarations same => ?_⟩
    exact (Subset.scan_finds patience base subset).of_run_eq_ok same
  · cases scanned with
    | ok declarations => exact .pure declarations (found declarations rfl)
    | error stop => exact .throw stop

/-- A document type declaration makes its internal subset known, and delivers the values of the
entities. The literals in it are cut out of the declaration. -/
theorem yields_doctype (patience position : Nat) (content : String) :
    Yields sink (doctype sink patience position content) reader fun _ reader' events =>
      ∃ declarations budget, reader' = { reader with declarations, budget } ∧
        if (internalSubset? content).isSome then
          declarations.CutFrom content.toList ∧
            events = declarations.valued.map fun entity => .entityDeclaration entity.1 entity.2
        else declarations = reader.declarations ∧ events = [] := by
  unfold doctype
  split
  · next missing =>
    refine .pure () ⟨reader.declarations, reader.budget, rfl, ?_⟩
    rw [missing]
    exact ⟨rfl, rfl⟩
  · next found =>
    refine (finds_scanSubset _ _ _).andThen fun declarations _ cut => Yields.modify ?_
    refine (yields_deliverEntities _ _).mono ?_
    rintro _ _ events ⟨⟨budget, rfl⟩, declared⟩
    refine ⟨declarations, budget, rfl, ?_⟩
    rw [found, Subset.Declarations.valued, List.map_map]
    exact ⟨cut.mono (infix_of_internalSubset? found), declared⟩

end Reader

/-! ### Tokens -/

namespace Token

/-- The token has an internal subset. -/
def hasSubset : Token → Bool
  | doctype content => (content.utf8?.bind Reader.internalSubset?).isSome
  | _ => false

/-- The references in the content or in the attributes of a token are spelled out in the events that
were delivered for it. -/
def IsSpelled (value? : String → Option String) (reader : Reader) : Token → List Event → Prop
  | text content, events => ∃ written, content.utf8? = some written ∧
      Event.SpellOut value? reader written events
  | start tag, events => ∃ name attributes, events = [.startElement name attributes] ∧
      tag.IsSpelled value? reader.declarations name attributes
  | empty tag, events => ∃ name attributes, events = [.startElement name attributes, .endElement] ∧
      tag.IsSpelled value? reader.declarations name attributes
  | _, _ => True

end Token

namespace Reader

open Delivery Reference

variable {σ : Type} {sink : Sink σ} {reader reader' : Reader} {token : Token} {events : List Event}

/-- What a token is delivered as, and what the reader knows then. What is left of its budget can be
anything. -/
inductive Renders (reader : Reader) : Token → Reader → List Event → Prop
  /-- An element begins. -/
  | start {tag : Tag} {name : String} {attributes : List Event.Attribute} {budget : Budget} :
    tag.IsSpelled (values reader.declarations.entity?) reader.declarations name attributes →
    Renders reader (.start tag)
      { reader with
        openElements := reader.declarations.isElementOnly name :: reader.openElements
        seenRoot := true
        budget }
      [.startElement name attributes]
  /-- An element begins and ends. -/
  | empty {tag : Tag} {name : String} {attributes : List Event.Attribute} {budget : Budget} :
    tag.IsSpelled (values reader.declarations.entity?) reader.declarations name attributes →
    Renders reader (.empty tag) { reader with seenRoot := true, budget }
      [.startElement name attributes, .endElement]
  /-- An element ends. -/
  | close {name : Bytes} :
    Renders reader (.close name) { reader with openElements := reader.openElements.tail }
      [.endElement]
  /-- White space between elements is not delivered. -/
  | blank {content : Bytes} {written : String} {budget : Budget} :
    content.utf8? = some written → reader.openElements = [] →
    Renders reader (.text content) { reader with budget } []
  /-- Character data is delivered in the pieces that the course of its expansion makes up. -/
  | text {content : Bytes} {written : String} {elementsOnly : Bool} {outer : List Bool}
    {pieces : List (Piece × Budget)} {budget : Budget} : content.utf8? = some written →
    reader.openElements = elementsOnly :: outer →
    pieces.map (·.1) = Step.pieces ""
      (Course.ofText reader.declarations.entity? (Text.normalizeLineEnds written)).steps →
    writtenText pieces =
      spelled (values reader.declarations.entity?) (Text.normalizeLineEnds written) →
    Renders reader (.text content) { reader with budget }
      (pieces.map fun piece => pieceEvent elementsOnly piece.1)
  /-- A CDATA section is in an element. -/
  | cdata {content : Bytes} {written : String} {budget : Budget} :
    content.utf8? = some written → reader.openElements ≠ [] →
    Renders reader (.cdata content) { reader with budget }
      [.characters (Text.normalizeLineEnds written) { cdata := true }]
  /-- A comment. -/
  | comment {content : Bytes} {written : String} {budget : Budget} :
    Renders reader (.comment content) { reader with budget }
      [.comment (Text.normalizeLineEnds written)]
  /-- A processing instruction. -/
  | instruction {content : Bytes} {target data : String} {budget : Budget} :
    Renders reader (.instruction content) { reader with budget }
      [.instruction target (Text.normalizeLineEnds data)]
  /-- An internal subset is known from then on, and its entities are declared with their values. It
  comes before the document element. -/
  | subset {content : Bytes} {written : String} {declarations : Subset.Declarations}
    {budget : Budget} : reader.seenRoot = false → content.utf8? = some written →
    (internalSubset? written).isSome = true → declarations.CutFrom written.toList →
    Renders reader (.doctype content) { reader with declarations, budget }
      (declarations.valued.map fun entity => .entityDeclaration entity.1 entity.2)
  /-- There is no internal subset. -/
  | doctype {content : Bytes} {written : String} {budget : Budget} :
    content.utf8? = some written → (internalSubset? written).isSome = false →
    Renders reader (.doctype content) { reader with budget } []
  /-- An XML declaration counts for nothing. -/
  | declaration : Renders reader .declaration reader []

/-- A token is read as what it is delivered as. -/
theorem yields_renders (patience position : Nat) (token : Token)
    (seen : reader.openElements ≠ [] → reader.seenRoot = true) :
    Yields sink (readToken sink patience position token) reader
      fun _ reader' events => Renders reader token reader' events := by
  cases token with
  | start tag =>
    refine (yields_startElement position tag seen).bind ?_
    rintro name _ _ ⟨⟨budget, rfl⟩, attributes, rfl, spelt⟩
    rintro s _ _ t ⟨⟩
    exact ⟨[], .refl s, .start spelt⟩
  | empty tag =>
    refine (yields_startElement position tag seen).bind ?_
    rintro name _ _ ⟨⟨budget, rfl⟩, attributes, rfl, spelt⟩
    refine (yields_deliver _).mono ?_
    rintro _ _ _ ⟨rfl, rfl⟩
    exact .empty spelt
  | close name =>
    refine Yields.modify ((yields_deliver _).mono ?_)
    rintro _ _ _ ⟨rfl, rfl⟩
    exact .close
  | text content =>
    refine (finds_decodeBytes _ _).andThen fun written _ decoded => ?_
    refine (yields_pieces position written).mono ?_
    rintro _ _ events ⟨⟨budget, rfl⟩, pieces⟩
    split at pieces
    · next outside =>
      subst pieces
      exact .blank decoded outside
    · next elementsOnly outer inside =>
      obtain ⟨pieces, rfl, made, spelt⟩ := pieces
      exact .text decoded inside made spelt
  | cdata content =>
    refine (finds_decodeBytes _ _).andThen fun written _ decoded => Yields.get ?_
    dsimp only
    split
    · exact .throw _
    · next inside =>
      refine (yields_deliver _).mono ?_
      rintro _ _ _ ⟨rfl, rfl⟩
      exact .cdata decoded (mt List.isEmpty_iff.2 inside)
  | comment content =>
    refine (finds_decodeBytes _ _).andThen fun written _ _ => (yields_deliver _).mono ?_
    rintro _ _ _ ⟨rfl, rfl⟩
    exact .comment
  | instruction content =>
    refine (finds_decodeBytes _ _).andThen fun written _ _ => (yields_deliver _).mono ?_
    rintro _ _ _ ⟨rfl, rfl⟩
    exact .instruction
  | doctype content =>
    refine Yields.get ?_
    dsimp only
    split
    · exact .throw _
    · next unseen =>
      refine (finds_decodeBytes _ _).andThen fun written _ decoded => ?_
      refine (yields_doctype patience position written).mono ?_
      rintro _ _ events ⟨declarations, budget, rfl, declares⟩
      split at declares
      · next found =>
        obtain ⟨cut, rfl⟩ := declares
        exact .subset (Bool.eq_false_iff.2 unseen) decoded found cut
      · next missing =>
        obtain ⟨rfl, rfl⟩ := declares
        exact .doctype decoded (Bool.eq_false_iff.2 missing)
  | declaration => exact .pure () .declaration

/-- What comes of a token: what a reader knows after it, and the events that were delivered. -/
structure Reads (reader : Reader) (token : Token) (reader' : Reader) (events : List Event) :
    Prop where
  /-- Elements are open in the document element only. -/
  opens : reader'.openElements ≠ [] → reader'.seenRoot = true
  /-- Once the document element has begun, it has, and there is no internal subset. -/
  begun : reader.seenRoot = true → reader'.seenRoot = true ∧ token.hasSubset = false
  /-- With the first element it begins. -/
  begins : ∀ name attributes, .startElement name attributes ∈ events →
    reader'.seenRoot = true ∧ token.hasSubset = false
  /-- An internal subset is known from then on, and its entities are declared with their values.
  Without one nothing is declared. -/
  declares : if token.hasSubset then Event.declarations events = reader'.declarations.valued
    else reader'.declarations = reader.declarations ∧ Event.declarations events = []
  /-- References are spelled out. -/
  spelled : token.IsSpelled (values reader.declarations.entity?) reader events

/-- Without an internal subset nothing is declared. -/
theorem Reads.declares_nothing (h : Reads reader token reader' events)
    (subset : token.hasSubset = false) :
    reader'.declarations = reader.declarations ∧ Event.declarations events = [] := by
  have declares := h.declares
  rwa [if_neg (Bool.eq_false_iff.1 subset)] at declares

/-- A token that contains no references and opens nothing. -/
theorem Reads.of_plain (seen : reader.openElements ≠ [] → reader.seenRoot = true)
    (opens : reader'.openElements = reader.openElements ∨
      reader'.openElements = reader.openElements.tail) (root : reader'.seenRoot = reader.seenRoot)
    (known : reader'.declarations = reader.declarations)
    (plain : ∀ event ∈ events, event.declared? = none ∧ event.isStart = false)
    (subset : token.hasSubset = false)
    (spelled : token.IsSpelled (values reader.declarations.entity?) reader events) :
    Reads reader token reader' events where
  opens more := by
    rw [root]
    refine seen fun none => more ?_
    rcases opens with same | less
    · rw [same, none]
    · rw [less, none]
      rfl
  begun h := ⟨root.trans h, subset⟩
  begins name attributes hm := by cases (plain _ hm).2
  declares := by
    rw [subset]
    exact ⟨known, List.filterMap_eq_nil_iff.2 fun event hm => (plain event hm).1⟩
  spelled := spelled

/-- References are spelled out in what a token is delivered as. -/
theorem Renders.reads (h : Renders reader token reader' events)
    (seen : reader.openElements ≠ [] → reader.seenRoot = true) :
    Reads reader token reader' events := by
  -- Most tokens are delivered as a single event.
  have single : ∀ {event : Event}, event.declared? = none → event.isStart = false →
      ∀ e ∈ [event], e.declared? = none ∧ e.isStart = false := by
    rintro event declared starts _ hm
    rw [List.mem_singleton.1 hm]
    exact ⟨declared, starts⟩
  cases h with
  | start spelt | empty spelt =>
    exact ⟨fun _ => rfl, fun _ => ⟨rfl, rfl⟩, fun _ _ _ => ⟨rfl, rfl⟩, ⟨rfl, rfl⟩,
      _, _, rfl, spelt⟩
  | close => exact .of_plain seen (.inr rfl) rfl rfl (single rfl rfl) rfl trivial
  | blank decoded outside =>
    refine .of_plain seen (.inl rfl) rfl rfl (List.forall_mem_nil _) rfl ⟨_, decoded, ?_⟩
    rw [Event.SpellOut, outside]
  | text decoded inside _ spelt =>
    have spelt := spellOut_pieces inside spelt
    refine .of_plain seen (.inl rfl) rfl rfl (fun event hm => ?_) rfl ⟨_, decoded, spelt⟩
    have data := spelt.isCharacterData event hm
    cases event <;> cases data <;> exact ⟨rfl, rfl⟩
  | cdata | comment | instruction =>
    exact .of_plain seen (.inl rfl) rfl rfl (single rfl rfl) rfl trivial
  | @subset content written declarations budget unseen decoded found =>
    have subset : (Token.doctype content).hasSubset = true := by
      rw [Token.hasSubset, decoded]
      exact found
    refine ⟨seen, fun begun => ?_, fun name attributes hm => ?_, ?_, trivial⟩
    · cases unseen.symm.trans begun
    · obtain ⟨_, -, h⟩ := List.mem_map.1 hm
      cases h
    · rw [if_pos subset]
      exact Event.declarations_entityDeclaration _
  | @doctype content written budget decoded missing =>
    have subset : (Token.doctype content).hasSubset = false := by
      rw [Token.hasSubset, decoded]
      exact missing
    exact .of_plain seen (.inl rfl) rfl rfl (List.forall_mem_nil _) subset trivial
  | declaration => exact .of_plain seen (.inl rfl) rfl rfl (List.forall_mem_nil _) rfl trivial

/-- A token is read so that references are spelled out by the declarations. -/
theorem yields_readToken (patience position : Nat) (token : Token)
    (seen : reader.openElements ≠ [] → reader.seenRoot = true) :
    Yields sink (readToken sink patience position token) reader
      fun _ reader' events => Reads reader token reader' events :=
  (yields_renders patience position token seen).mono fun _ _ _ renders => renders.reads seen

/-- A document that is read to its end has no open element, and its end is delivered. -/
theorem yields_finish (ending : Token.Ending) :
    Yields sink (finish sink ending) reader fun _ reader' events =>
      reader' = reader ∧ reader.openElements = [] ∧ events = [.endDocument] := by
  cases ending with
  | malformed position fault => exact .throw _
  | unreadable message => exact .throw _
  | complete position =>
    refine Yields.get ?_
    dsimp only
    split
    · exact .throw _
    · next closed =>
      rw [Bool.not_eq_true', Bool.not_eq_false, List.isEmpty_iff] at closed
      split
      · exact .throw _
      · refine (yields_deliver _).mono ?_
        rintro _ _ _ ⟨rfl, rfl⟩
        exact ⟨rfl, closed, rfl⟩

end Reader

end XmlTable
