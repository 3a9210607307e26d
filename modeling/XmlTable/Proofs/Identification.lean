import XmlTable.Proofs.Shape
import XmlTable.Query.Lookup

/-!
# Elements by identifier

The first element that is given an identifier keeps it; every further one is told as a warning.
Identifiers are found through the pool of names, in which they stand among everything else that has
a name. An identifier that was entered has a name, so a name that is stored later never takes its
symbol, and what is found stays what it is.
-/

namespace XmlTable

open Node

/-! ### What events enter under a name -/

namespace Event

/-- The identifiers among the values of some attributes, in order. -/
def Attribute.identifiers (attributes : List Attribute) : List String :=
  (attributes.filter (·.isId)).map (·.value)

/-- The identifiers that a start event gives its element. -/
def identifiers? : Event → Option (List String)
  | startElement _ attributes => some (Attribute.identifiers attributes)
  | _ => none

/-- The entity that an event declares, with its value. -/
def declared? : Event → Option (String × String)
  | entityDeclaration name value => some (name, value)
  | _ => none

end Event

/-- Those of some values, in order, that are among the earlier ones or come before themselves. -/
def repeated (earlier : List String) : List String → List String
  | [] => []
  | value :: rest =>
    (if value ∈ earlier then [value] else []) ++ repeated (earlier ++ [value]) rest

theorem repeated_append (earlier values rest : List String) :
    repeated earlier (values ++ rest) =
      repeated earlier values ++ repeated (earlier ++ values) rest := by
  induction values generalizing earlier with
  | nil => rw [List.append_nil]; rfl
  | cons value values ih =>
    rw [List.cons_append, repeated, ih, repeated, List.append_assoc, List.append_assoc]
    rfl

/-! ### Warnings -/

/-- The warning about an identifier that is taken. -/
def identifierWarning (value : String) : String :=
  "duplicate ID value '" ++ value ++ "' ignored"

/-- How warnings about identifiers begin. -/
def identifierWarningLead : List Char :=
  "duplicate ID value '".toList

/-- The warning is about an identifier. -/
def isIdentifierWarning (message : String) : Bool :=
  identifierWarningLead.isPrefixOf message.toList

theorem isIdentifierWarning_identifierWarning (value : String) :
    isIdentifierWarning (identifierWarning value) = true := by
  have cut : (identifierWarning value).toList =
      identifierWarningLead ++ (value.toList ++ "' ignored".toList) := by
    unfold identifierWarning identifierWarningLead
    rw [String.append_assoc, String.toList_append, String.toList_append]
  rw [isIdentifierWarning, cut, List.isPrefixOf_iff_prefix]
  exact List.prefix_append ..

/-- The two kinds of warnings differ in their first letter. -/
theorem isIdentifierWarning_entityWarning (name : String) :
    isIdentifierWarning (Builder.entityWarning name) = false := by
  have first : identifierWarningLead.head? = some 'd' := by decide +kernel
  have other : "entity '".toList.head? = some 'e' := by decide +kernel
  rw [isIdentifierWarning, Bool.eq_false_iff, ne_eq, List.isPrefixOf_iff_prefix]
  rintro ⟨rest, same⟩
  have heads := congrArg List.head? same
  rw [Builder.entityWarning, String.append_assoc, String.toList_append, List.head?_append,
    List.head?_append, first, other] at heads
  cases heads

/-- The warnings about identifiers, in order. -/
def Journal.duplicates (journal : Journal) : List String :=
  journal.warnings.filter isIdentifierWarning

/-! ### What is found -/

namespace Document

variable {d d' : Document}

/-- The identifiers that were entered have names. -/
def NamesIdentifiers (d : Document) : Prop :=
  ∀ id element, d.identifiers.get? id = some element → (d.names.resolve id).isSome

/-- The element with an identifier. -/
def identified? (d : Document) (value : String) : Option NodeId :=
  Query.knownElement value d d

/-- Names that are stored change nothing about what is found. -/
theorem identified?_eq (h : d.NamesIdentifiers)
    (names : ∀ {id name}, d.names.resolve id = some name → d'.names.resolve id = some name)
    (same : d'.identifiers = d.identifiers) (value : String) :
    d'.identified? value = d.identified? value := by
  unfold identified? Query.knownElement
  rw [same]
  cases old : d.names.lookup value with
  | some id =>
    have later := (d'.names.lookup_eq_some_iff value id).2
      (names ((d.names.lookup_eq_some_iff value id).1 old))
    rw [later]
  | none =>
    cases new : d'.names.lookup value with
    | none => rfl
    | some id =>
      -- The symbol is new, so no identifier was entered with it.
      cases entered : d.identifiers.get? id with
      | none => exact entered
      | some element =>
        obtain ⟨name, named⟩ := Option.isSome_iff_exists.1 (h id element entered)
        have same := (names named).symm.trans ((d'.names.lookup_eq_some_iff value id).1 new)
        rw [← Option.some.inj same, (d.names.lookup_eq_some_iff name id).2 named] at old
        cases old

/-- What is found is found later. -/
theorem Extends.identified? (h : d.Extends d') {value : String} {element : NodeId}
    (found : d.identified? value = some element) : d'.identified? value = some element := by
  obtain ⟨id, named, entered⟩ := Option.bind_eq_some_iff.1 found
  exact Option.bind_eq_some_iff.2 ⟨id, h.lookup named, h.identifier entered⟩

@[simp] theorem identified?_cancel (d : Document) (x : Bool) (value : String) :
    ({ d with isCancelled := x } : Document).identified? value = d.identified? value :=
  rfl

/-- Once it is known whether there is an element, that does not change. -/
theorem Extends.identified?_eq (h : d.Extends d') {value : String}
    (ready : (d.identified? value).isSome ∨ d.isDone = true) :
    d'.identified? value = d.identified? value := by
  by_cases found : (d.identified? value).isSome
  · obtain ⟨element, found⟩ := Option.isSome_iff_exists.1 found
    rw [found, h.identified? found]
  · rw [h.done (ready.resolve_left found), identified?_cancel]

theorem NamesIdentifiers.mono (h : d.NamesIdentifiers)
    (names : ∀ {id name}, d.names.resolve id = some name → d'.names.resolve id = some name)
    (same : d'.identifiers = d.identifiers) : d'.NamesIdentifiers := fun id element entered =>
  Symbol.isSome_of_kept names (h id element (same ▸ entered))

section Enter

variable {value : String} {id : SymbolId} (named : d.names.lookup value = some id)
  (element : NodeId)
include named

/-- What is entered with a symbol is named if the symbol is. -/
theorem NamesIdentifiers.enter (h : d.NamesIdentifiers) :
    (d.apply (.identifier id element)).NamesIdentifiers := fun other found entered => by
  rcases (Identifier.Index.get?_insert ..).symm.trans entered with entered
  split at entered
  · next same =>
    rw [same]
    exact Option.isSome_iff_exists.2 ⟨value, (d.names.lookup_eq_some_iff value id).1 named⟩
  · exact h other found entered

/-- By an identifier that is entered the element is found from now on, unless another one was found
before. -/
theorem identified?_enter (free : d.identified? value = none) (other : String) :
    (d.apply (.identifier id element)).identified? other =
      (d.identified? other).or (if other = value then some element else none) := by
  show (d.names.lookup other).bind (d.identifiers.insert id element).get? = _
  by_cases same : other = value
  · rw [if_pos same, same, free, named, Option.none_or, Option.bind_some,
      Identifier.Index.get?_insert, if_pos rfl]
    have own : d.identifiers.get? id = none := by
      rwa [identified?, Query.knownElement, named] at free
    rw [own]
    rfl
  · rw [if_neg same, Option.or_none]
    show _ = (d.names.lookup other).bind d.identifiers.get?
    cases looked : d.names.lookup other with
    | none => rfl
    | some found =>
      have apart : found ≠ id := by
        rintro rfl
        exact same (Option.some.inj (((d.names.lookup_eq_some_iff ..).1 looked).symm.trans
          ((d.names.lookup_eq_some_iff ..).1 named)))
      rw [Option.bind_some, Option.bind_some, Identifier.Index.get?_insert, if_neg apart]

end Enter

end Document

namespace Query

variable {d : Document} {value : String}

/-- An element is looked for until it is found or the document is complete. -/
theorem run_elementById (d : Document) (value : String) :
    run d (elementById value).run =
      if d.isDone || (d.identified? value).isSome then .answer (.ok (d.identified? value))
      else match d.standstill with
        | .stopped failure => .answer (.error failure)
        | .overdue => .misuse .neverReady
        | .waiting => .blocked := by
  show run d (.await ..) = _
  rw [run]
  rfl

/-- What is found is answered, and so is what a complete document has not. -/
theorem run_elementById_of_ready (h : (d.identified? value).isSome ∨ d.isDone = true) :
    run d (elementById value).run = .answer (.ok (d.identified? value)) := by
  rw [run_elementById, if_pos]
  rw [Bool.or_eq_true]
  exact h.symm

/-- Nothing else is answered. -/
theorem eq_of_run_elementById {found : Option NodeId}
    (h : run d (elementById value).run = .answer (.ok found)) :
    found = d.identified? value ∧ ((d.identified? value).isSome ∨ d.isDone = true) := by
  by_cases ready : (d.identified? value).isSome ∨ d.isDone = true
  · rw [run_elementById_of_ready ready] at h
    exact ⟨(Except.ok.inj (Outcome.answer.inj h)).symm, ready⟩
  · rw [run_elementById, if_neg fun hr => ready ((Bool.or_eq_true _ _ ▸ hr).symm)] at h
    split at h <;> cases h

end Query

namespace Builder

open Reporting

variable {config : Config} {s s' s'' : Builder × Journal}

theorem Steady.namesIdentifiers (h : Steady s s') (hs : s.1.document.NamesIdentifiers) :
    s'.1.document.NamesIdentifiers :=
  hs.mono h.names h.identifiers

theorem Steady.identified? (h : Steady s s') (hs : s.1.document.NamesIdentifiers)
    (value : String) : s'.1.document.identified? value = s.1.document.identified? value :=
  Document.identified?_eq hs h.names h.identifiers value

/-! ### Entering identifiers -/

/-- Some values were entered as identifiers of an element, those that were taken apart, which was
told. -/
structure Enters (element : NodeId) (values : List String) (s s' : Builder × Journal) : Prop where
  /-- The entries of entities stay. -/
  entries : s'.1.document.entities.entries = s.1.document.entities.entries
  /-- What is entered has names. -/
  named : s'.1.document.NamesIdentifiers
  /-- What was found is found still, and the element is found by what is new. -/
  identified : ∀ value, s'.1.document.identified? value =
    (s.1.document.identified? value).or (if value ∈ values then some element else none)
  /-- The warnings. -/
  warnings : ∀ earlier : List String,
    (∀ value, value ∈ earlier ↔ (s.1.document.identified? value).isSome) →
    s'.2.warnings = s.2.warnings ++ (repeated earlier values).map identifierWarning

namespace Enters

variable {element : NodeId} {values rest : List String}

theorem nothing (h : s.1.document.NamesIdentifiers) : Enters element [] s s where
  entries := rfl
  named := h
  identified value := by rw [if_neg List.not_mem_nil, Option.or_none]
  warnings earlier _ := (List.append_nil _).symm

theorem trans (h : Enters element values s s') (h' : Enters element rest s' s'') :
    Enters element (values ++ rest) s s'' where
  entries := h'.entries.trans h.entries
  named := h'.named
  identified value := by
    rw [h'.identified, h.identified, Option.or_assoc]
    congr 1
    by_cases hv : value ∈ values
    · rw [if_pos hv, if_pos (List.mem_append_left _ hv)]
      rfl
    · rw [if_neg hv, Option.none_or]
      simp only [List.mem_append, hv, false_or]
  warnings earlier he := by
    rw [h'.warnings (earlier ++ values), h.warnings earlier he, repeated_append, List.map_append,
      List.append_assoc]
    intro value
    rw [h.identified, List.mem_append, he, Option.isSome_or, Bool.or_eq_true]
    split <;> simp [*]

end Enters

/-- Enter a value as an identifier of an element, unless it is taken. -/
def enterIdentifier (element : NodeId) (value : String) : Reporting Builder Unit := do
  let id ← storeName value
  let isTaken ← observe fun b => (b.document.identifiers.get? id).isSome
  if isTaken then
    Reporting.warn ("duplicate ID value '" ++ value ++ "' ignored")
  else publish (.identifier id element)

theorem identify_cons (element : NodeId) (attr : Event.Attribute) (rest : List Event.Attribute) :
    identify element (attr :: rest) = (do
      if attr.isId then enterIdentifier element attr.value
      identify element rest) := by
  rw [identify]
  by_cases isId : attr.isId = true
  · simp only [enterIdentifier, if_pos isId, bind_assoc]
    congr 1
    funext id
    congr 1
    funext isTaken
    cases isTaken <;> rfl
  · simp only [if_neg isId]

theorem enterIdentifier_meets (element : NodeId) (value : String)
    (h : s.1.document.NamesIdentifiers) :
    (enterIdentifier element value).Meets s (fun _ s' => Enters element [value] s s')
      fun _ _ => False := by
  unfold enterIdentifier
  unfold storeName
  rw [meets_bind, meets_observe_bind, meets_publish_bind, meets_pure, meets_observe_bind]
  generalize hid : s.1.document.names.symbolFor value = id
  -- Storing the name changes nothing about what is found.
  have named : (s.1.document.apply (.name value)).names.lookup value = some id := by
    show (s.1.document.names.insert value).lookup value = some id
    rw [Symbol.Pool.lookup_eq_some_iff, ← hid, Symbol.Pool.resolve_insert_symbolFor]
  have kept : ∀ {id name}, s.1.document.names.resolve id = some name →
      (s.1.document.apply (.name value)).names.resolve id = some name :=
    Symbol.Pool.resolve_insert_of_some _ value
  have stored : (s.1.document.apply (.name value)).NamesIdentifiers := h.mono kept rfl
  have before : ∀ other, (s.1.document.apply (.name value)).identified? other =
      s.1.document.identified? other := Document.identified?_eq h kept rfl
  have own : s.1.document.identifiers.get? id = s.1.document.identified? value := by
    rw [← before, Document.identified?, Query.knownElement, named]
    rfl
  split
  · next taken =>
    rw [meets_warn]
    have taken : (s.1.document.identified? value).isSome := own ▸ taken
    refine ⟨rfl, stored, fun other => (before other).trans ?_, fun earlier he => ?_⟩
    · by_cases same : other = value
      · obtain ⟨found, hf⟩ := Option.isSome_iff_exists.1 taken
        rw [same, hf]
        rfl
      · rw [if_neg (by simpa using same), Option.or_none]
    · rw [repeated, if_pos ((he value).2 taken)]
      exact Journal.warnings_warn ..
  · next free =>
    rw [meets_publish]
    have free : s.1.document.identified? value = none :=
      own.symm.trans (Option.not_isSome_iff_eq_none.1 free)
    refine ⟨rfl, stored.enter named element, fun other => ?_, fun earlier he => ?_⟩
    · refine (Document.identified?_enter named element ((before value).trans free) other).trans ?_
      rw [before]
      simp only [List.mem_singleton]
    · rw [repeated, if_neg]
      · exact (List.append_nil _).symm
      · rw [he, free]
        exact Bool.false_ne_true

/-- The identifiers of an element are entered one after the other. -/
theorem identify_enters (element : NodeId) (attributes : List Event.Attribute)
    (h : s.1.document.NamesIdentifiers) :
    (identify element attributes).Meets s
      (fun _ s' => Enters element (Event.Attribute.identifiers attributes) s s')
      fun _ _ => False := by
  induction attributes generalizing s with
  | nil => exact .nothing h
  | cons attr rest ih =>
    rw [identify_cons, Event.Attribute.identifiers, List.filter_cons]
    dsimp only
    split
    · rw [List.map_cons, ← List.singleton_append, meets_bind]
      exact (enterIdentifier_meets element attr.value h).imp fun _ s₁ entered =>
        (ih entered.named).imp fun _ s₂ later => entered.trans later
    · exact ih h

/-! ### Events that enter identifiers, and events that do not -/

/-- Publish an element together with its attributes; the answer is its node. -/
def publishElement (name : String) (attributes : List Event.Attribute) :
    Reporting Builder NodeId := do
  flushText
  closeEntities
  let frame ← declaredFrame attributes .empty
  update fun builder => { builder with scopes := builder.scopes.push frame }
  let element ← observe (·.document.nodes.size)
  let unprefixed ← observe (·.scopes.resolveDefault)
  let namespaceId ← resolveName name unprefixed
  let nameId ← storeName name
  let parent ← observe (·.cursor)
  let own : Record := .linked .element namespaceId parent nameId .pending
  let records ← attributeRecords element (element + 1) attributes [own]
  let _ ← append records
  linkPrevious element .element
  return element

/-- The identifiers of an element are entered when it is published. -/
theorem startElement_eq (name : String) (attributes : List Event.Attribute) :
    startElement name attributes = (do
      let element ← publishElement name attributes
      identify element attributes
      update fun builder => { builder with cursor := element, previous := none }) := by
  simp only [startElement, publishElement, bind_assoc, pure_bind]

theorem publishElement_steady (name : String) (attributes : List Event.Attribute) :
    Across Steady (publishElement name attributes) :=
  .bind across_flushText fun _ => .bind across_closeEntities fun _ =>
    .bind (across_declaredFrame _ _) fun _ => .bind (.updateScopes fun _ => ⟨rfl, rfl⟩) fun _ =>
    .bind (.observe _) fun _ => .bind (.observe _) fun _ =>
    .bind (across_resolveName _ _) fun _ => .bind (across_storeName _) fun _ =>
    .bind (.observe _) fun _ => .bind (across_attributeRecords _ _ _ _) fun _ =>
    .bind (across_append _) fun _ => .bind (across_linkPrevious _ _) fun _ => .pure _

/-- The start of an element enters its identifiers, and nothing if it is refused. -/
theorem startElement_enters (name : String) (attributes : List Event.Attribute)
    (h : s.1.document.NamesIdentifiers) :
    (startElement name attributes).Meets s
      (fun _ s' => ∃ s₁, Steady s s₁ ∧
        Enters s'.1.cursor (Event.Attribute.identifiers attributes) s₁ s')
      fun _ s' => Steady s s' := by
  rw [startElement_eq, meets_bind]
  refine (publishElement_steady name attributes s).imp fun element s₁ steady => ?_
  rw [meets_bind]
  exact (identify_enters element attributes (steady.namesIdentifiers h)).of_sure
    fun _ s₂ entered => ⟨s₁, steady, entered.entries, entered.named, entered.identified,
      entered.warnings⟩

/-- The declaration of an entity that is refused enters nothing. -/
theorem entityDeclaration_steady (name value : String) :
    (entityDeclaration name value).Meets s (fun _ _ => True) fun _ s' => Steady s s' := by
  rw [entityDeclaration_eq]
  refine across_flushText.bind_meets (SpansPlain.refl s) fun _ s₁ steady => ?_
  rw [meets_observe_bind]
  split
  · exact steady
  · rw [declareEntity, meets_observe_bind]
    split
    · trivial
    · refine (across_storeName name).bind_meets steady fun id s₂ steady => ?_
      refine (across_storeText value).bind_meets steady fun payload s₃ steady => ?_
      rw [appendEntity, meets_observe_bind]
      refine (across_append _).bind_meets steady fun _ s₄ _ => ?_
      unfold publishEntity
      rw [meets_observe_bind]
      split <;> trivial

/-- Only the start of an element and the declaration of an entity enter something under a name or
tell a warning. -/
theorem perform_across {event : Event} (unidentified : event.identifiers? = none)
    (undeclared : event.declared? = none) : Across Steady (perform event) := by
  cases event with
  | startDocument => exact across_startDocument
  | fatalError cause => exact across_fail cause
  | startElement => cases unidentified
  | entityDeclaration => cases undeclared
  | endDocument => exact .bind (across_requireOpen _) fun _ => across_endDocument
  | endElement => exact .bind (across_requireOpen _) fun _ => across_endElement
  | characters text flags =>
    exact .bind (across_requireOpen _) fun _ => across_characters text flags
  | comment text => exact .bind (across_requireOpen _) fun _ => across_comment text
  | instruction target data =>
    exact .bind (across_requireOpen _) fun _ => across_instruction target data
  | entityReference name => exact .bind (across_requireOpen _) fun _ => across_entityReference name

/-- An event that is refused enters nothing under a name and tells no warning. -/
theorem perform_steady (h : s.1.document.NamesIdentifiers) (event : Event) :
    (perform event).Meets s (fun _ _ => True) fun _ s' => Steady s s' := by
  cases event with
  | startElement name attributes =>
    refine (across_requireOpen _).bind_meets (SpansPlain.refl s) fun _ s₁ steady => ?_
    exact (startElement_enters name attributes (steady.namesIdentifiers h)).mono
      (fun _ _ _ => trivial) fun _ _ later => SpansPlain.trans steady later
  | entityDeclaration name value =>
    refine (across_requireOpen _).bind_meets (SpansPlain.refl s) fun _ s₁ steady => ?_
    exact (entityDeclaration_steady name value).mono (fun _ _ _ => trivial)
      fun _ _ later => SpansPlain.trans steady later
  | _ => exact (perform_across rfl rfl s).mono (fun _ _ _ => trivial) fun _ _ steady => steady

theorem accept_steady (h : s.1.document.NamesIdentifiers) (event : Event) :
    (accept event).Meets s (fun _ s' => (perform event).run.run s = (.ok (), s'))
      fun _ s' => Steady s s' := by
  have ok : (perform event).Meets s (fun _ s' => (perform event).run.run s = (.ok (), s'))
      fun _ s' => Steady s s' := by
    have refused := perform_steady h event
    unfold Meets at refused ⊢
    split at refused <;> next run => simp only [run, refused]
  unfold accept guarded
  rw [meets_tryCatch]
  refine ok.mono (fun _ _ run => run) fun cause s₁ steady => ?_
  exact (across_fail cause).bind_meets steady fun _ s₂ steady => steady

/-! ### Runs -/

/-- What the start events among some events entered: each identifier names the element of the first
start event with it, and the further ones were told. -/
structure Identifies (before : List String) (events : List Event) (s : Builder × Journal) :
    Prop where
  /-- What is entered has names. -/
  named : s.1.document.NamesIdentifiers
  /-- There is an element for each start event. -/
  length_eq : s.1.document.nodes.elements.length =
    (events.filterMap Event.identifiers?).length
  /-- What is found. -/
  identified : ∀ value, s.1.document.identified? value =
    ((events.filterMap Event.identifiers?).findIdx? (value ∈ ·)).bind
      (s.1.document.nodes.elements[·]?)
  /-- What was told. -/
  duplicates : s.2.duplicates = before ++
    (repeated [] (events.filterMap Event.identifiers?).flatten).map identifierWarning

namespace Identifies

variable {before : List String} {events : List Event} {event : Event}

/-- What enters nothing, and appends no elements. -/
theorem mono (h : Identifies before events s)
    (names : ∀ {id name}, s.1.document.names.resolve id = some name →
      s'.1.document.names.resolve id = some name)
    (same : s'.1.document.identifiers = s.1.document.identifiers)
    (elements : s'.1.document.nodes.elements = s.1.document.nodes.elements)
    (told : s'.2.duplicates = s.2.duplicates) : Identifies before events s' where
  named := h.named.mono names same
  length_eq := by rw [elements, h.length_eq]
  identified value := by
    rw [Document.identified?_eq h.named names same, elements, h.identified]
  duplicates := by rw [told, h.duplicates]

theorem unidentified (h : Identifies before events s) (plain : event.identifiers? = none) :
    Identifies before (events ++ [event]) s := by
  have same : (events ++ [event]).filterMap Event.identifiers? =
      events.filterMap Event.identifiers? := by
    rw [List.filterMap_append, List.filterMap_cons_none plain, List.filterMap_nil, List.append_nil]
  exact
    { named := h.named
      length_eq := by rw [same, h.length_eq]
      identified := fun value => by rw [same, h.identified]
      duplicates := by rw [same, h.duplicates] }

/-- What is found are the identifiers of the start events. -/
theorem isSome_iff (h : Identifies before events s) (value : String) :
    (s.1.document.identified? value).isSome ↔
      value ∈ (events.filterMap Event.identifiers?).flatten := by
  have some_iff : ((events.filterMap Event.identifiers?).findIdx? (value ∈ ·)).isSome ↔
      value ∈ (events.filterMap Event.identifiers?).flatten := by
    rw [List.findIdx?_isSome, List.any_eq_true, List.mem_flatten]
    simp only [decide_eq_true_eq]
  rw [← some_iff, h.identified]
  cases found : (events.filterMap Event.identifiers?).findIdx? (value ∈ ·) with
  | none => exact Iff.rfl
  | some k =>
    have hk := (List.findIdx?_eq_some_iff_getElem.1 found).1
    rw [← h.length_eq] at hk
    rw [Option.bind_some, List.getElem?_eq_getElem hk]
    exact Iff.rfl

/-- A start event enters its identifiers. -/
theorem startElement {s₁ : Builder × Journal} (h : Identifies before events s)
    {name : String} {attributes : List Event.Attribute} (steady : Steady s s₁)
    (enters : Enters s'.1.cursor (Event.Attribute.identifiers attributes) s₁ s')
    (elements : s'.1.document.nodes.elements = s.1.document.nodes.elements ++ [s'.1.cursor]) :
    Identifies before (events ++ [.startElement name attributes]) s' := by
  have groups : (events ++ [Event.startElement name attributes]).filterMap Event.identifiers? =
      events.filterMap Event.identifiers? ++ [Event.Attribute.identifiers attributes] := by
    rw [List.filterMap_append]
    rfl
  have known := steady.identified? h.named
  refine ⟨enters.named, ?_, fun value => ?_, ?_⟩
  · rw [groups, elements, List.length_append, List.length_append, h.length_eq]
    rfl
  · rw [enters.identified, known, h.identified, groups, elements, List.findIdx?_append]
    cases found : (events.filterMap Event.identifiers?).findIdx? (value ∈ ·) with
    | some k =>
      have hk := (List.findIdx?_eq_some_iff_getElem.1 found).1
      rw [← h.length_eq] at hk
      rw [Option.some_or, Option.bind_some, Option.bind_some, List.getElem?_append_left hk,
        List.getElem?_eq_getElem hk]
      rfl
    | none =>
      rw [Option.none_or, Option.bind_none, Option.none_or, ← h.length_eq]
      by_cases new : value ∈ Event.Attribute.identifiers attributes <;>
        simp [List.findIdx?_cons, new]
  · have told := enters.warnings (events.filterMap Event.identifiers?).flatten fun value => by
      rw [known, h.isSome_iff]
    have all : ∀ values : List String, (values.map identifierWarning).filter isIdentifierWarning =
        values.map identifierWarning := fun values => List.filter_eq_self.2 fun message hm => by
      obtain ⟨value, -, rfl⟩ := List.mem_map.1 hm
      exact isIdentifierWarning_identifierWarning value
    have earlier := h.duplicates
    rw [Journal.duplicates] at earlier ⊢
    rw [told, steady.warnings, List.filter_append, earlier, all, groups, List.flatten_append,
      List.flatten_singleton, repeated_append, List.nil_append, List.map_append, List.append_assoc]

end Identifies

/-- The declaration of an entity has nothing to do with identifiers. -/
theorem DeclaresEntity.unidentified {name value : String}
    (h : DeclaresEntity config name value s s') :
    s'.1.document.identifiers = s.1.document.identifiers ∧
      s'.2.duplicates = s.2.duplicates := by
  cases h with
  | known _ _ _ _ identifiers warnings =>
    refine ⟨identifiers, ?_⟩
    rw [Journal.duplicates, warnings, List.filter_append]
    simp [isIdentifierWarning_entityWarning, Journal.duplicates]
  | new _ _ _ _ _ identifiers warnings =>
    exact ⟨identifiers, congrArg (·.filter isIdentifierWarning) warnings⟩

/-- An event that is taken enters its identifiers. -/
theorem Identifies.accept {before : List String} {events : List Event} {event : Event}
    (h : Identifies before events s) (consistent : s.1.Consistent config)
    (run : (accept event).run.run s = (.ok (), s')) :
    Identifies before (events ++ [event]) s' := by
  have performed := (accept_steady h.named event).of_ok run
  have effect := (accept_meets consistent event).of_ok run
  by_cases start : ∃ name attributes, event = .startElement name attributes
  · obtain ⟨name, attributes, rfl⟩ := start
    cases effect with
    | startElement ho starts =>
      have entered : (perform (.startElement name attributes)).Meets s
          (fun _ s' => ∃ s₁, Steady s s₁ ∧
            Enters s'.1.cursor (Event.Attribute.identifiers attributes) s₁ s')
          fun _ _ => True := by
        refine (requireOpen_bind_meets ..).2 ?_
        rw [if_pos ho.open_stage]
        exact (startElement_enters name attributes h.named).mono (fun _ _ e => e)
          fun _ _ _ => trivial
      obtain ⟨s₁, steady, enters⟩ := entered.of_ok performed
      exact h.startElement steady enters starts.elements_eq
    | content _ contributes => exact absurd rfl (contributes.other name attributes)
  · have other : ∀ name attributes, event ≠ .startElement name attributes :=
      fun name attributes same => start ⟨name, attributes, same⟩
    have plain : event.identifiers? = none := by
      cases event with
      | startElement name attributes => exact absurd rfl (other name attributes)
      | _ => rfl
    have grows := effect.growsPlain consistent other
    have elements := Table.elements_eq grows.extension.continues
      fun _ hn hk => (grows.kind hn hk).1 rfl
    have stays : s'.1.document.identifiers = s.1.document.identifiers ∧
        s'.2.duplicates = s.2.duplicates := by
      cases hd : event.declared? with
      | none =>
        have steady := (perform_across plain hd s).of_ok performed
        exact ⟨steady.identifiers, congrArg (·.filter isIdentifierWarning) steady.warnings⟩
      | some declared =>
        cases event with
        | entityDeclaration name value =>
          cases effect with
          | content ho contributes =>
            cases contributes with
            | leaf adds =>
              obtain ⟨_, _, _, leaf⟩ := adds
              cases leaf
            | entity declares => exact declares.unidentified
        | _ => cases hd
    exact (h.mono grows.extension.name stays.1 elements stays.2).unidentified plain

/-- A failure leaves what is entered as it is. -/
theorem Identifies.fails {before : List String} {events : List Event}
    (h : Identifies before events s) (steady : Steady s s')
    (grows : GrowsPlain s s') : Identifies before events s' :=
  h.mono steady.names steady.identifiers
    (Table.elements_eq grows.extension.continues fun _ hn hk => (grows.kind hn hk).1 rfl)
    (congrArg (·.filter isIdentifierWarning) steady.warnings)

/-- Identifiers are entered as events are taken. -/
theorem Takes.identifies {journal : Journal} {events : List Event}
    (h : Takes (start config, journal) events s) : Identifies journal.duplicates events s := by
  induction h with
  | refl =>
    refine ⟨nofun, rfl, fun value => ?_, (List.append_nil _).symm⟩
    show ((Document.initial config).names.lookup value).bind Identifier.Index.empty.get? = none
    cases (Document.initial config).names.lookup value <;> rfl
  | accept before run ih =>
    exact ih.accept (before.reaches.consistent (consistent_start config)) run
  | @refuse _ s₁ _ event _ before run ih =>
    have consistent := before.reaches.consistent (consistent_start config)
    obtain ⟨s₂, refuses, same⟩ := (accept_meets consistent event).of_error run
    refine ih.fails ((accept_steady ih.named event).of_error run) ?_
    rw [same]
    exact refuses.growsPlain.failed (refuses.consistent consistent) _
  | @drop _ s₁ before ih =>
    have consistent := before.reaches.consistent (consistent_start config)
    refine ih.fails (across_drop s₁).state ?_
    rw [drop_run]
    exact (GrowsPlain.refl s₁).failed consistent _

/-- Looking up an identifier is exact and final. Of the events that were taken, the first start
event with an identifier decides which element has it: that is the element of this event, and from
then on it is what is answered. Without such an event nothing is answered at any moment before the
document is complete, and then that there is none. Each further occurrence of an identifier was told
once, in order, and no other. -/
theorem identifiers_are_exact {journal : Journal} {events : List Event}
    (h : Takes (start config, journal) events s) :
    let groups := events.filterMap Event.identifiers?
    let element? := fun value : String =>
      (groups.findIdx? (value ∈ ·)).bind (s.1.document.nodes.elements[·]?)
    s.1.document.Matches (events.filterMap Event.start?) ∧
      (∀ value, (element? value).isSome ↔ value ∈ groups.flatten) ∧
      (∀ s' value x, Reaches s s' → (element? value).isSome ∨ s.1.document.isDone = true →
        (Query.elementById value).run.run { s'.1.document with isCancelled := x } =
          .answer (.ok (element? value))) ∧
      (∀ j value x answer,
        (Query.elementById value).run.run
            { (Document.initial config).moment s.1.history.toList j with isCancelled := x } =
          .answer (.ok answer) →
        answer = element? value ∧ (answer.isSome ∨
          ((Document.initial config).moment s.1.history.toList j).isDone = true)) ∧
      s.2.duplicates =
        journal.duplicates ++ (repeated [] groups.flatten).map identifierWarning := by
  intro groups element?
  have consistent := h.reaches.consistent (consistent_start config)
  have entered := h.identifies
  have known : ∀ value, s.1.document.identified? value = element? value := entered.identified
  refine ⟨h.matches (idle_start config) rfl, fun value => ?_, fun s' value x later ready => ?_,
    fun j value x answer answered => ?_, entered.duplicates⟩
  · rw [← known, entered.isSome_iff]
  · have grows := later.extension consistent
    rw [← known] at ready ⊢
    have same := grows.identified?_eq ready
    rw [Query.run_elementById_of_ready, Document.identified?_cancel, same]
    rw [Document.identified?_cancel, same]
    exact ready.imp_right grows.isDone
  · obtain ⟨rfl, ready⟩ := Query.eq_of_run_elementById answered
    rw [Document.identified?_cancel] at ready ⊢
    rw [← known, (consistent.sound.extends_moment j).identified?_eq ready]
    exact ⟨rfl, ready⟩

/-- Two elements share an identifier, and the empty string is one as well. The second element does
not get what the first one has, which is told once, and while the document is open nothing is said
of an identifier that has not come. -/
theorem identifiers_are_exact_of_shared_identifier :
    let events : List Event := [.startDocument,
      .startElement "a" [{ name := "i", value := "x", isId := true },
        { name := "j", value := "", isId := true }],
      .startElement "b" [{ name := "i", value := "x", isId := true }]]
    let s := ((acceptAll events).run.run (start .standard, { handler := .lenient })).2
    (∀ id ∈ ["x", ""],
      (Query.elementById id).run.run { s.1.document with isCancelled := true } =
        .answer (.ok (some 1))) ∧
      (∀ answer, (Query.elementById "y").run.run { s.1.document with isCancelled := true } ≠
        .answer (.ok answer)) ∧
      s.2.duplicates = [identifierWarning "x"] := by
  intro events s
  have taken : Takes (start .standard, { handler := .lenient }) events s :=
    takes_of_ok (by decide +kernel)
  obtain ⟨-, iff, final, exact, told⟩ := identifiers_are_exact taken
  have groups : events.filterMap Event.identifiers? = [["x", ""], ["x"]] := by decide +kernel
  have elements : s.1.document.nodes.elements = [1, 6] := by decide +kernel
  have last : (Document.initial .standard).moment s.1.history.toList s.1.history.size =
      s.1.document := by
    rw [(taken.reaches.consistent (consistent_start _)).sound.document_eq]
    exact Document.moment_of_length_le (Nat.le_of_eq Array.length_toList)
  rw [groups] at iff final exact told
  rw [elements] at iff final exact
  have unfinished : s.1.document.isDone = false := by decide +kernel
  refine ⟨fun id hid => ?_, fun answer answered => ?_, told⟩
  · rcases List.mem_cons.1 hid with rfl | hid
    · exact final s "x" true .refl (.inl ((iff "x").2 (by decide)))
    · obtain rfl := List.mem_singleton.1 hid
      exact final s "" true .refl (.inl ((iff "").2 (by decide)))
  · obtain ⟨same, ready⟩ := exact s.1.history.size "y" true answer (by rw [last]; exact answered)
    rw [last, unfinished, same] at ready
    exact absurd ((iff "y").1 (ready.resolve_right Bool.false_ne_true)) (by decide)

end Builder

end XmlTable
