import XmlTable.Proofs.Publishing
import XmlTable.Proofs.Storing

/-!
# What prefixes stand for

The namespaces in scope are kept by symbols and numbers. Here they are said in words: which name of
a namespace was declared for a prefix. A builder that looks a prefix up finds what is declared for
it, it gives a name the namespace so found, and it reports the prefixes for which nothing is
declared, and nothing else.
-/

namespace XmlTable

open Node

namespace Journal

/-- The recoverable failures that were reported, in order. -/
def errors (journal : Journal) : List Failure :=
  journal.reports.toList.filterMap fun
    | .error cause => some cause
    | _ => none

@[simp] theorem errors_warn (journal : Journal) (message : String) :
    (journal.warn message).errors = journal.errors := by
  simp [errors, warn]

@[simp] theorem errors_fatal (journal : Journal) (cause : Failure) :
    (journal.fatal cause).errors = journal.errors := by
  simp [errors, fatal]

@[simp] theorem errors_error (journal : Journal) (cause : Failure) :
    (journal.error cause).2.errors = journal.errors ++ [cause] := by
  simp [errors, error]

end Journal

/-! ### Declarations -/

namespace Namespace

/-- The names of namespaces by the prefixes for which they are declared. The empty prefix stands for
names without one; the empty name says that a prefix stands for no namespace. -/
def Declared : Type := String → Option String

namespace Declared

/-- Nothing is declared. -/
def nothing : Declared := fun _ => none

/-- The two prefixes that are reserved. -/
def reserved : Declared := fun p =>
  if p = "xml" then some xmlUri else if p = "xmlns" then some xmlnsUri else none

/-- What is declared inside goes before what is declared outside. -/
def shadowing (inner outer : Declared) : Declared := fun p => (inner p).or (outer p)

/-- One more declaration. -/
def set (declared : Declared) (p uri : String) : Declared := fun q =>
  if q = p then some uri else declared q

/-- What an attribute adds. The reserved prefixes are not declared anew. -/
def add (declared : Declared) (attr : Event.Attribute) : Declared :=
  match attr.declaredPrefix? with
  | none => declared
  | some p => if p = "xml" ∨ p = "xmlns" then declared else declared.set p attr.value

theorem add_of_none {declared : Declared} {attr : Event.Attribute}
    (h : attr.declaredPrefix? = none) : declared.add attr = declared := by
  rw [add, h]

theorem add_of_some {declared : Declared} {attr : Event.Attribute} {p : String}
    (h : attr.declaredPrefix? = some p) :
    declared.add attr =
      if p = "xml" ∨ p = "xmlns" then declared else declared.set p attr.value := by
  rw [add, h]

/-- What some attributes declare, the later ones going before. -/
def addAll (declared : Declared) (attributes : List Event.Attribute) : Declared :=
  attributes.foldl add declared

/-- The namespace of an element with a name. -/
def ofElement (declared : Declared) (name : String) : Option String :=
  declared (QName.lead name)

/-- The namespace of an attribute with a name. A name without a prefix has none. -/
def ofAttribute (declared : Declared) (attr : Event.Attribute) : Option String :=
  if attr.declaresNamespace then some xmlnsUri
  else if QName.lead attr.name = "" then none
  else declared (QName.lead attr.name)

/-- What is reported of a name: its prefix, if it has one and nothing is declared for it. -/
def complaints (declared : Declared) (name : String) : List Failure :=
  if QName.lead name ≠ "" ∧ declared (QName.lead name) = none then
    [.construction ("undeclared namespace prefix '" ++ QName.lead name ++ "'")]
  else []

/-- What is reported of an attribute. -/
def attributeComplaints (declared : Declared) (attr : Event.Attribute) : List Failure :=
  if attr.declaresNamespace then [] else declared.complaints attr.name

end Declared

end Namespace

open Namespace

/-! ### What symbols and numbers stand for -/

namespace Document

variable {d d' : Document}

/-- The number of a namespace stands for a name of one, number 0 for none. -/
def Numbers (d : Document) (id : NamespaceId) (uri? : Option String) : Prop :=
  d.namespaceUris.resolve id = some (uri?.getD "")

theorem numbers_zero (d : Document) : d.Numbers 0 none :=
  d.namespaceUris.entries_zero

theorem Numbers.mono {id : NamespaceId} {uri? : Option String} (h : d.Numbers id uri?)
    (he : d.Extends d') : d'.Numbers id uri? :=
  he.namespaceUri h

/-- The namespace that a reader is told is the one that the number stands for. -/
theorem Numbers.namespaceUri?_eq {id : NamespaceId} {uri? : Option String}
    (h : d.Numbers id uri?) : d.namespaceUri? id = uri?.filter (· ≠ "") := by
  unfold Numbers at h
  unfold namespaceUri?
  have zero := d.namespaceUris.entries_zero
  split
  · next h0 =>
    subst h0
    have same : uri?.getD "" = "" := Option.some.inj (h.symm.trans zero)
    rcases uri? with _ | uri
    · rfl
    · obtain rfl : uri = "" := same
      rfl
  · next h0 =>
    have ne : uri?.getD "" ≠ "" := fun he =>
      h0 (d.namespaceUris.resolve_inj (by rw [h, he]) zero)
    rcases uri? with _ | uri
    · exact absurd rfl ne
    · rw [h, Option.filter_some, if_pos (by simpa using ne)]
      rfl

/-- What symbols are bound to is what is declared for the prefixes that they stand for. -/
structure Binds (d : Document) (get : SymbolId → Option NamespaceId) (declared : Declared) :
    Prop where
  /-- What is bound is declared. -/
  sound : ∀ {id : SymbolId} {target : NamespaceId}, get id = some target → ∃ p uri,
    d.names.resolve id = some p ∧ d.Numbers target (some uri) ∧ declared p = some uri
  /-- What is declared is bound. -/
  complete : ∀ {p uri : String}, declared p = some uri → ∃ id target,
    d.names.resolve id = some p ∧ d.Numbers target (some uri) ∧ get id = some target

namespace Binds

variable {get inner outer : SymbolId → Option NamespaceId} {declared declared' : Declared}

theorem mono (h : d.Binds get declared) (he : d.Extends d') : d'.Binds get declared where
  sound hg := by
    obtain ⟨p, uri, hp, hu, hd⟩ := h.sound hg
    exact ⟨p, uri, he.name hp, hu.mono he, hd⟩
  complete hd := by
    obtain ⟨id, target, hp, hu, hg⟩ := h.complete hd
    exact ⟨id, target, he.name hp, hu.mono he, hg⟩

theorem empty (d : Document) : d.Binds Frame.empty.get? .nothing where
  sound := nofun
  complete := nofun

/-- A prefix that a symbol stands for is bound to what is declared for it. -/
theorem numbers (h : d.Binds get declared) {id : SymbolId} {p : String}
    (hp : d.names.resolve id = some p) {target : NamespaceId} (hg : get id = some target) :
    ∃ uri, d.Numbers target (some uri) ∧ declared p = some uri := by
  obtain ⟨q, uri, hq, hu, hd⟩ := h.sound hg
  obtain rfl := Option.some.inj (hp.symm.trans hq)
  exact ⟨uri, hu, hd⟩

/-- A prefix that is bound to nothing is not declared. -/
theorem eq_none (h : d.Binds get declared) {id : SymbolId} {p : String}
    (hp : d.names.resolve id = some p) (hg : get id = none) : declared p = none := by
  rw [Option.eq_none_iff_forall_ne_some]
  intro uri hd
  obtain ⟨id', target, hp', -, hg'⟩ := h.complete hd
  rw [d.names.resolve_inj hp' hp, hg] at hg'
  cases hg'

/-- Binding a symbol anew declares its prefix anew. -/
theorem declare {frame : Frame} (h : d.Binds frame.get? declared) {id : SymbolId} {p : String}
    (hp : d.names.resolve id = some p) {target : NamespaceId} {uri : String}
    (hu : d.Numbers target (some uri)) :
    d.Binds (frame.declare id target).get? (declared.set p uri) where
  sound {other found} hg := by
    rw [Frame.get?_declare] at hg
    split at hg
    · next ho =>
      obtain rfl := Option.some.inj hg
      exact ⟨p, uri, by rw [ho]; exact hp, hu, if_pos rfl⟩
    · next ho =>
      obtain ⟨q, uri', hq, hu', hd⟩ := h.sound hg
      refine ⟨q, uri', hq, hu', ?_⟩
      rw [Declared.set, if_neg]
      · exact hd
      · rintro rfl
        exact ho (d.names.resolve_inj hq hp)
  complete {q uri'} hd := by
    unfold Declared.set at hd
    split at hd
    · next hq =>
      obtain rfl := Option.some.inj hd
      exact ⟨id, target, by rw [hq]; exact hp, hu, by rw [Frame.get?_declare, if_pos rfl]⟩
    · next hq =>
      obtain ⟨other, found, ho, hu', hg⟩ := h.complete hd
      refine ⟨other, found, ho, hu', ?_⟩
      rw [Frame.get?_declare, if_neg]
      · exact hg
      · rintro rfl
        exact hq (Option.some.inj (ho.symm.trans hp))

/-- What the frame of an element binds goes before what was in scope. -/
theorem push {frame : Frame} {scopes : Scopes} (h : d.Binds frame.get? declared)
    (ho : d.Binds scopes.resolve declared') :
    d.Binds (scopes.push frame).resolve (declared.shadowing declared') where
  sound {id target} hg := by
    rw [Scopes.resolve_push] at hg
    rcases Option.or_eq_some_iff.1 hg with hg | ⟨hn, hg⟩
    · obtain ⟨p, uri, hp, hu, hd⟩ := h.sound hg
      exact ⟨p, uri, hp, hu, by rw [Declared.shadowing, hd, Option.some_or]⟩
    · obtain ⟨p, uri, hp, hu, hd⟩ := ho.sound hg
      exact ⟨p, uri, hp, hu, by rw [Declared.shadowing, h.eq_none hp hn, Option.none_or, hd]⟩
  complete {p uri} hd := by
    unfold Declared.shadowing at hd
    rcases Option.or_eq_some_iff.1 hd with hd | ⟨hn, hd⟩
    · obtain ⟨id, target, hp, hu, hg⟩ := h.complete hd
      exact ⟨id, target, hp, hu, by rw [Scopes.resolve_push, hg, Option.some_or]⟩
    · obtain ⟨id, target, hp, hu, hg⟩ := ho.complete hd
      refine ⟨id, target, hp, hu, ?_⟩
      rw [Scopes.resolve_push]
      cases hf : frame.get? id with
      | none => rw [Option.none_or, hg]
      | some _ =>
        obtain ⟨_, -, hd'⟩ := h.numbers hp hf
        rw [hn] at hd'
        cases hd'

/-- Names without a prefix have the namespace that is declared for them. -/
theorem resolveDefault {scopes : Scopes} (h : d.Binds scopes.resolve declared) :
    d.Numbers scopes.resolveDefault (declared "") := by
  have empty : d.names.resolve Symbol.emptyId = some "" := d.names.entries_zero
  unfold Scopes.resolveDefault
  cases hg : scopes.resolve Symbol.emptyId with
  | none =>
    rw [h.eq_none empty hg]
    exact d.numbers_zero
  | some target =>
    obtain ⟨uri, hu, hd⟩ := h.numbers empty hg
    rw [hd]
    exact hu

end Binds

theorem resolve_xmlNamespace {config : Config} :
    (initial config).namespaceUris.resolve xmlNamespace = some xmlUri := by
  rw [Symbol.Pool.resolve, entries_namespaceUris_initial]
  rfl

theorem resolve_xmlId {config : Config} : (initial config).names.resolve xmlId = some "xml" :=
  (Symbol.Pool.lookup_eq_some_iff ..).1 lookup_reservedNames.1

theorem resolve_xmlnsId {config : Config} : (initial config).names.resolve xmlnsId = some "xmlns" :=
  (Symbol.Pool.lookup_eq_some_iff ..).1 lookup_reservedNames.2

end Document

namespace Builder

open Reporting

variable {config : Config} {s s' s'' : Builder × Journal} {declared : Declared}

/-- At first the reserved prefixes are bound and nothing else. -/
theorem binds_start (config : Config) :
    (start config).document.Binds (start config).scopes.resolve .reserved := by
  have xml : (Document.initial config).Numbers Document.xmlNamespace (some xmlUri) :=
    Document.resolve_xmlNamespace
  have xmlns : (Document.initial config).Numbers Document.xmlnsNamespace (some xmlnsUri) :=
    Document.resolve_xmlnsNamespace
  have frame := ((Document.Binds.empty (Document.initial config)).declare Document.resolve_xmlId
    xml).declare Document.resolve_xmlnsId xmlns
  have same : (Declared.nothing.set "xml" xmlUri).set "xmlns" xmlnsUri = .reserved := by
    funext p
    unfold Declared.set Declared.reserved Declared.nothing
    by_cases hp : p = "xmlns"
    · subst hp
      rfl
    · simp [hp]
  rw [← same]
  exact frame

/-! ### Looking prefixes up -/

/-- The work leaves the namespaces in scope as they are, and reports no recoverable failure. -/
structure Quiet (s s' : Builder × Journal) : Prop where
  /-- The namespaces in scope stay. -/
  scopes : s'.1.scopes = s.1.scopes
  /-- Nothing is reported. -/
  errors : s'.2.errors = s.2.errors

instance : Spans Quiet where
  refl _ := ⟨rfl, rfl⟩
  trans h h' := ⟨h'.scopes.trans h.scopes, h'.errors.trans h.errors⟩
  publish _ _ := ⟨rfl, rfl⟩
  own _ _ _ _ hs := ⟨hs, rfl⟩
  warn _ _ := ⟨rfl, Journal.errors_warn ..⟩
  fatal _ _ := ⟨rfl, Journal.errors_fatal ..⟩

/-- A name gets the namespace that is declared for its prefix. If there is none that is reported,
and nothing else is done. -/
theorem resolveName_numbers (hb : s.1.document.Binds s.1.scopes.resolve declared) (name : String)
    {unprefixed : NamespaceId} {uri? : Option String}
    (hn : s.1.document.Numbers unprefixed uri?) :
    (resolveName name unprefixed).Meets s
      (fun id s' => s'.1 = s.1 ∧
        s'.1.document.Numbers id
          (if QName.lead name = "" then uri? else declared (QName.lead name)) ∧
        s'.2.errors = s.2.errors ++ declared.complaints name)
      fun _ _ => True := by
  unfold resolveName Declared.complaints
  dsimp only
  split
  · next he =>
    rw [String.isEmpty_iff] at he
    rw [meets_pure, he, if_pos rfl, if_neg fun h => h.1 rfl, List.append_nil]
    exact ⟨rfl, hn, rfl⟩
  · next he =>
    have hne : QName.lead name ≠ "" := fun h => he (String.isEmpty_iff.2 h)
    rw [meets_observe_bind, if_neg hne]
    split
    · next target ht =>
      obtain ⟨id, hid, ht⟩ := Option.bind_eq_some_iff.1 ht
      obtain ⟨uri, hu, hd⟩ := hb.numbers ((Symbol.Pool.lookup_eq_some_iff ..).1 hid) ht
      rw [meets_pure, hd, if_neg fun h => nomatch h.2]
      exact ⟨rfl, hu, (List.append_nil _).symm⟩
    · next ht =>
      have hd : declared (QName.lead name) = none := by
        rw [Option.eq_none_iff_forall_ne_some]
        intro uri hd
        obtain ⟨id, target, hp, -, hg⟩ := hb.complete hd
        rw [(Symbol.Pool.lookup_eq_some_iff ..).2 hp, Option.bind_some, hg] at ht
        cases ht
      rw [meets_bind, meets_report, hd, if_pos ⟨hne, rfl⟩]
      split
      · rw [meets_pure]
        exact ⟨rfl, Document.numbers_zero _, Journal.errors_error ..⟩
      · trivial

/-- The name of a namespace gets a number that stands for it. -/
theorem storeNamespace_numbers (uri : String) :
    (storeNamespace uri).Meets s (fun id s' => s'.1.document.Numbers id (some uri))
      fun _ _ => True := by
  unfold storeNamespace
  split
  · next he =>
    rw [String.isEmpty_iff] at he
    rw [meets_pure, he]
    exact Document.numbers_zero _
  · rw [meets_observe_bind, meets_publish_bind]
    dsimp only
    split
    · rw [meets_bind, meets_throw]
      trivial
    · rw [meets_pure]
      exact s.1.document.namespaceUris.resolve_insert_symbolFor uri

/-- A prefix that is given a symbol is reserved if the symbol is. -/
theorem isReserved_iff {d : Document} (he : (Document.initial config).Extends d) {id : SymbolId}
    {p : String} (hp : d.names.resolve id = some p) :
    (id = Document.xmlId ∨ id = Document.xmlnsId) ↔ (p = "xml" ∨ p = "xmlns") := by
  have one : ∀ {own : SymbolId} {q : String}, (Document.initial config).names.resolve own = some q →
      (id = own ↔ p = q) := by
    intro own q hq
    have hq := he.name hq
    constructor
    · rintro rfl
      exact Option.some.inj (hp.symm.trans hq)
    · rintro rfl
      exact d.names.resolve_inj hp hq
  exact or_congr (one Document.resolve_xmlId) (one Document.resolve_xmlnsId)

/-- The frame of an element binds what the attributes declare. -/
theorem declaredFrame_binds (attributes : List Event.Attribute) {frame : Frame}
    (h : s.1.Active config) (hb : s.1.document.Binds frame.get? declared) :
    (declaredFrame attributes frame).Meets s
      (fun frame' s' => s'.1.document.Binds frame'.get? (declared.addAll attributes))
      fun _ _ => True := by
  induction attributes generalizing s frame declared with
  | nil =>
    rw [declaredFrame, meets_pure]
    exact hb
  | cons attr rest ih =>
    rw [declaredFrame, Declared.addAll, List.foldl_cons]
    split
    · next hp =>
      rw [Declared.add_of_none hp]
      exact ih h hb
    · next p hp =>
      rw [Declared.add_of_some hp]
      dsimp only
      have after : ∀ (id : SymbolId) (s₁ : Builder × Journal), Stores config [] s s₁ →
          s₁.1.document.names.resolve id = some p →
          (if id = Document.xmlId ∨ id = Document.xmlnsId then declaredFrame rest frame
          else do
            let target ← storeNamespace attr.value
            declaredFrame rest (frame.declare id target)).Meets s₁
          (fun frame' s' => s'.1.document.Binds frame'.get? (rest.foldl Declared.add
            (if p = "xml" ∨ p = "xmlns" then declared else declared.set p attr.value)))
          fun _ _ => True := by
        intro id s₁ h₁ hid
        have hb₁ := hb.mono h₁.extension
        have reserved := isReserved_iff h₁.active.sound.extension hid
        split
        · next hr =>
          rw [if_pos (reserved.1 hr)]
          exact ih h₁.active hb₁
        · next hr =>
          rw [if_neg (mt reserved.2 hr), meets_bind]
          have stored := storeNamespace_meets h₁.active attr.value (@False.elim (Ample [] s₁))
            False.elim
          refine (stored.and (storeNamespace_numbers attr.value)).mono (fun target s₂ h₂ => ?_)
            fun _ _ _ => trivial
          have he := h₂.1.1.extension
          exact ih h₂.1.1.active ((hb₁.mono he).declare (he.name hid) h₂.2)
      split
      · next he =>
        rw [meets_bind, meets_pure]
        refine after _ s (.refl h) ?_
        rw [String.isEmpty_iff.1 he]
        exact s.1.document.names.entries_zero
      · rw [meets_bind]
        exact (storeName_meets h p).of_sure fun id s₁ h₁ => after id s₁ h₁.1 h₁.2

/-- What is stored of some attributes can be read off their records. -/
theorem attributePairs_inj {element node : Nat} {stored stored' : List StoredAttribute}
    (h : attributePairs element node stored = attributePairs element node stored') :
    stored = stored' := by
  induction stored generalizing node stored' with
  | nil =>
    cases stored' with
    | nil => rfl
    | cons _ _ => cases h
  | cons first rest ih =>
    cases stored' with
    | nil => cases h
    | cons first' rest' =>
      obtain ⟨own, value, later⟩ : _ ∧ _ ∧ _ := by simpa [attributePairs] using h
      rw [ih later]
      obtain ⟨namespaceId, id, payload⟩ := first
      simp_all [Record.linked, Record.valueNode, Record.leaf]

/-- What is stored of some attributes names their namespaces, one by one. -/
def NumbersFor (d : Document) (declared : Declared) (stored : List StoredAttribute)
    (attributes : List Event.Attribute) : Prop :=
  ∀ (i : Nat) (own : StoredAttribute) (attr : Event.Attribute), stored[i]? = some own →
    attributes[i]? = some attr → d.Numbers own.1 (declared.ofAttribute attr)

theorem NumbersFor.mono {d d' : Document} {stored : List StoredAttribute}
    {attributes : List Event.Attribute} (h : NumbersFor d declared stored attributes)
    (he : d.Extends d') : NumbersFor d' declared stored attributes :=
  fun i own attr hs ha => (h i own attr hs ha).mono he

/-- The records of attributes are made: they name the namespaces of the attributes, and what is
reported are the prefixes of theirs for which nothing is declared. -/
structure MakesAttributes (declared : Declared) (element node : Nat)
    (attributes : List Event.Attribute) (done records : List Record) (s s' : Builder × Journal) :
    Prop where
  /-- The document grew. -/
  extension : s.1.document.Extends s'.1.document
  /-- The records, after those that were made before. -/
  stored : ∃ stored, NumbersFor s'.1.document declared stored attributes ∧
    stored.length = attributes.length ∧
    records = done.reverse ++ attributePairs element node stored
  /-- What is reported. -/
  errors : s'.2.errors = s.2.errors ++ attributes.flatMap declared.attributeComplaints

/-- One more attribute goes before the others. -/
theorem MakesAttributes.cons {element node : Nat} {attr : Event.Attribute}
    {rest : List Event.Attribute} {done records : List Record} {id : NamespaceId}
    {name payload : SymbolId}
    (h : MakesAttributes declared element (node + 2) rest
      (.valueNode node payload :: .linked .attr id element name
        (if rest.isEmpty then .last else .next (node + 2)) :: done) records s' s'')
    (extension : s.1.document.Extends s'.1.document)
    (numbers : s'.1.document.Numbers id (declared.ofAttribute attr))
    (errors : s'.2.errors = s.2.errors ++ declared.attributeComplaints attr) :
    MakesAttributes declared element node (attr :: rest) done records s s'' where
  extension := extension.trans h.extension
  stored := by
    obtain ⟨stored, later, length, rfl⟩ := h.stored
    refine ⟨(id, name, payload) :: stored, ?_, ?_, ?_⟩
    · rintro (_ | i) own attr' hs ha
      · obtain rfl := Option.some.inj hs
        obtain rfl := Option.some.inj ha
        exact numbers.mono h.extension
      · exact later i own attr' hs ha
    · rw [List.length_cons, List.length_cons, length]
    · have same : stored.isEmpty = rest.isEmpty := by
        cases stored <;> cases rest <;> simp_all
      rw [attributePairs, same]
      simp
  errors := by rw [h.errors, errors, List.flatMap_cons, List.append_assoc]

/-- The attributes of an element are made in order. -/
theorem attributeRecords_numbers (element : Nat) (attributes : List Event.Attribute) (node : Nat)
    (done : List Record) (h : s.1.Active config)
    (hb : s.1.document.Binds s.1.scopes.resolve declared) :
    (attributeRecords element node attributes done).Meets s
      (fun records s' => MakesAttributes declared element node attributes done records s s')
      fun _ _ => True := by
  induction attributes generalizing s node done with
  | nil =>
    rw [attributeRecords, meets_pure]
    exact ⟨.refl _, ⟨[], fun _ _ _ h _ => absurd h (by simp), rfl, (List.append_nil _).symm⟩,
      (List.append_nil _).symm⟩
  | cons attr rest ih =>
    have after : ∀ (id : NamespaceId) (s₁ : Builder × Journal), s₁.1 = s.1 →
        s₁.1.document.Numbers id (declared.ofAttribute attr) →
        s₁.2.errors = s.2.errors ++ declared.attributeComplaints attr →
        (do
          let name ← storeName attr.name
          let payload ← storeText attr.value
          attributeRecords element (node + 2) rest
            (.valueNode node payload ::
              .linked .attr id element name
                (if rest.isEmpty then Link.last else Link.next (node + 2)) :: done)).Meets s₁
        (fun records s' => MakesAttributes declared element node (attr :: rest) done records s s')
        fun _ _ => True := by
      intro id s₁ same hid told
      rw [← same] at h hb
      rw [meets_bind]
      refine ((storeName_meets h attr.name).and
        (across_storeName (R := Quiet) attr.name s₁)).mono (fun name s₂ h₂ => ?_)
        fun _ _ _ => trivial
      rw [meets_bind]
      refine ((storeText_meets h₂.1.1.active attr.value).and
        (across_storeText (R := Quiet) attr.value s₂)).mono (fun payload s₃ h₃ => ?_)
        fun _ _ _ => trivial
      have stores := h₂.1.1.trans h₃.1.1
      have quiet := SpansPlain.trans h₂.2 h₃.2
      have hb := hb.mono stores.extension
      rw [← stores.scopes] at hb
      refine (ih (node + 2) _ stores.active hb).imp fun records s₄ h₄ =>
        h₄.cons ?_ (hid.mono stores.extension) (quiet.errors.trans told)
      rw [← same]
      exact stores.extension
    rw [attributeRecords]
    dsimp only
    unfold Declared.ofAttribute Declared.attributeComplaints at after
    split
    · next hd =>
      rw [meets_bind, meets_pure]
      refine after _ s rfl ?_ ?_
      · rw [if_pos hd]
        exact h.sound.extension.namespaceUri Document.resolve_xmlnsNamespace
      · rw [if_pos hd, List.append_nil]
    · next hd =>
      rw [if_neg hd, if_neg hd] at after
      rw [meets_bind]
      exact (resolveName_numbers hb attr.name (Document.numbers_zero _)).imp fun id s₁ h₁ =>
        after id s₁ h₁.1 h₁.2.1 h₁.2.2

end Builder

end XmlTable
