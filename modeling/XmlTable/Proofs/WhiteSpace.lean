import XmlTable.Proofs.Excerpts
import XmlTable.Proofs.Meaning
import XmlTable.Proofs.Spending

/-!
# White space that stays

Line ends and the white space in attribute values are normalized in what a source has of them,
before references are expanded; the literals of entities and the defaults of attributes are taken as
they were written. So all white space that a reader should not have delivered comes from such
literals, or from references to characters by their numbers, which mean it.
-/

namespace XmlTable

/-! ### Texts before and after -/

namespace Text

/-- One text is another in which white space was replaced by other white space, a pair of a carriage
return and a line feed by one character. -/
inductive Respaced : List Char → List Char → Prop
  | nil : Respaced [] []
  | keep {cs ds : List Char} (c : Char) : Respaced cs ds → Respaced (c :: cs) (c :: ds)
  | space {cs ds : List Char} {c d : Char} : isSpace c = true → isSpace d = true →
    Respaced cs ds → Respaced (c :: cs) (d :: ds)
  | pair {cs ds : List Char} {d : Char} : isSpace d = true →
    Respaced cs ds → Respaced ('\r' :: '\n' :: cs) (d :: ds)

namespace Respaced

variable {cs ds word rest : List Char}

theorem refl (cs : List Char) : Respaced cs cs := by
  induction cs with
  | nil => exact .nil
  | cons c cs ih => exact .keep c ih

/-- More white space may be replaced. -/
theorem map {f : Char → Char} (hf : ∀ c, f c = c ∨ isSpace c = true ∧ isSpace (f c) = true)
    (h : Respaced cs ds) : Respaced cs (ds.map f) := by
  have spaced : ∀ {c : Char}, isSpace c = true → isSpace (f c) = true := by
    intro c hc
    rcases hf c with same | ⟨-, space⟩
    · rw [same]
      exact hc
    · exact space
  induction h with
  | nil => exact .nil
  | keep c _ ih =>
    rcases hf c with same | ⟨before, after⟩
    · rw [List.map_cons, same]
      exact .keep c ih
    · exact .space before after ih
  | space hc hd _ ih => exact .space hc (spaced hd) ih
  | pair hd _ ih => exact .pair (spaced hd) ih

/-- The parts of a text were parts of the other. -/
theorem exists_of_append {ds' : List Char} (h : Respaced cs (ds ++ ds')) :
    ∃ before after, cs = before ++ after ∧ Respaced before ds ∧ Respaced after ds' := by
  induction ds generalizing cs with
  | nil => exact ⟨[], cs, rfl, .nil, h⟩
  | cons d ds ih =>
    cases h with
    | keep _ h =>
      obtain ⟨before, after, rfl, first, second⟩ := ih h
      exact ⟨d :: before, after, rfl, .keep d first, second⟩
    | @space _ _ c _ hc hd h =>
      obtain ⟨before, after, rfl, first, second⟩ := ih h
      exact ⟨c :: before, after, rfl, .space hc hd first, second⟩
    | pair hd h =>
      obtain ⟨before, after, rfl, first, second⟩ := ih h
      exact ⟨'\r' :: '\n' :: before, after, rfl, .pair hd first, second⟩

/-- A text without white space was what it is. -/
theorem eq_of_word (h : Respaced cs word) (hw : ∀ c ∈ word, isSpace c = false) : cs = word := by
  induction h with
  | nil => rfl
  | keep c _ ih => rw [ih (List.forall_mem_cons.1 hw).2]
  | space _ hd _ _ | pair hd _ _ =>
    have plain := (List.forall_mem_cons.1 hw).1
    rw [hd] at plain
    cases plain

/-- What has no white space in it stands in the other text too. -/
theorem infix_of_word (h : Respaced cs ds) (hi : word <:+: ds)
    (hw : ∀ c ∈ word, isSpace c = false) : word <:+: cs := by
  obtain ⟨before, after, rfl⟩ := hi
  obtain ⟨front, last, rfl, hfront, -⟩ := h.exists_of_append
  obtain ⟨first, middle, rfl, -, hmiddle⟩ := hfront.exists_of_append
  rw [hmiddle.eq_of_word hw]
  exact ⟨first, last, rfl⟩

end Respaced

theorem respaced_joinPairs (cs : List Char) : Respaced cs (joinPairs cs) := by
  have onto : ∀ done, ∃ ds, joinPairsOnto done cs = done.reverse ++ ds ∧ Respaced cs ds := by
    intro done
    fun_induction joinPairsOnto done cs with
    | case1 done rest ih =>
      obtain ⟨ds, same, respaced⟩ := ih
      refine ⟨'\n' :: ds, ?_, .pair rfl respaced⟩
      rw [same, List.reverse_cons, List.append_assoc, List.singleton_append]
    | case2 done c rest _ ih =>
      obtain ⟨ds, same, respaced⟩ := ih
      refine ⟨c :: ds, ?_, .keep c respaced⟩
      rw [same, List.reverse_cons, List.append_assoc, List.singleton_append]
    | case3 done => exact ⟨[], (List.append_nil _).symm, .nil⟩
  obtain ⟨ds, same, respaced⟩ := onto []
  rwa [joinPairs, same]

/-- Normalized line ends were white space. -/
theorem respaced_unifyLineEnds (cs : List Char) : Respaced cs (unifyLineEnds cs) := by
  unfold unifyLineEnds
  split
  · refine (respaced_joinPairs cs).map fun c => ?_
    by_cases hc : c = '\r'
    · rw [if_pos hc]
      exact .inr ⟨hc ▸ rfl, rfl⟩
    · exact .inl (if_neg hc)
  · exact .refl cs

/-- Normalized white space was white space. -/
theorem respaced_flattenSpace (cs : List Char) : Respaced cs (flattenSpace cs) := by
  unfold flattenSpace
  split
  · refine (respaced_unifyLineEnds cs).map fun c => ?_
    by_cases hc : (c = '\n' || c = '\t') = true
    · rw [if_pos hc]
      simp only [Bool.or_eq_true, decide_eq_true_eq] at hc
      rcases hc with rfl | rfl
      · exact .inr ⟨rfl, rfl⟩
      · exact .inr ⟨rfl, rfl⟩
    · exact .inl (if_neg hc)
  · exact .refl cs

/-- White space that normalization removes from attribute values. -/
def isBreak (c : Char) : Bool :=
  c = '\t' || c = '\n' || c = '\r'

theorem isBreak_of_all {cs : List Char} (h : (cs.all fun c => !isBreak c) = true) :
    ∀ c ∈ cs, isBreak c = false :=
  fun c hc => Bool.not_eq_eq_eq_not.1 (List.all_eq_true.1 h c hc)

/-- There are no carriage returns in normalized line ends. -/
theorem return_notMem_unifyLineEnds (cs : List Char) : '\r' ∉ unifyLineEnds cs := by
  unfold unifyLineEnds
  split
  · intro h
    obtain ⟨c, -, hc⟩ := List.mem_map.1 h
    split at hc
    · cases hc
    · next other => exact other hc
  · next none => simpa using none

theorem toList_normalizeLineEnds (text : String) :
    (normalizeLineEnds text).toList = unifyLineEnds text.toList :=
  String.toList_ofList

theorem toList_normalizeAttribute (text : String) :
    (normalizeAttribute text).toList = flattenSpace text.toList :=
  String.toList_ofList

theorem return_notMem_normalizeLineEnds (text : String) :
    '\r' ∉ (normalizeLineEnds text).toList :=
  toList_normalizeLineEnds text ▸ return_notMem_unifyLineEnds _

/-- White space in a normalized attribute value is spaces. -/
theorem isBreak_of_mem_flattenSpace {cs : List Char} {c : Char} (h : c ∈ flattenSpace cs) :
    isBreak c = false := by
  unfold flattenSpace at h
  split at h
  · obtain ⟨d, hd, rfl⟩ := List.mem_map.1 h
    split
    · rfl
    · next other =>
      have carriage : d ≠ '\r' := fun same => return_notMem_unifyLineEnds cs (same ▸ hd)
      simp_all [isBreak]
  · next none =>
    have plain := fun hc => none (List.any_eq_true.2 ⟨c, h, hc⟩)
    simp_all [isBreak]

end Text

/-! ### References by number -/

namespace Reference

variable {cs : List Char} {segment : Segment}

/-- The segments of a text stand in it. -/
theorem infix_of_mem_segments (h : segment ∈ segments cs) : segment.source <:+: cs := by
  obtain ⟨before, after, whole⟩ := List.append_of_mem h
  have parts := source_segments cs
  rw [whole, List.flatMap_append, List.flatMap_cons, ← List.append_assoc] at parts
  exact ⟨_, _, parts⟩

/-- A numeral is made of digits, with a plus sign in front if there is one. -/
theorem isSome_of_word? {base n : Nat} {digit? : Char → Option Nat} {x : Char}
    (h : Text.word? base digit? cs = some n) (hx : x ∈ cs) : x = '+' ∨ (digit? x).isSome := by
  have digits : ∀ {ds : List Char}, Text.wordFrom? base digit? 0 ds = some n → x ∈ ds →
      x = '+' ∨ (digit? x).isSome := fun h hx => .inr (Text.isSome_of_wordFrom? h hx)
  unfold Text.word? at h
  split at h
  · cases h
  · unfold Text.dropPlus at h
    split at h
    · rcases List.mem_cons.1 hx with rfl | hx
      · exact .inl rfl
      · exact digits h hx
    · exact digits h hx

/-- The number of a character has no white space in it. -/
theorem isSpace_of_characterOf? {digits : List Char} (h : (characterOf? digits).isSome) {x : Char}
    (hx : x ∈ digits) : Text.isSpace x = false := by
  have plain : ∀ {x : Char}, x = '+' ∨ (Text.hexDigit? x).isSome → Text.isSpace x = false := by
    intro x
    rintro (rfl | digit)
    · rfl
    · refine Bool.eq_false_iff.2 fun space => ?_
      simp only [Text.isSpace, Bool.or_eq_true, decide_eq_true_eq] at space
      rcases space with ((rfl | rfl) | rfl) | rfl <;> exact absurd digit (by decide)
  obtain ⟨c, hc⟩ := Option.isSome_iff_exists.1 h
  obtain ⟨n, hn, -⟩ := Option.bind_eq_some_iff.1 hc
  split at hn
  · rcases List.mem_cons.1 hx with rfl | hx
    · rfl
    · exact plain (isSome_of_word? hn hx)
  · rcases List.mem_cons.1 hx with rfl | hx
    · rfl
    · exact plain (isSome_of_word? hn hx)
  · exact plain ((isSome_of_word? hn hx).imp_right Text.isSome_hexDigit?_of_decimalDigit?)

/-- No reference in a text is to a character by its number. -/
def IsUnnumbered (cs : List Char) : Prop :=
  ∀ digits, .reference ('#' :: digits) ∈ segments cs → characterOf? digits = none

end Reference

/-- Somewhere in the source there is a reference to a character by its number. -/
def Source.HasNumericReference (source : Source) : Prop :=
  ∃ digits, (Reference.characterOf? digits).isSome ∧
    Bytes.encode (String.ofList (Reference.Segment.reference ('#' :: digits)).source) <:+:
      source.bytes

theorem Source.not_hasNumericReference {source : Source}
    (h : ¬ Bytes.encode "&#" <:+: source.bytes) : ¬ source.HasNumericReference := by
  rintro ⟨digits, -, held⟩
  have begins : ['&', '#'] <:+: (Reference.Segment.reference ('#' :: digits)).source :=
    ⟨[], digits ++ [';'], by simp [Reference.Segment.source]⟩
  rw [← String.toList_ofList (l := (Reference.Segment.reference ('#' :: digits)).source)] at begins
  exact h ((Bytes.encode_infix begins).trans held)

/-- Without them in the source there are none in a text from it, also when white space was replaced
there. -/
theorem Source.isUnnumbered {source : Source} (h : ¬ source.HasNumericReference) {text : String}
    {cs : List Char} (held : Bytes.encode text <:+: source.bytes)
    (respaced : Text.Respaced text.toList cs) : Reference.IsUnnumbered cs := by
  intro digits hm
  refine Option.not_isSome_iff_eq_none.1 fun legal => h ⟨digits, legal, ?_⟩
  -- There is no white space in the reference, so that it was there before any was replaced.
  have word : ∀ c ∈ (Reference.Segment.reference ('#' :: digits)).source,
      Text.isSpace c = false := by
    simp only [Reference.Segment.source, List.cons_append, List.forall_mem_cons,
      List.forall_mem_append]
    exact ⟨rfl, rfl, fun x hx => Reference.isSpace_of_characterOf? legal hx, rfl,
      List.forall_mem_nil _⟩
  exact (Bytes.encode_infix
    (respaced.infix_of_word (Reference.infix_of_mem_segments hm) word)).trans held

/-! ### What references bring in -/

namespace Reference

variable {declared : String → Option String} {c : Char}

/-- What a segment stands for has no such character in it, apart from a literal. -/
def Sense.Lacks (c : Char) : Sense → Prop
  | .text content => c ∉ content.toList
  | .unknown name => c ∉ (Piece.reference name).written.toList
  | .invalid _ | .literal _ => True

/-- If a text has a kind of break not in it and no references to characters by their numbers, its
segments bring none in but by literals. -/
theorem lacks_sense (hc : Text.isBreak c = true) {cs : List Char} (absent : c ∉ cs)
    (unnumbered : IsUnnumbered cs) : ∀ segment ∈ segments cs, (segment.sense declared).Lacks c := by
  intro segment hm
  have source : c ∉ segment.source := fun h => absent ((infix_of_mem_segments hm).mem h)
  fun_cases Segment.sense declared segment with
  | case1 cs =>
    show c ∉ (String.ofList cs).toList
    rw [String.toList_ofList]
    exact source
  | case2 digits d found =>
    have missing := unnumbered digits hm
    rw [found] at missing
    cases missing
  | case3 | case5 => trivial
  | case4 chars name value known =>
    have plain : (Entity.predefined.all fun entity => entity.2.toList.all fun x =>
        !Text.isBreak x) = true := by decide
    intro h
    have unbroken := Text.isBreak_of_all
      (List.all_eq_true.1 plain _ (mem_of_lookup_eq_some known)) c h
    rw [hc] at unbroken
    cases unbroken
  | case6 chars name missing unknown =>
    have written : (Piece.reference (String.ofList chars)).written.toList =
        (Segment.reference chars).source := by
      simp [Piece.written, Segment.source]
    show c ∉ (Piece.reference (String.ofList chars)).written.toList
    rw [written]
    exact source

/-- A segment that stands for a literal refers to an entity that is declared with it. -/
theorem exists_of_sense_eq_literal {segment : Segment} {literal : String}
    (h : segment.sense declared = .literal literal) : ∃ name, declared name = some literal := by
  revert h
  fun_cases Segment.sense declared segment with
  | case5 chars name value found unknown =>
    rintro ⟨⟩
    exact ⟨_, found⟩
  | _ => rintro ⟨⟩

namespace Course

/-- The steps of a course put no such character. -/
def Lacks (c : Char) (course : Course) : Prop :=
  c ∉ (Step.writtenText course.steps).toList

theorem lacks_stop (fault : Fault) : (stop fault).Lacks c :=
  List.not_mem_nil

theorem lacks_one {step : Step} (h : c ∉ step.written.toList) : (one step).Lacks c := by
  show c ∉ (step.written ++ "").toList
  rwa [String.append_empty]

theorem lacks_andThen {first next : Course} (h : first.Lacks c) (h' : next.Lacks c) :
    (first.andThen next).Lacks c := by
  unfold andThen
  split
  · rw [Lacks, Step.writtenText_append, String.toList_append, List.mem_append]
    exact not_or.2 ⟨h, h'⟩
  · exact h

theorem lacks_ofSegment {nested : List Segment → Course} {segment : Segment}
    (h : (segment.sense declared).Lacks c)
    (hn : ∀ name literal, declared name = some literal →
      (nested (segments literal.toList)).Lacks c) :
    (ofSegment declared nested segment).Lacks c := by
  unfold ofSegment
  cases hs : segment.sense declared with
  | text content =>
    rw [hs] at h
    exact lacks_one h
  | invalid name => exact lacks_stop _
  | literal literal =>
    obtain ⟨name, known⟩ := exists_of_sense_eq_literal hs
    exact lacks_andThen (lacks_one List.not_mem_nil) (hn name literal known)
  | unknown name =>
    rw [hs] at h
    exact lacks_one h

theorem lacks_ofAll {course : Segment → Course} {segments : List Segment}
    (h : ∀ segment ∈ segments, (course segment).Lacks c) : (ofAll course segments).Lacks c := by
  induction segments with
  | nil => exact List.not_mem_nil
  | cons segment rest ih =>
    obtain ⟨first, later⟩ := List.forall_mem_cons.1 h
    exact lacks_andThen first (ih later)

variable (hd : ∀ name literal, declared name = some literal →
  ∀ segment ∈ segments literal.toList, (segment.sense declared).Lacks c)
include hd

/-- If no literal brings such a character in, nothing that is nested does, however deeply. -/
theorem lacks_ofSegments (levels : Nat) {segments : List Segment}
    (h : ∀ segment ∈ segments, (segment.sense declared).Lacks c) :
    (ofSegments declared levels segments).Lacks c := by
  -- The literal of an entity that is referred to is expanded one level further down.
  induction levels generalizing segments with
  | zero =>
    exact lacks_ofAll fun segment hm => lacks_ofSegment (h segment hm) fun _ _ _ => lacks_stop _
  | succ levels ih =>
    exact lacks_ofAll fun segment hm =>
      lacks_ofSegment (h segment hm) fun name literal known => ih (hd name literal known)

/-- Nor does it come in where references are spelled out. -/
theorem notMem_spelled {text : String}
    (h : ∀ segment ∈ segments text.toList, (segment.sense declared).Lacks c) :
    c ∉ (spelled (values declared) text).toList := by
  intro hm
  rw [spelled, String.toList_join] at hm
  obtain ⟨content, hcontent, hm⟩ := List.mem_flatMap.1 hm
  obtain ⟨segment, hsegment, rfl⟩ := List.mem_map.1 hcontent
  have lacks := h segment hsegment
  rw [Segment.spelled_eq] at hm
  cases hs : segment.sense declared with
  | text content =>
    rw [hs] at lacks hm
    exact lacks hm
  | invalid name =>
    rw [hs] at hm
    cases hm
  | literal literal =>
    rw [hs] at hm
    obtain ⟨name, known⟩ := exists_of_sense_eq_literal hs
    exact lacks_ofSegments hd maxDepth (hd name literal known) hm
  | unknown name =>
    rw [hs] at lacks hm
    exact lacks hm

end Course

/-- A break that references spell out stands in the text or in a literal. -/
theorem exists_of_mem_spelled {declarations : Subset.Declarations} {text : String}
    (literals : ∀ entity ∈ declarations.entities, IsUnnumbered entity.2.toList)
    (unnumbered : IsUnnumbered text.toList) (hc : Text.isBreak c = true)
    (h : c ∈ (spelled (values declarations.entity?) text).toList) :
    c ∈ text.toList ∨ ∃ entity ∈ declarations.entities, c ∈ entity.2.toList := by
  by_contra none
  obtain ⟨absent, nowhere⟩ := not_or.1 none
  refine Course.notMem_spelled (fun name literal known => ?_) (lacks_sense hc absent unnumbered) h
  have declared := mem_of_lookup_eq_some known
  exact lacks_sense hc (fun hm => nowhere ⟨_, declared, hm⟩) (literals _ declared)

end Reference

/-! ### Literals and events -/

namespace Subset.Declarations

/-- No literal refers to a character by its number. -/
structure IsUnnumbered (declarations : Declarations) : Prop where
  /-- None of an entity. -/
  entities : ∀ entity ∈ declarations.entities, Reference.IsUnnumbered entity.2.toList
  /-- No default of an attribute. -/
  defaults : ∀ element, ∀ default ∈ declarations.defaults element,
    Reference.IsUnnumbered default.2.toList

/-- No literal has white space in it that is normalized where a source has it. -/
structure IsFlat (declarations : Declarations) : Prop where
  /-- None of an entity. -/
  entities : ∀ entity ∈ declarations.entities, ∀ c ∈ entity.2.toList, Text.isBreak c = false
  /-- No default of an attribute. -/
  defaults : ∀ element, ∀ default ∈ declarations.defaults element, ∀ c ∈ default.2.toList,
    Text.isBreak c = false

/-- Without them in the source there are none in literals from it. -/
theorem CutFrom.isUnnumbered {source : Source} (hs : ¬ source.HasNumericReference)
    {declarations : Declarations} {content : String} (h : declarations.CutFrom content.toList)
    (held : Bytes.encode content <:+: source.bytes) : declarations.IsUnnumbered := by
  have literal : ∀ {literal : String}, literal.toList <:+: content.toList →
      Reference.IsUnnumbered literal.toList := by
    intro literal hl
    have bytes := Bytes.encode_infix hl
    rw [String.ofList_toList] at bytes
    exact Source.isUnnumbered hs (bytes.trans held) (.refl _)
  exact ⟨fun entity hm => literal (h.entities entity hm),
    fun element default hm => literal (h.defaults hm)⟩

end Subset.Declarations

/-- White space is normalized in an event: there are no carriage returns in texts, and neither tabs
nor line ends in the values of attributes. -/
def Event.IsFlat : Event → Prop
  | startElement _ attributes =>
    ∀ attr ∈ attributes, ∀ c ∈ attr.value.toList, Text.isBreak c = false
  | characters text _ | comment text | instruction _ text => '\r' ∉ text.toList
  | _ => True

/-- White space is normalized in an event, apart from what the literals of entities bring into
character data outside CDATA sections and into attributes, and what those of defaults bring into
attributes. -/
def Event.IsNormalized (declarations : Subset.Declarations) : Event → Prop
  | startElement name attributes =>
    ∀ attr ∈ attributes, ∀ c ∈ attr.value.toList, Text.isBreak c = true →
      (∃ entity ∈ declarations.entities, c ∈ entity.2.toList) ∨
        ∃ default ∈ declarations.defaults name, c ∈ default.2.toList
  | characters text flags => '\r' ∈ text.toList →
    flags.cdata = false ∧ ∃ entity ∈ declarations.entities, '\r' ∈ entity.2.toList
  | comment text | instruction _ text => '\r' ∉ text.toList
  | _ => True

namespace Event.IsNormalized

variable {declarations declarations' : Subset.Declarations} {event : Event}

/-- If literals bring nothing in, there is no such white space. -/
theorem isFlat (h : event.IsNormalized declarations) (flat : declarations.IsFlat) :
    event.IsFlat := by
  cases event with
  | startElement name attributes =>
    intro attr ha c hc
    refine Bool.eq_false_iff.2 fun breaks => ?_
    rcases h attr ha c hc breaks with ⟨entity, he, hm⟩ | ⟨default, hd, hm⟩
    · rw [flat.entities entity he c hm] at breaks
      cases breaks
    · rw [flat.defaults name default hd c hm] at breaks
      cases breaks
  | characters text flags =>
    intro hc
    obtain ⟨-, entity, he, hm⟩ := h hc
    cases flat.entities entity he _ hm
  | comment | instruction => exact h
  | _ => trivial

/-- Only content depends on the declarations. -/
theorem of_eq (h : event.IsNormalized declarations)
    (same : event.isStart = true ∨ event.isCharacterData = true → declarations' = declarations) :
    event.IsNormalized declarations' := by
  cases event with
  | startElement name attributes =>
    rw [same (.inl rfl)]
    exact h
  | characters text flags =>
    rw [same (.inr rfl)]
    exact h
  | comment | instruction => exact h
  | _ => trivial

end Event.IsNormalized

/-- Each of the second has one of the first. -/
theorem exists_of_mem_of_forall₂ {α β : Type} {R : α → β → Prop} {as : List α} {bs : List β}
    (h : List.Forall₂ R as bs) {b : β} (hb : b ∈ bs) : ∃ a ∈ as, R a b := by
  induction h with
  | nil => cases hb
  | cons first _ ih =>
    rcases List.mem_cons.1 hb with rfl | hb
    · exact ⟨_, List.mem_cons_self, first⟩
    · obtain ⟨a, ha, related⟩ := ih hb
      exact ⟨a, List.mem_cons_of_mem _ ha, related⟩

section

variable {source : Source} (hs : ¬ source.HasNumericReference)
include hs

/-- A break in an attribute of an element comes from a literal. -/
theorem Tag.IsSpelled.isNormalized {declarations : Subset.Declarations} {tag : Tag} {name : String}
    {attributes : List Event.Attribute}
    (h : tag.IsSpelled (Reference.values declarations.entity?) declarations name attributes)
    (held : tag.content <:+: source.bytes) (known : declarations.IsUnnumbered) :
    (Event.startElement name attributes).IsNormalized declarations := by
  intro attr ha c hc breaks
  obtain ⟨written, defaults, rfl, spelled, byDefault⟩ := h.spelled
  rcases List.mem_append.1 ha with ha | ha
  · obtain ⟨raw, hraw, text, -, decoded, value⟩ := exists_of_mem_of_forall₂ spelled ha
    have encoded := Bytes.eq_encode_of_utf8? decoded
    have bytes := ((Tag.infix_of_mem_attributes hraw).trans held)
    have flat := Text.toList_normalizeAttribute text
    have unnumbered := Source.isUnnumbered hs (encoded ▸ bytes)
      (Text.respaced_flattenSpace text.toList)
    rw [value] at hc
    rw [← flat] at unnumbered
    rcases Reference.exists_of_mem_spelled known.entities unnumbered breaks hc with here | brought
    · rw [flat] at here
      rw [Text.isBreak_of_mem_flattenSpace here] at breaks
      cases breaks
    · exact .inl brought
  · obtain ⟨definition, literal, hd, -, value⟩ := byDefault attr ha
    rw [value] at hc
    rcases Reference.exists_of_mem_spelled known.entities (known.defaults name _ hd) breaks hc with
      here | brought
    · exact .inr ⟨_, hd, here⟩
    · exact .inl brought

/-- A carriage return in a piece of character data comes from a literal. -/
theorem Reader.pieceEvent_isNormalized {declarations : Subset.Declarations}
    {elementsOnly : Bool} {written : String} {pieces : List (Reference.Piece × Reference.Budget)}
    (spelt : Reference.writtenText pieces = Reference.spelled
      (Reference.values declarations.entity?) (Text.normalizeLineEnds written))
    (held : Bytes.encode written <:+: source.bytes) (known : declarations.IsUnnumbered) :
    ∀ piece ∈ pieces, (pieceEvent elementsOnly piece.1).IsNormalized declarations := by
  rintro ⟨piece, budget⟩ hm
  cases piece with
  | reference name => trivial
  | text content =>
    intro hc
    refine ⟨rfl, ?_⟩
    have unnumbered := Source.isUnnumbered hs held (Text.respaced_unifyLineEnds written.toList)
    have joined : Reference.writtenText pieces =
        String.join (pieces.map fun piece => piece.1.written) := by
      rw [Reference.writtenText, String.join, List.foldl_map]
    have spelledOut : '\r' ∈ (Reference.writtenText pieces).toList := by
      rw [joined, String.toList_join]
      exact List.mem_flatMap.2 ⟨content, List.mem_map.2 ⟨_, hm, rfl⟩, hc⟩
    rw [spelt] at spelledOut
    rw [← Text.toList_normalizeLineEnds] at unnumbered
    rcases Reference.exists_of_mem_spelled known.entities unnumbered rfl spelledOut with
      here | brought
    · exact absurd here (Text.return_notMem_normalizeLineEnds _)
    · exact brought

end

/-! ### Reading -/

namespace Reader

open Delivery

variable {σ : Type} {sink : Sink σ} {reader reader' reader'' : Reader} {events later : List Event}

/-- What comes of some reading: the events that were delivered are normalized, by the declarations
that are known after them. -/
structure Normalizes (reader reader' : Reader) (events : List Event) : Prop where
  /-- Elements are open in the document element only. -/
  opens : reader'.openElements ≠ [] → reader'.seenRoot = true
  /-- Once the document element has begun, it has, and the declarations stay. -/
  begun : reader.seenRoot = true →
    reader'.seenRoot = true ∧ reader'.declarations = reader.declarations
  /-- There is content in it only. -/
  content : ∀ event ∈ events, event.isStart = true ∨ event.isCharacterData = true →
    reader'.seenRoot = true
  /-- No literal refers to a character by its number. -/
  unnumbered : reader'.declarations.IsUnnumbered
  /-- White space is normalized. -/
  normalized : ∀ event ∈ events, event.IsNormalized reader'.declarations

namespace Normalizes

/-- Nothing was delivered and nothing has changed. -/
theorem refl (opens : reader.openElements ≠ [] → reader.seenRoot = true)
    (unnumbered : reader.declarations.IsUnnumbered) : reader.Normalizes reader [] where
  opens := opens
  begun seen := ⟨seen, rfl⟩
  content := List.forall_mem_nil _
  unnumbered := unnumbered
  normalized := List.forall_mem_nil _

theorem append (h : reader.Normalizes reader' events) (h' : reader'.Normalizes reader'' later) :
    reader.Normalizes reader'' (events ++ later) where
  opens := h'.opens
  begun seen := by
    obtain ⟨seen', same⟩ := h.begun seen
    obtain ⟨seen'', same'⟩ := h'.begun seen'
    exact ⟨seen'', same'.trans same⟩
  content event hm content := by
    rcases List.mem_append.1 hm with hm | hm
    · exact (h'.begun (h.content event hm content)).1
    · exact h'.content event hm content
  unnumbered := h'.unnumbered
  normalized event hm := by
    rcases List.mem_append.1 hm with hm | hm
    · -- After content the document element has begun, and declarations do not change any more.
      exact (h.normalized event hm).of_eq fun content =>
        (h'.begun (h.content event hm content)).2
    · exact h'.normalized event hm

/-- One event is delivered, and little changes. -/
theorem of_single {event : Event} (opens : reader'.openElements ≠ [] → reader'.seenRoot = true)
    (root : reader'.seenRoot = reader.seenRoot)
    (known : reader'.declarations = reader.declarations)
    (unnumbered : reader.declarations.IsUnnumbered)
    (content : event.isStart = true ∨ event.isCharacterData = true → reader.seenRoot = true)
    (normalized : event.IsNormalized reader.declarations) :
    reader.Normalizes reader' [event] where
  opens := opens
  begun seen := ⟨root.trans seen, known⟩
  content := List.forall_mem_singleton.2 fun h => root.trans (content h)
  unnumbered := known ▸ unnumbered
  normalized := List.forall_mem_singleton.2 (known ▸ normalized)

/-- It is one that is no content. -/
theorem of_mark {event : Event} (opens : reader'.openElements ≠ [] → reader'.seenRoot = true)
    (root : reader'.seenRoot = reader.seenRoot)
    (known : reader'.declarations = reader.declarations)
    (unnumbered : reader.declarations.IsUnnumbered)
    (mark : (event.isStart || event.isCharacterData) = false)
    (normalized : event.IsNormalized reader.declarations) :
    reader.Normalizes reader' [event] := by
  refine .of_single opens root known unnumbered (fun content => ?_) normalized
  rw [Bool.or_eq_true_iff.2 content] at mark
  cases mark

/-- An element begins. -/
theorem of_element {name : String} {attributes : List Event.Attribute}
    (root : reader'.seenRoot = true) (known : reader'.declarations = reader.declarations)
    (unnumbered : reader.declarations.IsUnnumbered)
    (normalized : (Event.startElement name attributes).IsNormalized reader.declarations) :
    reader.Normalizes reader' [.startElement name attributes] where
  opens _ := root
  begun _ := ⟨root, known⟩
  content _ _ _ := root
  unnumbered := known ▸ unnumbered
  normalized := List.forall_mem_singleton.2 (known ▸ normalized)

end Normalizes

section

variable {source : Source} (hs : ¬ source.HasNumericReference)
include hs

/-- White space is normalized in what a token from the source is delivered as. -/
theorem Renders.normalizes {token : Token} (h : Renders reader token reader' events)
    (held : token.bytes <:+: source.bytes)
    (seen : reader.openElements ≠ [] → reader.seenRoot = true)
    (known : reader.declarations.IsUnnumbered) : reader.Normalizes reader' events := by
  cases h with
  | start spelt => exact .of_element rfl rfl known (spelt.isNormalized hs held known)
  | @empty tag name attributes budget spelt =>
    have begins : reader.Normalizes { reader with seenRoot := true, budget } _ :=
      .of_element rfl rfl known (spelt.isNormalized hs held known)
    exact begins.append (.of_single begins.opens rfl rfl known (fun _ => rfl) trivial)
  | close =>
    refine .of_mark (fun more => seen fun none => more ?_) rfl rfl known rfl trivial
    show reader.openElements.tail = []
    rw [none]
    rfl
  | blank | doctype => exact { Normalizes.refl seen known with }
  | text decoded inside _ spelt =>
    have begun : reader.seenRoot = true := seen (by rw [inside]; exact List.cons_ne_nil _ _)
    have held := Bytes.eq_encode_of_utf8? decoded ▸ held
    refine ⟨fun _ => begun, fun _ => ⟨begun, rfl⟩, fun _ _ _ => begun, known, fun event hm => ?_⟩
    obtain ⟨piece, hp, rfl⟩ := List.mem_map.1 hm
    exact pieceEvent_isNormalized hs spelt held known piece hp
  | cdata _ inside =>
    exact .of_single seen rfl rfl known (fun _ => seen inside) fun hc =>
      absurd hc (Text.return_notMem_normalizeLineEnds _)
  | comment | instruction =>
    exact .of_mark seen rfl rfl known rfl (Text.return_notMem_normalizeLineEnds _)
  | subset unseen decoded _ cut =>
    -- Literals in a declaration that is in the source are in the source.
    have held := Bytes.eq_encode_of_utf8? decoded ▸ held
    refine ⟨seen, fun begun => ?_, fun event hm content => ?_, cut.isUnnumbered hs held,
      fun event hm => ?_⟩
    · cases unseen.symm.trans begun
    · obtain ⟨entity, -, rfl⟩ := List.mem_map.1 hm
      rcases content with no | no <;> cases no
    · obtain ⟨entity, -, rfl⟩ := List.mem_map.1 hm
      trivial
  | declaration => exact .refl seen known

/-- So it is in the events of some tokens. -/
theorem yields_readTokens_normalized (patience : Nat) {tokens : List (Nat × Token)}
    (held : ∀ token ∈ tokens, token.2.bytes <:+: source.bytes)
    (seen : reader.openElements ≠ [] → reader.seenRoot = true)
    (known : reader.declarations.IsUnnumbered) :
    Yields sink (readTokens sink patience tokens) reader
      fun _ reader' events => reader.Normalizes reader' events := by
  induction tokens generalizing reader with
  | nil => exact .pure () (.refl seen known)
  | cons token rest ih =>
    obtain ⟨position, token⟩ := token
    obtain ⟨first, later⟩ := List.forall_mem_cons.1 held
    refine (yields_renders patience position token seen).bind fun _ reader' events renders => ?_
    have h := renders.normalizes hs first seen known
    exact (ih later h.opens h.unnumbered).mono fun _ _ _ h' => h.append h'

/-- So it is in all events of a source. -/
theorem yields_readDocument_normalized (patience limit : Nat) :
    Yields sink (readDocument sink patience source.tokens) (start limit)
      fun _ reader' events => (start limit).Normalizes reader' events := by
  have seen : (start limit).openElements ≠ [] → (start limit).seenRoot = true :=
    fun none => absurd rfl none
  have known : (start limit).declarations.IsUnnumbered :=
    ⟨List.forall_mem_nil _, fun _ => List.forall_mem_nil _⟩
  have held : ∀ token ∈ source.tokens.tokens, token.2.bytes <:+: source.bytes :=
    fun _ hm => Source.infix_of_mem_tokens hm
  refine (yields_deliver _).bind ?_
  rintro _ _ _ ⟨rfl, rfl⟩
  have begins : (start limit).Normalizes (start limit) [.startDocument] :=
    .of_mark seen rfl rfl known rfl trivial
  refine (yields_readTokens_normalized hs patience held seen known).bind fun _ _ _ h => ?_
  refine (yields_finish _).mono ?_
  rintro _ _ _ ⟨rfl, -, rfl⟩
  rw [← List.append_assoc]
  exact (begins.append h).append (.of_mark h.opens rfl rfl h.unnumbered rfl trivial)

end

/-- White space is normalized in all that a receiver was given. -/
structure Result.IsNormalized (result : Result (σ × List Call)) : Prop where
  /-- It is, apart from what the literals of entities and the defaults of attributes bring in. -/
  normalized : ∀ call ∈ result.state.2, call.event.IsNormalized result.reader.declarations
  /-- If they bring none in, all of it is. -/
  flat : result.reader.declarations.IsFlat → ∀ call ∈ result.state.2, call.event.IsFlat

end Reader

end XmlTable
