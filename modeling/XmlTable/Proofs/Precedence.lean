import XmlTable.Proofs.Items
import XmlTable.Proofs.Pieces
import XmlTable.Proofs.Substitution

/-!
# Which declaration of an entity decides

Of several literals that are given to an entity the first one is kept. A declaration that binds an
entity to a place outside the document is passed over with a warning, so that it decides nothing: a
literal that is given later is kept nevertheless. The first declaration of every entity decides
unless some entity is bound so first and to a literal later. Entities without a literal stay as they
are written wherever they are referred to.
-/

namespace XmlTable

namespace Reference

/-! ### References without a value -/

variable {declared : String → Option String} {name : String}

/-- References to an entity are not expanded: in each text that the budget suffices for they stand
between what comes before and what comes after them. -/
def StaysWritten (declared : String → Option String) (name : String) : Prop :=
  ∀ before after budget, Suffices declared budget (before ++ "&" ++ name ++ ";" ++ after) →
    (Succeeds declared budget (before ++ "&" ++ name ++ ";" ++ after) ↔
      Succeeds declared budget before ∧ Succeeds declared budget after) ∧
    ∀ first last, (decodeToString declared budget before).1 = .ok first →
      (decodeToString declared budget after).1 = .ok last →
      (decodeToString declared budget (before ++ "&" ++ name ++ ";" ++ after)).1 =
          .ok (first ++ "&" ++ name ++ ";" ++ last) ∧
        .reference name ∈
          (decode declared budget (before ++ "&" ++ name ++ ";" ++ after)).pieces.map (·.1)

/-- A reference to an entity without a value stands for itself. -/
theorem IsGeneral.sense_eq_unknown (h : IsGeneral name) (missing : declared name = none) :
    (Segment.reference name.toList).sense declared = .unknown name := by
  rw [Segment.sense, String.ofList_toList, h.own, missing]
  intro digits same
  exact h.unnumbered (by rw [same]; rfl)

/-- The course of a text with such a reference is those of its parts, with the reference between
them. -/
theorem ofText_unknown (isName : IsName name.toList) (general : IsGeneral name)
    (missing : declared name = none) (before after : String) :
    Course.ofText declared (before ++ "&" ++ name ++ ";" ++ after) =
      (Course.ofText declared before).andThen
        ((Course.one (.reference name)).andThen (Course.ofText declared after)) := by
  have parts : segments (before ++ "&" ++ name ++ ";" ++ after).toList =
      segments before.toList ++ .reference name.toList :: segments after.toList := by
    rw [← segments_append_reference isName]
    simp
  have reference : Course.ofSegment declared (Course.ofSegments declared 15)
      (.reference name.toList) = Course.one (.reference name) := by
    rw [Course.ofSegment, general.sense_eq_unknown missing]
  show Course.ofAll (Course.ofSegment declared (Course.ofSegments declared 15)) (segments _) = _
  rw [parts, Course.ofAll_append, Course.ofAll, reference]
  rfl

/-- A reference among some steps is a piece of what they make up. -/
theorem Step.mem_pieces {steps : List Step} (h : .reference name ∈ steps) (pending : String) :
    .reference name ∈ pieces pending steps := by
  induction steps generalizing pending with
  | nil => cases h
  | cons step rest ih =>
    cases step with
    | text content =>
      exact ih ((List.mem_cons.1 h).resolve_left nofun) _
    | payment literal =>
      exact ih ((List.mem_cons.1 h).resolve_left nofun) _
    | reference other =>
      refine List.mem_append_right _ ?_
      rcases List.mem_cons.1 h with ⟨⟨⟩⟩ | later
      · exact List.mem_cons_self
      · exact List.mem_cons_of_mem _ (ih later "")

section

variable (isName : IsName name.toList) (general : IsGeneral name) (missing : declared name = none)

include isName general missing

theorem fault_ofText_unknown_eq_none_iff {before after : String} :
    (Course.ofText declared (before ++ "&" ++ name ++ ";" ++ after)).fault = none ↔
      (Course.ofText declared before).fault = none ∧
        (Course.ofText declared after).fault = none := by
  have alone : (Course.one (.reference name)).fault = none := rfl
  rw [ofText_unknown isName general missing, Course.fault_andThen_eq_none_iff,
    Course.fault_andThen_eq_none_iff]
  exact and_congr_right fun _ => and_iff_right alone

/-- Such a reference costs nothing. -/
theorem cost_ofText_unknown {before : String}
    (faultless : (Course.ofText declared before).fault = none) (after : String) :
    (Course.ofText declared (before ++ "&" ++ name ++ ";" ++ after)).cost =
      (Course.ofText declared before).cost + (Course.ofText declared after).cost := by
  have alone : (Course.one (.reference name)).fault = none := rfl
  have free : (Course.one (.reference name)).cost = 0 := rfl
  rw [ofText_unknown isName general missing, Course.cost_andThen faultless,
    Course.cost_andThen alone, free, Nat.zero_add]

/-- A text with such a reference is expanded if its parts are. -/
theorem succeeds_unknown_iff {before after : String} {budget : Budget}
    (enough : Suffices declared budget (before ++ "&" ++ name ++ ";" ++ after)) :
    Succeeds declared budget (before ++ "&" ++ name ++ ";" ++ after) ↔
      Succeeds declared budget before ∧ Succeeds declared budget after := by
  simp only [succeeds_iff]
  constructor
  · rintro ⟨faultless, enough⟩
    obtain ⟨first, last⟩ := (fault_ofText_unknown_eq_none_iff isName general missing).1 faultless
    rw [cost_ofText_unknown isName general missing first] at enough
    exact ⟨⟨first, by omega⟩, last, by omega⟩
  · rintro ⟨⟨first, -⟩, last, -⟩
    exact ⟨(fault_ofText_unknown_eq_none_iff isName general missing).2 ⟨first, last⟩,
      enough.cost_le⟩

/-- A reference to an entity without a value is not expanded. -/
theorem staysWritten : StaysWritten declared name := by
  intro before after budget enough
  have whole := succeeds_unknown_iff isName general missing enough
  refine ⟨whole, fun first last given given' => ?_⟩
  obtain ⟨result, told⟩ := whole.2 ⟨⟨_, given⟩, _, given'⟩
  have faultless := (succeeds_iff.1 ⟨result, told⟩).1
  have course := ofText_unknown isName general missing before after
  have alone : (Course.one (.reference name)).fault = none := rfl
  obtain ⟨⟨first, -⟩, rfl, -⟩ := decodeToString_eq_ok_iff.1 (Prod.ext given rfl)
  obtain ⟨-, rfl, -⟩ := decodeToString_eq_ok_iff.1 (Prod.ext given' rfl)
  obtain ⟨-, rfl, -⟩ := decodeToString_eq_ok_iff.1 (Prod.ext told rfl)
  refine ⟨?_, ?_⟩
  · have reference : Step.writtenText (Course.one (.reference name)).steps =
        "&" ++ name ++ ";" := String.append_empty
    rw [told, course, Course.writtenText_andThen first, Course.writtenText_andThen alone, reference]
    simp only [String.append_assoc]
  · have decoded :
        (decode declared budget (before ++ "&" ++ name ++ ";" ++ after)).fault = none := by
      rw [decode_fault, Course.ending_eq_none_iff]
      exact ⟨faultless, enough.cost_le⟩
    rw [map_pieces_decode _ _ _ decoded, course, Course.steps_andThen first,
      Course.steps_andThen alone]
    exact Step.mem_pieces (List.mem_append_right _ List.mem_cons_self) ""

end

end Reference

namespace Subset

open Text (startsWith)

variable {cs ds rest space : List Char} {name : String}

/-! ### Declarations of entities -/

/-- What a declaration binds an entity to. -/
inductive Binding where
  /-- A literal in the declaration. -/
  | literal (value : String)
  /-- A place outside the document. -/
  | external
  deriving DecidableEq, Repr

/-- The literal that an entity is bound to. -/
def Binding.value? : Binding → Option String
  | literal value => some value
  | external => none

/-- The literal that a declaration gives an entity. -/
def boundLiteral? (entity : String × Binding) : Option (String × String) :=
  entity.2.value?.map fun value => (entity.1, value)

/-- What an entity is bound to, as it is written: a place may have a format after it. -/
inductive BindingWritten : Binding → List Char → Prop
  | literal {value : String} {cs : List Char} : Quoted value cs → BindingWritten (.literal value) cs
  | parsed {cs : List Char} : FormatWritten cs → BindingWritten .external cs
  | unparsed {format : String} {gap gap' cs : List Char} : FormatWritten cs → IsGap gap →
    IsGap gap' → IsName format →
    BindingWritten .external (cs ++ (gap ++ ("NDATA".toList ++ (gap' ++ format.toList))))

/-- The declaration of an entity as it is written. -/
inductive EntityWritten : String × Binding → List Char → Prop
  | mk {name : String} {binding : Binding} {gap gap' cs space : List Char} : IsGap gap →
    IsName name → IsGap gap' → BindingWritten binding cs → IsSpace space →
    EntityWritten (name, binding) ('<' :: '!' :: ("ENTITY".toList ++
      (gap ++ (name.toList ++ (gap' ++ (cs ++ space)))) ++ ['>']))

/-- Declarations of entities in order, as they are written, with white space around them and items
between them that declare nothing. -/
inductive EntitiesWritten : List (String × Binding) → List Char → Prop
  | nil {space : List Char} : IsSpace space → EntitiesWritten [] space
  | passed {entities : List (String × Binding)} {space item cs : List Char} : IsSpace space →
    IsPassedOver item → EntitiesWritten entities cs →
    EntitiesWritten entities (space ++ (item ++ cs))
  | entity {entity : String × Binding} {entities : List (String × Binding)}
    {space item cs : List Char} : IsSpace space → EntityWritten entity item →
    EntitiesWritten entities cs → EntitiesWritten (entity :: entities) (space ++ (item ++ cs))

theorem FormatWritten.exists_keyword (h : FormatWritten cs) : ∃ more,
    cs = "SYSTEM".toList ++ more ∨ cs = "PUBLIC".toList ++ more := by
  cases h with
  | system => exact ⟨_, .inl rfl⟩
  | identified | located => exact ⟨_, .inr rfl⟩

theorem BindingWritten.exists_keyword (h : BindingWritten .external cs) : ∃ more,
    cs = "SYSTEM".toList ++ more ∨ cs = "PUBLIC".toList ++ more := by
  cases h with
  | parsed format => exact format.exists_keyword
  | unparsed format =>
    obtain ⟨more, rfl | rfl⟩ := format.exists_keyword
    · exact ⟨_, .inl (List.append_assoc ..)⟩
    · exact ⟨_, .inr (List.append_assoc ..)⟩

theorem BindingWritten.closed {binding : Binding} (h : BindingWritten binding cs) : Closed cs := by
  cases h with
  | literal quoted => exact quoted.closed
  | parsed format => exact format.closed
  | unparsed format hg hg' hn =>
    have keyword : Closed "NDATA".toList := .of_all (by decide)
    exact format.closed.append (hg.isSpace.closed.append (keyword.append
      (hg'.isSpace.closed.append hn.closed)))

/-- What some declarations of entities record: the first literal of each. -/
def recorded (entities : List (String × Binding)) : Declarations where
  entities := firsts (·.1) (entities.filterMap boundLiteral?)

/-- The warning of a declaration after others. -/
def warning? (before : List (String × Binding)) : String × Binding → Option String
  | (name, .literal _) =>
    if (before.filterMap boundLiteral?).any (·.1 = name) then
      some ("entity '" ++ name ++ "' declared more than once")
    else none
  | (name, .external) => some ("external entity '" ++ name ++ "' is not loaded")

/-- The warnings of declarations after others. -/
def warningsAfter (before : List (String × Binding)) : List (String × Binding) → List Report
  | [] => []
  | entity :: rest =>
    ((warning? before entity).map Report.warning).toList ++ warningsAfter (before ++ [entity]) rest

theorem declareEntity_external {gap gap' : List Char} (hg : IsGap gap) (hn : IsName name)
    (hg' : IsGap gap') (h : BindingWritten .external cs) (rest : List Char)
    (declarations : Declarations) :
    declareEntity (gap ++ (name.toList ++ (gap' ++ (cs ++ rest)))) declarations =
      .ok ⟨declarations, some ("external entity '" ++ name ++ "' is not loaded")⟩ := by
  have first := skipSpace_append hg.isSpace (hn.isSetOff (gap' ++ (cs ++ rest)))
  have general : startsWith (name.toList ++ (gap' ++ (cs ++ rest))) "%" = false :=
    hn.not_startsWith _ rfl (by decide)
  have word := readName?_append hn (hg'.endsName (cs ++ rest))
  have apart := hg'.beginsWithSpace (cs ++ rest)
  obtain ⟨more, keyword⟩ := h.exists_keyword
  have setOff : IsSetOff (cs ++ rest) := by
    rcases keyword with rfl | rfl
    · rintro _ ⟨⟩
      decide
    · rintro _ ⟨⟩
      decide
  have second := skipSpace_append hg'.isSpace setOff
  have outside : (startsWith (cs ++ rest) "SYSTEM" || startsWith (cs ++ rest) "PUBLIC") = true := by
    rw [Bool.or_eq_true]
    refine keyword.imp ?_ ?_ <;>
    · rintro rfl
      rw [List.append_assoc]
      exact startsWith_append _ _
  simp only [declareEntity, first, general, word, apart, second, outside]
  rfl

theorem recorded_literal (before : List (String × Binding)) (name value : String) :
    recorded (before ++ [(name, .literal value)]) =
      if (before.filterMap boundLiteral?).any (·.1 = name) then recorded before
      else { recorded before with entities := (recorded before).entities ++ [(name, value)] } := by
  have literals : (before ++ [(name, Binding.literal value)]).filterMap boundLiteral? =
      before.filterMap boundLiteral? ++ [(name, value)] := by
    rw [List.filterMap_append]
    rfl
  rw [recorded, literals, firsts_concat]
  split <;> rfl

theorem recorded_external (before : List (String × Binding)) (name : String) :
    recorded (before ++ [(name, .external)]) = recorded before := by
  have literals : (before ++ [(name, Binding.external)]).filterMap boundLiteral? =
      before.filterMap boundLiteral? := by
    rw [List.filterMap_append]
    exact List.append_nil _
  rw [recorded, literals]
  rfl

/-- What a declaration of an entity declares is recorded. -/
theorem BindingWritten.declare {binding : Binding} {gap gap' : List Char}
    (h : BindingWritten binding cs) (hg : IsGap gap) (hn : IsName name) (hg' : IsGap gap')
    (hs : IsSpace space) (before : List (String × Binding)) :
    declare "ENTITY" (gap ++ (name.toList ++ (gap' ++ (cs ++ space)))) (recorded before) =
      .ok ⟨recorded (before ++ [(name, binding)]), warning? before (name, binding)⟩ := by
  cases binding with
  | external =>
    rw [recorded_external]
    exact declareEntity_external hg hn hg' h space _
  | literal value =>
    cases h with
    | literal quoted =>
      have known : ((recorded before).entity? name).isSome =
          (before.filterMap boundLiteral?).any (·.1 = name) := by
        rw [Declarations.entity?, recorded, isSome_lookup_iff, any_firsts]
      refine ((BodyWritten.entity hg hn hg' quoted hs).declare (recorded before)).trans ?_
      have read : (Declaration.entity name value).asRead = .entity name value := rfl
      rw [read, Declaration.declared, known, recorded_literal, warning?]
      split <;> rfl

/-! ### Scanning declarations of entities -/

/-- A declaration is read as its binding says, and the handler is warned. -/
theorem EntityWritten.exists_readsAs {entity : String × Binding} (h : EntityWritten entity cs) :
    IsItem cs ∧ ∃ read, ReadsAs cs read ∧ ∀ position before (journal : Journal),
      (read position (recorded before)).run.run journal =
        (.ok (recorded (before ++ [entity])),
          journal.tell ((warning? before entity).map Report.warning).toList) := by
  obtain @⟨name, binding, gap, gap', cs, space, hg, hn, hg', hb, hs⟩ := h
  have keyword : Closed "ENTITY".toList := .of_all (by decide)
  have closed : Closed ("ENTITY".toList ++ (gap ++ (name.toList ++ (gap' ++ (cs ++ space))))) :=
    keyword.append (hg.isSpace.closed.append (hn.closed.append (hg'.isSpace.closed.append
      (hb.closed.append hs.closed))))
  have unmarked : ¬ ['-', '-'] <+:
      "ENTITY".toList ++ (gap ++ (name.toList ++ (gap' ++ (cs ++ space)))) := by
    intro begins
    cases (List.cons_prefix_cons.1 begins).1
  refine ⟨.declaration (.mk closed unmarked), _, readsAs_declaration closed unmarked,
    fun position before journal => ?_⟩
  have isName : IsName "ENTITY" := by decide
  have parts := takeWhile_append_of_head isName.chars
    (hg.endsName (name.toList ++ (gap' ++ (cs ++ space))))
  rw [parts.1, parts.2, String.ofList_toList, readDeclaration, hb.declare hg hn hg' hs]
  dsimp only
  rw [Scanning.run_bind, run_warn]
  rfl

/-- Declarations of entities that were written are read in order. -/
theorem EntitiesWritten.run_scanFrom {entities : List (String × Binding)}
    (h : EntitiesWritten entities cs) {base total fuel : Nat} (enough : cs.length < fuel)
    (before : List (String × Binding)) (journal : Journal) :
    (scanFrom base total fuel (recorded before) cs).run.run journal =
      (.ok (recorded (before ++ entities)), journal.tell (warningsAfter before entities)) := by
  induction h generalizing fuel before journal with
  | @nil space hs =>
    obtain ⟨fuel, rfl⟩ := Nat.exists_eq_succ_of_ne_zero (Nat.ne_of_gt (Nat.zero_lt_of_lt enough))
    rw [run_scanFrom_succ, skipSpace_of_isSpace hs, List.append_nil, warningsAfter,
      Journal.tell_nil]
    rfl
  | @passed entities space item cs hs isPassed _ ih =>
    obtain ⟨fuel, rfl⟩ := Nat.exists_eq_succ_of_ne_zero (Nat.ne_of_gt (Nat.zero_lt_of_lt enough))
    have isItem : IsItem item := .passed isPassed
    have positive := List.length_pos_iff.2 isItem.ne_nil
    rw [List.length_append, List.length_append] at enough
    rw [isPassed.readsAs.scanFrom hs (isItem.isSetOff cs) isItem.ne_nil rfl, pure_bind]
    exact ih (by omega) before journal
  | @entity entity entities space item cs hs written _ ih =>
    obtain ⟨fuel, rfl⟩ := Nat.exists_eq_succ_of_ne_zero (Nat.ne_of_gt (Nat.zero_lt_of_lt enough))
    obtain ⟨isItem, read, reads, run⟩ := written.exists_readsAs
    have positive := List.length_pos_iff.2 isItem.ne_nil
    rw [List.length_append, List.length_append] at enough
    rw [reads.scanFrom hs (isItem.isSetOff cs) isItem.ne_nil rfl, Scanning.run_bind, run]
    dsimp only
    rw [ih (by omega) (before ++ [entity]), warningsAfter, Journal.tell_append, List.append_assoc]
    rfl

theorem EntitiesWritten.run_scan {entities : List (String × Binding)} {subset : String}
    (h : EntitiesWritten entities subset.toList) (patience base : Nat) (journal : Journal) :
    (scan patience base subset).run.run journal =
      (.ok (recorded entities), journal.tell (warningsAfter [] entities)) := by
  have enough : subset.toList.length < subset.toList.length + patience + 1 := by omega
  exact h.run_scanFrom enough [] journal

/-! ### What is recorded -/

/-- The first declaration of an entity decides: it is recorded with the literal that it is bound to
first, and not at all if it is bound to a place outside. -/
def FirstDecides (declarations : Declarations) (entities : List (String × Binding))
    (name : String) : Prop :=
  declarations.entity? name = (entities.lookup name).bind Binding.value?

theorem entity?_recorded (entities : List (String × Binding)) (name : String) :
    (recorded entities).entity? name = (entities.filterMap boundLiteral?).lookup name :=
  lookup_firsts _ name

theorem lookup_boundLiterals {entities : List (String × Binding)} {value : String}
    (h : entities.lookup name = some (.literal value)) :
    (entities.filterMap boundLiteral?).lookup name = some value := by
  induction entities with
  | nil => cases h
  | cons entity rest ih =>
    obtain ⟨other, binding⟩ := entity
    rw [List.lookup_cons] at h
    by_cases same : name = other
    · subst same
      rw [beq_self_eq_true] at h
      cases h
      rw [List.filterMap_cons]
      exact List.lookup_cons_self
    · rw [beq_false_of_ne same] at h
      cases binding with
      | external => exact ih h
      | literal value' =>
        rw [List.filterMap_cons]
        show List.lookup name ((other, value') :: _) = _
        rw [List.lookup_cons, beq_false_of_ne same]
        exact ih h

theorem lookup_boundLiterals_eq_none_iff {entities : List (String × Binding)} :
    (entities.filterMap boundLiteral?).lookup name = none ↔
      ¬ ∃ value, (name, .literal value) ∈ entities := by
  rw [List.lookup_eq_none_iff]
  constructor
  · rintro missing ⟨value, given⟩
    have other := missing (name, value) (List.mem_filterMap.2 ⟨_, given, rfl⟩)
    exact bne_iff_ne.1 other rfl
  · rintro missing ⟨other, value⟩ found
    obtain ⟨⟨other, binding⟩, given, bound⟩ := List.mem_filterMap.1 found
    cases binding with
    | external => cases bound
    | literal value =>
      cases bound
      refine bne_iff_ne.2 ?_
      rintro rfl
      exact missing ⟨value, given⟩

/-- The first declaration decides unless it binds the entity to a place outside and a literal is
given later. -/
theorem firstDecides_iff (entities : List (String × Binding)) (name : String) :
    FirstDecides (recorded entities) entities name ↔
      ¬ (entities.lookup name = some .external ∧
        ∃ value, (name, .literal value) ∈ entities) := by
  rw [FirstDecides, entity?_recorded]
  cases first : entities.lookup name with
  | none =>
    refine iff_of_true (lookup_boundLiterals_eq_none_iff.2 ?_) nofun
    rintro ⟨value, given⟩
    exact bne_iff_ne.1 (List.lookup_eq_none_iff.1 first _ given) rfl
  | some binding =>
    cases binding with
    | literal value => exact iff_of_true (lookup_boundLiterals first) nofun
    | external =>
      rw [Option.bind_some, Binding.value?, lookup_boundLiterals_eq_none_iff]
      exact not_congr (and_iff_right rfl).symm

/-- The characters of names may stand in references. -/
theorem IsName.inReference (h : IsName name) : Reference.IsName name.toList where
  ne_nil := h.ne_nil
  all := by
    refine List.all_eq_true.2 fun c hc => ?_
    have other : ∀ d, isNameChar d = false → c ≠ d := fun d hd =>
      ne_of_holds isNameChar (h.chars c hc) hd
    simp [Reference.isNameChar, other ' ' (by decide), other '\t' (by decide),
      other '\r' (by decide), other '\n' (by decide), other '&' (by decide),
      other '<' (by decide), other ';' (by decide)]

/-- Declarations of entities that were written are read without a failure, with a warning of each
that decides nothing. What is recorded are the literals, the first of each entity. So the first
declaration decides, unless it binds the entity to a place outside and a literal is given later.
References to an entity for which nothing is recorded are not expanded, unless it is predefined. -/
theorem first_literals_decide {subset : String} {entities : List (String × Binding)}
    (h : EntitiesWritten entities subset.toList) (journal : Journal) (patience base : Nat) :
    ∃ declarations,
      (scan patience base subset).run.run journal =
        (.ok declarations, journal.tell (warningsAfter [] entities)) ∧
      declarations = { entities := firsts (·.1) (entities.filterMap boundLiteral?) } ∧
      (∀ name, FirstDecides declarations entities name ↔
        ¬ (entities.lookup name = some .external ∧
          ∃ value, (name, .literal value) ∈ entities)) ∧
      ∀ name, IsName name → Entity.predefined.lookup name = none →
        declarations.entity? name = none → Reference.StaysWritten declarations.entity? name := by
  refine ⟨recorded entities, h.run_scan patience base journal, rfl, firstDecides_iff entities,
    fun name isName own missing => ?_⟩
  refine Reference.staysWritten isName.inReference ⟨fun sign => ?_, own⟩ missing
  exact absurd (isName.chars '#' (List.mem_of_mem_head? sign)) (by decide)

/-- An entity is bound to a literal and then to a place outside, another one to a place with a
format. A comment between them has a quotation mark. -/
theorem first_literals_decide_of_unparsed_entity :
    let entities := [("e", .literal "1"), ("e", .external), ("f", .external)]
    EntitiesWritten entities
      "<!ENTITY e '1'><!ENTITY e SYSTEM 'x'><!--'--><!ENTITY f PUBLIC '' 'y' NDATA n>".toList ∧
    ∃ declarations : Declarations, declarations.entities = [("e", "1")] ∧
      FirstDecides declarations entities "e" ∧ FirstDecides declarations entities "f" ∧
      Reference.StaysWritten declarations.entity? "f" := by
  intro entities
  have none : IsSpace [] := nofun
  have gap : IsGap [' '] := ⟨by decide, List.cons_ne_nil _ _⟩
  have e : IsName "e" := by decide
  have f : IsName "f" := by decide
  have quoted : ∀ {value : String}, '\'' ∉ value.toList → Quoted value _ := .mk (.inr rfl)
  have literal : BindingWritten (.literal "1") "'1'".toList := .literal (quoted (by decide))
  have x : Quoted "x" "'x'".toList := quoted (by decide)
  have system : BindingWritten .external "SYSTEM 'x'".toList := .parsed (.system gap x)
  have p : Quoted "" "''".toList := quoted (by decide)
  have y : Quoted "y" "'y'".toList := quoted (by decide)
  have identified : FormatWritten "PUBLIC '' 'y'".toList := .located gap p gap y
  have unparsed : BindingWritten .external "PUBLIC '' 'y' NDATA n".toList :=
    .unparsed identified gap gap (by decide : IsName "n")
  have goesOn : ¬ EndsComment ['\''] := by
    rw [EndsComment]
    decide
  have comment : IsPassedOver "<!--'-->".toList := .comment ⟨by decide, by decide⟩ goesOn
  have written : EntitiesWritten entities
      "<!ENTITY e '1'><!ENTITY e SYSTEM 'x'><!--'--><!ENTITY f PUBLIC '' 'y' NDATA n>".toList :=
    .entity none (.mk gap e gap literal none) (.entity none (.mk gap e gap system none)
      (.passed none comment (.entity none (.mk gap f gap unparsed none) (.nil none))))
  refine ⟨written, ?_⟩
  obtain ⟨declarations, -, rfl, decides, stays⟩ :=
    first_literals_decide written { handler := .strict } 0 0
  refine ⟨_, by decide, (decides "e").2 ?_, (decides "f").2 ?_,
    stays "f" f (by decide) (by decide)⟩
  · rintro ⟨⟨⟩, -⟩
  · rintro ⟨-, value, given⟩
    simp [entities] at given

/-- A literal is recorded although the entity is bound to a place outside before. -/
theorem literal_is_recorded_after_external :
    let entities := [("e", .external), ("e", .literal "1")]
    EntitiesWritten entities "<!ENTITY e SYSTEM 'x'><!ENTITY e '1'>".toList ∧
      ((scan 0 0 "<!ENTITY e SYSTEM 'x'><!ENTITY e '1'>").run.run { handler := .lenient }).1 =
        .ok { entities := [("e", "1")] } ∧
      ¬ FirstDecides { entities := [("e", "1")] } entities "e" := by
  intro entities
  have none : IsSpace [] := nofun
  have gap : IsGap [' '] := ⟨by decide, List.cons_ne_nil _ _⟩
  have e : IsName "e" := by decide
  have quoted : ∀ {value : String}, '\'' ∉ value.toList → Quoted value _ := .mk (.inr rfl)
  have x : Quoted "x" "'x'".toList := quoted (by decide)
  have system : BindingWritten .external "SYSTEM 'x'".toList := .parsed (.system gap x)
  have literal : BindingWritten (.literal "1") "'1'".toList := .literal (quoted (by decide))
  have written : EntitiesWritten entities "<!ENTITY e SYSTEM 'x'><!ENTITY e '1'>".toList :=
    .entity none (.mk gap e gap system none) (.entity none (.mk gap e gap literal none) (.nil none))
  refine ⟨written, ?_, ?_⟩
  · rw [written.run_scan]
    exact congrArg Except.ok (by decide)
  · rw [FirstDecides]
    decide

end Subset

end XmlTable
