import XmlTable.Proofs.Declaring
import XmlTable.Proofs.Progress

/-!
# Internal subsets as they are written

An internal subset in which declarations are written one after the other is read as what they
declare: of each element the first content, of each attribute the first definition, of each entity
the first literal. A later content of an element is reported to the error handler, and nothing else
is but warnings.
-/

namespace XmlTable

/-! ### First occurrences -/

section Firsts

variable {α : Type} {key : α → String}

/-- The elements of a list of which no earlier one has the same key. -/
def firsts (key : α → String) : List α → List α
  | [] => []
  | a :: rest => a :: (firsts key rest).filter fun b => key b ≠ key a

theorem any_firsts (as : List α) (k : String) :
    ((firsts key as).any fun a => key a = k) = as.any fun a => key a = k := by
  induction as with
  | nil => rfl
  | cons a rest ih =>
    rw [firsts, List.any_cons, List.any_cons, ← ih, List.any_filter]
    by_cases hk : key a = k
    · rw [decide_eq_true hk, Bool.true_or, Bool.true_or]
    · congr 2
      funext b
      by_cases hb : key b = k
      · simp [hb, Ne.symm hk]
      · simp [hb]

/-- One more element is kept if its key is new. -/
theorem firsts_concat (as : List α) (a : α) :
    firsts key (as ++ [a]) =
      if as.any (fun b => key b = key a) then firsts key as else firsts key as ++ [a] := by
  induction as with
  | nil => rfl
  | cons b rest ih =>
    rw [List.cons_append, firsts, ih, List.any_cons]
    cases rest.any fun b => key b = key a with
    | true => simp [firsts]
    | false =>
      by_cases hk : key b = key a
      · simp [firsts, hk]
      · simp [firsts, hk, Ne.symm hk]

/-- What has another key is found without what has one key. -/
theorem lookup_filter_of_ne {β : Type} (pairs : List (String × β)) {k other : String}
    (h : k ≠ other) : (pairs.filter (·.1 ≠ other)).lookup k = pairs.lookup k := by
  induction pairs with
  | nil => rfl
  | cons pair rest ih =>
    obtain ⟨key, value⟩ := pair
    rw [List.filter_cons, List.lookup_cons]
    by_cases hk : key = other
    · rw [if_neg (by simpa using hk), ih, hk, beq_false_of_ne h]
    · rw [if_pos (by simpa using hk), List.lookup_cons, ih]

/-- What is found by a key is kept. -/
theorem lookup_firsts {β : Type} (pairs : List (String × β)) (k : String) :
    (firsts (·.1) pairs).lookup k = pairs.lookup k := by
  induction pairs with
  | nil => rfl
  | cons pair rest ih =>
    obtain ⟨key, value⟩ := pair
    rw [firsts, List.lookup_cons, List.lookup_cons]
    split
    · rfl
    · next different => rw [lookup_filter_of_ne _ (ne_of_beq_false different), ih]

theorem nodup_map_firsts (as : List α) : ((firsts key as).map key).Nodup := by
  induction as with
  | nil => exact .nil
  | cons a rest ih =>
    refine List.nodup_cons.2 ⟨fun ha => ?_, ih.sublist (List.filter_sublist.map key)⟩
    obtain ⟨b, hb, same⟩ := List.mem_map.1 ha
    exact of_decide_eq_true (List.mem_filter.1 hb).2 same

theorem nodup_firsts (as : List String) : (firsts id as).Nodup := by
  have distinct : ((firsts id as).map id).Nodup := nodup_map_firsts as
  rwa [List.map_id] at distinct

end Firsts

namespace Subset

/-! ### What declarations declare -/

namespace Declaration

/-- The content that a declaration gives an element. -/
def content? : Declaration → Option (String × ContentSpec)
  | element name content => some (name, content)
  | _ => none

/-- The element of which a declaration defines attributes. -/
def owner? : Declaration → Option String
  | attributes owner _ => some owner
  | _ => none

/-- The definitions of attributes of an element that a declaration gives. -/
def definitionsOf (owner : String) : Declaration → List AttributeDefinition
  | attributes other definitions => if other = owner then definitions else []
  | _ => []

/-- The literal that a declaration gives an entity. -/
def literal? : Declaration → Option (String × String)
  | entity name literal => some (name, literal)
  | _ => none

/-- What is reported of a declaration at a position after others: a second content of an element is
an error, and a second literal of an entity a warning. -/
def report? (before : List Declaration) (position : Nat) : Declaration → Option Report
  | element name _ =>
    if (before.filterMap content?).any (·.1 = name) then
      some (.error (.parse position (Fault.repeatedElement name).message))
    else none
  | entity name _ =>
    if (before.filterMap literal?).any (·.1 = name) then
      some (.warning ("entity '" ++ name ++ "' declared more than once"))
    else none
  | _ => none

end Declaration

open Declaration (content? owner? definitionsOf literal? report?)

variable (ds : List Declaration)

/-- The definitions of attributes of an element: the first of each attribute. -/
def firstDefinitions (owner : String) : List AttributeDefinition :=
  firsts (·.name) (ds.flatMap (definitionsOf owner))

/-- What some declarations declare: the first of each kind for each name. -/
def collected : Declarations where
  elements := firsts (·.1) (ds.filterMap content?)
  attributeLists := (firsts id (ds.filterMap owner?)).map fun owner =>
    (owner, firstDefinitions ds owner)
  entities := firsts (·.1) (ds.filterMap literal?)

variable {ds}

theorem foldl_addDefinition (old new : List AttributeDefinition) :
    new.foldl addDefinition (firsts (·.name) old) = firsts (·.name) (old ++ new) := by
  induction new generalizing old with
  | nil => rw [List.append_nil]; rfl
  | cons definition rest ih =>
    have first : addDefinition (firsts (·.name) old) definition =
        firsts (·.name) (old ++ [definition]) := by
      rw [firsts_concat, addDefinition, any_firsts]
    rw [List.foldl_cons, first, ih, List.append_assoc, List.singleton_append]

/-- Definitions are added to those of their element. -/
theorem addDefinitions_map {owners : List String} (distinct : owners.Nodup) (owner : String)
    (new : List AttributeDefinition) (old : String → List AttributeDefinition) :
    addDefinitions owner new (owners.map fun other => (other, old other)) =
      if owner ∈ owners then
        owners.map fun other =>
          (other, if other = owner then new.foldl addDefinition (old other) else old other)
      else owners.map (fun other => (other, old other)) ++
        [(owner, new.foldl addDefinition [])] := by
  induction owners with
  | nil => rfl
  | cons other rest ih =>
    obtain ⟨apart, distinct⟩ := List.nodup_cons.1 distinct
    rw [List.map_cons, addDefinitions]
    by_cases same : other = owner
    · subst same
      have unchanged : ∀ o ∈ rest, (o, old o) =
          (o, if o = other then new.foldl addDefinition (old o) else old o) := by
        intro o ho
        rw [if_neg]
        rintro rfl
        exact apart ho
      rw [if_pos rfl, if_pos List.mem_cons_self, List.map_cons, if_pos rfl,
        List.map_congr_left unchanged]
    · have elsewhere : owner ∈ other :: rest ↔ owner ∈ rest := by
        rw [List.mem_cons, or_iff_right (Ne.symm same)]
      rw [if_neg same, ih distinct]
      by_cases inside : owner ∈ rest
      · rw [if_pos inside, if_pos (elsewhere.2 inside), List.map_cons, if_neg same]
      · rw [if_neg inside, if_neg (mt elsewhere.1 inside), List.cons_append]

theorem isSome_lookup_iff {β : Type} (pairs : List (String × β)) (k : String) :
    (pairs.lookup k).isSome = pairs.any (·.1 = k) := by
  induction pairs with
  | nil => rfl
  | cons pair rest ih =>
    obtain ⟨key, value⟩ := pair
    rw [List.lookup_cons, List.any_cons, ← ih]
    by_cases hk : k = key
    · simp [hk]
    · simp [beq_false_of_ne hk, Ne.symm hk]

theorem mem_firsts (as : List String) (a : String) : a ∈ firsts id as ↔ a ∈ as := by
  have same : ((firsts id as).any fun b => b = a) = as.any fun b => b = a := any_firsts as a
  rw [Bool.eq_iff_iff, List.any_eq_true, List.any_eq_true] at same
  simpa using same

/-- An element that is not among the owners has no definitions. -/
theorem firstDefinitions_of_notMem {owner : String}
    (h : owner ∉ firsts id (ds.filterMap owner?)) : firstDefinitions ds owner = [] := by
  have none : ds.flatMap (definitionsOf owner) = [] := by
    rw [List.flatMap_eq_nil_iff]
    intro declaration hd
    cases declaration with
    | attributes other definitions =>
      refine if_neg ?_
      rintro rfl
      exact h ((mem_firsts ..).2 (List.mem_filterMap.2 ⟨_, hd, rfl⟩))
    | element | entity | format => rfl
  rw [firstDefinitions, none]
  rfl

theorem collected_element (ds : List Declaration) (name : String) (content : ContentSpec) :
    collected (ds ++ [Declaration.element name content]) =
      if (ds.filterMap content?).any (·.1 = name) then collected ds
      else { collected ds with elements := (collected ds).elements ++ [(name, content)] } := by
  simp only [collected, firstDefinitions, List.filterMap_append, List.flatMap_append,
    List.filterMap_cons, List.filterMap_nil, List.flatMap_cons, List.flatMap_nil, content?, owner?,
    literal?, definitionsOf, List.append_nil, firsts_concat]
  split <;> rfl

theorem collected_entity (ds : List Declaration) (name literal : String) :
    collected (ds ++ [Declaration.entity name literal]) =
      if (ds.filterMap literal?).any (·.1 = name) then collected ds
      else { collected ds with entities := (collected ds).entities ++ [(name, literal)] } := by
  simp only [collected, firstDefinitions, List.filterMap_append, List.flatMap_append,
    List.filterMap_cons, List.filterMap_nil, List.flatMap_cons, List.flatMap_nil, content?, owner?,
    literal?, definitionsOf, List.append_nil, firsts_concat]
  split <;> rfl

theorem collected_format (ds : List Declaration) (name : String) :
    collected (ds ++ [Declaration.format name]) = collected ds := by
  simp only [collected, firstDefinitions, List.filterMap_append, List.flatMap_append,
    List.filterMap_cons, List.filterMap_nil, List.flatMap_cons, List.flatMap_nil, content?, owner?,
    literal?, definitionsOf, List.append_nil]

theorem firstDefinitions_concat (ds : List Declaration) (owner other : String)
    (definitions : List AttributeDefinition) :
    firstDefinitions (ds ++ [Declaration.attributes owner definitions]) other =
      if other = owner then definitions.foldl addDefinition (firstDefinitions ds other)
      else firstDefinitions ds other := by
  rw [firstDefinitions, List.flatMap_append, List.flatMap_singleton, definitionsOf]
  by_cases same : owner = other
  · rw [if_pos same, if_pos same.symm, ← foldl_addDefinition]
    rfl
  · rw [if_neg same, if_neg (Ne.symm same), List.append_nil]
    rfl

theorem collected_attributes (ds : List Declaration) (owner : String)
    (definitions : List AttributeDefinition) :
    collected (ds ++ [Declaration.attributes owner definitions]) =
      { collected ds with
        attributeLists := addDefinitions owner definitions (collected ds).attributeLists } := by
  have owners : (ds ++ [Declaration.attributes owner definitions]).filterMap owner? =
      ds.filterMap owner? ++ [owner] := by
    rw [List.filterMap_append]
    rfl
  have lists : (collected (ds ++ [Declaration.attributes owner definitions])).attributeLists =
      addDefinitions owner definitions (collected ds).attributeLists := by
    rw [collected, collected, owners, firsts_concat]
    dsimp only
    rw [addDefinitions_map (nodup_firsts _)]
    simp only [firstDefinitions_concat]
    by_cases known : owner ∈ firsts id (ds.filterMap owner?)
    · have found : ((ds.filterMap owner?).any fun other => id other = id owner) = true :=
        List.any_eq_true.2 ⟨owner, (mem_firsts ..).1 known, decide_eq_true rfl⟩
      rw [if_pos found, if_pos known]
    · have missing : ¬ ((ds.filterMap owner?).any fun other => id other = id owner) = true := by
        intro found
        obtain ⟨other, ho, same⟩ := List.any_eq_true.1 found
        obtain rfl : other = owner := of_decide_eq_true same
        exact known ((mem_firsts ..).2 ho)
      have others : ∀ other ∈ firsts id (ds.filterMap owner?),
          (other, if other = owner then definitions.foldl addDefinition (firstDefinitions ds other)
            else firstDefinitions ds other) = (other, firstDefinitions ds other) := by
        intro other ho
        rw [if_neg]
        rintro rfl
        exact known ho
      rw [if_neg missing, if_neg known, List.map_append, List.map_congr_left others,
        List.map_singleton, if_pos rfl, firstDefinitions_of_notMem known]
  rw [← lists]
  simp only [collected, List.filterMap_append, List.filterMap_cons, List.filterMap_nil, content?,
    literal?, List.append_nil]

/-- What is declared after others is collected with them, and what is reported is what should be. -/
theorem declared_collected (ds : List Declaration) (declaration : Declaration) (position : Nat) :
    (declaration.report? ds position = none ∧
      declaration.declared (collected ds) = .ok ⟨collected (ds ++ [declaration]), none⟩) ∨
    (∃ message, declaration.report? ds position = some (.warning message) ∧
      declaration.declared (collected ds) =
        .ok ⟨collected (ds ++ [declaration]), some message⟩) ∨
    (∃ fault, declaration.report? ds position =
        some (.error (.parse position (Fault.message fault))) ∧
      declaration.declared (collected ds) = .error fault ∧
      collected (ds ++ [declaration]) = collected ds) := by
  cases declaration with
  | element name content =>
    have known : ((collected ds).elements.lookup name).isSome =
        (ds.filterMap content?).any (·.1 = name) := by
      rw [collected, isSome_lookup_iff, any_firsts]
    rw [Declaration.declared, known, collected_element, report?]
    split
    · exact .inr (.inr ⟨_, rfl, rfl, rfl⟩)
    · exact .inl ⟨rfl, rfl⟩
  | attributes owner definitions =>
    rw [collected_attributes]
    exact .inl ⟨rfl, rfl⟩
  | entity name literal =>
    have known : ((collected ds).entity? name).isSome =
        (ds.filterMap literal?).any (·.1 = name) := by
      rw [Declarations.entity?, collected, isSome_lookup_iff, any_firsts]
    rw [Declaration.declared, known, collected_entity, report?]
    split
    · exact .inr (.inl ⟨_, rfl, rfl⟩)
    · exact .inl ⟨rfl, rfl⟩
  | format name =>
    rw [collected_format]
    exact .inl ⟨rfl, rfl⟩

/-! ### Scanning what was written -/

/-- A declaration as it is written. -/
inductive Declaration.Written : Declaration → List Char → Prop
  | mk {declaration : Declaration} {body : List Char} : BodyWritten declaration body →
    Written declaration ('<' :: '!' :: (declaration.keyword.toList ++ (body ++ ['>'])))

/-- Declarations in order with white space around them, each with the number of bytes before it,
as they are written after so many bytes. -/
inductive SubsetWritten : Nat → List (Nat × Declaration) → List Char → Prop
  | nil {offset : Nat} {space : List Char} : IsSpace space → SubsetWritten offset [] space
  | cons {offset : Nat} {declaration : Declaration} {rest : List (Nat × Declaration)}
    {space cs ds : List Char} : IsSpace space → declaration.Written cs →
    SubsetWritten (offset + Text.byteLength space + Text.byteLength cs) rest ds →
    SubsetWritten offset ((offset + Text.byteLength space, declaration) :: rest)
      (space ++ (cs ++ ds))

/-- What is reported of declarations after others, in order. -/
def reportsFrom (base : Nat) (before : List Declaration) : List (Nat × Declaration) → List Report
  | [] => []
  | (offset, declaration) :: rest =>
    (declaration.report? before (base + offset)).toList ++
      reportsFrom base (before ++ [declaration]) rest

end Subset

/-- Some more reports. -/
def Journal.tell (journal : Journal) (reports : List Report) : Journal :=
  { journal with reports := journal.reports ++ reports.toArray }

theorem Journal.tell_nil (journal : Journal) : journal.tell [] = journal := by
  simp [tell]

theorem Journal.tell_append (journal : Journal) (reports more : List Report) :
    journal.tell (reports ++ more) = (journal.tell reports).tell more := by
  simp [tell]

namespace Subset

open Text (startsWith)
open Declaration (content? literal? report?)

theorem keyword_isName (declaration : Declaration) : IsName declaration.keyword := by
  cases declaration with
  | element | attributes | entity | format =>
    rw [Declaration.keyword]
    decide

/-- The report of a fault is told, and the handler decides whether the work goes on. -/
theorem run_report_eq (position : Nat) (fault : Fault) (journal : Journal) :
    (report position fault).run.run journal =
      (match (journal.error (.parse position fault.message)).1 with
        | .proceed => .ok ()
        | .abort => .error (.failure (.parse position fault.message)),
        journal.tell [.error (.parse position fault.message)]) := by
  have told : (modifyGet (·.error (.parse position fault.message)) : Scanning Recovery).run.run
      journal = (.ok (journal.error (.parse position fault.message)).1,
        (journal.error (.parse position fault.message)).2) := rfl
  rw [report, Scanning.run_bind, told, Journal.tell, ← Array.push_eq_append]
  dsimp only
  cases (journal.error (.parse position fault.message)).1 <;> rfl

theorem run_report {journal : Journal} (recovers : journal.handler.Recovers) (position : Nat)
    (fault : Fault) : (report position fault).run.run journal =
      (.ok (), journal.tell [.error (.parse position fault.message)]) := by
  have proceeds : (journal.error (.parse position fault.message)).1 = .proceed := recovers _ _
  rw [run_report_eq, proceeds]

/-- A declaration that was written is read, and what is declared with it is collected. -/
theorem Declaration.Written.run_scanItem {declaration : Declaration} {cs : List Char}
    (h : declaration.Written cs) (rest : List Char) (position : Unit → Nat)
    (done : List Declaration) {journal : Journal} (recovers : journal.handler.Recovers) :
    (scanItem position (collected done) (cs ++ rest)).run.run journal =
      (.ok (collected (done ++ [declaration.asRead]), some rest),
        journal.tell (declaration.asRead.report? done (position ())).toList) := by
  obtain @⟨body, written⟩ := h
  have keyword := takeWhile_append_of_head (keyword_isName declaration).chars
    (written.endsName ('>' :: rest))
  have split := written.closed.splitBody [] rest
  have scanned : scanItem position (collected done)
      ('<' :: '!' :: (declaration.keyword.toList ++ (body ++ ['>'])) ++ rest) =
        scanDeclaration position (collected done)
          (declaration.keyword.toList ++ (body ++ '>' :: rest)) := by
    rw [List.cons_append, List.cons_append, List.append_assoc, List.append_assoc,
      List.singleton_append]
    have comment : startsWith ('<' :: '!' :: (declaration.keyword.toList ++ (body ++ '>' :: rest)))
        "<!--" = false := by
      cases declaration with
      | element | attributes | entity | format =>
        rw [Declaration.keyword]
        rfl
    have instruction : startsWith
        ('<' :: '!' :: (declaration.keyword.toList ++ (body ++ '>' :: rest))) "<?" = false := rfl
    rw [scanItem, comment, instruction]
    rfl
  rw [scanned, scanDeclaration, keyword.1, keyword.2, split, String.ofList_toList]
  dsimp only
  rw [List.reverse_nil, List.nil_append, written.declare]
  rcases declared_collected done declaration.asRead (position ()) with
    ⟨silent, declared⟩ | ⟨message, warned, declared⟩ | ⟨fault, reported, declared, same⟩
  · rw [declared, silent]
    rfl
  · rw [declared, warned]
    show _ = (_, journal.tell [.warning message])
    rw [Journal.tell, ← Array.push_eq_append]
    rfl
  · rw [declared, reported, same]
    dsimp only
    rw [Scanning.run_bind, run_report recovers]
    rfl

theorem Declaration.Written.isSetOff {declaration : Declaration} {cs : List Char}
    (h : declaration.Written cs) (rest : List Char) : IsSetOff (cs ++ rest) := by
  obtain ⟨_⟩ := h
  rintro _ ⟨⟩
  decide

theorem Declaration.Written.ne_nil {declaration : Declaration} {cs : List Char}
    (h : declaration.Written cs) : cs ≠ [] := by
  obtain ⟨_⟩ := h
  exact List.cons_ne_nil _ _

/-- How the names in lists are read does not matter for what is reported. -/
theorem report?_asRead (before : List Declaration) (position : Nat) (declaration : Declaration) :
    declaration.asRead.report? (before.map (·.asRead)) position =
      declaration.report? before position := by
  have contents : (before.map (·.asRead)).filterMap content? =
      (before.filterMap content?).map fun pair => (pair.1, pair.2.asRead) := by
    rw [List.filterMap_map, List.map_filterMap]
    congr 1
    funext other
    cases other <;> rfl
  have literals : (before.map (·.asRead)).filterMap literal? = before.filterMap literal? := by
    rw [List.filterMap_map]
    congr 1
    funext other
    cases other <;> rfl
  cases declaration with
  | element name content =>
    rw [Declaration.asRead, report?, report?, contents, List.any_map]
    rfl
  | entity name literal =>
    show (Declaration.entity name literal).report? _ _ = _
    rw [report?, report?, literals]
  | attributes | format => rfl

/-- Declarations that were written are read in order. -/
theorem SubsetWritten.run_scanFrom {offset : Nat} {items : List (Nat × Declaration)}
    {cs : List Char} (h : SubsetWritten offset items cs) {base total fuel : Nat}
    (whole : offset + Text.byteLength cs = total) (enough : items.length < fuel)
    (done : List Declaration) {journal : Journal} (recovers : journal.handler.Recovers) :
    (scanFrom base total fuel (collected (done.map (·.asRead))) cs).run.run journal =
      (.ok (collected ((done ++ items.map (·.2)).map (·.asRead))),
        journal.tell (reportsFrom base done items)) := by
  induction h generalizing fuel done journal with
  | nil hs =>
    obtain ⟨fuel, rfl⟩ := Nat.exists_eq_succ_of_ne_zero (Nat.ne_of_gt enough)
    rw [run_scanFrom_succ, skipSpace_of_isSpace hs, List.map_nil, List.append_nil, reportsFrom,
      Journal.tell_nil]
    rfl
  | @cons offset declaration rest space cs ds hs written _ ih =>
    obtain ⟨fuel, rfl⟩ := Nat.exists_eq_succ_of_ne_zero (Nat.ne_of_gt (Nat.zero_lt_of_lt enough))
    have first := skipSpace_append hs (written.isSetOff ds)
    have ne : (cs ++ ds).isEmpty = false := by
      obtain ⟨c, cs, rfl⟩ := List.exists_cons_of_ne_nil written.ne_nil
      rfl
    have place : base + (total - Text.byteLength (cs ++ ds)) =
        base + (offset + Text.byteLength space) := by
      rw [← whole, Text.byteLength_append]
      omega
    have more :
        offset + Text.byteLength space + Text.byteLength cs + Text.byteLength ds = total := by
      rw [← whole, Text.byteLength_append, Text.byteLength_append]
      omega
    have later := fun journal => @ih fuel more (Nat.lt_of_succ_lt_succ enough)
      (done ++ [declaration]) journal
    simp only [List.map_append, List.map_cons, List.map_nil, List.append_assoc,
      List.singleton_append] at later ⊢
    rw [run_scanFrom_succ, first, ne, written.run_scanItem ds _ _ recovers, place, report?_asRead,
      reportsFrom, Journal.tell_append]
    exact later _ recovers

theorem SubsetWritten.length_le {offset : Nat} {items : List (Nat × Declaration)}
    {cs : List Char} (h : SubsetWritten offset items cs) : items.length ≤ cs.length := by
  induction h with
  | nil => exact Nat.zero_le _
  | cons _ written _ ih =>
    have := List.length_pos_iff.2 written.ne_nil
    rw [List.length_append, List.length_append, List.length_cons]
    omega

/-! ### What is known of what was written -/

theorem lookup_map_key {β : Type} (keys : List String) (value : String → β) (k : String) :
    (keys.map fun key => (key, value key)).lookup k =
      if k ∈ keys then some (value k) else none := by
  induction keys with
  | nil => rfl
  | cons key rest ih =>
    rw [List.map_cons, List.lookup_cons, ih]
    by_cases hk : k = key
    · subst hk
      simp
    · simp [hk, beq_false_of_ne hk]

theorem definitions_collected (ds : List Declaration) (owner : String) :
    (collected ds).definitions owner = firstDefinitions ds owner := by
  rw [Declarations.definitions, collected, lookup_map_key]
  split
  · rfl
  · next missing => rw [firstDefinitions_of_notMem missing]; rfl

/-- Declarations answer questions as the first of those that were written say. -/
structure Declarations.Answers (declarations : Declarations) (ds : List Declaration) : Prop where
  /-- The defaults of an element are those of the first definitions of its attributes. -/
  defaults : ∀ owner, declarations.defaults owner =
    (firstDefinitions ds owner).filterMap fun definition =>
      definition.rule.value?.map fun value => (definition, value)
  /-- An attribute is an identifier if its first definition says so. -/
  isId : ∀ owner name, declarations.isId owner name =
    (firstDefinitions ds owner).any fun d => d.name = name && d.type = .id
  /-- An element contains elements only exactly if its first content says so. -/
  isElementOnly : ∀ name, declarations.isElementOnly name = true ↔
    ∃ model, (ds.filterMap Declaration.content?).lookup name = some (.children model)

theorem answers_collected (ds : List Declaration) : (collected ds).Answers ds where
  defaults owner := by rw [Declarations.defaults, definitions_collected]
  isId owner name := by rw [Declarations.isId, definitions_collected]
  isElementOnly name := by
    rw [Declarations.isElementOnly, collected, lookup_firsts]
    rcases (ds.filterMap Declaration.content?).lookup name with _ | _ | _ <;> simp

/-! ### Names without blanks at their ends -/

/-- Nothing is lost when the text is trimmed, and it is not empty. -/
def IsTrimmed (name : String) : Prop :=
  name.toList ≠ [] ∧ Text.trim name.toList = name.toList

instance (name : String) : Decidable (IsTrimmed name) :=
  inferInstanceAs (Decidable (_ ∧ _))

/-- The names that an attribute type lists. -/
def AttributeType.listed : AttributeType → List String
  | notations names | enumeration names => names
  | _ => []

/-- The names in the lists of a declaration. -/
def Declaration.listed : Declaration → List String
  | element _ (.mixed names) => names
  | attributes _ definitions => definitions.flatMap (·.type.listed)
  | _ => []

theorem asRead_of_isTrimmed {names : List String} (h : ∀ name ∈ names, IsTrimmed name) :
    asRead names = names := by
  induction names with
  | nil => rfl
  | cons name rest ih =>
    obtain ⟨ne, trimmed⟩ := h name List.mem_cons_self
    have kept : trimmedNames [name.toList] = [name] := by
      obtain ⟨c, cs, hc⟩ := List.exists_cons_of_ne_nil ne
      rw [trimmedNames, List.filterMap_cons, trimmed, hc]
      show [String.ofList (c :: cs)] = _
      rw [← hc, String.ofList_toList]
    have rest := ih fun name hn => h name (List.mem_cons_of_mem _ hn)
    rw [asRead, List.map_cons, trimmedNames_cons, kept]
    exact congrArg (name :: ·) rest

theorem AttributeDefinition.asRead_of_isTrimmed {definition : AttributeDefinition}
    (h : ∀ name ∈ definition.type.listed, IsTrimmed name) : definition.asRead = definition := by
  obtain ⟨name, type, rule⟩ := definition
  cases type with
  | notations names | enumeration names =>
    have same : Subset.asRead names = names := Subset.asRead_of_isTrimmed h
    rw [asRead, AttributeType.asRead, same]
  | cdata | id | idref | idrefs | entity | entities | nmtoken | nmtokens => rfl

/-- Without blanks at the ends of names, a declaration is read as it is. -/
theorem Declaration.asRead_of_isTrimmed {declaration : Declaration}
    (h : ∀ name ∈ declaration.listed, IsTrimmed name) : declaration.asRead = declaration := by
  cases declaration with
  | element name content =>
    cases content with
    | mixed names =>
      have same : Subset.asRead names = names := Subset.asRead_of_isTrimmed h
      rw [asRead, ContentSpec.asRead, same]
    | empty | any | children => rfl
  | attributes owner definitions =>
    have same : ∀ definition ∈ definitions, definition.asRead = id definition := fun d hd =>
      AttributeDefinition.asRead_of_isTrimmed fun name hn =>
        h name (List.mem_flatMap.2 ⟨d, hd, hn⟩)
    rw [asRead, List.map_congr_left same, List.map_id]
  | entity | format => rfl

/-- An internal subset that was written is read as what its declarations declare, with the names of
lists trimmed: nothing changes if those have no blanks at their ends. The handler is told of every
second content of an element at its place, and of no other error; and questions are answered as the
first declarations say. -/
theorem written_subset_is_read {subset : String} {items : List (Nat × Declaration)}
    (h : SubsetWritten 0 items subset.toList) {journal : Journal}
    (recovers : journal.handler.Recovers) (patience base : Nat) :
    (scan patience base subset).run.run journal =
        (.ok (collected ((items.map (·.2)).map (·.asRead))),
          journal.tell (reportsFrom base [] items)) ∧
      (collected ((items.map (·.2)).map (·.asRead))).Answers ((items.map (·.2)).map (·.asRead)) ∧
      ((∀ item ∈ items, ∀ name ∈ item.2.listed, IsTrimmed name) →
        (items.map (·.2)).map (·.asRead) = items.map (·.2)) := by
  refine ⟨?_, answers_collected _, fun trimmed => ?_⟩
  · have enough := h.length_le
    exact h.run_scanFrom (Nat.zero_add _) (by omega) [] recovers
  · rw [List.map_map]
    exact List.map_congr_left fun item hi => Declaration.asRead_of_isTrimmed (trimmed item hi)

/-- A second content of an element is reported at its place, and a literal may have a greater-than
sign in it. -/
theorem written_subset_is_read_of_repeated_element :
    let (outcome, journal) := (scan 0 10
      "<!ELEMENT a (#PCDATA | b)*>\n<!ATTLIST a k (x|y) '>'><!ELEMENT a EMPTY >").run.run
        { handler := .lenient }
    outcome = .ok {
        elements := [("a", .mixed ["b"])]
        attributeLists := [("a", [⟨"k", .enumeration ["x", "y"], .given ">"⟩])] } ∧
      journal.reports = #[.error (.parse 62 "element type 'a' declared more than once")] := by
  have none : IsSpace [] := by decide
  have blank : IsSpace [' '] := by decide
  have newline : IsSpace ['\n'] := by decide
  have gap : IsGap [' '] := ⟨blank, List.cons_ne_nil _ _⟩
  have a : IsName "a" := by decide
  have b : IsName "b" := by decide
  have k : IsName "k" := by decide
  have x : IsName "x" := by decide
  have y : IsName "y" := by decide
  have mixed : Declaration.Written (.element "a" (.mixed ["b"]))
      "<!ELEMENT a (#PCDATA | b)*>".toList :=
    .mk (.element gap a gap (.mixed none blank (.bar (by decide) (.one blank b none)) (.inr rfl))
      none)
  have list : Declaration.Written (.attributes "a" [⟨"k", .enumeration ["x", "y"], .given ">"⟩])
      "<!ATTLIST a k (x|y) '>'>".toList :=
    .mk (.attributes gap a (.cons gap (.mk k gap
      (.enumeration (.mk (.cons none x none (.one none y none)))) gap
      (.given (.mk (.inr rfl) (by decide)))) (.nil none)))
  have empty : Declaration.Written (.element "a" .empty) "<!ELEMENT a EMPTY >".toList :=
    .mk (.element gap a gap .empty blank)
  have written : SubsetWritten 0 [(0, .element "a" (.mixed ["b"])),
      (28, .attributes "a" [⟨"k", .enumeration ["x", "y"], .given ">"⟩]),
      (52, .element "a" .empty)]
      "<!ELEMENT a (#PCDATA | b)*>\n<!ATTLIST a k (x|y) '>'><!ELEMENT a EMPTY >".toList :=
    .cons none mixed (.cons newline list (.cons none empty (.nil none)))
  rw [(written_subset_is_read written (fun _ _ => rfl) 0 10).1]
  exact ⟨congrArg Except.ok (by decide), by decide⟩

/-- A name that begins with a character that counts as white space when names are trimmed, but not
between them, is not read as it was written. -/
theorem list_names_are_trimmed :
    SubsetWritten 0 [(0, .element "a" (.mixed ["\u1680b", "c"]))]
        "<!ELEMENT a (#PCDATA|\u1680b|c)*>".toList ∧
      ((scan 0 0 "<!ELEMENT a (#PCDATA|\u1680b|c)*>").run.run { handler := .lenient }).1 =
        .ok { elements := [("a", .mixed ["b", "c"])] } := by
  have none : IsSpace [] := by decide
  have gap : IsGap [' '] := ⟨by decide, List.cons_ne_nil _ _⟩
  have a : IsName "a" := by decide
  have b : IsName "\u1680b" := by decide
  have c : IsName "c" := by decide
  have mixed : Declaration.Written (.element "a" (.mixed ["\u1680b", "c"]))
      "<!ELEMENT a (#PCDATA|\u1680b|c)*>".toList :=
    .mk (.element gap a gap (.mixed none none (.bar (by decide)
      (.cons none b none (.one none c none))) (.inr rfl)) none)
  exact ⟨.cons none mixed (.nil none), by rfl⟩

end Subset

end XmlTable
