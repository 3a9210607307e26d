import Mathlib.Data.List.Nodup
import XmlTable.Proofs.Collecting
import XmlTable.Proofs.Excerpts

/-!
# The attribute definitions that a scan finds

Whatever an internal subset consists of, the attributes that a scan finds defined in it have names,
and their defaults can be put in quotes: they stood in quotes. The attributes of one element are
defined once each. All this holds without declarations and is kept by each of them.
-/

namespace XmlTable.Subset

variable {cs rest body : List Char} {name value element keyword : String}

/-! ### What each declaration keeps -/

section Keeps

variable {P : Declarations → Prop} {declarations : Declarations}

open Scanning (Finds)

/-- No declaration puts an end to what is true of the declarations before it. -/
def IsKept (P : Declarations → Prop) : Prop :=
  ∀ keyword body declarations declared, P declarations →
    declare keyword body declarations = .ok declared → P declared.declarations

/-- What is kept by declarations is kept by any item. -/
theorem IsKept.readItem (kept : IsKept P) (hd : P declarations) (declared : Declared)
    (h : readItem declarations cs = .ok declared) : P declared.declarations := by
  obtain same | ⟨body, rest, -, declares⟩ := eq_or_declare_of_readItem h
  · rwa [same]
  · exact kept _ _ _ declared hd declares

theorem IsKept.scanFrom (kept : IsKept P) {base total fuel : Nat} (hd : P declarations) :
    (scanFrom base total fuel declarations cs).Finds P := by
  induction fuel generalizing declarations cs with
  | zero => exact .throw _
  | succ fuel ih =>
    rw [Subset.scanFrom]
    split
    · exact .pure hd
    · refine Finds.bind (scanItem_finds (kept.readItem hd) fun _ _ => hd) ?_
      rintro ⟨found, left⟩ known
      cases left with
      | none => exact .pure known
      | some rest => exact ih known

/-- What holds without declarations and is kept holds after a scan. -/
theorem IsKept.scan (kept : IsKept P) (initially : P .none) (patience base : Nat)
    (subset : String) : (scan patience base subset).Finds P :=
  kept.scanFrom initially

end Keeps

/-! ### Definitions that could be read -/

theorem isName_of_readName? (h : readName? cs = some (name, rest)) : IsName name := by
  unfold readName? at h
  split at h
  · cases h
  · next other =>
    cases h
    refine ⟨?_, ?_⟩
    · rwa [String.toList_ofList]
    · rw [String.toList_ofList]
      exact List.all_eq_true.1 List.all_takeWhile

/-- The text can be put in quotes: it lacks a quotation mark of one of the two kinds. -/
def IsQuotable (value : String) : Prop :=
  ∃ quote, IsQuote quote ∧ quote ∉ value.toList

theorem isQuotable_of_readQuoted? (h : readQuoted? cs = some (value, rest)) :
    IsQuotable value := by
  cases cs with
  | nil => cases h
  | cons quote body =>
    rw [readQuoted?] at h
    split at h
    · next isQuote =>
      split at h
      · cases h
        refine ⟨quote, isQuote, fun inside => ?_⟩
        rw [String.toList_ofList] at inside
        have other := List.all_eq_true.1 List.all_takeWhile quote inside
        exact of_decide_eq_true other rfl
      · cases h
    · cases h

theorem isQuotable_of_readRule {rule : DefaultRule} (h : readRule cs = .ok (rule, rest)) :
    ∀ value, rule.value? = some value → IsQuotable value := by
  unfold readRule at h
  split at h
  · cases h
    exact nofun
  · split at h
    · cases h
      exact nofun
    · split at h
      · split at h <;> cases h
        next quoted =>
        rintro _ ⟨⟩
        exact isQuotable_of_readQuoted? quoted
      · split at h <;> cases h
        next quoted =>
        rintro _ ⟨⟩
        exact isQuotable_of_readQuoted? quoted

/-- A definition with a name, and with a default that can be put in quotes. -/
structure AttributeDefinition.IsWritable (definition : AttributeDefinition) : Prop where
  /-- The attribute has a name. -/
  name : IsName definition.name
  /-- Its value by default can be put in quotes. -/
  value : ∀ value, definition.rule.value? = some value → IsQuotable value

theorem isWritable_of_readDefinition {definition : AttributeDefinition}
    (h : readDefinition cs = .ok (definition, rest)) : definition.IsWritable := by
  unfold readDefinition at h
  split at h
  · cases h
  · next named =>
    obtain ⟨⟨type, afterType⟩, -, h⟩ := exists_of_bind_eq_ok h
    obtain ⟨⟨rule, afterRule⟩, ruled, h⟩ := exists_of_bind_eq_ok h
    cases h
    exact ⟨isName_of_readName? named, isQuotable_of_readRule ruled⟩

theorem isWritable_of_readDefinitions {fuel : Nat} {done definitions : List AttributeDefinition}
    (h : readDefinitions fuel cs done = .ok definitions) (hd : ∀ d ∈ done, d.IsWritable) :
    ∀ d ∈ definitions, d.IsWritable := by
  induction fuel generalizing cs done with
  | zero =>
    cases h
    exact fun d hm => hd d (List.mem_reverse.1 hm)
  | succ fuel ih =>
    rw [readDefinitions] at h
    split at h
    · cases h
      exact fun d hm => hd d (List.mem_reverse.1 hm)
    · obtain ⟨⟨definition, rest⟩, read, h⟩ := exists_of_bind_eq_ok h
      exact ih h (List.forall_mem_cons.2 ⟨isWritable_of_readDefinition read, hd⟩)

/-! ### Definitions for an element -/

/-- Definitions as they are kept for one element: each can be written, and no attribute is defined
again. -/
structure Definite (definitions : List AttributeDefinition) : Prop where
  /-- Each can be written. -/
  writable : ∀ definition ∈ definitions, definition.IsWritable
  /-- They define different attributes. -/
  distinct : (definitions.map (·.name)).Nodup

section

variable {definitions new : List AttributeDefinition} {definition : AttributeDefinition}

theorem Definite.nil : Definite [] :=
  ⟨List.forall_mem_nil _, .nil⟩

theorem Definite.addDefinition (h : Definite definitions) (hd : definition.IsWritable) :
    Definite (addDefinition definitions definition) := by
  unfold Subset.addDefinition
  split
  · exact h
  · next unknown =>
    refine ⟨fun other hm => ?_, ?_⟩
    · rcases List.mem_append.1 hm with before | single
      · exact h.writable other before
      · exact List.mem_singleton.1 single ▸ hd
    · rw [List.map_append, List.nodup_append]
      refine ⟨h.distinct, List.nodup_singleton _, ?_⟩
      rintro _ before _ single rfl
      obtain ⟨other, hm, same⟩ := List.mem_map.1 before
      exact unknown (List.any_eq_true.2
        ⟨other, hm, decide_eq_true (same.trans (List.mem_singleton.1 single))⟩)

theorem Definite.foldl_addDefinition (h : Definite definitions) (hn : ∀ d ∈ new, d.IsWritable) :
    Definite (new.foldl Subset.addDefinition definitions) := by
  induction new generalizing definitions with
  | nil => exact h
  | cons first rest ih =>
    obtain ⟨hf, hr⟩ := List.forall_mem_cons.1 hn
    exact ih (h.addDefinition hf) hr

theorem Definite.addDefinitions {lists : List (String × List AttributeDefinition)}
    (h : ∀ list ∈ lists, Definite list.2) (hn : ∀ d ∈ new, d.IsWritable) :
    ∀ list ∈ addDefinitions element new lists, Definite list.2 := by
  induction lists with
  | nil => exact List.forall_mem_singleton.2 (Definite.nil.foldl_addDefinition hn)
  | cons first rest ih =>
    obtain ⟨hf, hr⟩ := List.forall_mem_cons.1 h
    rw [Subset.addDefinitions]
    split
    · exact List.forall_mem_cons.2 ⟨hf.foldl_addDefinition hn, hr⟩
    · exact List.forall_mem_cons.2 ⟨hf, ih hr⟩

end

/-! ### The attribute lists of declarations -/

namespace Declarations

/-- The definitions for each element are kept as they should be. -/
def HasDefinite (declarations : Declarations) : Prop :=
  ∀ list ∈ declarations.attributeLists, Definite list.2

/-- A declaration of another kind leaves the attribute lists as they are. -/
theorem attributeLists_of_declareEntity {declarations : Declarations} {declared : Declared}
    (h : declareEntity body declarations = .ok declared) :
    declared.declarations.attributeLists = declarations.attributeLists := by
  unfold declareEntity at h
  dsimp only at h
  split at h
  · cases h
    rfl
  · split at h
    · cases h
    · split at h
      · cases h
      · split at h
        · cases h
          rfl
        · split at h
          · cases h
          · split at h <;> cases h <;> rfl

theorem attributeLists_of_declareElement {declarations : Declarations} {declared : Declared}
    (h : declareElement body declarations = .ok declared) :
    declared.declarations.attributeLists = declarations.attributeLists := by
  unfold declareElement at h
  split at h
  · cases h
  · dsimp only at h
    split at h
    · cases h
    · obtain ⟨content, -, h⟩ := exists_of_bind_eq_ok h
      split at h <;> cases h
      rfl

theorem isKept_hasDefinite : IsKept HasDefinite := by
  intro keyword body declarations declared known h
  unfold declare at h
  split at h
  · rwa [HasDefinite, attributeLists_of_declareEntity h]
  · split at h
    · unfold declareAttributes at h
      split at h
      · cases h
      · obtain ⟨new, read, h⟩ := exists_of_bind_eq_ok h
        cases h
        exact Definite.addDefinitions known
          (isWritable_of_readDefinitions read (List.forall_mem_nil _))
    · split at h
      · rwa [HasDefinite, attributeLists_of_declareElement h]
      · split at h <;> cases h
        exact known

/-- The attributes that a scan finds have names, and defaults that can be put in quotes; for each
element they are defined once. -/
theorem hasDefinite_of_scan {declarations : Declarations} {patience base : Nat} {subset : String}
    {journal : Journal} (h : ((scan patience base subset).run.run journal).1 = .ok declarations) :
    declarations.HasDefinite :=
  (isKept_hasDefinite.scan (List.forall_mem_nil _) patience base subset).of_run_eq_ok h

variable {declarations : Declarations} {definition : AttributeDefinition}

theorem HasDefinite.definitions (h : declarations.HasDefinite) (element : String) :
    Definite (declarations.definitions element) := by
  unfold Declarations.definitions
  cases found : declarations.attributeLists.lookup element with
  | none => exact Definite.nil
  | some list => exact h _ (mem_of_lookup_eq_some found)

/-- A default belongs to a definition. -/
theorem mem_defaults {literal : String} :
    (definition, literal) ∈ declarations.defaults element ↔
      definition ∈ declarations.definitions element ∧ definition.rule.value? = some literal := by
  rw [defaults, List.mem_filterMap]
  constructor
  · rintro ⟨other, hm, given⟩
    obtain ⟨value, same, ⟨⟩⟩ := Option.map_eq_some_iff.1 given
    exact ⟨hm, same⟩
  · rintro ⟨hm, given⟩
    exact ⟨definition, hm, by rw [given]; rfl⟩

/-- No two defaults of an element are for the same attribute. -/
theorem HasDefinite.nodup_defaults (h : declarations.HasDefinite) (element : String) :
    ((declarations.defaults element).map (·.1.name)).Nodup := by
  have distinct := (h.definitions element).distinct
  rw [defaults]
  generalize declarations.definitions element = definitions at distinct
  refine distinct.sublist ?_
  induction definitions with
  | nil => exact .slnil
  | cons first rest ih =>
    obtain ⟨-, distinct⟩ := List.nodup_cons.1 distinct
    cases given : first.rule.value? with
    | none =>
      rw [List.filterMap_cons_none (by rw [given]; rfl)]
      exact (ih distinct).cons _
    | some value =>
      rw [List.filterMap_cons_some (by rw [given]; rfl)]
      exact (ih distinct).cons_cons _

/-- An attribute with a default is an identifier if its definition says so. -/
theorem HasDefinite.isId_default (h : declarations.HasDefinite)
    (hm : definition ∈ declarations.definitions element) :
    declarations.isId element definition.name = decide (definition.type = .id) := by
  rw [Bool.eq_iff_iff, isId, List.any_eq_true, decide_eq_true_iff]
  constructor
  · rintro ⟨other, ho, holds⟩
    obtain ⟨same, typed⟩ := Bool.and_eq_true_iff.1 holds
    obtain rfl := List.inj_on_of_nodup_map (h.definitions element).distinct ho hm
      (of_decide_eq_true same)
    exact of_decide_eq_true typed
  · intro typed
    exact ⟨definition, hm, by simp [typed]⟩

end Declarations

end XmlTable.Subset
