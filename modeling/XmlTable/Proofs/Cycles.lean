import Mathlib.Logic.Relation
import XmlTable.Proofs.Affording
import XmlTable.Proofs.Depths
import XmlTable.Proofs.Handing

/-!
# Recursive entities

Where an entity refers to itself, by its replacement text or by way of others, there is no end to
the replacement texts. An expansion that gets there is given up, whatever else the text refers to
and whatever the budget is; there is always an end, and there are never more replacement texts open
than the bound on their depth admits.
-/

namespace XmlTable.Reference

open Relation

variable {ε σ : Type} {declared : String → Option String} {name text : String}

/-- The replacement text of an entity refers to another one. -/
def Calls (declared : String → Option String) (name other : String) : Prop :=
  ∃ value, declared name = some value ∧ RefersTo value other

/-- Through the references of a text one gets to an entity that refers to itself. -/
def LeadsToCycle (declared : String → Option String) (text : String) : Prop :=
  ∃ name again, RefersTo text name ∧ ReflTransGen (Calls declared) name again ∧
    TransGen (Calls declared) again again

/-- On the way to an entity that refers to itself, and around, there is always a next one. -/
theorem exists_calls {again : String} (around : TransGen (Calls declared) again again)
    (way : ReflTransGen (Calls declared) name again) :
    ∃ next, Calls declared name next ∧ ReflTransGen (Calls declared) next again := by
  obtain rfl | ⟨next, calls, rest⟩ := way.cases_head
  · exact TransGen.head'_iff.1 around
  · exact ⟨next, calls, rest⟩

/-- Replacement texts are nested there without an end. -/
theorem exists_nests {again : String} (around : TransGen (Calls declared) again again)
    (levels : Nat) (way : ReflTransGen (Calls declared) name again) :
    ∃ value, declared name = some value ∧ Nests declared levels value := by
  induction levels generalizing name with
  | zero =>
    obtain ⟨next, ⟨value, found, -⟩, -⟩ := exists_calls around way
    exact ⟨value, found, .text value⟩
  | succ levels ih =>
    obtain ⟨next, ⟨value, found, refers⟩, rest⟩ := exists_calls around way
    obtain ⟨value', found', nests⟩ := ih rest
    exact ⟨value, found, .reference refers found' nests⟩

theorem LeadsToCycle.nests (h : LeadsToCycle declared text) (levels : Nat) :
    Nests declared (levels + 1) text := by
  obtain ⟨name, again, refers, way, around⟩ := h
  obtain ⟨value, found, nests⟩ := exists_nests around levels way
  exact .reference refers found nests

/-- The expansion ends with a fault then, whatever the budget is. -/
theorem LeadsToCycle.exists_fault (h : LeadsToCycle declared text) (budget : Budget) :
    ∃ fault, (decode declared budget text).fault = some fault := by
  refine Option.ne_none_iff_exists'.1 fun free => ?_
  rw [decode_fault, Course.ending_eq_none_iff] at free
  exact Course.fault_of_nests (h.nests maxDepth) free.1

/-- The expansion of a text always comes to an end, and never are replacement texts nested too
deeply on the way. The end is a failure if the text leads to an entity that refers to itself. -/
theorem recursive_entities_are_rejected (declared : String → Option String) (take : Taker ε σ)
    (budget : Budget) (text : String) (state : σ) :
    (LeadsToCycle declared text →
      ((decode declared budget text).handOver take state).1 ≠ .complete ∧
      ∃ fault, (decodeToString declared budget text).1 = .error fault) ∧
    (∀ final, Worker.Runs declared take (.start budget text state) final ↔
      final = (decode declared budget text).handOver take state) ∧
    ∀ worker, Worker.Reaches declared take (.start budget text state) worker →
      worker.texts.length ≤ maxDepth + 1 := by
  have runs := runs_decode declared take budget text state
  refine ⟨fun cycle => ?_, fun final => ⟨fun h => h.unique runs, fun h => h ▸ runs⟩, ?_⟩
  · obtain ⟨fault, given⟩ := cycle.exists_fault budget
    refine ⟨fun all => ?_, fault, ?_⟩
    · cases given.symm.trans (Expansion.fault_of_handOver all)
    · rw [decodeToString, given]
  · intro worker reaches
    exact reaches.length_le (Nat.le_add_left 1 maxDepth)

theorem recursive_entities_are_rejected_of_two :
    let declared := fun name => [("p", "&q;"), ("q", "x&p;&amp;")].lookup name
    let take : Taker String Nat := fun _ => modify (· + 1)
    LeadsToCycle declared "a &p;" ∧
      ((decode declared (.full 100) "a &p;").handOver take 0).1 ≠ .complete := by
  intro declared take
  have calls : Calls declared "p" "q" :=
    ⟨"&q;", rfl, by decide +kernel, by decide, by decide⟩
  have calls' : Calls declared "q" "p" :=
    ⟨"x&p;&amp;", rfl, by decide +kernel, by decide, by decide⟩
  have cycle : LeadsToCycle declared "a &p;" :=
    ⟨"p", "p", ⟨by decide +kernel, by decide, by decide⟩, .refl, .tail (.single calls) calls'⟩
  exact ⟨cycle, ((recursive_entities_are_rejected declared take (.full 100) "a &p;" 0).1 cycle).1⟩

end XmlTable.Reference
