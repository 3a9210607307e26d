import XmlTable.Proofs.Findings

/-!
# Document type declarations

The internal subset of a document type declaration is looked for between the first opening bracket
and the last closing one. What comes after the subset is white space, so that brackets in it do not
matter. Before it there are a name and the literals of an external identifier: if these are without
opening brackets, the subset is found exactly, and a declaration without one is scanned for nothing.
A scan that reports no error does the same wherever the subset stands and whatever the error handler
was told before.
-/

namespace XmlTable

/-- None of some reports is of a failure that the handler may recover from. -/
def Report.AllSilent (reports : List Report) : Prop :=
  ∀ report ∈ reports, ∀ cause, report ≠ .error cause

namespace Subset

open Text (byteLength)

variable {α β : Type} {known : Declarations} {cs : List Char}

/-! ### Scans that report no error -/

/-- Work that reports no error does the same from any journal, and so does other work. -/
def Scanning.Repeats (work work' : Scanning α) : Prop :=
  ∀ journal journal' : Journal, ∃ outcome reports,
    work.run.run journal = (outcome, journal.tell reports) ∧
      (Report.AllSilent reports → work'.run.run journal' = (outcome, journal'.tell reports))

namespace Scanning.Repeats

theorem pure (a : α) : Repeats (pure a) (pure a) := fun _ _ =>
  ⟨.ok a, [], by rw [Journal.tell_nil]; rfl, fun _ => by rw [Journal.tell_nil]; rfl⟩

theorem throw (stop : Stop) : Repeats (throw stop : Scanning α) (throw stop) := fun _ _ =>
  ⟨.error stop, [], by rw [Journal.tell_nil]; rfl, fun _ => by rw [Journal.tell_nil]; rfl⟩

theorem bind {work work' : Scanning α} {next next' : α → Scanning β} (h : Repeats work work')
    (hn : ∀ a, Repeats (next a) (next' a)) : Repeats (work >>= next) (work' >>= next') := by
  intro journal journal'
  obtain ⟨outcome, reports, run, again⟩ := h journal journal'
  rw [run_bind, run_bind, run]
  cases outcome with
  | error stop => exact ⟨.error stop, reports, rfl, fun silent => by rw [again silent]⟩
  | ok a =>
    obtain ⟨outcome, more, run, again'⟩ := hn a (journal.tell reports) (journal'.tell reports)
    refine ⟨outcome, reports ++ more, ?_, fun silent => ?_⟩
    · rw [Journal.tell_append]
      exact run
    · obtain ⟨first, second⟩ := List.forall_mem_append.1 silent
      rw [again first, Journal.tell_append]
      exact again' second

theorem warn (message : Option String) : Repeats (Subset.warn message) (Subset.warn message) :=
  fun journal journal' =>
    ⟨_, _, run_warn message journal, fun _ => run_warn message journal'⟩

/-- The report of a fault is not silent, so that nothing need be said of other work. -/
theorem report (position position' : Nat) (fault : Fault) :
    Repeats (Subset.report position fault) (Subset.report position' fault) := by
  intro journal journal'
  refine ⟨_, _, run_report_eq position fault journal, fun silent => ?_⟩
  exact absurd rfl (silent _ (List.mem_singleton_self _) _)

end Scanning.Repeats

open Scanning (Repeats)

theorem scanItem_repeats {position position' : Unit → Nat} :
    Repeats (scanItem position known cs) (scanItem position' known cs) := by
  rw [scanItem_eq, scanItem_eq]
  cases readItem known cs with
  | ok declared => exact (Repeats.warn _).bind fun _ => .pure _
  | error fault => exact (Repeats.report _ _ _).bind fun _ => .pure _

/-- A scan that reports no error does the same at any position. -/
theorem scanFrom_repeats (base base' total fuel : Nat) (known : Declarations) (cs : List Char) :
    Repeats (scanFrom base total fuel known cs) (scanFrom base' total fuel known cs) := by
  induction fuel generalizing known cs with
  | zero => exact .throw _
  | succ fuel ih =>
    rw [scanFrom, scanFrom]
    split
    · exact .pure _
    · refine scanItem_repeats.bind fun found => ?_
      obtain ⟨declared, left⟩ := found
      cases left with
      | none => exact .pure _
      | some rest => exact ih declared rest

/-- A scan that reports no error by itself does the same as a part of any other work. -/
theorem run_scan_of_account {handler : Handler} {patience base : Nat} {subset : String}
    {declarations : Declarations} {reports : List Report}
    (alone : account handler patience base subset.toList = ⟨.ok declarations, reports⟩)
    (silent : Report.AllSilent reports) (base' : Nat) (journal : Journal) :
    (scan patience base' subset).run.run journal = (.ok declarations, journal.tell reports) := by
  obtain ⟨outcome, told, run, again⟩ := scanFrom_repeats base base' (byteLength subset.toList)
    (subset.toList.length + patience + 1) .none subset.toList { handler } journal
  rw [account_eq, run, Account.of_tell] at alone
  obtain ⟨rfl, rfl⟩ := Account.mk.inj alone
  exact again silent

/-! ### Declarations as they are written -/

/-- An external identifier as it is written, if there is one, with its literals. -/
inductive ExternalWritten : List String → List Char → Prop
  | none : ExternalWritten [] []
  | system {literal : String} {space cs : List Char} : IsSpace space → Quoted literal cs →
    ExternalWritten [literal] ("SYSTEM".toList ++ (space ++ cs))
  | identified {literal literal' : String} {space space' cs cs' : List Char} : IsSpace space →
    Quoted literal cs → IsSpace space' → Quoted literal' cs' →
    ExternalWritten [literal, literal'] ("PUBLIC".toList ++ (space ++ (cs ++ (space' ++ cs'))))

/-- The content of a document type declaration as it is written, with the literals of its external
identifier and its internal subset, if it has one. -/
inductive DoctypeWritten : List String → Option String → List Char → Prop
  | plain {name : String} {literals : List String} {space space' cs : List Char} : IsName name →
    IsSpace space → ExternalWritten literals cs → IsSpace space' →
    DoctypeWritten literals none (name.toList ++ (space ++ (cs ++ space')))
  | subset {name subset : String} {literals : List String} {space space' space'' cs : List Char} :
    IsName name → IsSpace space → ExternalWritten literals cs → IsSpace space' →
    IsSpace space'' → DoctypeWritten literals (some subset)
      (name.toList ++ (space ++ (cs ++ space')) ++ '[' :: (subset.toList ++ ']' :: space''))

section

variable {literals : List String}

theorem IsSpace.notMem {space : List Char} (h : IsSpace space) {c : Char}
    (other : Text.isSpace c = false) : c ∉ space :=
  fun mem => absurd (h c mem) (by rw [other]; exact Bool.false_ne_true)

/-- Quotation marks aside, a literal is written with its own characters. -/
theorem Quoted.notMem {literal : String} (h : Quoted literal cs) {c : Char} (other : ¬ IsQuote c)
    (outside : c ∉ literal.toList) : c ∉ cs := by
  obtain ⟨hq, -⟩ := h
  have unquoted : ∀ quote, IsQuote quote → c ≠ quote := fun quote hq same => other (same ▸ hq)
  simp [unquoted _ hq, outside]

theorem ExternalWritten.notMem (h : ExternalWritten literals cs)
    (plain : ∀ literal ∈ literals, '[' ∉ literal.toList) : '[' ∉ cs := by
  have bracket : ¬ IsQuote '[' := by decide
  have blank : Text.isSpace '[' = false := by decide
  cases h with
  | none => exact List.not_mem_nil
  | system hs hq =>
    have quoted := hq.notMem bracket (plain _ List.mem_cons_self)
    simp [hs.notMem blank, quoted]
  | identified hs hq hs' hq' =>
    have quoted := hq.notMem bracket (plain _ List.mem_cons_self)
    have quoted' := hq'.notMem bracket (plain _ (List.mem_cons_of_mem _ List.mem_cons_self))
    simp [hs.notMem blank, hs'.notMem blank, quoted, quoted']

/-- Without opening brackets in its literals a declaration has none before its subset. -/
theorem ExternalWritten.notMem_outside (h : ExternalWritten literals cs)
    (plain : ∀ literal ∈ literals, '[' ∉ literal.toList) {name : String} (hn : IsName name)
    {space space' : List Char} (hs : IsSpace space) (hs' : IsSpace space') :
    '[' ∉ name.toList ++ (space ++ (cs ++ space')) := by
  have named : '[' ∉ name.toList := fun mem => absurd (hn.chars _ mem) (by decide)
  have blank : Text.isSpace '[' = false := by decide
  simp [named, hs.notMem blank, h.notMem plain, hs'.notMem blank]

end

end Subset

namespace Reader

open Subset (DoctypeWritten account)

theorem internalSubset?_eq_none {content : String} (h : '[' ∉ content.toList) :
    internalSubset? content = none := by
  have nothing : content.toList.dropWhile (· ≠ '[') = [] :=
    dropWhile_eq_nil fun c hc => decide_eq_true fun same => h (same ▸ hc)
  rw [internalSubset?, nothing]

/-- A subset in brackets is found if there is no opening bracket before it and no closing one behind
it. -/
theorem internalSubset?_eq_some {content subset : String} {outside behind : List Char}
    (whole : content.toList = outside ++ '[' :: (subset.toList ++ ']' :: behind))
    (ho : '[' ∉ outside) (hb : ']' ∉ behind) :
    internalSubset? content = some (Text.byteLength outside + 1, subset) := by
  have opening : ∀ c ∈ outside, decide (c ≠ '[') = true :=
    fun c hc => decide_eq_true fun same => ho (same ▸ hc)
  have closing : ∀ c ∈ behind.reverse, decide (c ≠ ']') = true :=
    fun c hc => decide_eq_true fun same => hb (same ▸ List.mem_reverse.1 hc)
  obtain ⟨taken, left⟩ := takeWhile_append_cons opening (decide_eq_false (· rfl))
    (subset.toList ++ ']' :: behind)
  have inside : (subset.toList ++ ']' :: behind).contains ']' = true := by simp
  have back : (subset.toList ++ ']' :: behind).reverse =
      behind.reverse ++ ']' :: subset.toList.reverse := by simp
  rw [internalSubset?, whole, taken, left]
  dsimp only
  rw [if_pos inside, back, (takeWhile_append_cons closing (decide_eq_false (· rfl)) _).2,
    List.drop_one, List.tail_cons, List.reverse_reverse, String.ofList_toList]

variable {σ : Type}

/-- Where the literals of the external identifier have no opening bracket, a document type
declaration without an internal subset changes nothing, and one with a subset of which no error is
reported declares what the scan of that subset alone finds, and tells what that scan tells. -/
theorem internal_subset_is_scanned_exactly {literals : List String} {subset? : Option String}
    {content : String} (written : DoctypeWritten literals subset? content.toList)
    (plain : ∀ literal ∈ literals, '[' ∉ literal.toList) (sink : Sink σ)
    (patience position : Nat) (reader : Reader) (state : σ) (journal : Journal) :
    (subset? = none → (doctype sink patience position content).ending reader (state, journal) =
      ((.ok (), reader), state, journal)) ∧
    ∀ subset handler base declarations reports, subset? = some subset →
      account handler patience base subset.toList = ⟨.ok declarations, reports⟩ →
      Report.AllSilent reports →
      (doctype sink patience position content).ending reader (state, journal) =
        (deliverEntities sink position declarations.entities).ending { reader with declarations }
          (state, journal.tell reports) := by
  generalize whole : content.toList = cs at written
  cases written with
  | plain named hs external hs' =>
    have outside := external.notMem_outside plain named hs hs'
    refine ⟨fun _ => ?_, ?_⟩
    · rw [doctype, internalSubset?_eq_none (whole ▸ outside)]
      rfl
    · rintro _ _ _ _ _ ⟨⟩
  | subset named hs external hs' hs'' =>
    refine ⟨fun none => absurd none (Option.some_ne_none _), ?_⟩
    rintro subset handler base declarations reports ⟨⟩ alone silent
    have inside := internalSubset?_eq_some whole (external.notMem_outside plain named hs hs')
      (hs''.notMem (by decide))
    rw [ending_doctype inside, Subset.run_scan_of_account alone silent]
    rfl

/-- Brackets in the value of an entity are a part of the subset, and so is a closing one in the
external identifier no end of it. -/
theorem internal_subset_is_scanned_exactly_of_brackets :
    let content := "a SYSTEM \x22x]\x22 [<!ENTITY e '[1]'>] "
    let declared : Subset.Declarations := { entities := [("e", "[1]")] }
    DoctypeWritten ["x]"] (some "<!ENTITY e '[1]'>") content.toList ∧
      (∀ literal ∈ ["x]"], '[' ∉ literal.toList) ∧
      account .lenient 0 0 "<!ENTITY e '[1]'>".toList = ⟨.ok declared, []⟩ ∧
      let result := (doctype (.recorder none) 0 0 content).ending (.start 9)
        (#[], { handler := .strict })
      result.1.1 = .ok () ∧ result.1.2.declarations = declared ∧
        result.2.1 = #[.entityDeclaration "e" "[1]"] ∧ result.2.2.reports = #[] := by
  intro content declared
  have space : Subset.IsSpace [' '] := by decide
  have quoted : Subset.Quoted "x]" "\x22x]\x22".toList := .mk (.inl rfl) (by decide)
  have whole : content.toList = "a".toList ++ ([' '] ++ (("SYSTEM".toList ++ ([' '] ++
      "\x22x]\x22".toList)) ++ [' '])) ++ '[' :: ("<!ENTITY e '[1]'>".toList ++ ']' :: [' ']) := by
    decide +kernel
  have written : DoctypeWritten ["x]"] (some "<!ENTITY e '[1]'>") content.toList := by
    rw [whole]
    exact .subset (by decide : Subset.IsName "a") space (.system space quoted) space space
  have plain : ∀ literal ∈ ["x]"], '[' ∉ literal.toList := by decide
  have alone : account .lenient 0 0 "<!ENTITY e '[1]'>".toList = ⟨.ok declared, []⟩ := by
    rw [Subset.account_eq]
    rfl
  refine ⟨written, plain, alone, ?_⟩
  rw [(internal_subset_is_scanned_exactly written plain (.recorder none) 0 0 (.start 9) #[]
    { handler := .strict }).2 _ _ _ _ _ rfl alone nofun]
  decide +kernel

/-- An opening bracket in a system literal is taken for the beginning of an internal subset. -/
theorem bracket_in_literal_is_scanned :
    let content := "a SYSTEM \x22x[y\x22"
    DoctypeWritten ["x[y"] none content.toList ∧
      (run (.recorder none) 0 0 (.ofString ("<!DOCTYPE " ++ content ++ "><a/>")) #[]
        { handler := .lenient }).journal.errors =
          [.parse 12 "unexpected content in internal subset"] := by
  intro content
  have quoted : Subset.Quoted "x[y" "\x22x[y\x22".toList := .mk (.inl rfl) (by decide)
  have space : Subset.IsSpace [' '] := by decide
  have whole : content.toList = "a".toList ++ ([' '] ++ (("SYSTEM".toList ++ ([' '] ++
      "\x22x[y\x22".toList)) ++ [])) := by
    decide +kernel
  refine ⟨?_, by decide +kernel⟩
  rw [whole]
  exact .plain (by decide : Subset.IsName "a") space (.system space quoted) (List.forall_mem_nil _)

end Reader

end XmlTable
