import XmlTable.Proofs.Contracts
import XmlTable.Proofs.Offsets
import XmlTable.Proofs.Relocation

/-!
# What a scan finds fault with

Every error that the scan of an internal subset reports is about one item, and has the position of
its first character, counted from the position that the scan was given for the subset. In a
document this is the position of the document type declaration and the place of the subset in its
content. The opening of the declaration, which comes before the content, is left out: every error
is reported as many bytes too early as the opening has.
-/

namespace XmlTable

namespace Subset

open Text (startsWith after? byteLength)

variable {α β : Type} {known declared : Declarations} {cs item rest : List Char}

/-! ### Items and their faults -/

/-- Why the item at the start of a text cannot be read when some declarations are known. -/
inductive IsFault (known : Declarations) (cs : List Char) : Fault → Prop
  | comment : startsWith cs "<!--" = true → after? "-->".toList cs = none →
    IsFault known cs .unclosedComment
  | instruction : startsWith cs "<?" = true → after? "?>".toList cs = none →
    IsFault known cs .unclosedInstruction
  | reference : startsWith cs "%" = true → after? ";".toList cs = none →
    IsFault known cs .unclosedReference
  | unclosed : startsWith cs "<!" = true → startsWith cs "<!--" = false →
    splitBody none [] ((cs.drop 2).dropWhile isNameChar) = none →
    IsFault known cs .unclosedDeclaration
  | declaration {body rest : List Char} {fault : Fault} : startsWith cs "<!" = true →
    startsWith cs "<!--" = false →
    splitBody none [] ((cs.drop 2).dropWhile isNameChar) = some (body, rest) →
    declare (.ofList ((cs.drop 2).takeWhile isNameChar)) body known = .error fault →
    IsFault known cs fault
  | stray : startsWith cs "<!" = false → startsWith cs "<?" = false → startsWith cs "%" = false →
    IsFault known cs .strayContent

/-- What is known after the item at the start of a text. -/
def knownAfter (known : Declarations) (cs : List Char) : Declarations :=
  if startsWith cs "<!" && !startsWith cs "<!--" then
    match splitBody none [] ((cs.drop 2).dropWhile isNameChar) with
    | some (body, _) =>
      match declare (.ofList ((cs.drop 2).takeWhile isNameChar)) body known with
      | .ok declared => declared.declarations
      | .error _ => known
    | none => known
  else known

/-- An item that is not read has a fault. -/
theorem IsFault.of_readItem {fault : Fault} (h : readItem known cs = .error fault) :
    IsFault known cs fault := by
  have missing : ∀ {pattern other}, readItem.passed known cs pattern other = .error fault →
      after? pattern.toList cs = none ∧ other = fault := by
    intro pattern other refused
    unfold readItem.passed at refused
    split at refused
    · cases refused
    · next missing => exact ⟨Option.not_isSome_iff_eq_none.1 missing, Except.error.inj refused⟩
  unfold readItem at h
  split at h
  · next opens =>
    obtain ⟨unclosed, rfl⟩ := missing h
    exact .comment opens unclosed
  · next comment =>
    split at h
    · next opens =>
      obtain ⟨unclosed, rfl⟩ := missing h
      exact .instruction opens unclosed
    · next instruction =>
      split at h
      · next opens =>
        split at h
        · next unclosed =>
          cases h
          exact .unclosed opens (Bool.eq_false_iff.2 comment) unclosed
        · next split => exact .declaration opens (Bool.eq_false_iff.2 comment) split h
      · next declaration =>
        split at h
        · next opens =>
          obtain ⟨unclosed, rfl⟩ := missing h
          exact .reference opens unclosed
        · next reference =>
          cases h
          exact .stray (Bool.eq_false_iff.2 declaration) (Bool.eq_false_iff.2 instruction)
            (Bool.eq_false_iff.2 reference)

/-- What is known after an item is what it comes to; if it cannot be read, what was known before. -/
theorem knownAfter_eq :
    knownAfter known cs = (readItem known cs).toOption.elim known (·.declarations) := by
  have passed : ∀ pattern fault,
      (readItem.passed known cs pattern fault).toOption.elim known (·.declarations) = known := by
    intro pattern fault
    unfold readItem.passed
    split <;> rfl
  unfold knownAfter readItem
  by_cases comment : startsWith cs "<!--" = true
  · rw [if_pos comment, passed, comment, Bool.not_true, Bool.and_false]
    rfl
  · rw [if_neg comment, Bool.eq_false_iff.2 comment, Bool.not_false, Bool.and_true]
    by_cases declaration : startsWith cs "<!" = true
    · obtain ⟨more, rfl⟩ := List.isPrefixOf_iff_prefix.1 declaration
      rw [if_pos declaration, if_pos declaration]
      cases splitBody none [] ((("<!".toList ++ more).drop 2).dropWhile isNameChar) with
      | none => rfl
      | some found =>
        dsimp only
        cases declare _ found.1 known with
        | ok declared => rfl
        | error fault => rfl
    · rw [if_neg declaration, if_neg declaration]
      split
      · exact (passed _ _).symm
      · split
        · exact (passed _ _).symm
        · rfl

/-- A scan of a text, with some declarations known, comes to an item, with some known then. -/
inductive Encounters : Declarations → List Char → Declarations → List Char → Prop
  | first {known : Declarations} {cs : List Char} : skipSpace cs ≠ [] →
    Encounters known cs known (skipSpace cs)
  | later {known declared : Declarations} {cs rest item : List Char} :
    afterItem? (skipSpace cs) = some rest →
    Encounters (knownAfter known (skipSpace cs)) rest declared item →
    Encounters known cs declared item

/-- An item is the end of the text from there on. -/
theorem Encounters.suffix (h : Encounters known cs declared item) : item <:+ cs := by
  induction h with
  | first => exact List.dropWhile_suffix _
  | later found _ ih =>
    exact ih.trans ((suffix_of_afterItem? found).trans (List.dropWhile_suffix _))

/-! ### Findings -/

/-- An error of a scan: where an item begins, what is known when the scan comes there, the text from
there on, and why the item cannot be read. -/
structure Finding where
  /-- The position that is reported. -/
  position : Nat
  /-- The declarations before the item. -/
  known : Declarations
  /-- The text from the first character of the item on. -/
  item : List Char
  /-- The fault of the item. -/
  fault : Fault

/-- The failure that is reported. -/
def Finding.failure (finding : Finding) : Failure :=
  .parse finding.position finding.fault.message

/-- A scan of a text comes to the item and cannot read it. -/
structure Finding.IsMet (known : Declarations) (cs : List Char) (finding : Finding) : Prop where
  /-- The scan comes there. -/
  encountered : Encounters known cs finding.known finding.item
  /-- It has that fault. -/
  faulty : IsFault finding.known finding.item finding.fault

/-- The errors of work are those of some findings; if it fails, then with the last of them. -/
structure Explains (findings : List Finding) (journal : Journal)
    (result : Except Stop α × Journal) : Prop where
  /-- They are reported in order. -/
  errors : result.2.errors = journal.errors ++ findings.map (·.failure)
  /-- A failure is the last one. -/
  last : ∀ cause, result.1 = .error (.failure cause) →
    (findings.map (·.failure)).getLast? = some cause

/-- All errors that work reports are of findings of a kind. -/
def Scanning.Reports (P : Finding → Prop) (work : Scanning α) : Prop :=
  ∀ journal : Journal, ∃ findings : List Finding, (∀ finding ∈ findings, P finding) ∧
    Explains findings journal (work.run.run journal)

namespace Scanning.Reports

variable {P Q : Finding → Prop}

theorem pure (a : α) : Reports P (pure a) := fun _ =>
  ⟨[], List.forall_mem_nil _, (List.append_nil _).symm, nofun⟩

theorem throw_unfinished : Reports P (throw .unfinished : Scanning α) := fun _ =>
  ⟨[], List.forall_mem_nil _, (List.append_nil _).symm, nofun⟩

theorem mono {work : Scanning α} (h : Reports P work) (le : ∀ finding, P finding → Q finding) :
    Reports Q work := by
  intro journal
  obtain ⟨findings, each, explains⟩ := h journal
  exact ⟨findings, fun finding hf => le finding (each finding hf), explains⟩

/-- What comes next may rely on what is found first. -/
theorem bind {work : Scanning α} {next : α → Scanning β} {A : α → Prop} (h : Reports P work)
    (finds : work.Finds A) (hn : ∀ a, A a → Reports P (next a)) : Reports P (work >>= next) := by
  intro journal
  obtain ⟨findings, each, errors, last⟩ := h journal
  rw [run_bind]
  have found := finds journal
  unfold Meets at found
  generalize work.run.run journal = r at errors last found ⊢
  obtain ⟨stop | a, journal'⟩ := r
  · exact ⟨findings, each, errors, fun cause same => last cause (by cases same; rfl)⟩
  · obtain ⟨more, each', errors', last'⟩ := hn a found journal'
    refine ⟨findings ++ more, fun finding hf => ?_, ?_, fun cause same => ?_⟩
    · exact (List.mem_append.1 hf).elim (each finding) (each' finding)
    · rw [List.map_append, ← List.append_assoc, ← errors]
      exact errors'
    · rw [List.map_append, List.getLast?_append, last' cause same]
      rfl

theorem bind_pure {work : Scanning α} (h : Reports P work) (b : β) :
    Reports P (do let _ ← work; return b) :=
  h.bind (finds_true work) fun _ _ => pure b

theorem warn (message : Option String) : Reports P (Subset.warn message) := by
  refine fun journal => ⟨[], List.forall_mem_nil _, ?_, ?_⟩
  · rw [List.map_nil, List.append_nil]
    cases message with
    | none => rfl
    | some text => exact Journal.errors_warn journal text
  · rw [run_warn]
    exact nofun

/-- The report of a fault is a finding, whatever the handler decides. -/
theorem report (finding : Finding) (h : P finding) :
    Reports P (Subset.report finding.position finding.fault) := by
  intro journal
  have met : (Subset.report finding.position finding.fault).Meets journal
      (fun _ journal' => journal'.errors = journal.errors ++ [finding.failure])
      fun stop journal' => stop = .failure finding.failure ∧
        journal'.errors = journal.errors ++ [finding.failure] := by
    rw [meets_report]
    split
    · exact Journal.errors_error journal finding.failure
    · exact ⟨rfl, Journal.errors_error journal finding.failure⟩
  unfold Meets at met
  refine ⟨[finding], List.forall_mem_singleton.2 h, ?_⟩
  generalize (Subset.report _ _).run.run journal = r at met ⊢
  obtain ⟨stop | a, journal'⟩ := r
  · obtain ⟨rfl, errors⟩ := met
    refine ⟨errors, fun cause same => ?_⟩
    cases same
    rfl
  · exact ⟨met, nofun⟩

end Scanning.Reports

open Scanning (Reports)

/-! ### The errors of a scan -/

/-- A finding about the item at the start of a text. -/
def Finding.IsAbout (position : Nat) (known : Declarations) (cs : List Char) (finding : Finding) :
    Prop :=
  ∃ fault, finding = ⟨position, known, cs, fault⟩ ∧ IsFault known cs fault

theorem IsFault.reports {fault : Fault} (h : IsFault known cs fault) (position : Nat) :
    Reports (Finding.IsAbout position known cs) (report position fault) :=
  .report ⟨position, known, cs, fault⟩ ⟨fault, rfl, h⟩

/-- The errors of an item are about that item. -/
theorem scanItem_reports {position : Unit → Nat} :
    Reports (Finding.IsAbout (position ()) known cs) (scanItem position known cs) := by
  rw [scanItem_eq]
  cases read : readItem known cs with
  | ok declared => exact (Reports.warn _).bind_pure _
  | error fault => exact ((IsFault.of_readItem read).reports _).bind_pure _

/-- What is known after an item is a matter of its characters and of what was known before. -/
theorem scanItem_finds_known {position : Unit → Nat} :
    (scanItem position known cs).Finds (·.1 = knownAfter known cs) := by
  refine scanItem_finds (P := (· = knownAfter known cs)) (fun declared read => ?_)
    fun fault unread => ?_
  · rw [knownAfter_eq, read]
    rfl
  · rw [knownAfter_eq, unread]
    rfl

/-- The errors of a scan are about items that it comes to, and have the positions of these. -/
theorem scanFrom_reports (base total fuel : Nat) (known : Declarations) (cs : List Char) :
    Reports (fun finding => finding.IsMet known cs ∧
      finding.position = base + (total - byteLength finding.item))
      (scanFrom base total fuel known cs) := by
  induction fuel generalizing known cs with
  | zero => exact .throw_unfinished
  | succ fuel ih =>
    rw [scanFrom]
    split
    · exact .pure _
    · next nonempty =>
      have about : ∀ finding : Finding, finding.IsAbout
          (base + (total - byteLength (skipSpace cs))) known (skipSpace cs) →
          finding.IsMet known cs ∧
            finding.position = base + (total - byteLength finding.item) := by
        rintro finding ⟨fault, rfl, faulty⟩
        exact ⟨⟨.first nonempty, faulty⟩, rfl⟩
      -- What comes after the item is scanned with what is known after it.
      have found : (scanItem (fun _ => base + (total - byteLength (skipSpace cs))) known
          (skipSpace cs)).Finds fun found =>
            found.1 = knownAfter known (skipSpace cs) ∧ found.2 = afterItem? (skipSpace cs) :=
        scanItem_finds_known.and (scanItem_finds_afterItem? _ _ _)
      refine (scanItem_reports.mono about).bind found ?_
      rintro ⟨declared, left⟩ ⟨rfl, after⟩
      cases left with
      | none => exact .pure _
      | some rest =>
        refine (ih _ rest).mono fun finding met => ⟨⟨?_, met.1.faulty⟩, met.2⟩
        exact .later after.symm met.1.encountered

end Subset

/-! ### Document type declarations -/

namespace Reader

variable {σ : Type}

/-- How the reading of a document type declaration goes on after the scan of its internal subset:
what is declared then is kept and delivered, or the reading stops. -/
def afterScan (sink : Sink σ) (position : Nat) (reader : Reader) (state : σ) :
    Except Stop Subset.Declarations × Journal → (Except Stop Unit × Reader) × (σ × Journal)
  | (.ok declarations, journal) =>
    (deliverEntities sink position declarations.entities).ending { reader with declarations }
      (state, journal)
  | (.error stop, journal) => ((.error stop, reader), state, journal)

theorem ending_modifyGet {α : Type} (f : σ × Journal → α × (σ × Journal)) (reader : Reader)
    (s : σ × Journal) : Delivery.ending (liftM (modifyGet f : StateM (σ × Journal) α)) reader s =
      ((.ok (f s).1, reader), (f s).2) :=
  rfl

theorem ending_scanSubset (patience base : Nat) (subset : String) (reader : Reader) (state : σ)
    (journal : Journal) : (scanSubset patience base subset).ending reader (state, journal) =
      ((((Subset.scan patience base subset).run.run journal).1, reader), state,
        ((Subset.scan patience base subset).run.run journal).2) := by
  rw [scanSubset, Delivery.ending_bind, ending_modifyGet]
  dsimp only
  rcases (Subset.scan patience base subset).run.run journal with ⟨_ | _, _⟩ <;> rfl

theorem ending_doctype {content subset : String} {start : Nat}
    (inside : internalSubset? content = some (start, subset)) (sink : Sink σ)
    (patience position : Nat) (reader : Reader) (state : σ) (journal : Journal) :
    (doctype sink patience position content).ending reader (state, journal) =
      afterScan sink position reader state
        ((Subset.scan patience (position + start) subset).run.run journal) := by
  rw [doctype, inside]
  dsimp only
  rw [Delivery.ending_bind, ending_scanSubset]
  rcases (Subset.scan patience (position + start) subset).run.run journal with ⟨_ | _, _⟩ <;> rfl

/-- Before the document element the content of a document type declaration is read. -/
theorem ending_readToken_doctype {content : Bytes} {text : String}
    (decoded : content.utf8? = some text) {reader : Reader} (unseen : reader.seenRoot = false)
    (sink : Sink σ) (patience position : Nat) (s : σ × Journal) :
    (readToken sink patience position (.doctype content)).ending reader s =
      (doctype sink patience position text).ending reader s := by
  rw [readToken, Delivery.ending_bind]
  show (do
    if reader.seenRoot then abandonAt position "DOCTYPE after the document element"
    doctype sink patience position (← decodeBytes "DOCTYPE" content) :
      Delivery σ Unit).ending reader s = _
  rw [unseen, decodeBytes, decoded]
  rfl

end Reader

/-! ### Positions in a document -/

/-- Some bytes stand in a source at an offset, counted without a byte order mark. -/
def Source.Holds (source : Source) (offset : Nat) (bytes : Bytes) : Prop :=
  ∃ before behind, source.body = before ++ (bytes ++ behind) ∧ before.length = offset

theorem Source.holds_iff {source : Source} {offset : Nat} {bytes : Bytes} :
    source.Holds offset bytes ↔
      offset ≤ source.body.length ∧ bytes <+: source.body.drop offset := by
  constructor
  · rintro ⟨before, behind, whole, rfl⟩
    rw [whole, List.drop_left, List.length_append]
    exact ⟨Nat.le_add_right _ _, List.prefix_append bytes behind⟩
  · rintro ⟨le, behind, same⟩
    refine ⟨source.body.take offset, behind, ?_, List.length_take_of_le le⟩
    rw [same, List.take_append_drop]

instance (source : Source) (offset : Nat) (bytes : Bytes) :
    Decidable (source.Holds offset bytes) :=
  decidable_of_iff _ Source.holds_iff.symm

/-- The rest of an internal subset stands in the source behind the opening of the declaration and
what comes before the rest in its content. -/
theorem Source.exists_opening_before_subset {source : Source} {position start : Nat}
    {bytes : Bytes} {content subset : String}
    (token : (position, .doctype bytes) ∈ source.tokens.tokens)
    (decoded : bytes.utf8? = some content)
    (inside : Reader.internalSubset? content = some (start, subset)) :
    ∃ opening, Token.IsOpening opening ∧ source.Holds position (opening ++ bytes) ∧
      ∀ item, item <:+ subset.toList → source.Holds (position + start +
        (Text.byteLength subset.toList - Text.byteLength item) + opening.length)
        (Bytes.encode (.ofList item)) := by
  obtain ⟨before, opening, behind, here, opens, whole⟩ := Source.exists_opening token
  obtain ⟨outside, after, parts, place⟩ := Reader.append_of_internalSubset? inside
  refine ⟨opening, opens, ⟨before, Bytes.ofChar '>' :: behind, ?_, here.symm⟩, ?_⟩
  · rw [whole, List.append_assoc]
  rintro item ⟨skipped, same⟩
  have text : Bytes.encode content = Bytes.encode (.ofList (outside ++ '[' :: skipped)) ++
      (Bytes.encode (.ofList item) ++ Bytes.encode (.ofList after)) := by
    rw [← Bytes.encode_append, ← Bytes.encode_append, ← String.ofList_append,
      ← String.ofList_append, ← @String.ofList_toList content, parts, ← same]
    simp only [List.append_assoc, List.cons_append]
  refine ⟨before ++ (opening ++ Bytes.encode (.ofList (outside ++ '[' :: skipped))),
    Bytes.encode (.ofList after) ++ Bytes.ofChar '>' :: behind, ?_, ?_⟩
  · rw [whole, Bytes.eq_encode_of_utf8? decoded, text]
    simp only [List.append_assoc]
  · rw [List.length_append, List.length_append, Bytes.length_encode, ← same, here, place,
      ← Text.byteLength_toList, String.toList_ofList, Text.byteLength_append,
      Text.byteLength_append, Text.byteLength_cons]
    have bracket : ('[' : Char).utf8Size = 1 := rfl
    omega

section

open Subset (Explains)

end

end XmlTable
