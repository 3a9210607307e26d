import XmlTable.Proofs.Scoping
import XmlTable.Subset.Scan

/-!
# How a scan gets on

What comes after an item of an internal subset is a matter of its characters alone; neither the
declarations before it nor the error handler have a say. Every item takes at least one character,
with one exception: a less-than sign with which no item begins is passed over up to the next
less-than sign, which is itself. A scan that comes to such a sign never gets past it while the
handler recovers. Any other scan comes to an end, and reports no more failures than there are bytes.
-/

namespace XmlTable

/-! ### Handlers and journals -/

/-- The error handler goes on whatever is reported to it. -/
def Handler.Recovers (handler : Handler) : Prop :=
  ∀ reports cause, handler.decide reports cause = .proceed

/-- A journal goes on from another with the same handler, and with so many more reports of failures
at most. -/
structure Journal.Gains (count : Nat) (journal journal' : Journal) : Prop where
  /-- The handler is the same. -/
  handler : journal'.handler = journal.handler
  /-- There are not many more reports. -/
  errors : journal'.errors.length ≤ journal.errors.length + count

theorem Journal.Gains.trans {count more : Nat} {journal journal' journal'' : Journal}
    (h : journal.Gains count journal') (h' : journal'.Gains more journal'') :
    journal.Gains (count + more) journal'' where
  handler := h'.handler.trans h.handler
  errors := by
    have := h.errors
    have := h'.errors
    omega

theorem Journal.Gains.mono {count more : Nat} {journal journal' : Journal}
    (h : journal.Gains count journal') (le : count ≤ more) : journal.Gains more journal' where
  handler := h.handler
  errors := Nat.le_trans h.errors (Nat.add_le_add_left le _)

namespace Subset

variable {α β : Type}

/-! ### What comes of a scan -/

/-- From a journal the work ends with an answer and meets one condition, or stops and meets
another. -/
def Scanning.Meets (work : Scanning α) (journal : Journal) (onOk : α → Journal → Prop)
    (onStop : Stop → Journal → Prop) : Prop :=
  match work.run.run journal with
  | (.ok a, journal') => onOk a journal'
  | (.error stop, journal') => onStop stop journal'

namespace Scanning

variable {work : Scanning α} {journal : Journal} {onOk onOk' : α → Journal → Prop}
  {onStop onStop' : Stop → Journal → Prop}

theorem Meets.mono (h : work.Meets journal onOk onStop)
    (ok : ∀ a journal', onOk a journal' → onOk' a journal')
    (stop : ∀ cause journal', onStop cause journal' → onStop' cause journal') :
    work.Meets journal onOk' onStop' := by
  unfold Meets at h ⊢
  split at h
  · exact ok _ _ h
  · exact stop _ _ h

@[simp] theorem meets_pure (a : α) :
    (pure a : Scanning α).Meets journal onOk onStop ↔ onOk a journal :=
  Iff.rfl

@[simp] theorem meets_throw (stop : Stop) :
    (throw stop : Scanning α).Meets journal onOk onStop ↔ onStop stop journal :=
  Iff.rfl

theorem meets_bind (work : Scanning α) (next : α → Scanning β) {onOk : β → Journal → Prop} :
    (work >>= next).Meets journal onOk onStop ↔
      work.Meets journal (fun a journal' => (next a).Meets journal' onOk onStop) onStop := by
  unfold Meets
  rw [run_bind]
  rcases work.run.run journal with ⟨_ | _, _⟩ <;> rfl

/-- After the report of a fault the handler decides. -/
theorem meets_report (position : Nat) (fault : Fault) {onOk : Unit → Journal → Prop} :
    (report position fault).Meets journal onOk onStop ↔
      match (journal.error (.parse position fault.message)).1 with
      | .proceed => onOk () (journal.error (.parse position fault.message)).2
      | .abort => onStop (.failure (.parse position fault.message))
          (journal.error (.parse position fault.message)).2 := by
  unfold report
  rw [meets_bind]
  change ((match (journal.error (.parse position fault.message)).1 with
    | .proceed => pure ()
    | .abort => throw (.failure (.parse position fault.message)) : Scanning Unit)).Meets _ _ _ ↔ _
  cases (journal.error (.parse position fault.message)).1 <;> rfl

end Scanning

/-! ### What comes after an item -/

/-- What comes after a pattern that is not empty is shorter than the text. -/
theorem length_lt_of_after? {pattern cs rest : List Char} (hp : pattern ≠ [])
    (h : Text.after? pattern cs = some rest) : rest.length < cs.length := by
  have positive : 0 < pattern.length := List.length_pos_iff.2 hp
  induction cs with
  | nil =>
    rw [Text.after?, if_neg (by simpa using hp)] at h
    cases h
  | cons c cs ih =>
    rw [Text.after?] at h
    split at h
    · cases h
      rw [List.length_drop, List.length_cons]
      omega
    · exact Nat.lt_succ_of_lt (ih h)

/-- What comes after a declaration is shorter than what comes after its keyword. -/
theorem length_lt_of_splitBody {quote : Option Char} {seen cs body rest : List Char}
    (h : splitBody quote seen cs = some (body, rest)) : rest.length < cs.length := by
  induction cs generalizing quote seen with
  | nil => cases h
  | cons c cs ih =>
    cases quote with
    | some quote => exact Nat.lt_succ_of_lt (ih h)
    | none =>
      rw [splitBody] at h
      split at h
      · cases h
        exact Nat.lt_succ_self _
      · split at h
        · exact Nat.lt_succ_of_lt (ih h)
        · exact Nat.lt_succ_of_lt (ih h)

/-- What comes after the item at the start of a text. There is nothing if the scan ends with it. -/
def afterItem? (cs : List Char) : Option (List Char) :=
  if Text.startsWith cs "<!--" then Text.after? "-->".toList cs
  else if Text.startsWith cs "<?" then Text.after? "?>".toList cs
  else if Text.startsWith cs "<!" then
    (splitBody none [] ((cs.drop 2).dropWhile isNameChar)).map (·.2)
  else if Text.startsWith cs "%" then Text.after? ";".toList cs
  else match cs.dropWhile (· ≠ '<') with
    | [] => none
    | rest => some rest

/-- A less-than sign with which no item begins. -/
structure IsStray (cs : List Char) : Prop where
  /-- The text begins with the sign. -/
  head : cs.head? = some '<'
  /-- It is not that of a processing instruction, -/
  instruction : Text.startsWith cs "<?" = false
  /-- nor that of a declaration or a comment. -/
  declaration : Text.startsWith cs "<!" = false

instance (cs : List Char) : Decidable (IsStray cs) :=
  decidable_of_iff (cs.head? = some '<' ∧ Text.startsWith cs "<?" = false ∧
    Text.startsWith cs "<!" = false)
    ⟨fun ⟨head, instruction, declaration⟩ => ⟨head, instruction, declaration⟩,
      fun h => ⟨h.head, h.instruction, h.declaration⟩⟩

/-- A stray less-than sign is no white space. -/
theorem IsStray.skipSpace {cs : List Char} (h : IsStray cs) : skipSpace cs = cs := by
  cases cs with
  | nil => rfl
  | cons c rest =>
    cases h.head
    rfl

/-- A stray less-than sign comes after itself. -/
theorem IsStray.afterItem? {cs : List Char} (h : IsStray cs) : afterItem? cs = some cs := by
  obtain ⟨head, instruction, declaration⟩ := h
  cases cs with
  | nil => cases head
  | cons c rest =>
    cases head
    have comment : Text.startsWith ('<' :: rest) "<!--" = false := by
      refine Bool.eq_false_iff.2 fun begins => ?_
      obtain ⟨more, same⟩ := List.isPrefixOf_iff_prefix.1 begins
      have : Text.startsWith ('<' :: rest) "<!" = true :=
        List.isPrefixOf_iff_prefix.2 ⟨'-' :: '-' :: more, same⟩
      rw [declaration] at this
      cases this
    rw [Subset.afterItem?, comment, instruction, declaration]
    rfl

/-- An item takes at least one character, unless it is a stray less-than sign. -/
theorem length_lt_of_afterItem? {cs rest : List Char} (h : afterItem? cs = some rest)
    (hs : ¬ IsStray cs) : rest.length < cs.length := by
  unfold afterItem? at h
  split at h
  · exact length_lt_of_after? (by decide) h
  · split at h
    · exact length_lt_of_after? (by decide) h
    · split at h
      · obtain ⟨⟨body, rest⟩, split, rfl⟩ := Option.map_eq_some_iff.1 h
        have shorter := length_lt_of_splitBody split
        have name := (List.dropWhile_suffix (l := cs.drop 2) isNameChar).length_le
        rw [List.length_drop] at name
        show rest.length < cs.length
        omega
      · split at h
        · exact length_lt_of_after? (by decide) h
        · next instruction declaration _ =>
          split at h
          · cases h
          · cases h
            cases cs with
            | nil => contradiction
            | cons c cs =>
              have passes : c ≠ '<' := by
                rintro rfl
                exact hs ⟨rfl, Bool.eq_false_iff.2 instruction, Bool.eq_false_iff.2 declaration⟩
              rw [List.dropWhile_cons_of_pos (by simpa using passes)]
              exact Nat.lt_succ_of_le (List.dropWhile_suffix _).length_le

/-! ### What an item comes to -/

/-- What the item at the start of a text comes to when some declarations are known: what is declared
then, or why it cannot be read. -/
def readItem (known : Declarations) (cs : List Char) : Except Fault Declared :=
  if Text.startsWith cs "<!--" then passed "-->" .unclosedComment
  else if Text.startsWith cs "<?" then passed "?>" .unclosedInstruction
  else if Text.startsWith cs "<!" then
    match splitBody none [] ((cs.drop 2).dropWhile isNameChar) with
    | none => .error .unclosedDeclaration
    | some (body, _) => declare (.ofList ((cs.drop 2).takeWhile isNameChar)) body known
  else if Text.startsWith cs "%" then passed ";" .unclosedReference
  else .error .strayContent
where
  /-- What is passed over up to a pattern declares nothing. -/
  passed (pattern : String) (fault : Fault) : Except Fault Declared :=
    if (Text.after? pattern.toList cs).isSome then .ok { declarations := known } else .error fault

/-- What a scan does about an item: it tells the warning or reports the fault, and goes on. -/
def settleItem (position : Unit → Nat) (known : Declarations) (left : Option (List Char)) :
    Except Fault Declared → Scanning (Declarations × Option (List Char))
  | .ok declared => do
    warn declared.warning
    return (declared.declarations, left)
  | .error fault => do
    report (position ()) fault
    return (known, left)

section

variable {position : Unit → Nat} {known : Declarations} {declared : Declared} {cs : List Char}

theorem scanPast_eq (pattern : String) (fault : Fault) :
    scanPast position pattern fault known cs =
      settleItem position known (Text.after? pattern.toList cs)
        (readItem.passed known cs pattern fault) := by
  unfold scanPast readItem.passed
  cases Text.after? pattern.toList cs with
  | none => rfl
  | some rest => rfl

/-- All that a scan does about an item: other results about it follow from this one. -/
theorem scanItem_eq : scanItem position known cs =
    settleItem position known (afterItem? cs) (readItem known cs) := by
  unfold scanItem afterItem? readItem
  split
  · exact scanPast_eq _ _
  · split
    · exact scanPast_eq _ _
    · split
      · unfold scanDeclaration
        cases splitBody none [] ((cs.drop 2).dropWhile isNameChar) with
        | none => rfl
        | some found =>
          dsimp only
          cases declare _ found.1 known with
          | ok declared => rfl
          | error fault => rfl
      · split
        · exact scanPast_eq _ _
        · cases cs.dropWhile (· ≠ '<') with
          | nil => rfl
          | cons c rest => rfl

/-- An item that can be read is a declaration, or nothing is declared by it. -/
theorem eq_or_declare_of_readItem (h : readItem known cs = .ok declared) :
    declared.declarations = known ∨ ∃ body rest,
      splitBody none [] ((cs.drop 2).dropWhile isNameChar) = some (body, rest) ∧
        declare (.ofList ((cs.drop 2).takeWhile isNameChar)) body known = .ok declared := by
  have same : ∀ {pattern fault}, readItem.passed known cs pattern fault = .ok declared →
      declared.declarations = known := by
    intro pattern fault passed
    unfold readItem.passed at passed
    split at passed
    · cases passed
      rfl
    · cases passed
  unfold readItem at h
  split at h
  · exact .inl (same h)
  · split at h
    · exact .inl (same h)
    · split at h
      · split at h
        · cases h
        · next body rest split => exact .inr ⟨body, rest, split, h⟩
      · split at h
        · exact .inl (same h)
        · cases h

end

/-! ### What is reported -/

/-- The work reports at most one failure, and stops only if the handler does not recover. What is
said of its answer is true. -/
def Scanning.Advances (work : Scanning α) (answer : α → Prop) : Prop :=
  ∀ journal : Journal, work.Meets journal
    (fun a journal' => answer a ∧ journal.Gains 1 journal')
    fun stop journal' => stop ≠ .unfinished ∧ ¬ journal.handler.Recovers ∧ journal.Gains 1 journal'

namespace Scanning.Advances

variable {answer : α → Prop}

theorem pure {a : α} (h : answer a) : Advances (pure a) answer := fun _ =>
  ⟨h, rfl, Nat.le_succ _⟩

/-- After the report of a fault there is an answer at once, if the handler recovers. -/
theorem report (position : Nat) (fault : Fault) {a : α} (h : answer a) :
    Advances (do Subset.report position fault; return a) answer := by
  intro journal
  rw [meets_bind, meets_report]
  have gains : journal.Gains 1 (journal.error (.parse position fault.message)).2 := by
    refine ⟨rfl, ?_⟩
    rw [Journal.errors_error, List.length_append]
    exact Nat.le_refl _
  split
  · exact ⟨h, gains⟩
  · next decision =>
    refine ⟨nofun, fun recovers => ?_, gains⟩
    have proceeds : (journal.error (.parse position fault.message)).1 = .proceed := recovers _ _
    rw [decision] at proceeds
    cases proceeds

/-- After a warning there is an answer at once. -/
theorem warn (warning : Option String) {a : α} (h : answer a) :
    Advances (do Subset.warn warning; return a) answer := by
  intro journal
  cases warning with
  | none => exact ⟨h, rfl, Nat.le_succ _⟩
  | some message =>
    refine ⟨h, rfl, ?_⟩
    rw [Journal.errors_warn]
    exact Nat.le_succ _

end Scanning.Advances

/-- An item is followed by what comes after it, whatever is known and whatever the handler says. -/
theorem scanItem_advances (position : Unit → Nat) (declarations : Declarations) (cs : List Char) :
    (scanItem position declarations cs).Advances (·.2 = afterItem? cs) := by
  rw [scanItem_eq]
  cases readItem declarations cs with
  | ok declared => exact .warn _ rfl
  | error fault => exact .report _ _ rfl

/-! ### The end of a scan -/

/-- A scan comes to a stray less-than sign. -/
inductive ComesToStray : List Char → Prop
  /-- There is one, after white space. -/
  | here {cs : List Char} : IsStray (skipSpace cs) → ComesToStray cs
  /-- There is one after some items. -/
  | later {cs rest : List Char} : afterItem? (skipSpace cs) = some rest → ComesToStray rest →
    ComesToStray cs

/-- A scan that comes to a stray less-than sign comes to it still after the next item. -/
theorem ComesToStray.exists_afterItem? {cs : List Char} (h : ComesToStray cs) :
    ∃ rest, afterItem? (skipSpace cs) = some rest ∧ ComesToStray rest := by
  cases h with
  | here stray =>
    refine ⟨_, stray.afterItem?, .here ?_⟩
    rwa [stray.skipSpace]
  | later found rest => exact ⟨_, found, rest⟩

variable {base total : Nat} {declarations : Declarations} {cs : List Char}

/-- One pass of a scan. -/
theorem run_scanFrom_succ (base total fuel : Nat) (declarations : Declarations) (cs : List Char)
    (journal : Journal) : (scanFrom base total (fuel + 1) declarations cs).run.run journal =
      if (skipSpace cs).isEmpty then (.ok declarations, journal) else
        match (scanItem (fun _ => base + (total - Text.byteLength (skipSpace cs))) declarations
          (skipSpace cs)).run.run journal with
        | (.ok (declarations', some rest), journal') =>
          (scanFrom base total fuel declarations' rest).run.run journal'
        | (.ok (declarations', none), journal') => (.ok declarations', journal')
        | (.error stop, journal') => (.error stop, journal') := by
  rw [scanFrom]
  cases skipSpace cs with
  | nil => rfl
  | cons c rest =>
    dsimp only [List.isEmpty_cons]
    rw [Scanning.run_bind, if_neg nofun]
    rcases (scanItem _ _ _).run.run journal with ⟨_ | ⟨_, _ | _⟩, _⟩ <;> rfl

/-- A scan that comes to a stray less-than sign does not get past it while the handler recovers. -/
theorem ComesToStray.unfinished (h : ComesToStray cs) {journal : Journal}
    (recovers : journal.handler.Recovers) (fuel : Nat) :
    ((scanFrom base total fuel declarations cs).run.run journal).1 = .error .unfinished := by
  induction fuel generalizing declarations cs journal with
  | zero => rfl
  | succ fuel ih =>
    obtain ⟨rest, found, later⟩ := h.exists_afterItem?
    have nonempty : (skipSpace cs).isEmpty = false := by
      cases hcs : skipSpace cs with
      | nil =>
        rw [hcs] at found
        cases found
      | cons c rest => rfl
    rw [run_scanFrom_succ, nonempty]
    have advances := scanItem_advances (fun _ => base + (total - Text.byteLength (skipSpace cs)))
      declarations (skipSpace cs) journal
    unfold Scanning.Meets at advances
    generalize (scanItem _ _ _).run.run journal = r at advances ⊢
    obtain ⟨stop | ⟨declarations', next⟩, journal'⟩ := r
    · exact absurd recovers advances.2.1
    · obtain ⟨rfl, gains⟩ := advances
      rw [found]
      exact ih later (gains.handler ▸ recovers)

/-- Any other scan ends, in one way whatever its patience, and reports no more failures than there
are characters. -/
theorem exists_run_scanFrom (base total : Nat) (declarations : Declarations)
    (h : ¬ ComesToStray cs) (journal : Journal) :
    ∃ outcome journal', outcome ≠ .error .unfinished ∧ journal.Gains cs.length journal' ∧
      ∀ fuel, cs.length ≤ fuel →
        (scanFrom base total (fuel + 1) declarations cs).run.run journal = (outcome, journal') := by
  -- The text after an item is shorter, so this is an induction on the length.
  induction hn : cs.length using Nat.strongRecOn generalizing declarations cs journal with
  | ind n ih =>
    subst hn
    have skipped : (skipSpace cs).length ≤ cs.length := (List.dropWhile_suffix _).length_le
    have pass := fun fuel => run_scanFrom_succ base total fuel declarations cs journal
    cases hcs : skipSpace cs with
    | nil =>
      simp only [hcs] at pass
      exact ⟨.ok declarations, journal, nofun, ⟨rfl, Nat.le_add_right _ _⟩, fun fuel _ => pass fuel⟩
    | cons c text =>
      have advances := scanItem_advances (fun _ => base + (total - Text.byteLength (c :: text)))
        declarations (c :: text) journal
      unfold Scanning.Meets at advances
      rw [hcs, List.length_cons] at skipped
      have one : 1 ≤ cs.length := Nat.le_trans (Nat.succ_le_succ (Nat.zero_le _)) skipped
      simp only [hcs, List.isEmpty_cons, Bool.false_eq_true, if_false] at pass
      generalize (scanItem _ _ _).run.run journal = r at advances pass
      obtain ⟨stop | ⟨declarations', next⟩, journal'⟩ := r
      · obtain ⟨ends, -, gains⟩ := advances
        exact ⟨_, _, fun h => ends (Except.error.inj h), gains.mono one, fun fuel _ => pass fuel⟩
      · obtain ⟨same, gains⟩ := advances
        cases next with
        | none =>
          exact ⟨.ok declarations', journal', nofun, gains.mono one, fun fuel _ => pass fuel⟩
        | some rest =>
          have shorter : rest.length < (c :: text).length :=
            length_lt_of_afterItem? same.symm fun stray => h (.here (hcs ▸ stray))
          rw [List.length_cons] at shorter
          obtain ⟨outcome, journal'', ends, more, run⟩ := ih rest.length (by omega) declarations'
            (fun later => h (.later (hcs ▸ same.symm) later)) journal' rfl
          refine ⟨outcome, journal'', ends, (gains.trans more).mono (by omega), fun fuel hf => ?_⟩
          obtain ⟨fuel, rfl⟩ := Nat.exists_eq_succ_of_ne_zero (n := fuel) (by omega)
          rw [pass]
          exact run fuel (by omega)

/-- A scan of an internal subset comes to an end, whatever its patience, and reports no more
failures than the subset has bytes. -/
def Ends (base : Nat) (subset : String) (journal : Journal) : Prop :=
  ∃ outcome journal', outcome ≠ .error .unfinished ∧
    journal.Gains subset.utf8ByteSize journal' ∧
    ∀ patience, (scan patience base subset).run.run journal = (outcome, journal')

/-- A scan comes to an end with any handler, unless it comes to a stray less-than sign. Then it does
not come to an end with a handler that always recovers, whatever its patience. -/
theorem scan_ends_without_stray (base : Nat) (subset : String) :
    (¬ ComesToStray subset.toList → ∀ journal, Ends base subset journal) ∧
    (ComesToStray subset.toList → ∀ journal : Journal, journal.handler.Recovers → ∀ patience,
      ((scan patience base subset).run.run journal).1 = .error .unfinished) := by
  refine ⟨fun h journal => ?_, fun h journal recovers patience => h.unfinished recovers _⟩
  obtain ⟨outcome, journal', ends, gains, run⟩ :=
    exists_run_scanFrom base (Text.byteLength subset.toList) .none h journal
  have bytes := Text.length_le_byteLength subset.toList
  rw [Text.byteLength_toList] at bytes
  exact ⟨outcome, journal', ends, gains.mono bytes, fun patience => run _ (Nat.le_add_right _ _)⟩

/-- Before a processing instruction what is no item is passed over, but a stray less-than sign after
it is not. -/
theorem scan_ends_without_stray_of_instruction :
    (¬ ComesToStray "x<?a?>".toList ∧ ∀ journal, Ends 0 "x<?a?>" journal) ∧
      ComesToStray "x<".toList ∧
        ((scan 0 0 "x<").run.run { handler := .lenient }).1 = .error .unfinished := by
  have passes : ¬ ComesToStray "x<?a?>".toList := by
    intro h
    obtain ⟨first, found, h⟩ := h.exists_afterItem?
    obtain rfl : "<?a?>".toList = first := Option.some.inj (.trans (by decide) found)
    obtain ⟨second, found, h⟩ := h.exists_afterItem?
    obtain rfl : [] = second := Option.some.inj (.trans (by decide) found)
    obtain ⟨third, found, -⟩ := h.exists_afterItem?
    cases found
  have strays : ComesToStray "x<".toList :=
    .later (by decide : afterItem? (skipSpace "x<".toList) = some ['<']) (.here (by decide))
  exact ⟨⟨passes, (scan_ends_without_stray 0 _).1 passes⟩, strays,
    (scan_ends_without_stray 0 _).2 strays _ (fun _ _ => rfl) 0⟩

/-- A single less-than sign is reported again and again by a scan whose handler always recovers. -/
theorem not_ends_of_lone_sign :
    ¬ Ends 0 "<" { handler := .lenient } ∧
      ((scan 20 0 "<").run.run { handler := .lenient }).2.errors.length = 22 := by
  refine ⟨?_, by decide +kernel⟩
  rintro ⟨outcome, journal', ends, -, run⟩
  have unfinished : ((scan 0 0 "<").run.run { handler := .lenient }).1 = .error .unfinished :=
    ComesToStray.unfinished (.here (by decide)) (fun _ _ => rfl) _
  rw [run 0] at unfinished
  exact ends unfinished

end Subset

end XmlTable
