import XmlTable.Proofs.Relocation

/-!
# Malformed declarations

A declaration of which a fault is reported declares nothing. If the error handler recovers, the scan
goes on behind the declaration with what was known before it, and all that is left of it is the
report. If the handler does not, the scan ends with the fault. What stands before the declaration
must be complete, so that it is passed over in the same way whatever comes after it; a comment that
its text ends is not.
-/

namespace XmlTable

/-- The error handler ends the work whatever is reported to it. -/
def Handler.Aborts (handler : Handler) : Prop :=
  ∀ reports cause, handler.decide reports cause = .abort

/-! ### Positions that do not move -/

theorem Failure.relocate_id (failure : Failure) : failure.relocate id = failure := by
  cases failure <;> rfl

theorem Report.relocate_id (report : Report) : report.relocate id = report := by
  cases report with
  | warning => rfl
  | error failure | fatal failure => exact congrArg _ failure.relocate_id

theorem Journal.agrees_self (journal : Journal) : journal.Agrees id journal := by
  intro reports cause
  rw [Failure.relocate_id, List.map_congr_left fun report _ => report.relocate_id, List.map_id']

namespace Subset

open Text (byteLength)

variable {declarations : Declarations} {cs pre d : List Char} {journal : Journal}
  {base total fuel : Nat}

/-- A scan goes on telling the journal. -/
theorem exists_run_scanFrom_tell (base total fuel : Nat) (declarations : Declarations)
    (cs : List Char) (journal : Journal) : ∃ outcome reports,
      (scanFrom base total fuel declarations cs).run.run journal =
        (outcome, journal.tell reports) := by
  obtain ⟨outcome, reports, run, -⟩ :=
    scanFrom_moves (fun _ _ _ => rfl) journal journal journal.agrees_self
  exact ⟨outcome, reports, run⟩

/-- If the handler recovers, a scan ends with declarations or not at all. -/
theorem scanFrom_meets_of_recovers (recovers : journal.handler.Recovers) :
    (scanFrom base total fuel declarations cs).Meets journal (fun _ _ => True)
      fun stop _ => stop = .unfinished := by
  induction fuel generalizing declarations cs journal with
  | zero => rfl
  | succ fuel ih =>
    rw [scanFrom]
    cases skipSpace cs with
    | nil => trivial
    | cons c rest =>
      rw [Scanning.meets_bind]
      refine (scanItem_advances _ _ _ journal).mono (fun found journal' advanced => ?_)
        fun _ _ stopped => absurd recovers stopped.2.1
      obtain ⟨known, _ | rest⟩ := found
      · trivial
      · exact ih (advanced.2.handler ▸ recovers)

/-- If the handler recovers, a scan that ends has found declarations. -/
theorem exists_outcome_of_recovers {handler : Handler} {patience : Nat}
    (recovers : handler.Recovers) (ends : (account handler patience base cs).Ends) :
    ∃ declarations, (account handler patience base cs).outcome = .ok declarations := by
  have meets : (scanFrom base (byteLength cs) (cs.length + patience + 1) .none cs).Meets { handler }
      (fun _ _ => True) fun stop _ => stop = .unfinished := scanFrom_meets_of_recovers recovers
  rw [account_eq] at ends ⊢
  unfold Scanning.Meets at meets
  generalize (scanFrom _ _ _ _ _).run.run _ = r at meets ends ⊢
  obtain ⟨stop | declarations, journal⟩ := r
  · exact absurd (congrArg _ meets) ends
  · exact ⟨declarations, rfl⟩

/-- The failures that were reported, in order. -/
def Account.errors (account : Account) : List Failure :=
  account.reports.filterMap fun
    | .error cause => some cause
    | _ => none

theorem Account.errors_warned (outcome outcome' : Except Stop Declarations) (reports : List Report)
    (warning : Option String) :
    (⟨outcome, reports ++ (warning.map Report.warning).toList⟩ : Account).errors =
      (⟨outcome', reports⟩ : Account).errors := by
  cases warning with
  | none => simp [errors]
  | some message => simp [errors]

/-! ### Reports of faults -/

theorem run_report_of_aborts (aborts : journal.handler.Aborts) (position : Nat) (fault : Fault) :
    (report position fault).run.run journal =
      (.error (.failure (.parse position fault.message)),
        journal.tell [.error (.parse position fault.message)]) := by
  have decides : (journal.error (.parse position fault.message)).1 = .abort := aborts _ _
  rw [run_report_eq, decides]

/-- A scan reads a declaration by its keyword and its body. -/
theorem IsDeclaration.exists_scanFrom (hd : IsDeclaration d) : ∃ keyword body,
    ∀ {base total place : Nat} {rest : List Char},
      base + (total - byteLength (d ++ rest)) = place → ∀ fuel known,
        scanFrom base total (fuel + 1) known (d ++ rest) =
          readDeclaration keyword body (fun _ => place) known >>= fun known =>
            scanFrom base total fuel known rest := by
  have item : IsItem d := .declaration hd
  obtain ⟨closed, unmarked⟩ := hd
  have none : IsSpace [] := nofun
  exact ⟨_, _, fun here fuel known => (readsAs_declaration closed unmarked).scanFrom none
    (item.isSetOff _) item.ne_nil here fuel known⟩

/-- After some characters a scan goes on with what is declared and reported then, whatever the rest
is. -/
def GoesOn (handler : Handler) (base : Nat) (pre : List Char) (slack : Nat) (known : Declarations)
    (reports : List Report) : Prop :=
  ∀ patience rest, account handler patience base (pre ++ rest) =
    .of ((scanFrom base (byteLength (pre ++ rest)) (slack + (rest.length + patience + 1)) known
      rest).run.run (Journal.tell { handler } reports))

/-- A scan of items stops in them or goes on with the rest, whatever that is. -/
theorem Items.goesOn_cases (hp : Items pre) (handler : Handler) (base : Nat) :
    (∃ stopped, ∀ patience rest, account handler patience base (pre ++ rest) = stopped) ∨
      ∃ slack known reports, GoesOn handler base pre slack known reports := by
  obtain ⟨fuel, slack, append⟩ := hp.exists_account_append
  obtain ⟨outcome, reports, run⟩ :=
    exists_run_scanFrom_tell base (byteLength pre) fuel .none pre { handler }
  have append := fun patience => append handler patience base
  simp only [Scanning.run_bind, run] at append
  cases outcome with
  | error stop => exact .inl ⟨.of (.error stop, Journal.tell { handler } reports), append⟩
  | ok known => exact .inr ⟨slack, known, reports, append⟩

section

variable {handler : Handler} {slack : Nat} {known : Declarations} {reports : List Report}

theorem GoesOn.account_eq (h : GoesOn handler base pre slack known reports) (patience : Nat) :
    account handler patience base pre = ⟨.ok known, reports⟩ := by
  have same := h patience []
  rw [List.append_nil] at same
  exact same.trans (Account.of_tell _ _ _)

/-- No error is reported of a declaration that declares something. -/
theorem GoesOn.errors_of_declares (h : GoesOn handler base pre slack known reports) (ne : d ≠ [])
    {warning : Option String} {known' : Declarations}
    (declares : ∀ fuel, scanFrom base (byteLength (pre ++ (d ++ []))) (fuel + 1) known (d ++ []) =
      warn warning >>= fun _ => scanFrom base (byteLength (pre ++ (d ++ []))) fuel known' [])
    (patience : Nat) :
    (account handler patience base (pre ++ d)).errors =
      (account handler patience base pre).errors := by
  have told := h patience (d ++ [])
  rw [passes_append ne, declares, Scanning.run_bind, run_warn, List.append_nil] at told
  dsimp only at told
  rw [← Journal.tell_append] at told
  rw [told, h.account_eq]
  exact (congrArg Account.errors (Account.of_tell (.ok known') handler _)).trans
    (Account.errors_warned _ _ reports warning)

/-- If the handler recovers from the fault of an item, the scan goes on behind the item with what
was known before it. -/
theorem GoesOn.account_of_fault (h : GoesOn handler base pre slack known reports) (ne : d ≠ [])
    {post : List Char} {fault : Fault}
    (malformed : ∀ fuel, scanFrom base (byteLength (pre ++ (d ++ post))) (fuel + 1) known
      (d ++ post) = report (base + byteLength pre) fault >>= fun _ =>
        scanFrom base (byteLength (pre ++ (d ++ post))) fuel known post)
    {patience : Nat} (recovers : handler.Recovers)
    (ends : (account handler patience base (pre ++ post)).Ends) :
    ∃ declarations after,
      account handler patience base (pre ++ post) =
        ⟨.ok declarations, (account handler patience base pre).reports ++ after⟩ ∧
      account handler patience base (pre ++ (d ++ post)) =
        ⟨.ok declarations, (account handler patience base pre).reports ++
          .error (.parse (base + byteLength pre) fault.message) ::
            after.map (·.relocate (shiftFrom (base + byteLength pre) (byteLength d)))⟩ := by
  have within := h patience (d ++ post)
  rw [passes_append ne, malformed, Scanning.run_bind, run_report recovers] at within
  have without := h (patience + (d.length - 1)) post
  have agrees : (Journal.tell { handler } reports).Agrees
      (shiftFrom (base + byteLength pre) (byteLength d))
      ((Journal.tell { handler } reports).tell
        [.error (.parse (base + byteLength pre) fault.message)]) :=
    .of_recovers recovers recovers _
  obtain ⟨outcome, more, run, run'⟩ := scanFrom_moves_behind base _ known pre d post _ _ agrees
  rw [run, account_mono (Nat.le_add_right ..) ends, ← Journal.tell_append, Account.of_tell]
    at without
  dsimp only at within
  rw [run', ← Journal.tell_append, ← Journal.tell_append, Account.of_tell] at within
  obtain ⟨declarations, settled⟩ := exists_outcome_of_recovers recovers ends
  obtain rfl : outcome = .ok declarations := by rw [← settled, without]
  refine ⟨declarations, more, ?_, ?_⟩
  · rw [without, h.account_eq]
  · rw [within, h.account_eq]
    rfl

end

/-- If the handler recovers, a scan that ends goes on behind the items that it begins with. -/
theorem Items.exists_goesOn (hp : Items pre) {handler : Handler} {patience : Nat}
    (recovers : handler.Recovers) {post : List Char}
    (ends : (account handler patience base (pre ++ post)).Ends) :
    ∃ slack known reports, GoesOn handler base pre slack known reports := by
  obtain ⟨fuel, slack, append⟩ := hp.exists_account_append
  obtain ⟨outcome, reports, run⟩ :=
    exists_run_scanFrom_tell base (byteLength pre) fuel .none pre { handler }
  have append := fun patience => append handler patience base
  simp only [Scanning.run_bind, run] at append
  cases outcome with
  | error stop =>
    obtain ⟨declarations, settled⟩ := exists_outcome_of_recovers recovers ends
    rw [append] at settled
    cases settled
  | ok known => exact ⟨slack, known, reports, append⟩

/-- If an error is reported of a declaration after items, then the scan goes on behind the items,
reports a fault at the first byte of the declaration and declares nothing. -/
theorem exists_fault_of_told (hp : Items pre) (hd : IsDeclaration d) {handler : Handler}
    {patience base : Nat}
    (told : (account handler patience base (pre ++ d)).errors ≠
      (account handler patience base pre).errors) :
    ∃ slack known reports fault, GoesOn handler base pre slack known reports ∧
      ∀ fuel rest, scanFrom base (byteLength (pre ++ (d ++ rest))) (fuel + 1) known (d ++ rest) =
        report (base + byteLength pre) fault >>= fun _ =>
          scanFrom base (byteLength (pre ++ (d ++ rest))) fuel known rest := by
  rcases hp.goesOn_cases handler base with ⟨stopped, append⟩ | ⟨slack, known, reports, goesOn⟩
  · have same := (append patience d).trans (append patience []).symm
    rw [List.append_nil] at same
    exact absurd (congrArg Account.errors same) told
  · obtain ⟨keyword, body, reads⟩ := hd.exists_scanFrom
    have here : ∀ rest, base + (byteLength (pre ++ (d ++ rest)) - byteLength (d ++ rest)) =
        base + byteLength pre := by
      intro rest
      rw [Text.byteLength_append, Nat.add_sub_cancel]
    cases declares : declare keyword body known with
    | ok declared =>
      have read : ∀ fuel, scanFrom base (byteLength (pre ++ (d ++ []))) (fuel + 1) known (d ++ []) =
          warn declared.warning >>= fun _ =>
            scanFrom base (byteLength (pre ++ (d ++ []))) fuel declared.declarations [] := by
        intro fuel
        rw [reads (here []), readDeclaration, declares]
        exact bind_assoc _ _ _
      exact absurd (goesOn.errors_of_declares (IsItem.declaration hd).ne_nil read patience) told
    | error fault =>
      refine ⟨slack, known, reports, fault, goesOn, fun fuel rest => ?_⟩
      rw [reads (here rest), readDeclaration, declares]
      exact bind_assoc _ _ _

/-- A declaration of which an error is reported after complete items leaves no trace. If the handler
recovers and the scan ends without the declaration, then it declares the same with it, and the only
difference in what is reported is one more error at the first byte of the declaration. If the
handler does not, the scan ends with that error. It is the same error whatever comes after the
declaration. -/
theorem malformed_declarations_leave_no_trace (hp : Items pre) (hd : IsDeclaration d)
    {handler : Handler} {patience base : Nat}
    (told : (account handler patience base (pre ++ d)).errors ≠
      (account handler patience base pre).errors) :
    ∃ message, ∀ post,
      (handler.Recovers → (account handler patience base (pre ++ post)).Ends →
        ∃ declarations after,
          account handler patience base (pre ++ post) =
            ⟨.ok declarations, (account handler patience base pre).reports ++ after⟩ ∧
          account handler patience base (pre ++ (d ++ post)) =
            ⟨.ok declarations, (account handler patience base pre).reports ++
              .error (.parse (base + byteLength pre) message) ::
                after.map (·.relocate (shiftFrom (base + byteLength pre) (byteLength d)))⟩) ∧
      (handler.Aborts → account handler patience base (pre ++ (d ++ post)) =
        ⟨.error (.failure (.parse (base + byteLength pre) message)),
          (account handler patience base pre).reports ++
            [.error (.parse (base + byteLength pre) message)]⟩) := by
  obtain ⟨slack, known, reports, fault, goesOn, malformed⟩ := exists_fault_of_told hp hd told
  have ne := (IsItem.declaration hd).ne_nil
  refine ⟨fault.message, fun post =>
    ⟨fun recovers ends => goesOn.account_of_fault ne (malformed · post) recovers ends,
      fun aborts => ?_⟩⟩
  have within := goesOn patience (d ++ post)
  rw [passes_append ne, malformed, Scanning.run_bind, run_report_of_aborts aborts] at within
  dsimp only at within
  rw [within, goesOn.account_eq, ← Journal.tell_append, Account.of_tell]

/-- An attribute list that has no type for its second attribute does not define the first one. -/
theorem malformed_declarations_leave_no_trace_of_attribute_list :
    account .lenient 0 0 "<!ELEMENT a ANY><!ATTLIST a x ID #IMPLIED y><!b>".toList =
      ⟨.ok { elements := [("a", .any)] }, [.error (.parse 16 "missing attribute type"),
        .error (.parse 44 "unknown declaration '<!b'")]⟩ := by
  have none : IsSpace [] := nofun
  have empty : Closed "ELEMENT a ANY".toList := .of_all (by decide)
  have element : Items "<!ELEMENT a ANY>".toList :=
    .cons none (.declaration (.mk empty (by decide))) (.nil none)
  have cut : Closed "ATTLIST a x ID #IMPLIED y".toList := .of_all (by decide)
  have list : IsDeclaration "<!ATTLIST a x ID #IMPLIED y>".toList := .mk cut (by decide)
  have silent : account .lenient 0 0 "<!ELEMENT a ANY>".toList =
      ⟨.ok { elements := [("a", .any)] }, []⟩ := by
    rw [account_eq]
    rfl
  have reported : (account .lenient 0 0 ("<!ELEMENT a ANY>".toList ++
      "<!ATTLIST a x ID #IMPLIED y>".toList)).reports =
        [.error (.parse 16 "missing attribute type")] := by
    rw [account_eq]
    rfl
  have without : account .lenient 0 0 ("<!ELEMENT a ANY>".toList ++ "<!b>".toList) =
      ⟨.ok { elements := [("a", .any)] }, [.error (.parse 16 "unknown declaration '<!b'")]⟩ := by
    rw [account_eq]
    rfl
  have told : (account .lenient 0 0 ("<!ELEMENT a ANY>".toList ++
      "<!ATTLIST a x ID #IMPLIED y>".toList)).errors ≠
        (account .lenient 0 0 "<!ELEMENT a ANY>".toList).errors := by
    rw [Account.errors, Account.errors, reported, silent]
    exact nofun
  obtain ⟨message, traceless⟩ := malformed_declarations_leave_no_trace element list told
  have recovers : Handler.lenient.Recovers := fun _ _ => rfl
  -- Without anything after the list, the error is the one that was reported of it.
  obtain ⟨_, after, alone, within⟩ := (traceless []).1 recovers (by
    rw [Account.Ends, List.append_nil, silent]
    exact nofun)
  rw [List.append_nil, silent] at alone
  cases alone
  rw [List.append_nil] at within
  rw [within, silent] at reported
  cases reported
  obtain ⟨_, after, same, within⟩ := (traceless "<!b>".toList).1 recovers (by
    rw [Account.Ends, without]
    exact nofun)
  rw [without, silent] at same
  cases same
  rw [silent] at within
  exact within

/-- Behind a comment that its text ends, a malformed declaration keeps the scan from passing over
what comes next. -/
theorem malformed_declaration_leaves_a_trace :
    IsCommentText ['>'] ∧ IsDeclaration "<!b>".toList ∧
      (account .lenient 0 0 (comment ['>'])).reports =
        [.error (.parse 5 "unexpected content in internal subset")] ∧
      (account .lenient 0 0 (comment ['>'] ++ "<!b>".toList)).reports =
        [.error (.parse 5 "unexpected content in internal subset"),
          .error (.parse 8 "unknown declaration '<!b'")] ∧
      (account .lenient 0 0 (comment ['>'] ++ "%<!ENTITY e '1'>;".toList)).outcome =
        .ok { entities := [("e", "1")] } ∧
      (account .lenient 0 0
        (comment ['>'] ++ ("<!b>".toList ++ "%<!ENTITY e '1'>;".toList))).outcome = .ok .none := by
  have keyword : Closed ['b'] := .of_all (by decide)
  refine ⟨⟨by decide, by decide⟩, .mk keyword (by decide), ?_, ?_, ?_, ?_⟩
  · rw [account_eq]
    rfl
  · rw [account_eq]
    rfl
  · rw [account_eq]
    rfl
  · rw [account_eq]
    rfl

end Subset

end XmlTable
