import XmlTable.Proofs.Items

/-!
# Scans at another place

Where a text stands matters to a scan only for what it tells the error handler. A scan of the same
text at another place therefore ends in the same way, with the positions in its reports moved, if
the handlers decide alike: one of the reports of the first scan, the other of the moved reports.
Positions count for nothing to a handler that always goes on, whatever it was told before.
-/

namespace XmlTable

variable {move : Nat → Nat}

/-! ### Positions that move -/

/-- Where a position is once so many more bytes stand at a place. -/
def shiftFrom (place amount position : Nat) : Nat :=
  if position < place then position else position + amount

theorem shiftFrom_of_lt {place position : Nat} (h : position < place) (amount : Nat) :
    shiftFrom place amount position = position :=
  if_pos h

theorem shiftFrom_of_le {place position : Nat} (h : place ≤ position) (amount : Nat) :
    shiftFrom place amount position = position + amount :=
  if_neg (Nat.not_lt.2 h)

/-- The failure at a moved position. -/
def Failure.relocate (move : Nat → Nat) : Failure → Failure
  | parse position message => parse (move position) message
  | failure => failure

/-- The report of a failure at a moved position. -/
def Report.relocate (move : Nat → Nat) : Report → Report
  | warning message => warning message
  | error failure => error (failure.relocate move)
  | fatal failure => fatal (failure.relocate move)

/-- The stop by a failure at a moved position. -/
def Stop.relocate (move : Nat → Nat) : Stop → Stop
  | failure cause => failure (cause.relocate move)
  | unfinished => unfinished

/-! ### Handlers that decide alike -/

/-- The handler that decides as another does of moved positions. -/
def Handler.relocate (move : Nat → Nat) (handler : Handler) : Handler :=
  ⟨fun before cause => handler.decide (before.map (·.relocate move)) (cause.relocate move)⟩

/-- The handler decides whatever the positions are. -/
def Handler.IgnoresPositions (handler : Handler) : Prop :=
  ∀ move, handler.relocate move = handler

theorem Handler.ignoresPositions_recovering (count : Nat) :
    (Handler.recovering count).IgnoresPositions := by
  intro move
  rw [relocate, recovering]
  congr 1
  funext before cause
  dsimp only
  rw [Array.countP_map]
  congr 3
  funext report
  cases report <;> rfl

/-- The handlers of two journals decide alike from now on, if the second one is told of moved
positions. -/
def Journal.Agrees (move : Nat → Nat) (journal journal' : Journal) : Prop :=
  ∀ (reports : List Report) (cause : Failure),
    ((journal'.tell (reports.map (·.relocate move))).error (cause.relocate move)).1 =
      ((journal.tell reports).error cause).1

namespace Journal

variable {journal journal' : Journal}

theorem Agrees.tell (h : journal.Agrees move journal') (reports : List Report) :
    (journal.tell reports).Agrees move (journal'.tell (reports.map (·.relocate move))) := by
  intro more cause
  rw [← tell_append, ← tell_append, ← List.map_append]
  exact h (reports ++ more) cause

theorem agrees_relocate (move : Nat → Nat) (handler : Handler) :
    Agrees move { handler := handler.relocate move } { handler } := by
  intro reports cause
  simp [error, Journal.tell, Handler.relocate]

theorem Agrees.of_recovers (h : journal.handler.Recovers) (h' : journal'.handler.Recovers)
    (move : Nat → Nat) : journal.Agrees move journal' :=
  fun _ _ => (h' _ _).trans (h _ _).symm

end Journal

namespace Subset

open Text (startsWith after?)

/-! ### Work at another place -/

namespace Scanning

variable {α β : Type}

/-- Work does what other work does, but reports moved positions. -/
def Moves (move : Nat → Nat) (work work' : Scanning α) : Prop :=
  ∀ journal journal' : Journal, journal.Agrees move journal' → ∃ outcome reports,
    work.run.run journal = (outcome, journal.tell reports) ∧
      work'.run.run journal' =
        (outcome.mapError (·.relocate move), journal'.tell (reports.map (·.relocate move)))

namespace Moves

theorem pure (a : α) : Moves move (pure a) (pure a) := fun _ _ _ =>
  ⟨.ok a, [], by rw [Journal.tell_nil]; rfl, by rw [List.map_nil, Journal.tell_nil]; rfl⟩

theorem throw_unfinished : Moves move (throw .unfinished : Scanning α) (throw .unfinished) :=
  fun _ _ _ =>
    ⟨.error .unfinished, [], by rw [Journal.tell_nil]; rfl,
      by rw [List.map_nil, Journal.tell_nil]; rfl⟩

/-- What comes next may rely on what is found first. -/
theorem bind {work work' : Scanning α} {next next' : α → Scanning β} {P : α → Prop}
    (h : Moves move work work') (finds : work.Finds P)
    (hn : ∀ a, P a → Moves move (next a) (next' a)) :
    Moves move (work >>= next) (work' >>= next') := by
  intro journal journal' agrees
  obtain ⟨outcome, reports, run, run'⟩ := h _ _ agrees
  rw [run_bind, run_bind, run, run']
  cases outcome with
  | error stop => exact ⟨.error stop, reports, rfl, rfl⟩
  | ok a =>
    have ends : (work.run.run journal).1 = .ok a := by rw [run]
    have found := finds.of_run_eq_ok ends
    obtain ⟨outcome, more, run, run'⟩ := hn a found _ _ (agrees.tell reports)
    refine ⟨outcome, reports ++ more, ?_, ?_⟩
    · rw [Journal.tell_append]
      exact run
    · rw [List.map_append, Journal.tell_append]
      exact run'

theorem bind_pure {work work' : Scanning α} (h : Moves move work work') (b : β) :
    Moves move (do let _ ← work; return b) (do let _ ← work'; return b) :=
  h.bind (finds_true work) fun _ _ => pure b

theorem warn (message : Option String) :
    Moves move (Subset.warn message) (Subset.warn message) := by
  intro journal journal' _
  refine ⟨_, _, run_warn message journal, ?_⟩
  rw [run_warn]
  cases message <;> rfl

theorem report {position position' : Nat} (h : move position = position') (fault : Fault) :
    Moves move (Subset.report position fault) (Subset.report position' fault) := by
  subst h
  intro journal journal' agrees
  have alike : (journal'.error (.parse (move position) fault.message)).1 =
      (journal.error (.parse position fault.message)).1 := by
    have same := agrees [] (.parse position fault.message)
    rwa [List.map_nil, Journal.tell_nil, Journal.tell_nil] at same
  rw [run_report_eq, run_report_eq, alike]
  cases (journal.error _).1 with
  | proceed => exact ⟨_, _, rfl, rfl⟩
  | abort => exact ⟨_, _, rfl, rfl⟩

end Moves

end Scanning

/-! ### Scans at another place -/

variable {declarations : Declarations} {cs rest : List Char}

theorem scanItem_moves {position position' : Unit → Nat} (h : move (position ()) = position' ()) :
    Scanning.Moves move (scanItem position declarations cs)
      (scanItem position' declarations cs) := by
  rw [scanItem_eq, scanItem_eq]
  cases readItem declarations cs with
  | ok declared => exact (Scanning.Moves.warn _).bind_pure _
  | error fault => exact (Scanning.Moves.report h fault).bind_pure _

/-- A scan goes on at another place as it would have at the first. -/
theorem scanFrom_moves {base total total' fuel : Nat}
    (h : ∀ part, part <:+ cs → part ≠ [] →
      move (base + (total - Text.byteLength part)) = base + (total' - Text.byteLength part)) :
    Scanning.Moves move (scanFrom base total fuel declarations cs)
      (scanFrom base total' fuel declarations cs) := by
  induction fuel generalizing declarations cs with
  | zero => exact .throw_unfinished
  | succ fuel ih =>
    have skipped : skipSpace cs <:+ cs := List.dropWhile_suffix _
    rw [scanFrom, scanFrom]
    split
    · exact .pure _
    · next ne =>
      refine (scanItem_moves (h _ skipped ne)).bind (scanItem_finds_afterItem? _ _ _) ?_
      rintro ⟨known, left⟩ found
      cases left with
      | none => exact .pure _
      | some rest =>
        have left := (suffix_of_afterItem? found.symm).trans skipped
        exact ih fun part hp => h part (hp.trans left)

/-! ### Patience -/

/-- A scan that has come to its end does not need more patience. -/
theorem run_scanFrom_mono {base total fuel more : Nat} {journal : Journal} (le : fuel ≤ more)
    (ends : ((scanFrom base total fuel declarations cs).run.run journal).1 ≠ .error .unfinished) :
    (scanFrom base total more declarations cs).run.run journal =
      (scanFrom base total fuel declarations cs).run.run journal := by
  induction fuel generalizing more declarations cs journal with
  | zero => exact absurd rfl ends
  | succ fuel ih =>
    obtain ⟨more, rfl⟩ := Nat.exists_eq_succ_of_ne_zero (Nat.ne_of_gt (Nat.zero_lt_of_lt le))
    rw [run_scanFrom_succ] at ends
    rw [run_scanFrom_succ, run_scanFrom_succ]
    split
    · rfl
    · next nonempty =>
      rw [if_neg nonempty] at ends
      generalize (scanItem _ _ _).run.run journal = r at ends ⊢
      obtain ⟨_ | ⟨known, _ | rest⟩, journal'⟩ := r
      · rfl
      · rfl
      · exact ih (Nat.le_of_succ_le_succ le) ends

/-! ### Accounts of a scan -/

/-- What comes of a scan. -/
structure Account where
  /-- How it ended. -/
  outcome : Except Stop Declarations
  /-- What the error handler was told, in order. -/
  reports : List Report

/-- The account of a result. -/
def Account.of (result : Except Stop Declarations × Journal) : Account :=
  ⟨result.1, result.2.reports.toList⟩

/-- The account of the scan of a subset at a position with an error handler that was told nothing
before. -/
def account (handler : Handler) (patience base : Nat) (cs : List Char) : Account :=
  .of ((scan patience base (String.ofList cs)).run.run { handler })

namespace Account

/-- The scan came to an end. -/
def Ends (account : Account) : Prop :=
  account.outcome ≠ .error .unfinished

/-- The account with moved positions. -/
def relocate (move : Nat → Nat) (account : Account) : Account :=
  ⟨account.outcome.mapError (·.relocate move), account.reports.map (·.relocate move)⟩

theorem of_tell (outcome : Except Stop Declarations) (handler : Handler) (reports : List Report) :
    of (outcome, Journal.tell { handler } reports) = ⟨outcome, reports⟩ := by
  simp [of, Journal.tell]

end Account

theorem account_eq (handler : Handler) (patience base : Nat) (cs : List Char) :
    account handler patience base cs = .of ((scanFrom base (Text.byteLength cs)
      (cs.length + patience + 1) .none cs).run.run { handler }) := by
  rw [account, scan, String.toList_ofList]

/-- With more patience a scan that has come to its end has the same account. -/
theorem account_mono {handler : Handler} {patience more base : Nat} (le : patience ≤ more)
    (ends : (account handler patience base cs).Ends) :
    account handler more base cs = account handler patience base cs := by
  rw [account_eq] at ends
  rw [account_eq, account_eq, run_scanFrom_mono (by omega) ends]

/-- The reports of a scan of some characters are of positions in them. -/
theorem scanFrom_moves_before (base amount fuel : Nat) (declarations : Declarations)
    (cs : List Char) : Scanning.Moves (shiftFrom (base + Text.byteLength cs) amount)
      (scanFrom base (Text.byteLength cs) fuel declarations cs)
      (scanFrom base (Text.byteLength cs) fuel declarations cs) := by
  refine scanFrom_moves fun part hp ne => shiftFrom_of_lt ?_ amount
  have positive := List.length_pos_iff.2 ne
  have bytes := Text.length_le_byteLength part
  obtain ⟨before, rfl⟩ := hp
  rw [Text.byteLength_append]
  omega

/-- The reports of a scan move by the bytes of what is put in before. -/
theorem scanFrom_moves_behind (base fuel : Nat) (declarations : Declarations)
    (pre inserted cs : List Char) :
    Scanning.Moves (shiftFrom (base + Text.byteLength pre) (Text.byteLength inserted))
      (scanFrom base (Text.byteLength (pre ++ cs)) fuel declarations cs)
      (scanFrom base (Text.byteLength (pre ++ (inserted ++ cs))) fuel declarations cs) := by
  refine scanFrom_moves fun part hp _ => ?_
  obtain ⟨before, rfl⟩ := hp
  simp only [Text.byteLength_append]
  rw [shiftFrom_of_le (by omega)]
  omega

/-- With an item before the rest there is a pass for each of its characters, and one is taken. -/
theorem passes_append {item : List Char} (ne : item ≠ []) (slack patience : Nat)
    (rest : List Char) : slack + ((item ++ rest).length + patience + 1) =
      slack + (rest.length + (patience + (item.length - 1)) + 1) + 1 := by
  have positive := List.length_pos_iff.2 ne
  rw [List.length_append]
  omega

/-- The account of items and more is that of a scan of the items, followed by a scan of the rest. -/
theorem Items.exists_account_append {pre : List Char} (h : Items pre) :
    ∃ fuel slack : Nat, ∀ handler patience base rest, account handler patience base (pre ++ rest) =
      .of ((scanFrom base (Text.byteLength pre) fuel .none pre >>= fun known =>
        scanFrom base (Text.byteLength (pre ++ rest)) (slack + (rest.length + patience + 1)) known
          rest).run.run { handler }) := by
  obtain ⟨count, le, append⟩ := h.exists_scanFrom_append
  refine ⟨count + 1, pre.length - count, fun handler patience base rest => ?_⟩
  have fuel : (pre ++ rest).length + patience + 1 =
      count + (pre.length - count + (rest.length + patience + 1)) := by
    rw [List.length_append]
    omega
  rw [account_eq, fuel, append (Nat.zero_add _) (Nat.zero_add _)]

end Subset

end XmlTable
