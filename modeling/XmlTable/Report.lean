import XmlTable.Failure

/-!
# Reports to an error handler

Whoever reads or builds a document reports to one error handler. Warnings and fatal failures are
only told; of a recoverable failure the handler decides whether to go on. A handler may remember
what it was told before, so its decision is a function of the reports so far, and the journal that
is threaded through the work keeps them in order.
-/

namespace XmlTable

/-- What a handler answers to a recoverable failure. -/
inductive Recovery where
  /-- Go on as if nothing had happened. -/
  | proceed
  /-- End the work with the failure. -/
  | abort
  deriving DecidableEq, Repr

/-- One thing that was reported. -/
inductive Report where
  /-- Something was ignored. -/
  | warning (message : String)
  /-- A failure that the handler may recover from. -/
  | error (failure : Failure)
  /-- The failure that ended the construction. -/
  | fatal (failure : Failure)
  deriving DecidableEq, Repr

/-- How an error handler decides, given the reports before and the failure at hand. -/
structure Handler where
  /-- The decision. -/
  decide : Array Report → Failure → Recovery

namespace Handler

/-- The handler that recovers from everything. -/
def lenient : Handler := ⟨fun _ _ => .proceed⟩

/-- The handler that recovers from nothing. -/
def strict : Handler := ⟨fun _ _ => .abort⟩

/-- The handler that recovers from the first `count` failures. -/
def recovering (count : Nat) : Handler :=
  ⟨fun before _ =>
    let failures := before.countP fun
      | .error _ => true
      | _ => false
    if failures < count then .proceed else .abort⟩

end Handler

/-- A handler together with what it has been told. -/
structure Journal where
  /-- The handler that decides. -/
  handler : Handler
  /-- The reports so far, in order. -/
  reports : Array Report := #[]

namespace Journal

/-- Tell a warning. -/
def warn (journal : Journal) (message : String) : Journal :=
  { journal with reports := journal.reports.push (.warning message) }

/-- Tell the failure that ended the construction. -/
def fatal (journal : Journal) (failure : Failure) : Journal :=
  { journal with reports := journal.reports.push (.fatal failure) }

/-- Report a recoverable failure and hear the decision. -/
def error (journal : Journal) (failure : Failure) : Recovery × Journal :=
  (journal.handler.decide journal.reports failure,
    { journal with reports := journal.reports.push (.error failure) })

/-- Reporting a recoverable failure never changes the handler. -/
theorem handler_error (journal : Journal) (failure : Failure) :
    (journal.error failure).2.handler = journal.handler := rfl

end Journal

end XmlTable
