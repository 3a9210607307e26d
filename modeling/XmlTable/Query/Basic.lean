import XmlTable.Document

/-!
# Queries on a growing document

A reader may ask about a document while it is still being built. A query is a sequence of reads; at
each the document may be further along than at the one before. A plain read looks at whatever is
there. A wait goes on only once its answer is final, and is otherwise tried again when the producer
has come further; each attempt is a fixed number of reads, of which those of the flags come before
those of the tables. The wait may end with a failure, and the query says what it makes of that.

Running a query at one document is what a reader sees when the producer does nothing meanwhile.
-/

namespace XmlTable

/-- A mistake of the caller, or of the producer, that no answer can express. -/
inductive Misuse where
  /-- No record has the index, and none will be waited for. -/
  | missingNode (node : NodeId) (count : Nat)
  /-- The next attribute of something that is no attribute. -/
  | notAttribute (kind : Node.Kind) (node : NodeId)
  /-- An attribute whose next sibling is not known. -/
  | pendingAttribute
  /-- A wait that a complete document does not end. -/
  | neverReady
  deriving DecidableEq, Repr

/-- The wording of a mistake. -/
def Misuse.message : Misuse → String
  | missingNode node count =>
    "node index " ++ toString node ++ " out of range (" ++ toString count ++ " records produced)"
  | notAttribute kind node =>
    "next_attribute called on " ++ kind.label ++ " node " ++ toString node
  | pendingAttribute =>
    "internal error: entered unreachable code: attribute links are resolved at publication"
  | neverReady => "navigation still pending after the document completed"

/-- A question to a document, as a sequence of reads. -/
inductive Query (α : Type) where
  /-- The question is answered. -/
  | answer (value : α)
  /-- The question cannot be answered. -/
  | misuse (cause : Misuse)
  /-- Look at what is there. -/
  | look (next : Document → Query α)
  /-- Try until the document is ready. An attempt reads the document so many times, one read after
  the other, and goes on with what it saw if that was enough. A wait that ends otherwise goes on
  with the failure. -/
  | await (reads : Nat) (isReady : (Fin reads → Document) → Bool)
      (next : (Fin reads → Document) → Query α) (stopped : Failure → Query α)

/-- What comes of a query at one document. -/
inductive Outcome (α : Type) where
  /-- The query was answered. -/
  | answer (value : α)
  /-- The query was a mistake. -/
  | misuse (cause : Misuse)
  /-- The query waits for the producer, without a bound. -/
  | blocked
  deriving DecidableEq, Repr

namespace Query

variable {α β : Type}

/-- Go on with the answer of a query. -/
def bind (query : Query α) (f : α → Query β) : Query β :=
  match query with
  | answer value => f value
  | misuse cause => misuse cause
  | look next => look fun doc => (next doc).bind f
  | await reads isReady next stopped =>
    await reads isReady (fun seen => (next seen).bind f) fun failure => (stopped failure).bind f

instance : Monad Query where
  pure := answer
  bind := bind

/-- A fact about the document as it is. -/
def observe (f : Document → α) : Query α :=
  look fun doc => answer (f doc)

end Query

/-- How a wait ends at a document that is not ready: by the failure of the construction, else by
cancellation, else at the time limit. A complete document should have been ready. -/
inductive Standstill where
  /-- The wait ends with a failure. -/
  | stopped (failure : Failure)
  /-- The wait should not have been needed. -/
  | overdue
  /-- The wait goes on. -/
  | waiting
  deriving DecidableEq, Repr

/-- How a wait ends that is not over at a document. -/
def Document.standstill (doc : Document) : Standstill :=
  match doc.progress with
  | .failed cause => .stopped cause
  | .done => .overdue
  | .building =>
    if doc.isCancelled then .stopped .cancelled
    else match doc.config.waitTimeout with
      | some limit => .stopped (.timeout limit)
      | none => .waiting

namespace Query

variable {α β : Type}

/-- What comes of a query if the document stays as it is. -/
def run (doc : Document) : Query α → Outcome α
  | answer value => .answer value
  | misuse cause => .misuse cause
  | look next => run doc (next doc)
  | await _ isReady next stopped =>
    if isReady fun _ => doc then run doc (next fun _ => doc)
    else match doc.standstill with
      | .stopped failure => run doc (stopped failure)
      | .overdue => .misuse .neverReady
      | .waiting => .blocked

/-- Going on with an answer is running one query after the other. -/
theorem run_bind (doc : Document) (query : Query α) (f : α → Query β) :
    run doc (query.bind f) =
      match run doc query with
      | .answer value => run doc (f value)
      | .misuse cause => .misuse cause
      | .blocked => .blocked := by
  induction query with
  | answer value => rfl
  | misuse cause => rfl
  | look next ih => simp only [bind, run, ih]
  | await reads isReady next stopped ihn ihs =>
    simp only [bind, run]
    split
    · exact ihn fun _ => doc
    · split
      · exact ihs _
      · rfl
      · rfl

end Query

/-- A query that a wait may end with a failure. -/
abbrev Reading (α : Type) := ExceptT Failure Query α

namespace Reading

/-- Wait until an attempt finds the document ready; the answer is a fact about what it saw. -/
def await {α : Type} {reads : Nat} (isReady : (Fin reads → Document) → Bool)
    (f : (Fin reads → Document) → α) : Reading α :=
  ExceptT.mk (.await reads isReady (fun seen => .answer (.ok (f seen))) fun failure =>
    .answer (.error failure))

end Reading

end XmlTable
