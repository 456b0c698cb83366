import DeclAnalysis.Diagnostic.Basic

/-!
# The diagnostic queue

A queue collects the diagnostics of a unit and gives them out in order of position. It may drop
repeated diagnostics and stop at a number of errors. That number bounds errors only: warnings and
notes are always taken. When an error was turned away the flushed list ends with one more diagnostic
that says so.
-/

namespace DeclAnalysis

/-- What a queue takes. -/
structure QueuePolicy where
  /-- The greatest number of errors; zero stands for no limit. -/
  errorLimit : Nat := 50
  /-- Whether a diagnostic equal to an earlier one is dropped. -/
  deduplicate : Bool := true
deriving DecidableEq

/-- The policy that takes everything. -/
def QueuePolicy.unlimited : QueuePolicy where
  errorLimit := 0
  deduplicate := false

/-- The diagnostics collected so far. -/
structure Queue where
  /-- What the queue takes. -/
  policy : QueuePolicy
  /-- The diagnostics held, in order of arrival. -/
  held : List Diagnostic
  /-- The number of errors held. -/
  errorCount : Nat
  /-- Whether an error was turned away at the limit. -/
  truncated : Bool
deriving DecidableEq

/-- The diagnostic that announces that errors were turned away. -/
def limitNotice (limit : Nat) (span : Span) : Diagnostic :=
  (Diagnostic.errorAt .errorLimit ("stopped reporting after " ++ toString limit ++ " errors") span
    "error limit reached here").noting
    "raise `DiagnosticConfig::error_limit` to see every error"

namespace Queue

/-- An empty queue. -/
def new (policy : QueuePolicy) : Queue := ⟨policy, [], 0, false⟩

/-- Whether no further error is taken. -/
def limitReached (q : Queue) : Bool :=
  decide (0 < q.policy.errorLimit) && decide (q.policy.errorLimit ≤ q.errorCount)

/-- Whether the queue holds an error. -/
def hasErrors (q : Queue) : Bool := decide (0 < q.errorCount)

/-- Offers a diagnostic to the queue; the flag says whether it was taken. The limit is looked at
before repetition, so at the limit a repeated error counts as turned away. -/
def offer (q : Queue) (d : Diagnostic) : Bool × Queue :=
  if d.isError && q.limitReached then (false, { q with truncated := true })
  else if q.policy.deduplicate && q.held.contains d then (false, q)
  else
    (true, { q with
      held := q.held ++ [d]
      errorCount := if d.isError then q.errorCount + 1 else q.errorCount })

/-- The queue after a diagnostic was offered. -/
def add (q : Queue) (d : Diagnostic) : Queue := (q.offer d).2

/-- The queue after diagnostics were offered one after another. -/
def addAll (q : Queue) (ds : List Diagnostic) : Queue := ds.foldl add q

/-- The diagnostics held, by position. -/
def sorted (q : Queue) : List Diagnostic :=
  q.held.mergeSort fun d e ↦ d.position.le e.position

/-- The last known place in a list of diagnostics. -/
def lastPlace (ds : List Diagnostic) : Span :=
  (ds.reverse.findSome? (·.primary?)).getD Span.zero

/-- Gives out what the queue holds and empties it. -/
def flush (q : Queue) : List Diagnostic × Queue :=
  let sorted := q.sorted
  let notice :=
    if q.truncated then [limitNotice q.policy.errorLimit (lastPlace sorted)] else []
  (sorted ++ notice, new q.policy)

end Queue

end DeclAnalysis
