import MetricBoard.AppError
import MetricBoard.Concurrency.Semaphore
import MetricBoard.Expression.Transpile
import MetricBoard.Metric.Report
import MetricBoard.PerTarget

/-!
# Batches

A batch refreshes metrics side by side. How many are refreshed at a time is limited for each server
and over all; a metric asks for its server's permit first, so that metrics that wait for a busy
server do not keep the others from running. A batch has a token that cancels it: metrics that have
not begun by then are not refreshed.
-/

namespace MetricBoard

/-- How batches run. -/
structure RefreshOptions where
  maxInFlight : Nat := 6
  relationalConcurrency : Nat := 4
  queryTimeoutMs : Nat := 30000
  /-- The schema of tables that name none. -/
  schema : String := Expression.defaultSchema
  deriving DecidableEq, Repr

/-- The dialect of a server. -/
def RefreshOptions.dialect (o : RefreshOptions) : Target → Expression.Dialect
  | .relational => .tsql o.schema
  | .fileDatabase => .access

/-- What cancels a batch. -/
inductive Token where
  | never
  | named (name : String)
  /-- The scheduler is being stopped. -/
  | shutdown
  deriving DecidableEq, Repr

/-- The permits that a batch hands out. -/
structure Admission where
  overall : Semaphore
  perTarget : PerTarget Semaphore
  deriving DecidableEq, Repr

/-- The largest number of permits that can be handed out. -/
def maxPermits : Nat := twoTo 61 - 1

/-- The permits of a batch, unless there are too many. One metric at a time is refreshed from the
file database. -/
def Admission.ofOptions? (o : RefreshOptions) : Option Admission :=
  if o.maxInFlight ≤ maxPermits ∧ o.relationalConcurrency ≤ maxPermits then
    some ⟨{ limit := max 1 o.maxInFlight },
      ⟨{ limit := max 1 o.relationalConcurrency }, .lock⟩⟩
  else none

namespace Outcome

/-- The outcome of a metric that was cancelled before it began. -/
def cancelled (d : Definition) : Outcome :=
  ⟨d.id, d.target, false, .zero, some .cancelled,
    some "refresh cancelled before the metric started", 0, false⟩

/-- The outcome of a metric whose refresh broke down. -/
def aborted (d : Definition) : Outcome :=
  ⟨d.id, d.target, false, .zero, some .unknown, some "refresh task aborted", 0, false⟩

end Outcome

/-- A batch. -/
structure Batch where
  definitions : List Definition
  token : Token
  startedAt : Moment
  admission : Admission
  /-- The outcome of each metric, once it has one. -/
  outcomes : List (Option Outcome)
  /-- How many metrics have not ended. -/
  unfinished : Nat
  deriving DecidableEq, Repr

namespace Batch

/-- A batch that begins. -/
def start (definitions : List Definition) (token : Token) (startedAt : Moment)
    (admission : Admission) : Batch :=
  ⟨definitions, token, startedAt, admission, definitions.map fun _ => none, definitions.length⟩

/-- What keeps definitions from being a batch: there are none, or one has no id, or two have the
same. -/
def fault? (seen : List String) : List Definition → Option AppError
  | [] => none
  | d :: ds =>
    if Text.isBlankText d.id then some (.emptyId d.label)
    else if seen.contains d.id then some (.duplicateId d.id)
    else fault? (d.id :: seen) ds

/-- The definitions of a batch, if they can be one. -/
def validate (ds : List Definition) : Except AppError Unit :=
  match if ds.isEmpty then some .nothingToRefresh else fault? [] ds with
  | some e => .error e
  | none => .ok ()

/-- The batch with the permits for a server changed. -/
def onTarget (b : Batch) (target : Target) (f : Semaphore → Semaphore) : Batch :=
  { b with admission.perTarget := b.admission.perTarget.modify target f }

/-- The batch with the permits over all servers changed. -/
def onOverall (b : Batch) (f : Semaphore → Semaphore) : Batch :=
  { b with admission.overall := f b.admission.overall }

/-- A metric ends. -/
def finish (b : Batch) (index : Nat) (outcome : Option Outcome) : Batch :=
  { b with outcomes := b.outcomes.set index outcome, unfinished := b.unfinished - 1 }

/-- The report of a batch whose metrics have ended. -/
def report (b : Batch) (id : String) (finishedAt : Moment) : Report :=
  ⟨id, b.startedAt, finishedAt,
    List.zipWith (fun (d : Definition) o => Option.getD o (.aborted d)) b.definitions b.outcomes⟩

end Batch

end MetricBoard
