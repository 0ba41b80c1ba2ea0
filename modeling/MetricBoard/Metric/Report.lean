import MetricBoard.Metric.Definition

/-!
# Reports of a batch

A batch reports one outcome for each of its metrics. An outcome counts as succeeded, or as failed
with an error other than a cancellation, or as cancelled.
-/

namespace MetricBoard

/-- How the refresh of one metric went. -/
structure Outcome where
  id : String
  target : Target
  success : Bool
  value : Binary64
  errorKind : Option ErrorKind
  message : Option String
  elapsedMs : Nat
  /-- Whether the store took the write. -/
  persisted : Bool
  deriving DecidableEq, Repr

/-- How a batch went. -/
structure Report where
  id : String
  startedAt : Moment
  finishedAt : Moment
  outcomes : List Outcome
  deriving DecidableEq, Repr

namespace Outcome

/-- Whether the metric was cancelled. -/
def isCancelled (o : Outcome) : Bool := o.errorKind == some .cancelled

/-- Whether the metric failed, and not by a cancellation. -/
def isFailed (o : Outcome) : Bool := !o.success && !o.isCancelled

end Outcome

namespace Report

/-- The number of outcomes that succeeded. -/
def succeeded (r : Report) : Nat := r.outcomes.countP Outcome.success

/-- The number of outcomes that failed. -/
def failed (r : Report) : Nat := r.outcomes.countP Outcome.isFailed

/-- The number of outcomes that were cancelled. -/
def cancelled (r : Report) : Nat := r.outcomes.countP Outcome.isCancelled

/-- The first outcome of a metric. -/
def outcome? (r : Report) (id : String) : Option Outcome := r.outcomes.find? fun o => o.id == id

end Report

end MetricBoard
