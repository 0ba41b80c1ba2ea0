import MetricBoard.ErrorKind
import MetricBoard.Moment.Basic
import MetricBoard.Number.Binary64
import MetricBoard.Target

/-!
# Metrics

A definition says what a metric is and keeps the three fields that a refresh writes: the value,
the error and the time. A `Write` holds those three; `Definition.apply` puts them in.
-/

namespace MetricBoard

/-- A metric with what its last refresh wrote. -/
structure Definition where
  id : String
  groupName : String
  label : String
  target : Target
  tableHint : Option String
  expression : String
  lastValue : Binary64
  lastError : Option String
  lastUpdated : Option Moment
  deriving DecidableEq, Repr

/-- What a refresh writes. -/
structure Write where
  value : Binary64
  error : Option String
  at_ : Moment
  deriving DecidableEq, Repr

namespace Write

/-- A refresh that gave a value; one that is not finite counts as zero. -/
def success (value : Binary64) (at_ : Moment) : Write := ⟨value.finiteOrZero, none, at_⟩

/-- A refresh that failed. -/
def failure (kind : ErrorKind) (message : String) (at_ : Moment) : Write :=
  ⟨.zero, some (kind.annotate message), at_⟩

end Write

namespace Definition

/-- The definition after a refresh. -/
def apply (d : Definition) (w : Write) : Definition :=
  { d with lastValue := w.value, lastError := w.error, lastUpdated := some w.at_ }

/-- The definitions after each of some refreshes. -/
def applyAll (d : Definition) : List Write → List Definition
  | [] => []
  | w :: ws => d.apply w :: applyAll (d.apply w) ws

end Definition

/-- One refresh of a metric's history. -/
structure Snapshot where
  metricId : String
  value : Binary64
  error : Option String
  recordedAt : Moment
  deriving DecidableEq, Repr

end MetricBoard
