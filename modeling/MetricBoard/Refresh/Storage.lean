import MetricBoard.Store.History

/-!
# The storage of batches

What a batch asks of the store: the definitions, and to record refreshes and reports. The storage
may be told to refuse some of it, whatever the tables could take.
-/

namespace MetricBoard

/-- What becomes of reports. -/
inductive ReportMode where
  | kept
  | refused
  /-- Reports are taken and not kept. -/
  | ignored
  deriving DecidableEq, Repr

/-- The tables, and what is refused. -/
structure Storage where
  tables : Store.Tables := .fresh
  /-- The metrics that nothing is written for. -/
  refusedMetrics : List String := []
  refusesDefinitions : Bool := false
  reports : ReportMode := .kept
  deriving DecidableEq, Repr

namespace Storage

/-- The error of what is refused. -/
def refused : AppError := .worded .internal "write refused"

/-- Runs work on the tables; `refusals` says which of its statements fail. -/
def run {α : Type} (s : Storage) (refusals : List Bool) (work : Store.Work α) :
    Except AppError α × Storage :=
  match work ⟨s.tables, refusals⟩ with
  | (r, after) => (r, { s with tables := after.tables })

/-- The definitions in their order. -/
def load (s : Storage) (refusals : List Bool) : Except AppError (List Definition) × Storage :=
  if s.refusesDefinitions then (.error refused, s) else s.run refusals Store.definitions

/-- Saves a definition. -/
def save (s : Storage) (refusals : List Bool) (d : Definition) : Except AppError Unit × Storage :=
  if s.refusedMetrics.contains d.id then (.error refused, s) else s.run refusals (Store.save d)

/-- Records a refresh. -/
def record (s : Storage) (refusals : List Bool) (id : String) (w : Write) :
    Except AppError Unit × Storage :=
  if s.refusedMetrics.contains id then (.error refused, s)
  else s.run refusals do
    let _ ← Store.recordRefresh id w

/-- Keeps a report. -/
def keep (s : Storage) (refusals : List Bool) (r : Report) : Except AppError Unit × Storage :=
  match s.reports with
  | .kept => s.run refusals (Store.saveReport r)
  | .refused => (.error refused, s)
  | .ignored => (.ok (), s)

end Storage

end MetricBoard
