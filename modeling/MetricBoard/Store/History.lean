import MetricBoard.Metric.Codec
import MetricBoard.Store.Catalog

/-!
# History and reports in the store

Recording a refresh changes the definition and adds a snapshot, both or neither. Times are compared
as the texts that the store keeps.
-/

namespace MetricBoard.Store

/-- The row with the refresh fields of a write. -/
def DefinitionRow.recorded (r : DefinitionRow) (w : Write) : DefinitionRow :=
  { r with
    lastValue := storedValue w.value
    lastError := w.error
    lastUpdated := some w.at_.microText }

/-- Writes the refresh fields of a definition. -/
def writeRefresh (id : String) (w : Write) : Work Unit :=
  writeDefinitions fun t =>
    if t.rows.any (·.id == id) then
      .ok ((), { t with rows := t.rows.map fun r => if r.id == id then r.recorded w else r })
    else .error (.unknownMetric id)

/-- Adds a snapshot to the history. -/
def addSnapshot (row : SnapshotRow) : Work Unit :=
  statement fun t => do return ((), { t with snapshots := some ((← present t.snapshots) ++ [row]) })

/-- Records a refresh: the snapshot holds the write as it was given. -/
def recordRefresh (id : String) (w : Write) : Work Snapshot :=
  transaction do
    writeRefresh id w
    addSnapshot ⟨id, storedValue w.value, w.error, w.at_.microText⟩
    return ⟨id, w.value.finiteOrZero, w.error, w.at_⟩

/-- The snapshot that a row keeps. -/
def SnapshotRow.snapshot (r : SnapshotRow) : Except AppError Snapshot := do
  return ⟨r.metricId, r.value, r.error, ← momentOf r.recordedAt⟩

/-- The latest snapshots of a metric, up to a limit. -/
def snapshots (id : String) (limit : Nat) : Work (List Snapshot) :=
  statement fun t => do
    let rows := (← present t.snapshots).filter (·.metricId == id)
    let latest := rows.mergeSort fun r s => s.recordedAt ≤ r.recordedAt
    return (← (latest.take limit).mapM SnapshotRow.snapshot, t)

/-- How much was pruned. -/
structure Pruned where
  snapshots : Nat
  reports : Nat
  deriving DecidableEq, Repr

/-- The text before which rows are pruned: some days before now, if there is such a moment. -/
def cutoff? (now : Moment) (days : Nat) : Option String :=
  (now.minusDays? days).map Moment.microText

/-- Removes the snapshots and the reports from before a time. -/
def prune (cutoff : String) : Work Pruned := do
  let snapshots ← statement fun t => do
    let rows ← present t.snapshots
    return (rows.countP (·.recordedAt < cutoff),
      { t with snapshots := some (rows.filter fun r => !(r.recordedAt < cutoff)) })
  let reports ← statement fun t => do
    let rows ← present t.reports
    return (rows.countP (·.finishedAt < cutoff),
      { t with reports := some (rows.filter fun r => !(r.finishedAt < cutoff)) })
  statement fun t => .ok ((), t)
  return ⟨snapshots, reports⟩

/-- Saves a report; each id is saved once. -/
def saveReport (r : Report) : Work Unit :=
  statement fun t => do
    let rows ← present t.reports
    if rows.any (·.id == r.id) then .error refusal
    else
      return ((), { t with reports := some (rows ++ [⟨r.id, r.finishedAt.microText, r.toText⟩]) })

/-- The row that finished last, and of several the first. -/
def latestRow? : List ReportRow → Option ReportRow
  | [] => none
  | r :: rs =>
    match latestRow? rs with
    | some s => if r.finishedAt < s.finishedAt then some s else some r
    | none => some r

/-- The report that finished last. -/
def latestReport : Work (Option Report) :=
  statement fun t => do
    match latestRow? (← present t.reports) with
    | none => return (none, t)
    | some row =>
      match Report.ofText? row.json with
      | some r => return (some r, t)
      | none => .error refusal

/-- The schema version. -/
def schemaVersion : Work Int :=
  statement fun t => do return (versionOf (← present t.settings), t)

end MetricBoard.Store
