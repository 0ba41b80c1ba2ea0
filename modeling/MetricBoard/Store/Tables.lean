import MetricBoard.Metric.Definition
import MetricBoard.Moment.Text

/-!
# Tables of the store

What the store keeps on disk: definitions, the snapshots of their history, reports and a schema
version. Targets and moments are kept as text, as older files may hold texts that name none. A
table may be missing, and the definitions of an older file lack the column of table hints;
`Tables.opened` creates what is missing and brings an older file up to date.
-/

namespace MetricBoard.Store

/-- A row of the definitions. -/
structure DefinitionRow where
  id : String
  ordinal : Int
  groupName : String
  label : String
  target : String
  tableHint : Option String
  expression : String
  lastValue : Binary64
  lastError : Option String
  lastUpdated : Option String
  deriving DecidableEq, Repr

/-- A row of the history. -/
structure SnapshotRow where
  metricId : String
  value : Binary64
  error : Option String
  recordedAt : String
  deriving DecidableEq, Repr

/-- A row of the reports: a report as JSON text. -/
structure ReportRow where
  id : String
  finishedAt : String
  json : String
  deriving DecidableEq, Repr

/-- The table of definitions. Every id stands in one row at most. -/
structure DefinitionTable where
  /-- Whether there is a column of table hints. -/
  hasHints : Bool
  rows : List DefinitionRow
  deriving DecidableEq, Repr

/-- The tables; each may be missing. Rows stand in the order in which they were inserted. -/
structure Tables where
  definitions : Option DefinitionTable := none
  snapshots : Option (List SnapshotRow) := none
  reports : Option (List ReportRow) := none
  /-- The table of settings: the text of the schema version, if there is one. -/
  settings : Option (Option String) := none
  deriving DecidableEq, Repr

/-- The names of the tables. -/
inductive TableName where
  | definitions
  | snapshots
  | reports
  | settings
  deriving DecidableEq, Repr

/-- The value that is read back for a number: it has to be finite, and zero has no sign. -/
def storedValue (x : Binary64) : Binary64 := x.finiteOrZero.withoutNegativeZero

/-- The row that keeps a definition. -/
def DefinitionRow.ofDefinition (ordinal : Int) (d : Definition) : DefinitionRow :=
  ⟨d.id, ordinal, d.groupName, d.label, d.target.code, d.tableHint, d.expression,
    storedValue d.lastValue, d.lastError, d.lastUpdated.map Moment.microText⟩

/-! ## The schema version -/

/-- The version that this library writes. -/
def currentVersion : Int := 2

/-- The digits of a number of at most 64 bits with an optional sign. -/
def integer? (s : String) : Option Int :=
  let digits (cs : List Char) : Option Nat :=
    if cs.isEmpty || !cs.all Char.isDigit then none
    else some (cs.foldl (fun n c => 10 * n + (c.toNat - '0'.toNat)) 0)
  match s.toList with
  | '-' :: cs => ((digits cs).map fun n => -(n : Int)).filter (-(twoTo 63 : Int) ≤ ·)
  | '+' :: cs => ((digits cs).map Int.ofNat).filter (· < (twoTo 63 : Int))
  | cs => ((digits cs).map Int.ofNat).filter (· < (twoTo 63 : Int))

/-- The version that a text states; one that cannot be read or is missing is 1. -/
def versionOf (raw : Option String) : Int := (raw.bind fun s => integer? (Text.trim s)).getD 1

namespace Tables

/-- The tables of a file that is opened: the missing ones are created, and a file of an older
version gets the column of table hints and the current version. -/
def opened (t : Tables) : Tables :=
  let definitions := t.definitions.getD ⟨false, []⟩
  let version := t.settings.getD none
  let isOld : Bool := versionOf version < currentVersion
  { definitions := some { definitions with hasHints := definitions.hasHints || isOld }
    snapshots := some (t.snapshots.getD [])
    reports := some (t.reports.getD [])
    settings := some (if isOld then some "2" else version) }

/-- The tables of a fresh store. -/
def fresh : Tables := opened {}

/-- The tables without one of them. -/
def drop (t : Tables) : TableName → Tables
  | .definitions => { t with definitions := none }
  | .snapshots => { t with snapshots := none }
  | .reports => { t with reports := none }
  | .settings => { t with settings := none }

end Tables

end MetricBoard.Store
