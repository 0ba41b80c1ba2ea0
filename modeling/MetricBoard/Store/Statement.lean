import MetricBoard.AppError
import MetricBoard.Store.Tables

/-!
# Statements and transactions

An operation of the store is a sequence of statements. Any statement may be refused by what lies
below, before it has done anything; a plan says which ones are. A transaction that does not reach
its end leaves the tables as they were.
-/

namespace MetricBoard.Store

/-- The tables, and for the statements to come whether they are refused. -/
structure Session where
  tables : Tables
  refusals : List Bool := []

/-- Work on the store. What was done before an error stays done. -/
abbrev Work := ExceptT AppError (StateM Session)

/-- What a statement says when it is refused or names something that is missing. -/
def refusal : AppError := .foreign .internal

/-- Runs a statement, unless it is refused. -/
def statement {α : Type} (run : Tables → Except AppError (α × Tables)) : Work α := fun s =>
  match s.refusals with
  | true :: rest => (.error refusal, { s with refusals := rest })
  | refusals =>
    match run s.tables with
    | .ok (a, t) => (.ok a, ⟨t, refusals.tail⟩)
    | .error e => (.error e, { s with refusals := refusals.tail })

/-- Runs work that takes effect as a whole or not at all. -/
def transaction {α : Type} (work : Work α) : Work α := fun s =>
  let whole : Work α := do
    statement fun t => .ok ((), t)
    let a ← work
    statement fun t => .ok ((), t)
    return a
  match whole s with
  | (.ok a, after) => (.ok a, after)
  | (.error e, after) => (.error e, { after with tables := s.tables })

/-- Runs work on tables of which no statement is refused. -/
def Work.run {α : Type} (work : Work α) (t : Tables) : Except AppError α × Tables :=
  match work ⟨t, []⟩ with
  | (r, s) => (r, s.tables)

/-- A table that has to be there. -/
def present {α : Type} : Option α → Except AppError α
  | some a => .ok a
  | none => .error refusal

/-- A statement that reads the definitions. -/
def readDefinitions {α : Type} (f : DefinitionTable → Except AppError α) : Work α :=
  statement fun t => do return (← f (← present t.definitions), t)

/-- A statement that changes the definitions. -/
def writeDefinitions {α : Type} (f : DefinitionTable → Except AppError (α × DefinitionTable)) :
    Work α :=
  statement fun t => do
    let (a, definitions) ← f (← present t.definitions)
    return (a, { t with definitions := some definitions })

/-- The rows of a table with a column of table hints. -/
def DefinitionTable.withHints (d : DefinitionTable) : Except AppError (List DefinitionRow) :=
  if d.hasHints then .ok d.rows else .error refusal

end MetricBoard.Store
