import MetricBoard.Store.Statement

/-!
# Definitions in the store

Definitions are listed by their ordinal. Saving one keeps its ordinal or puts it last; replacing
the catalog numbers all of them anew, keeps the refresh fields of those that stay, and removes the
others with their history.
-/

namespace MetricBoard.Store

/-- The moment of a stored text. -/
def momentOf (raw : String) : Except AppError Moment :=
  match Moment.ofStrict? raw with
  | some m => .ok m
  | none => .error refusal

/-- The definition that a row keeps. -/
def DefinitionRow.definition (r : DefinitionRow) : Except AppError Definition := do
  let target ← match Target.ofWord? r.target with
    | some target => .ok target
    | none => .error (.unknownTarget r.target)
  let lastUpdated ← match r.lastUpdated with
    | some raw => (momentOf raw).map some
    | none => .ok none
  return ⟨r.id, r.groupName, r.label, target, r.tableHint, r.expression, r.lastValue, r.lastError,
    lastUpdated⟩

/-- The order of the list of definitions. -/
def DefinitionRow.le (r s : DefinitionRow) : Bool :=
  r.ordinal < s.ordinal || (r.ordinal == s.ordinal && r.id ≤ s.id)

/-- The rows in the order in which they are listed. -/
def listed (rows : List DefinitionRow) : List DefinitionRow := rows.mergeSort DefinitionRow.le

/-- All definitions. -/
def definitions : Work (List Definition) :=
  readDefinitions fun d => do (listed (← d.withHints)).mapM DefinitionRow.definition

/-- The definition with an id. -/
def definition? (id : String) : Work (Option Definition) :=
  readDefinitions fun d => do
    match (← d.withHints).find? (·.id == id) with
    | some r => return some (← r.definition)
    | none => return none

/-- The ordinal behind all others. -/
def nextOrdinal (rows : List DefinitionRow) : Int :=
  rows.foldl (fun n r => max n (r.ordinal + 1)) (rows.head?.elim 0 fun r => r.ordinal + 1)

/-- The rows with one more, or with the row of its id changed to it. -/
def upsert (change : DefinitionRow → DefinitionRow) (row : DefinitionRow)
    (rows : List DefinitionRow) : List DefinitionRow :=
  if rows.any (·.id == row.id) then rows.map fun r => if r.id == row.id then change r else r
  else rows ++ [row]

/-- Saves a definition with its refresh fields. -/
def save (d : Definition) : Work Unit := do
  let ordinal ← readDefinitions fun t => .ok (nextOrdinal t.rows)
  writeDefinitions fun t => do
    let row := DefinitionRow.ofDefinition ordinal d
    return ((), { t with
      rows := upsert (fun r => { row with ordinal := r.ordinal }) row (← t.withHints) })

/-- What became of a catalog that was replaced. -/
structure CatalogChange where
  inserted : Nat
  updated : Nat
  removed : Nat
  deriving DecidableEq, Repr

/-- Puts a definition at its place in the catalog; one that is there keeps its refresh fields. -/
def place (ordinal : Int) (d : Definition) : Work Unit :=
  writeDefinitions fun t => do
    let row : DefinitionRow :=
      ⟨d.id, ordinal, d.groupName, d.label, d.target.code, d.tableHint, d.expression, .zero, none,
        none⟩
    let change (r : DefinitionRow) : DefinitionRow :=
      { row with
        lastValue := r.lastValue
        lastError := r.lastError
        lastUpdated := r.lastUpdated }
    return ((), { t with rows := upsert change row (← t.withHints) })

/-- Puts definitions at their places, given the ids before them. -/
def placeAll (seen : List String) (ordinal : Nat) : List Definition → Work Unit
  | [] => return
  | d :: ds =>
    if seen.contains d.id then throw (.duplicateId d.id)
    else do
      place ordinal d
      placeAll (d.id :: seen) (ordinal + 1) ds

/-- Removes a definition with its history. -/
def remove (id : String) : Work Unit :=
  statement fun t => do
    let d ← present t.definitions
    return ((), { t with
      definitions := some { d with rows := d.rows.filter (·.id != id) }
      snapshots := t.snapshots.map fun rows => rows.filter (·.metricId != id) })

/-- Makes some definitions the whole catalog. -/
def replaceCatalog (ds : List Definition) : Work CatalogChange :=
  transaction do
    let existing ← readDefinitions fun t => .ok (t.rows.map DefinitionRow.id)
    placeAll [] 0 ds
    let ids := ds.map Definition.id
    let gone := existing.filter fun id => !ids.contains id
    gone.forM remove
    let updated := ids.countP existing.contains
    return ⟨ids.length - updated, updated, gone.length⟩

end MetricBoard.Store
