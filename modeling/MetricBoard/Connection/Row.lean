import MetricBoard.Expression.Dialect
import MetricBoard.Number.Decimal

/-!
# Rows of a result

A cell is what a driver gives for one value of a result; exact numbers stay text, so that nothing
is lost before they are read. `scalar` is the one number that a result is reduced to: the first
row's column named `value`, else its first cell, and zero where there is no finite number.
-/

namespace MetricBoard

/-- A value of a result. -/
inductive Cell where
  | null
  | bool (b : Bool)
  | int (n : Int)
  | float (x : Binary64)
  /-- An exact number, as text. -/
  | decimal (s : String)
  | text (s : String)
  deriving DecidableEq, Repr

namespace Cell

/-- The number that a cell stands for, finite or not. -/
def number? : Cell → Option Binary64
  | null => none
  | bool b => some (if b then .one else .zero)
  | int n => some (.ofInt n)
  | float x => some x
  | decimal s | text s => Binary64.ofText? (Text.trim s)

/-- The finite number that a cell stands for. -/
def toFinite? (c : Cell) : Option Binary64 := c.number?.filter Binary64.isFinite

end Cell

/-- A row of a result. Columns without a cell and cells without a column are possible. -/
structure Row where
  columns : List String
  cells : List Cell
  deriving DecidableEq, Repr

namespace Row

/-- The row of named cells. -/
def ofPairs (pairs : List (String × Cell)) : Row := ⟨pairs.map Prod.fst, pairs.map Prod.snd⟩

/-- The cell at the first column of a name, in any case of its letters. -/
def get? (r : Row) (column : String) : Option Cell :=
  (r.columns.findIdx? fun name => Text.sameWord name column).bind fun k => r.cells[k]?

end Row

/-- The number that a result stands for. -/
def scalar (rows : List Row) : Binary64 :=
  ((do
    let row ← rows.head?
    let cell ← (row.get? Expression.resultColumn).or row.cells.head?
    cell.toFinite?) : Option Binary64).getD .zero

end MetricBoard
