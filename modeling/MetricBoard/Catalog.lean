import MetricBoard.AppError
import MetricBoard.Metric.Definition
import MetricBoard.Yaml.Decode

/-!
# The catalog of metrics

A catalog is a YAML text that lists metrics in their order. Every metric has an id of its own and
an expression; whether the expression can be transpiled is left to the refresh, which records the
failure with the metric.
-/

namespace MetricBoard.Catalog

open Yaml

/-- An entry of a catalog as written. -/
structure Entry where
  id : String
  groupName : String
  label : String
  target : Target
  tableHint : Option String
  expression : String
  deriving DecidableEq, Repr

/-- Whether a character can start an id. -/
def startsId (c : Char) : Bool := c.isAlphanum

/-- Whether a character can go on an id. -/
def continuesId (c : Char) : Bool := c.isAlphanum || "_.:-".toList.contains c

/-- Whether a text is an id: a letter or digit, and at most 127 letters, digits, `_`, `.`, `:` and
`-` after it. -/
def isId (s : String) : Bool :=
  match s.toList with
  | [] => false
  | c :: cs => startsId c && cs.all continuesId && cs.length ≤ 127

/-- Reads an entry. Three of its fields have a short name too. -/
def Entry.ofNode? (n : Node) : Option Entry := do
  let [id, group, label, target, table, expression] ← n.fields?
    [["id"], ["groupName", "group"], ["label"], ["targetServer", "target"],
      ["tableHint", "table"], ["canonicalExpression", "expression"]] | none
  return {
    id := ← id.bind Node.text?
    groupName := ← group.bind Node.text?
    label := ← label.bind Node.text?
    target := ← (target.bind Node.tagWord?).bind Target.ofSpelling?
    tableHint := ← Node.fieldOr none (Node.option? Node.text?) table
    expression := ← expression.bind Node.text? }

/-- The metric of an entry, before any refresh. -/
def Entry.definition (e : Entry) : Definition :=
  ⟨e.id, e.groupName, e.label, e.target, e.tableHint, Text.trim e.expression, .zero, none, none⟩

/-- The metrics of some entries, given the ids before them. -/
def definitions (seen : List String) : List Entry → Except AppError (List Definition)
  | [] => .ok []
  | e :: es =>
    if !isId e.id then .error (.invalidId e.id)
    else if seen.contains e.id then .error (.duplicateId e.id)
    else if Text.isBlankText e.expression then .error (.noExpression e.id)
    else do return e.definition :: (← definitions (e.id :: seen) es)

/-- Reads the entries of a catalog. -/
def entriesOfNode? (n : Node) : Option (List Entry) := do
  let [metrics] ← n.fields? [["metrics"]] | none
  Node.fieldOr [] (fun n => n.items?.bind fun items => items.mapM Entry.ofNode?) metrics

/-- The metrics of a text. -/
def ofText (text : String) : Except AppError (List Definition) :=
  match (Node.ofText? text).bind entriesOfNode? with
  | some entries => definitions [] entries
  | none => .error (.foreign .catalog)

/-- The metrics of a file. -/
def ofFile (path : String) (content : Except FileFault String) :
    Except AppError (List Definition) := do
  ofText (← content.mapError (.unreadable .catalog path))

end MetricBoard.Catalog
