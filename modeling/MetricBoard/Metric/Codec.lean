import MetricBoard.Json.Reader
import MetricBoard.Json.Writer
import MetricBoard.Metric.Report
import MetricBoard.Moment.Text

/-!
# Definitions and reports as JSON

Encoders and decoders of the records that data files and the store hold. A decoder skips members
that it does not know and refuses a member given twice. A record may also be an array of its fields
in the order of `definitionFields`, `outcomeFields` and `reportFields`.
-/

namespace MetricBoard

namespace Target

/-- A server as JSON. -/
def toJson (t : Target) : Json := .text t.code

/-- The server that a value names. -/
def ofJson? (v : Json) : Option Target := v.tag?.bind ofSpelling?

end Target

namespace ErrorKind

/-- A kind as JSON. -/
def toJson (k : ErrorKind) : Json := .text k.name

/-- The kind that a value names. -/
def ofJson? (v : Json) : Option ErrorKind := v.tag?.bind ofName?

end ErrorKind

namespace Moment

/-- A moment as JSON. -/
def toJson (m : Moment) : Json := .text m.text

/-- The moment that a value tells. -/
def ofJson? (v : Json) : Option Moment := v.text?.bind ofLenient?

end Moment

/-- The names of a definition's fields. -/
def definitionFields : List String :=
  ["id", "groupName", "label", "targetServer", "tableHint", "canonicalExpression", "lastValue",
    "lastError", "lastUpdated"]

/-- The names of an outcome's fields. -/
def outcomeFields : List String :=
  ["id", "targetServer", "success", "value", "errorKind", "message", "elapsedMs", "persisted"]

/-- The names of a report's fields. -/
def reportFields : List String := ["id", "startedAt", "finishedAt", "outcomes"]

/-- A field that may be missing, or null. -/
def optionalField {α : Type} (f : Json → Option α) (field : Option Json) : Option (Option α) :=
  match field with
  | none => some none
  | some v => v.option? f

namespace Definition

/-- A definition as JSON. -/
def toJson (d : Definition) : Json :=
  .ofMembers
    [("id", .text d.id), ("groupName", .text d.groupName), ("label", .text d.label),
      ("targetServer", d.target.toJson), ("tableHint", .ofOption .text d.tableHint),
      ("canonicalExpression", .text d.expression), ("lastValue", .float d.lastValue),
      ("lastError", .ofOption .text d.lastError),
      ("lastUpdated", .ofOption Moment.toJson d.lastUpdated)]

/-- The definition that a value holds. The hint and what a refresh writes may be missing. -/
def ofJson? (v : Json) : Option Definition := do
  match ← v.fields? definitionFields with
  | [some id, some groupName, some label, some target, tableHint, some expression, lastValue,
      lastError, lastUpdated] =>
    return {
      id := ← id.text?
      groupName := ← groupName.text?
      label := ← label.text?
      target := ← Target.ofJson? target
      tableHint := ← optionalField Json.text? tableHint
      expression := ← expression.text?
      lastValue := ← match lastValue with
        | none => some .zero
        | some x => x.float?
      lastError := ← optionalField Json.text? lastError
      lastUpdated := ← optionalField Moment.ofJson? lastUpdated }
  | _ => none

end Definition

namespace Outcome

/-- An outcome as JSON, without an error's fields if there is none. -/
def toJson (o : Outcome) : Json :=
  .ofMembers
    ([("id", .text o.id), ("targetServer", o.target.toJson), ("success", .bool o.success),
      ("value", .float o.value)] ++
      (o.errorKind.toList.map fun k => ("errorKind", k.toJson)) ++
      (o.message.toList.map fun m => ("message", .text m)) ++
      [("elapsedMs", .nat o.elapsedMs), ("persisted", .bool o.persisted)])

/-- The outcome that a value holds. An error's fields may be missing. -/
def ofJson? (v : Json) : Option Outcome := do
  match ← v.fields? outcomeFields with
  | [some id, some target, some success, some value, errorKind, message, some elapsedMs,
      some persisted] =>
    return {
      id := ← id.text?
      target := ← Target.ofJson? target
      success := ← success.bool?
      value := ← value.float?
      errorKind := ← optionalField ErrorKind.ofJson? errorKind
      message := ← optionalField Json.text? message
      elapsedMs := ← elapsedMs.word?
      persisted := ← persisted.bool? }
  | _ => none

end Outcome

namespace Report

/-- A report as JSON. -/
def toJson (r : Report) : Json :=
  .ofMembers
    [("id", .text r.id), ("startedAt", r.startedAt.toJson), ("finishedAt", r.finishedAt.toJson),
      ("outcomes", .array (r.outcomes.map Outcome.toJson))]

/-- The report that a value holds. -/
def ofJson? (v : Json) : Option Report := do
  match ← v.fields? reportFields with
  | [some id, some startedAt, some finishedAt, some outcomes] =>
    return {
      id := ← id.text?
      startedAt := ← Moment.ofJson? startedAt
      finishedAt := ← Moment.ofJson? finishedAt
      outcomes := ← outcomes.list? Outcome.ofJson? }
  | _ => none

end Report

/-- The definition that a JSON text holds. -/
def Definition.ofText? (s : String) : Option Definition := (Json.parse? s).bind ofJson?

/-- The report that a JSON text holds. -/
def Report.ofText? (s : String) : Option Report := (Json.parse? s).bind ofJson?

/-- A report as JSON text. -/
def Report.toText (r : Report) : String := r.toJson.toText

end MetricBoard
