/-!
# Kinds of failure

What can go wrong with one metric. The kind and its message, joined by `annotate`, are what a
definition keeps of its last failure.
-/

namespace MetricBoard

/-- The kind of a metric's failure. -/
inductive ErrorKind where
  | unsupportedExpression
  | configurationMissing
  | connectionFailed
  | connectionError
  | timeout
  | syntaxError
  | executionError
  | unknown
  | cancelled
  deriving DecidableEq, Repr

namespace ErrorKind

/-- Every kind. -/
def every : List ErrorKind :=
  [unsupportedExpression, configurationMissing, connectionFailed, connectionError, timeout,
    syntaxError, executionError, unknown, cancelled]

/-- The name of a kind. -/
def name : ErrorKind → String
  | unsupportedExpression => "UNSUPPORTED_EXPRESSION"
  | configurationMissing => "CONFIGURATION_MISSING"
  | connectionFailed => "CONNECTION_FAILED"
  | connectionError => "CONNECTION_ERROR"
  | timeout => "TIMEOUT"
  | syntaxError => "SYNTAX_ERROR"
  | executionError => "EXECUTION_ERROR"
  | unknown => "UNKNOWN"
  | cancelled => "CANCELLED"

/-- The kind with a given name. -/
def ofName? (s : String) : Option ErrorKind := every.find? fun k => k.name == s

/-- A kind with a message. -/
def annotate (k : ErrorKind) (message : String) : String := k.name ++ ": " ++ message

/-- Whether the connection that failed in this way may be unusable from then on. -/
def poisons : ErrorKind → Bool
  | timeout | connectionError => true
  | _ => false

end ErrorKind

end MetricBoard
