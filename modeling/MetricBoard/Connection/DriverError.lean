import MetricBoard.ErrorKind

/-!
# Failures of a driver

What a driver reports when it cannot connect, run a statement or close: the kind of the failure,
the code of the server's own report, and the wording, which may be up to a library below.
-/

namespace MetricBoard

/-- A failure that a driver reports. -/
structure DriverError where
  kind : ErrorKind
  code : Option String
  /-- The wording, if it is fixed. -/
  message : Option String
  deriving DecidableEq, Repr

namespace DriverError

/-- A failure without a code. -/
def plain (kind : ErrorKind) (message : String) : DriverError := ⟨kind, none, some message⟩

/-- The wording, empty where it is not fixed. -/
def text (e : DriverError) : String := e.message.getD ""

/-- The statement's connection was closed before. -/
def closed : DriverError := plain .connectionError "connection already closed"

end DriverError

end MetricBoard
