import MetricBoard.Connection.DriverError
import MetricBoard.Connection.Parameters
import MetricBoard.Connection.Row
import MetricBoard.Text.Utf8

/-!
# The driver of the file database

The driver reaches the file database through ODBC. Values are fetched as text, of the first row
only, and cut to a fixed number of bytes. Statements take turns on the connection; a statement that
breaks down instead of failing leaves the connection unusable, and it cannot be closed any more.
-/

namespace MetricBoard.FileDatabase

/-! ## Connection strings and time limits -/

/-- A text in braces, with a closing brace written twice. -/
def braced (s : String) : String :=
  "\x7b" ++ String.ofList (s.toList.flatMap fun c => if c = '\x7d' then [c, c] else [c]) ++ "\x7d"

/-- The connection string of parameters. -/
def connectionString (p : FileParameters) : String :=
  "Driver=\x7b" ++ p.odbcDriver ++ "\x7d;DBQ=" ++ p.path ++ ";" ++
    match p.password with
    | some password => "PWD=" ++ braced password ++ ";"
    | none => ""

/-- A time limit in whole seconds, rounded up. None is not a limit, so the least one is 1. -/
def limitSeconds (nanoseconds : Nat) : Nat :=
  max 1 ((nanoseconds + 999999999) / 1000000000)

/-- The time limit of statements, in milliseconds, unless another is given. -/
def defaultLimitMs : Nat := 30000

/-! ## Failures -/

/-- A call to the ODBC layer. -/
inductive OdbcCall where
  | connect
  | execute
  | countColumns
  | columnAttribute
  | bindColumn
  | fetch
  deriving DecidableEq, Repr

/-- The name of a call. -/
def OdbcCall.name : OdbcCall → String
  | connect => "SQLDriverConnect"
  | execute => "SQLExecDirect"
  | countColumns => "SQLNumResultCols"
  | columnAttribute => "SQLColAttribute"
  | bindColumn => "SQLBindCol"
  | fetch => "SQLFetch"

/-- What a call that fails leaves behind. -/
inductive Diagnostic where
  | record (state : String) (native : Int) (message : String)
  /-- No record, and a text in its place. -/
  | plain (message : String)
  deriving DecidableEq, Repr

/-- The kind of a failure, by its state. -/
def kindOfState (state : String) : ErrorKind :=
  if state = "HYT00" ∨ state = "HYT01" then .timeout
  else if state = "42000" ∨ state = "37000" then .syntaxError
  else match state.toList with
    | '0' :: '8' :: _ => .connectionError
    | '4' :: '2' :: _ | '2' :: '2' :: _ | '2' :: '3' :: _ => .executionError
    | _ => .unknown

/-- An integer in decimal. -/
def decimal (n : Int) : String := (if n < 0 then "-" else "") ++ Nat.repr n.natAbs

/-- The failure of a call. -/
def driverError (call : OdbcCall) : Diagnostic → DriverError
  | .record state native message =>
    ⟨kindOfState state, some state,
      some ("ODBC emitted an error calling '" ++ call.name ++ "':\nState: " ++ state ++
        ", Native error: " ++ decimal native ++ ", Message: " ++ message)⟩
  | .plain message => .plain .unknown message

/-- The work broke down instead of failing. -/
def brokenDown : DriverError := ⟨.unknown, none, none⟩

/-- The connection has been left unusable. -/
def poisoned : DriverError := .plain .unknown "odbc connection mutex poisoned"

/-- How a call can go wrong. -/
inductive Trouble where
  | fails (d : Diagnostic)
  | breaksDown
  deriving DecidableEq, Repr

/-! ## Connecting -/

/-- The parameters of a file that is there. -/
def checkParameters (isFile : String → Bool) :
    ConnectionParameters → Except DriverError FileParameters
  | .relational _ => .error (.plain .unknown "file database driver was given relational parameters")
  | .fileDatabase p =>
    if isFile p.path then .ok p
    else .error (.plain .connectionError ("database file " ++ p.path ++ " does not exist"))

/-- What a call that may go wrong leads to. -/
def connectResult : Option Trouble → Except DriverError Unit
  | none => .ok ()
  | some (.fails d) => .error (driverError .connect d)
  | some .breaksDown => .error brokenDown

/-! ## Statements -/

/-- What the ODBC layer does along a statement, in the order of the calls. -/
inductive Stage where
  | execute
  | columns
  | name
  | buffer
  | bind
  | fetch
  deriving DecidableEq, Repr

/-- The call of a stage. -/
def Stage.call : Stage → OdbcCall
  | execute => .execute
  | columns => .countColumns
  | name | buffer => .columnAttribute
  | bind => .bindColumn
  | fetch => .fetch

/-- What is there to fetch. -/
structure ResultSet where
  columns : List String
  /-- Cells as bytes, or nothing for null. -/
  rows : List (List (Option (List UInt8)))
  deriving DecidableEq, Repr

/-- What comes back for a statement. -/
structure Reply where
  set : Option ResultSet
  /-- The trouble at the stages that have any. -/
  troubles : List (Stage × Trouble)
  deriving DecidableEq, Repr

/-- What was asked of the ODBC layer. -/
inductive Request where
  | connect (connectionString : String)
  | execute (sql : String) (seconds : Nat)
  | fetch
  | disconnect
  deriving DecidableEq, Repr

/-- The most bytes that are fetched of a cell. -/
def maxTextBytes : Nat := 4096

/-- The cell of fetched bytes. -/
def cell : Option (List UInt8) → Cell
  | none => .null
  | some bytes => .text (Text.ofUtf8Lossy (bytes.take maxTextBytes))

/-- The stages of a statement with a result set. -/
def stages (set : ResultSet) : List Stage :=
  [.execute, .columns] ++ (if set.columns.isEmpty then [] else [.name]) ++ [.buffer, .bind, .fetch]

/-- The first of some stages to go wrong. -/
def firstTrouble (troubles : List (Stage × Trouble)) (stages : List Stage) :
    Option (Stage × Trouble) :=
  stages.findSome? fun s => (troubles.lookup s).map (s, ·)

/-- The rows of a result set: the first one, with a cell for each column. -/
def firstRow (set : ResultSet) : List Row :=
  match set.rows with
  | [] => []
  | cells :: _ =>
    [⟨set.columns, set.columns.mapIdx fun k _ => cell ((cells[k]?).getD none)⟩]

/-- The trouble that a statement meets. -/
def Reply.trouble? (r : Reply) : Option (Stage × Trouble) :=
  firstTrouble r.troubles (r.set.elim [.execute] stages)

/-- What a statement asks of the ODBC layer. -/
def Reply.requests (r : Reply) (sql : String) (seconds : Nat) : List Request :=
  let fetches : Bool := match r.trouble? with
    | some (stage, _) => stage == .fetch
    | none => r.set.isSome
  .execute sql seconds :: if fetches then [.fetch] else []

/-- The rows of a reply. -/
def Reply.rows (r : Reply) : Except DriverError (List Row) :=
  match r.trouble? with
  | some (stage, .fails d) => .error (driverError stage.call d)
  | some (_, .breaksDown) => .error brokenDown
  | none => .ok (r.set.elim [] firstRow)

/-- Whether a statement breaks down. -/
def Reply.breaksDown (r : Reply) : Bool :=
  match r.trouble? with
  | some (_, .breaksDown) => true
  | _ => false

/-- A connection. -/
inductive Connection where
  | connected
  | poisoned
  | closed
  deriving DecidableEq, Repr

/-- What an operation on a connection comes to. -/
structure Served (α : Type) where
  result : Except DriverError α
  connection : Connection
  requests : List Request

namespace Connection

/-- Runs a statement, to which the ODBC layer would reply as told. -/
def query (c : Connection) (sql : String) (seconds : Nat) (reply : Reply) : Served (List Row) :=
  match c with
  | closed => ⟨.error .closed, closed, []⟩
  | poisoned => ⟨.error FileDatabase.poisoned, poisoned, []⟩
  | connected =>
    ⟨reply.rows, if reply.breaksDown then poisoned else connected, reply.requests sql seconds⟩

/-- Closes a connection; a second time nothing happens. -/
def close : Connection → Served Unit
  | connected => ⟨.ok (), closed, [.disconnect]⟩
  | poisoned => ⟨.error FileDatabase.poisoned, poisoned, []⟩
  | closed => ⟨.ok (), closed, []⟩

/-- What is asked when a connection is no longer used. -/
def release : Connection → List Request
  | closed => []
  | _ => [.disconnect]

end Connection

end MetricBoard.FileDatabase
