import MetricBoard.Connection.Address
import MetricBoard.Connection.DriverError
import MetricBoard.Connection.Parameters
import MetricBoard.Connection.Row

/-!
# The driver of the relational server

The driver turns what the protocol's client hands over into rows and failures. A connection takes
one statement after another; the first result set of a reply counts, and an error anywhere in a
reply is the answer. Once the server has gone away every statement fails, and once the connection
is closed no statement is sent.
-/

namespace MetricBoard.Relational

/-! ## Values -/

/-- A value of a column. -/
inductive Value where
  | null
  | bit (b : Bool)
  /-- An integer of any width. -/
  | int (n : Int)
  /-- A number of single precision. -/
  | real (x : Binary64)
  | float (x : Binary64)
  /-- An exact number: an integer, and how many of its digits are behind the point. -/
  | numeric (unscaled : Int) (scale : Nat)
  | text (s : String)
  /-- A value of a type that has no number in it. -/
  | other
  deriving DecidableEq, Repr

/-- An integer filled up with zeros, behind its sign, to a width. -/
def padded (width : Nat) (n : Int) : String :=
  let digits := Nat.repr n.natAbs
  let sign := if n < 0 then "-" else ""
  sign ++ String.ofList (List.replicate (width - sign.length - digits.length) '0') ++ digits

/-- The text of an exact number: the parts before and behind the point, each with its own sign. -/
def numericText (unscaled : Int) (scale : Nat) : String :=
  padded 0 (unscaled.tdiv (tenTo scale : Nat)) ++ "." ++
    padded scale (unscaled.tmod (tenTo scale : Nat))

/-- The cell of a value. -/
def Value.cell : Value → Cell
  | null | other => .null
  | bit b => .bool b
  | int n => .int n
  | real x => .float x.toSingle
  | float x => .float x
  | numeric unscaled scale => .decimal (numericText unscaled scale)
  | text s => .text s

/-- The row of a list of columns and its values. -/
def row (columns : List String) (values : List Value) : Row := ⟨columns, values.map Value.cell⟩

/-! ## Failures -/

/-- What the protocol's client reports. -/
inductive ClientError where
  /-- The server's own report. -/
  | server (code : Nat) (message : String)
  /-- Sending or receiving failed. -/
  | transport (timedOut : Bool) (message : Option String)
  | tls (message : String)
  /-- The server wants the client to go elsewhere. -/
  | routing (host : String) (port : Nat)
  | protocol (message : String)
  | encoding (message : String)
  | conversion (message : String)
  | bulk (message : String)
  | utf8
  | utf16
  deriving DecidableEq, Repr

/-- The codes of the server that report a statement it cannot parse. -/
def syntaxCodes : List Nat := [102, 103, 105, 156, 170, 319, 1038]

/-- The failure that a report of the client is. -/
def ClientError.driverError : ClientError → DriverError
  | server code message =>
    ⟨if syntaxCodes.contains code then .syntaxError else .executionError, some (Nat.repr code),
      some message⟩
  | transport timedOut message => ⟨if timedOut then .timeout else .connectionError, none, message⟩
  | tls message => .plain .connectionError message
  | routing host port =>
    .plain .connectionError ("server requested a redirect to " ++ host ++ ":" ++ Nat.repr port)
  | protocol message => .plain .unknown ("Protocol error: " ++ message)
  | encoding message => .plain .unknown ("Encoding error: " ++ message)
  | conversion message => .plain .unknown ("Conversion error: " ++ message)
  | bulk message => .plain .unknown ("BULK UPLOAD input failure: " ++ message)
  | utf8 => .plain .unknown "UTF-8 error"
  | utf16 => .plain .unknown "UTF-16 error"

/-- The server has gone away. -/
def ClientError.gone : ClientError := .transport false none

/-! ## Connecting -/

/-- Why no connection to an address came about. -/
inductive Refusal where
  | refused
  | timedOut
  | netUnreachable
  | hostUnreachable
  | reset
  deriving DecidableEq, Repr

/-- The report of a connection that did not come about. -/
def Refusal.clientError : Refusal → ClientError
  | refused => .transport false (some "Connection refused (os error 111)")
  | timedOut => .transport true (some "Connection timed out (os error 110)")
  | netUnreachable => .transport false (some "Network is unreachable (os error 101)")
  | hostUnreachable => .transport false (some "No route to host (os error 113)")
  | reset => .transport false (some "Connection reset by peer (os error 104)")

/-- Who logs in, and to what. -/
structure Login where
  user : String
  password : String
  application : String
  server : String
  database : String
  deriving DecidableEq, Repr

/-- The login that parameters ask for. -/
def login (p : RelationalParameters) : Login :=
  ⟨p.username, p.password.getD "", "metric-refresh", p.host, p.database⟩

/-- The address that parameters name. -/
def address (p : RelationalParameters) : String := Address.withPort p.host p.port

/-- How far a connection gets. -/
inductive Arrival where
  /-- No connection to the address. -/
  | refused (why : Refusal)
  /-- The server goes away before it has read the login. -/
  | dropped
  /-- The server reads the login and answers it, unless it accepts it, with a report. -/
  | loggedIn (report : Option ClientError)
  deriving DecidableEq, Repr

/-- The relational parameters with a host that can be an address. -/
def checkParameters : ConnectionParameters → Except DriverError RelationalParameters
  | .fileDatabase _ =>
    .error (.plain .unknown "relational driver was given file database parameters")
  | .relational p =>
    if p.host.toList.contains '\x00' then
      .error (ClientError.transport false
        (some "file name contained an unexpected NUL byte")).driverError
    else .ok p

/-- What connecting leads to. -/
def Arrival.result : Arrival → Except DriverError Unit
  | refused why => .error why.clientError.driverError
  | dropped => .error ClientError.gone.driverError
  | loggedIn (some report) => .error report.driverError
  | loggedIn none => .ok ()

/-- The login that the server got to read. -/
def Arrival.login? (p : RelationalParameters) : Arrival → Option Login
  | loggedIn _ => some (login p)
  | _ => none

/-! ## Statements -/

/-- The rows of one result set. -/
structure ResultSet where
  columns : List String
  rows : List (List Value)
  deriving DecidableEq, Repr

/-- What comes back for a statement. -/
inductive Reply where
  | results (sets : List ResultSet) (error : Option ClientError)
  /-- The server reads the statement and goes away. -/
  | gone
  deriving DecidableEq, Repr

/-- A connection. -/
inductive Connection where
  | connected
  /-- The server has gone away. -/
  | lost
  | closed
  deriving DecidableEq, Repr

namespace Connection

/-- Whether a statement gets to the server. -/
def reaches : Connection → Bool
  | connected => true
  | _ => false

/-- The rows of a reply. -/
def rows : Reply → Except DriverError (List Row)
  | .gone => .error ClientError.gone.driverError
  | .results _ (some error) => .error error.driverError
  | .results [] none => .ok []
  | .results (set :: _) none => .ok (set.rows.map (row set.columns))

/-- Runs a statement, to which the server would reply as told. -/
def query (c : Connection) (reply : Reply) : Except DriverError (List Row) × Connection :=
  match c with
  | closed => (.error .closed, closed)
  | lost => (.error ClientError.gone.driverError, lost)
  | connected => (rows reply, if reply = .gone then lost else connected)

/-- Closes a connection; a second time nothing happens. -/
def close : Connection → Except DriverError Unit × Connection
  | lost => (.error ClientError.gone.driverError, closed)
  | _ => (.ok (), closed)

end Connection

end MetricBoard.Relational
