import MetricBoard.Router.Call

/-!
# Scripted servers

A stand-in for a server, for rehearsing the engine without one: it says how long connecting,
statements and closing take and what comes of them, and keeps a record of what it was asked.
-/

namespace MetricBoard.Rehearsal

/-- What comes of a statement. -/
inductive Effect where
  /-- The statement hangs for an hour and then fails. -/
  | hangs
  | breaksDown
  | fails (e : DriverError)
  | answers (rows : List Row)
  deriving DecidableEq, Repr

/-- How statements that hold some text are answered. -/
structure Script where
  text : String
  delay : Option Nat
  /-- How often the script can still be used, if not for ever. -/
  uses : Option Nat
  effect : Effect
  deriving DecidableEq, Repr

/-- A server. -/
structure Server where
  connectDelay : Nat := 0
  queryDelay : Nat := 0
  closeDelay : Nat := 0
  /-- Whether every connect fails. -/
  refuses : Bool := false
  /-- How many connects still fail. -/
  failuresLeft : Nat := 0
  /-- The connects, counted from 1, that fail. -/
  failing : List Nat := []
  connectError : DriverError := ⟨.connectionError, some "18456", some "login refused"⟩
  scripts : List Script := []
  connects : Nat := 0
  closes : Nat := 0
  /-- The statements so far, the last one in front. -/
  statements : List String := []
  /-- The tasks whose statements are running, with the connections they run on. -/
  running : List (TaskId × ConnectionId) := []
  maxRunning : Nat := 0
  maxPerConnection : Nat := 0
  deriving DecidableEq, Repr

/-- The time of a hanging statement. -/
def hangMs : Nat := 3600000

/-- The one row of one number. -/
def single (x : Binary64) : List Row := [.ofPairs [("value", .float x)]]

/-- What comes of a statement, and the milliseconds it adds to the delay. -/
def Effect.answer : Effect → Answer × Nat
  | hangs => (.failed (.plain .timeout "hung query woke up"), hangMs)
  | breaksDown => (.brokeDown, 0)
  | fails e => (.failed e, 0)
  | answers rows => (.rows rows, 0)

/-- Whether a text stands somewhere in another. -/
def occursIn (part : List Char) : List Char → Bool
  | [] => part.isEmpty
  | c :: cs => part.isPrefixOf (c :: cs) || occursIn part cs

namespace Script

/-- Whether a script is for a statement and can still be used. -/
def fits (s : Script) (sql : String) : Bool := s.uses != some 0 && occursIn s.text.toList sql.toList

/-- The script after one use. -/
def used (s : Script) : Script := { s with uses := s.uses.map (· - 1) }

/-- The first script that fits a statement, and the scripts with it used. -/
def pick (sql : String) : List Script → Option Script × List Script
  | [] => (none, [])
  | s :: ss =>
    if s.fits sql then (some s, s.used :: ss)
    else match pick sql ss with
      | (found, rest) => (found, s :: rest)

end Script

namespace Server

/-- The server is asked for a connection; the answer comes after the delay. -/
def connect (s : Server) : Server × Answer × Nat :=
  let n := s.connects + 1
  if 0 < s.failuresLeft then
    ({ s with connects := n, failuresLeft := s.failuresLeft - 1 }, .refused s.connectError,
      s.connectDelay)
  else if s.refuses || s.failing.contains n then
    ({ s with connects := n }, .refused s.connectError, s.connectDelay)
  else ({ s with connects := n }, .connected, s.connectDelay)

/-- The server is given a statement; the answer comes after the delay, or the statement is given up
when its time is over. -/
def statement (s : Server) (t : TaskId) (c : ConnectionId) (sql : String) (limitMs : Nat) :
    Server × Answer × Nat :=
  let (found, scripts) := Script.pick sql s.scripts
  let delay := (found.bind Script.delay).getD s.queryDelay
  let effect := (found.map Script.effect).getD (.answers (single .one))
  let duration := delay + effect.answer.2
  let running := s.running ++ [(t, c)]
  ({ s with
      scripts := scripts
      statements := sql :: s.statements
      running := running
      maxRunning := max s.maxRunning running.length
      maxPerConnection := max s.maxPerConnection (running.countP (·.2 == c)) },
    if duration ≤ limitMs then (effect.answer.1, duration) else (.elapsed, limitMs))

/-- A statement is no longer running. -/
def finishStatement (s : Server) (t : TaskId) : Server :=
  { s with running := s.running.filter (·.1 != t) }

/-- A connection has been closed. -/
def finishClose (s : Server) : Server := { s with closes := s.closes + 1 }

end Server

end MetricBoard.Rehearsal
