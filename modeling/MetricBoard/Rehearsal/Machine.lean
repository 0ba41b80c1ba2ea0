import MetricBoard.Connection.Relational
import MetricBoard.Program
import MetricBoard.Rehearsal.Disk
import MetricBoard.Rehearsal.Run

/-!
# Machines

A stand-in for the system that the program runs on: a disk, a store, and servers that refuse every
connection. The program is interrupted as soon as it waits for time to pass.
-/

namespace MetricBoard.Rehearsal

/-- A machine. -/
structure Machine where
  disk : Disk
  /-- What the store holds. -/
  tables : Store.Tables := .fresh
  hasLog : Bool := false
  /-- What the user was told. -/
  lines : List String := []
  deriving DecidableEq, Repr

/-- The error of a server that refuses connections. -/
def refusal : DriverError :=
  match (Relational.Arrival.refused .refused).result with
  | .error e => e
  | .ok _ => .closed

/-- The servers of a machine. -/
def unreachable : Server := { refuses := true, connectError := refusal }

/-- The engine after the scheduler has run for as long as no time passes, and has been stopped. -/
def serve (e : Engine) : Engine :=
  let s : State := { world := { engine := e }, servers := .const unreachable }
  let steps : List Act := [.startLoops, .stop, .shutdown]
  (steps.foldl (fun s act => (s.play 0 act).1) s).world.engine

namespace Machine

/-- Does something with the disk, which an error leaves as it was. -/
def onDisk {ε : Type} (f : Disk → Except ε Disk) : StateM Machine (Except ε Unit) := do
  match f (← get).disk with
  | .ok d =>
    modify fun k => { k with disk := d }
    return .ok ()
  | .error e => return .error e

/-- The machine as the program sees it. -/
def system (environment : Environment) : System (StateM Machine) where
  environmentValue name := return environment name
  drivers := ⟨true, false⟩
  readFile path := return (← get).disk.read path
  makeDirectory path := onDisk fun d => d.makeDirectory path
  createLog directory := do
    let _ ← onDisk fun d => d.write (Text.joinPath directory (Program.logFileStart ++ ".1")) ""
  installLog := modifyGet fun k => (!k.hasLog, { k with hasLog := true })
  openStore path := do
    match ← onDisk fun d => d.openStore path with
    | .error e => return .error e
    | .ok () => return .ok (← get).tables
  keepStore tables := modify fun k => { k with tables := tables }
  serve e := modify fun k => { k with tables := (Rehearsal.serve e).storage.tables }
  complain line := modify fun k => { k with lines := k.lines ++ [line] }

end Machine

end MetricBoard.Rehearsal
