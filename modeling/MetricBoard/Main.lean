import MetricBoard.Rehearsal.Machine
import MetricBoard.Text.Utf8

/-!
# The command line

The program on a real system. This build holds no drivers that reach the servers: connections to
the relational server are refused, the file database has no driver, and the store is kept in memory.
-/

namespace MetricBoard.CommandLine

/-- The fault of a failed call. -/
def faultOf : IO.Error → FileFault
  | .alreadyExists .. => .occupied
  | .inappropriateType _ code _ => if code = 20 then .notADirectory else .isADirectory
  | _ => .missing

/-- Does something with files. -/
def attempt {α : Type} (act : IO α) : IO (Except FileFault α) := do
  try return .ok (← act) catch e => return .error (faultOf e)

/-- Makes one directory. One that is there already is no fault. -/
def makeOne (path : String) : IO (Except FileFault Unit) := do
  match ← attempt (IO.FS.createDir path) with
  | .error .occupied =>
    match ← attempt (IO.FS.Handle.mk path .readWrite) with
    | .error .isADirectory => return .ok ()
    | _ => return .error .occupied
  | made => return made

/-- Makes a directory and those above it that are missing. -/
partial def makeDirectory (path : String) : IO (Except FileFault Unit) := do
  if path = "" then return .ok ()
  match ← makeOne path, Text.parentPath? path with
  | .error .missing, some parent =>
    match ← makeDirectory parent with
    | .ok () => makeOne path
    | .error fault => return .error fault
  | made, _ => return made

/-- Runs a batch and prunes the history, again after each interval. -/
partial def serve (s : Rehearsal.State) : IO Unit := do
  let s := ((s.play 0 .runOnce).1.play 0 .retain).1
  IO.sleep (min s.world.engine.scheduler.intervalMs (twoTo 32 - 1)).toUInt32
  serve s

/-- The system that the process runs on. -/
def system : System IO where
  environmentValue name := IO.getEnv name
  drivers := ⟨true, false⟩
  readFile path := do
    match ← attempt (IO.FS.readBinFile path) with
    | .ok bytes => return (Text.ofUtf8? bytes.toList).elim (.error .notUtf8) .ok
    | .error fault => return .error fault
  makeDirectory := makeDirectory
  createLog directory := do
    let _ ← attempt (IO.FS.writeFile (Text.joinPath directory (Program.logFileStart ++ ".1")) "")
  installLog := return true
  openStore path := do
    match ← makeDirectory ((Text.parentPath? path).getD "") with
    | .ok () => return .ok .fresh
    | .error fault => return .error (.directory fault)
  keepStore _ := return ()
  serve e := serve { world := { engine := e }, servers := .const Rehearsal.unreachable }
  complain := IO.eprintln

end MetricBoard.CommandLine

/-- Runs the program with the arguments of the command line. -/
def main (arguments : List String) : IO UInt32 :=
  MetricBoard.Program.main MetricBoard.CommandLine.system arguments
