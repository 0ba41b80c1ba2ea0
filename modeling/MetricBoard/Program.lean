import MetricBoard.Catalog
import MetricBoard.Config.Reader
import MetricBoard.Refresh.Setup

/-!
# The program

The program reads its configuration, sets up its log, opens the store, makes the catalog the
store's catalog, and serves until it is interrupted. It asks a `System` for everything that is
outside of it, so it runs on a real system as on a rehearsed one. The store is opened before the
catalog is read; a log that cannot be set up is reported and done without.
-/

namespace MetricBoard

/-- What the program asks of the system it runs on. -/
structure System (m : Type → Type) where
  /-- The value of an environment variable. -/
  environmentValue : String → m (Option String)
  /-- Which servers there are drivers for. -/
  drivers : PerTarget Bool
  readFile : String → m (Except FileFault String)
  makeDirectory : String → m (Except FileFault Unit)
  /-- Makes the log file of the day in a directory. -/
  createLog : String → m Unit
  /-- Makes the log the log of the process, unless it has one. -/
  installLog : m Bool
  /-- Opens the store of a file; its directory is made first. -/
  openStore : String → m (Except AppError Store.Tables)
  /-- Keeps the tables in the file of the store. -/
  keepStore : Store.Tables → m Unit
  /-- Runs the scheduler until the program is interrupted. -/
  serve : Engine → m Unit
  /-- Writes a line for the user who started the program. -/
  complain : String → m Unit

namespace Program

variable {m : Type → Type} [Monad m]

/-- The file of the configuration, if none is named. -/
def defaultConfigPath : String := "metric-refresh.yaml"

/-- How the names of the log files start. -/
def logFileStart : String := "metric-refresh.log"

/-- Sets up the log in a directory. -/
def initLog (sys : System m) (directory : String) : m (Except AppError Unit) := do
  match ← sys.makeDirectory directory with
  | .error fault => return .error (.directory fault)
  | .ok () =>
    sys.createLog directory
    if ← sys.installLog then return .ok () else return .error (.foreign .internal)

/-- The passwords in the environment variables that a configuration names. -/
def environment (sys : System m) (c : Config) : m Environment := do
  let values ← c.passwordVariables.mapM fun name => return (name, ← sys.environmentValue name)
  return fun name => (values.lookup name).join

/-- Runs the program with a configuration. -/
def run (sys : System m) (c : Config) : m (Except AppError Unit) := do
  match ← sys.openStore c.databasePath with
  | .error e => return .error e
  | .ok tables =>
    match Catalog.ofFile c.catalogPath (← sys.readFile c.catalogPath) with
    | .error e => return .error e
    | .ok ds =>
      let (change, tables) := (Store.replaceCatalog ds).run tables
      match change with
      | .error e => return .error e
      | .ok _ =>
        sys.keepStore tables
        sys.serve (c.engine (← environment sys c) sys.drivers tables)
        return .ok ()

/-- The line for an error. -/
def complaint (e : AppError) : String := "metric-refresh: " ++ e.message?.getD e.kind.name

/-- The configuration of a file. -/
def loadConfig (sys : System m) (path : String) : m (Except AppError Config) := do
  return Config.ofFile path (← sys.readFile path)

/-- The program; the result is its exit code. -/
def main (sys : System m) (arguments : List String) : m UInt32 := do
  match ← loadConfig sys (arguments.headD defaultConfigPath) with
  | .error e =>
    sys.complain (complaint e)
    return 1
  | .ok c =>
    match ← initLog sys c.logDirectory with
    | .error e =>
      sys.complain ("metric-refresh: failed to initialise logging: " ++ e.message?.getD e.kind.name)
    | .ok () => pure ()
    match ← run sys c with
    | .error e =>
      sys.complain (complaint e)
      return 1
    | .ok () => return 0

end Program

end MetricBoard
