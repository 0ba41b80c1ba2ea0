import MetricBoard.AppError
import MetricBoard.Connection.Parameters
import MetricBoard.Expression.Dialect
import MetricBoard.Text.Path

/-!
# Configuration

Where the store, the catalog and the logs are, how batches run, and how the two servers are
reached. `Config.fault?` says what keeps a configuration from being used.
-/

namespace MetricBoard

/-- How batches run. -/
structure RefreshSettings where
  intervalSeconds : Nat := 300
  maxInFlight : Nat := 6
  relationalConcurrency : Nat := 4
  queryTimeoutSeconds : Nat := 30
  retentionDays : Nat := 90
  deriving DecidableEq, Repr

/-- Settings of the relational server. -/
structure RelationalSettings where
  enabled : Bool := true
  host : String := ""
  port : Nat := 1433
  database : String := ""
  username : String := ""
  password : Option String := none
  /-- The environment variable that holds the password, and wins over `password`. -/
  passwordVariable : Option String := none
  trustCertificate : Bool := false
  schema : String := Expression.defaultSchema
  deriving DecidableEq, Repr

/-- The ODBC driver of the file database. -/
def defaultOdbcDriver : String := "Microsoft Access Driver (*.mdb, *.accdb)"

/-- Settings of the file database. -/
structure FileSettings where
  enabled : Bool := true
  path : String := ""
  odbcDriver : String := defaultOdbcDriver
  password : Option String := none
  /-- The environment variable that holds the password, and wins over `password`. -/
  passwordVariable : Option String := none
  deriving DecidableEq, Repr

/-- A configuration. -/
structure Config where
  databasePath : String := "data/metrics.db"
  catalogPath : String := "metrics.yaml"
  logDirectory : String := "logs"
  refresh : RefreshSettings := {}
  relational : Option RelationalSettings := none
  fileDatabase : Option FileSettings := none
  deriving DecidableEq, Repr

/-- The values of environment variables. -/
abbrev Environment := String → Option String

/-- A password, from its variable if that is set. -/
def password (environment : Environment) (inline variableName : Option String) : Option String :=
  (variableName.bind environment).or inline

namespace RelationalSettings

/-- What keeps the settings from being used. -/
def fault? (s : RelationalSettings) : Option ConfigFault :=
  if !s.enabled then none
  else if Text.isBlankText s.host then some .blankHost
  else if Text.isBlankText s.schema then some .blankSchema
  else none

/-- The server that the settings describe. -/
def server (s : RelationalSettings) (environment : Environment) : ServerConfig :=
  ⟨s.enabled, .relational ⟨s.host, s.port, s.database, s.username,
    MetricBoard.password environment s.password s.passwordVariable, s.trustCertificate⟩⟩

end RelationalSettings

namespace FileSettings

/-- What keeps the settings from being used. -/
def fault? (s : FileSettings) : Option ConfigFault :=
  if s.enabled && s.path == "" then some .emptyPath else none

/-- The server that the settings describe. -/
def server (s : FileSettings) (environment : Environment) : ServerConfig :=
  ⟨s.enabled, .fileDatabase ⟨s.path, s.odbcDriver,
    MetricBoard.password environment s.password s.passwordVariable⟩⟩

end FileSettings

namespace RefreshSettings

/-- What keeps the settings from being used. -/
def fault? (s : RefreshSettings) : Option ConfigFault :=
  if s.intervalSeconds = 0 then some .zeroInterval
  else if s.maxInFlight = 0 ∨ s.relationalConcurrency = 0 then some .zeroLimit
  else if s.queryTimeoutSeconds = 0 then some .zeroTimeout
  else none

end RefreshSettings

namespace Config

/-- The first fault that keeps a configuration from being used. -/
def fault? (c : Config) : Option ConfigFault :=
  c.refresh.fault?.or <| (c.relational.bind RelationalSettings.fault?).or <|
    c.fileDatabase.bind FileSettings.fault?

/-- The configuration with its relative paths resolved against a directory. -/
def resolve (base : String) (c : Config) : Config :=
  { c with
    databasePath := Text.resolvePath base c.databasePath
    catalogPath := Text.resolvePath base c.catalogPath
    logDirectory := Text.resolvePath base c.logDirectory
    fileDatabase := c.fileDatabase.map fun s => { s with path := Text.resolvePath base s.path } }

/-- The environment variables that may hold passwords. -/
def passwordVariables (c : Config) : List String :=
  (c.relational.bind RelationalSettings.passwordVariable).toList ++
    (c.fileDatabase.bind FileSettings.passwordVariable).toList

/-- What is configured for a server. -/
def server? (c : Config) (environment : Environment) : Target → Option ServerConfig
  | .relational => c.relational.map fun s => s.server environment
  | .fileDatabase => c.fileDatabase.map fun s => s.server environment

/-- The schema of tables that name none. -/
def schema (c : Config) : String :=
  (c.relational.map RelationalSettings.schema).getD Expression.defaultSchema

/-- The milliseconds that a statement may take. -/
def queryTimeoutMs (c : Config) : Nat := c.refresh.queryTimeoutSeconds * 1000

/-- The milliseconds between batches. -/
def intervalMs (c : Config) : Nat := c.refresh.intervalSeconds * 1000

end Config

end MetricBoard
