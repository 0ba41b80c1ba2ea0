import MetricBoard.Config.Basic
import MetricBoard.Yaml.Decode

/-!
# Reading a configuration

A configuration is written in YAML. A text of blanks only is the default configuration. A field
that is not written has its default value; a server that is not written is not configured.
-/

namespace MetricBoard

open Yaml

/-- The largest number of 64 bits. -/
def maxCount : Nat := twoTo 64 - 1

/-- The largest number of 32 bits. -/
def maxDays : Nat := twoTo 32 - 1

/-- The largest port. -/
def maxPort : Nat := twoTo 16 - 1

/-- Reads how batches run. -/
def RefreshSettings.ofNode? (n : Node) : Option RefreshSettings := do
  let [interval, inFlight, relational, timeout, retention] ← n.fields?
    [["interval_seconds"], ["max_in_flight"], ["relational_concurrency"],
      ["query_timeout_seconds"], ["retention_days"]] | none
  let default : RefreshSettings := {}
  return {
    intervalSeconds := ← Node.fieldOr default.intervalSeconds (Node.natural? maxCount) interval
    maxInFlight := ← Node.fieldOr default.maxInFlight (Node.natural? maxCount) inFlight
    relationalConcurrency :=
      ← Node.fieldOr default.relationalConcurrency (Node.natural? maxCount) relational
    queryTimeoutSeconds :=
      ← Node.fieldOr default.queryTimeoutSeconds (Node.natural? maxCount) timeout
    retentionDays := ← Node.fieldOr default.retentionDays (Node.natural? maxDays) retention }

/-- Reads settings of the relational server. -/
def RelationalSettings.ofNode? (n : Node) : Option RelationalSettings := do
  let [enabled, host, port, database, username, password, variableName, trust, schema] ← n.fields?
    [["enabled"], ["host"], ["port"], ["database"], ["username"], ["password"], ["password_env"],
      ["trust_cert"], ["schema"]] | none
  let default : RelationalSettings := {}
  return {
    enabled := ← Node.fieldOr default.enabled Node.bool? enabled
    host := ← Node.fieldOr default.host Node.text? host
    port := ← Node.fieldOr default.port (Node.natural? maxPort) port
    database := ← Node.fieldOr default.database Node.text? database
    username := ← Node.fieldOr default.username Node.text? username
    password := ← Node.fieldOr none (Node.option? Node.text?) password
    passwordVariable := ← Node.fieldOr none (Node.option? Node.text?) variableName
    trustCertificate := ← Node.fieldOr default.trustCertificate Node.bool? trust
    schema := ← Node.fieldOr default.schema Node.text? schema }

/-- Reads settings of the file database. -/
def FileSettings.ofNode? (n : Node) : Option FileSettings := do
  let [enabled, path, driver, password, variableName] ← n.fields?
    [["enabled"], ["path"], ["odbc_driver"], ["password"], ["password_env"]] | none
  let default : FileSettings := {}
  return {
    enabled := ← Node.fieldOr default.enabled Node.bool? enabled
    path := ← Node.fieldOr default.path Node.text? path
    odbcDriver := ← Node.fieldOr default.odbcDriver Node.text? driver
    password := ← Node.fieldOr none (Node.option? Node.text?) password
    passwordVariable := ← Node.fieldOr none (Node.option? Node.text?) variableName }

namespace Config

/-- Reads the servers. -/
def serversOfNode? (n : Node) : Option (Option RelationalSettings × Option FileSettings) := do
  let [relational, file] ← n.fields? [["p21"], ["por"]] | none
  return (← Node.fieldOr none (Node.option? RelationalSettings.ofNode?) relational,
    ← Node.fieldOr none (Node.option? FileSettings.ofNode?) file)

/-- Reads a configuration. -/
def ofNode? (n : Node) : Option Config := do
  let [database, catalog, log, refresh, servers] ← n.fields?
    [["database_path"], ["catalog_path"], ["log_dir"], ["refresh"], ["servers"]] | none
  let default : Config := {}
  let (relational, file) ← Node.fieldOr (none, none) serversOfNode? servers
  return {
    databasePath := ← Node.fieldOr default.databasePath Node.text? database
    catalogPath := ← Node.fieldOr default.catalogPath Node.text? catalog
    logDirectory := ← Node.fieldOr default.logDirectory Node.text? log
    refresh := ← Node.fieldOr default.refresh RefreshSettings.ofNode? refresh
    relational := relational
    fileDatabase := file }

/-- The configuration that a text writes, if it can be used. -/
def ofText (text : String) : Except AppError Config := do
  let config ←
    if Text.isBlankText text then .ok {}
    else match (Node.ofText? text).bind ofNode? with
      | some c => .ok c
      | none => .error (.foreign .config)
  match config.fault? with
  | some fault => .error (.setting fault)
  | none => return config

/-- The configuration of a file; its relative paths are those of the directory of the file. -/
def ofFile (path : String) (content : Except FileFault String) : Except AppError Config := do
  let text ← content.mapError (.unreadable .config path)
  let config ← ofText text
  return match Text.parentPath? path with
    | some base => config.resolve base
    | none => config

end Config

end MetricBoard
