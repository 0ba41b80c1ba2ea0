import MetricBoard.Target
import MetricBoard.Text.Quoted

/-!
# Connection parameters

What a driver needs to connect to its server. The text of parameters, which shows what a handle
was made from, never holds the password.
-/

namespace MetricBoard

/-- How to reach the relational server. -/
structure RelationalParameters where
  host : String
  port : Nat
  database : String
  username : String
  password : Option String
  /-- Whether any certificate will do. -/
  trustCertificate : Bool
  deriving DecidableEq, Repr

/-- How to open the file database. -/
structure FileParameters where
  path : String
  odbcDriver : String
  password : Option String
  deriving DecidableEq, Repr

/-- How to reach one of the servers. -/
inductive ConnectionParameters where
  | relational (p : RelationalParameters)
  | fileDatabase (p : FileParameters)
  deriving DecidableEq, Repr

namespace ConnectionParameters

/-- What is shown in place of a password. -/
def hidden : Option String → String
  | none => "None"
  | some _ => "Some(" ++ Text.quoted "[REDACTED]" ++ ")"

/-- The password. -/
def password : ConnectionParameters → Option String
  | relational p => p.password
  | fileDatabase p => p.password

/-- The text of parameters, without the password. -/
def text : ConnectionParameters → String
  | relational p =>
    "Relational(RelationalParams \x7b host: " ++ Text.quoted p.host ++ ", port: " ++
      Nat.repr p.port ++ ", database: " ++ Text.quoted p.database ++ ", username: " ++
      Text.quoted p.username ++ ", password: " ++ hidden p.password ++ ", trust_cert: " ++
      (if p.trustCertificate then "true" else "false") ++ " \x7d)"
  | fileDatabase p =>
    "FileDatabase(FileDatabaseParams \x7b path: " ++ Text.quotedPath p.path ++ ", odbc_driver: " ++
      Text.quoted p.odbcDriver ++ ", password: " ++ hidden p.password ++ " \x7d)"

end ConnectionParameters

/-- What is configured for a server. -/
structure ServerConfig where
  enabled : Bool
  parameters : ConnectionParameters
  deriving DecidableEq, Repr

end MetricBoard
