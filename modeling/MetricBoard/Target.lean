import MetricBoard.Text.Ascii
import MetricBoard.Text.Blank

/-!
# Target servers

The two servers a metric can be computed on: the relational server, with the code `P21`, and the
file database, with the code `POR`.
-/

namespace MetricBoard

/-- The server that a metric is computed on. -/
inductive Target where
  | relational
  | fileDatabase
  deriving DecidableEq, Repr

namespace Target

/-- Both servers. -/
def every : List Target := [relational, fileDatabase]

/-- The code of a server. -/
def code : Target → String
  | relational => "P21"
  | fileDatabase => "POR"

/-- The server that a word names: its code or its long name, trimmed, in any case. -/
def ofWord? (word : String) : Option Target :=
  match Text.upper (Text.trim word) with
  | "P21" | "RELATIONAL-SERVER" => some relational
  | "POR" | "FILE-DATABASE" => some fileDatabase
  | _ => none

/-- The server that a data file names: one of these spellings and no other. -/
def ofSpelling? (word : String) : Option Target :=
  match word with
  | "P21" | "relational-server" | "p21" => some relational
  | "POR" | "file-database" | "por" => some fileDatabase
  | _ => none

end Target

end MetricBoard
