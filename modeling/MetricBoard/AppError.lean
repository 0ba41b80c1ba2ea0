/-!
# Errors of the application

What stops a configuration, a catalog, the store or the program as a whole. Each cause has a kind;
its wording is `message`, which begins with the kind's name. The wording of what a library below
reports (`foreign`) is not fixed, so such an error has a kind only.
-/

namespace MetricBoard

/-- The kinds of errors. -/
inductive AppErrorKind where
  | config
  | catalog
  | io
  | notFound
  | internal
  deriving DecidableEq, Repr

namespace AppErrorKind

/-- The name of a kind. -/
def name : AppErrorKind → String
  | config => "CONFIG_INVALID"
  | catalog => "CATALOG_INVALID"
  | io => "IO_FAILURE"
  | notFound => "NOT_FOUND"
  | internal => "INTERNAL"

end AppErrorKind

/-- A setting that a configuration gets wrong. -/
inductive ConfigFault where
  | zeroInterval
  | zeroLimit
  | zeroTimeout
  | blankHost
  | blankSchema
  | emptyPath
  deriving DecidableEq, Repr

namespace ConfigFault

/-- The wording of a fault. -/
def text : ConfigFault → String
  | zeroInterval => "refresh.interval_seconds must be greater than zero"
  | zeroLimit =>
    "refresh.max_in_flight and refresh.relational_concurrency must be greater than zero"
  | zeroTimeout => "refresh.query_timeout_seconds must be greater than zero"
  | blankHost => "servers.p21.host is required when enabled"
  | blankSchema => "servers.p21.schema must not be empty"
  | emptyPath => "servers.por.path is required when enabled"

end ConfigFault

/-- Why a file cannot be read or a directory cannot be made. -/
inductive FileFault where
  | missing
  /-- Something that is no directory has the name. -/
  | occupied
  /-- A path below something that is no directory. -/
  | notADirectory
  | isADirectory
  | notUtf8
  deriving DecidableEq, Repr

namespace FileFault

/-- The wording of a fault. -/
def text : FileFault → String
  | missing => "No such file or directory (os error 2)"
  | occupied => "File exists (os error 17)"
  | notADirectory => "Not a directory (os error 20)"
  | isADirectory => "Is a directory (os error 21)"
  | notUtf8 => "stream did not contain valid UTF-8"

end FileFault

/-- An error of the application, by its cause. -/
inductive AppError where
  | setting (fault : ConfigFault)
  /-- A configuration or a catalog that cannot be read. -/
  | unreadable (kind : AppErrorKind) (path : String) (fault : FileFault)
  | invalidId (id : String)
  | duplicateId (id : String)
  | noExpression (id : String)
  /-- A definition without an id, named by its label. -/
  | emptyId (label : String)
  /-- A batch of no definitions. -/
  | nothingToRefresh
  | unknownMetric (id : String)
  /-- A stored definition whose target is no server. -/
  | unknownTarget (raw : String)
  /-- A directory that cannot be made. -/
  | directory (fault : FileFault)
  /-- An error worded by a caller. -/
  | worded (kind : AppErrorKind) (text : String)
  /-- An error whose wording belongs to a library below. -/
  | foreign (kind : AppErrorKind)
  deriving DecidableEq, Repr

namespace AppError

/-- The kind of an error. -/
def kind : AppError → AppErrorKind
  | setting _ => .config
  | unreadable kind _ _ => kind
  | invalidId _ | duplicateId _ | noExpression _ | emptyId _ | nothingToRefresh => .catalog
  | unknownMetric _ => .notFound
  | unknownTarget _ => .internal
  | directory _ => .io
  | worded kind _ => kind
  | foreign kind => kind

/-- The wording of an error behind its kind, where it is fixed. -/
def text? : AppError → Option String
  | setting fault => some fault.text
  | unreadable _ path fault => some ("cannot read " ++ path ++ ": " ++ fault.text)
  | invalidId id => some ("invalid metric id '" ++ id ++ "'")
  | duplicateId id => some ("duplicate metric id '" ++ id ++ "'")
  | noExpression id => some ("metric '" ++ id ++ "' has no expression")
  | emptyId label => some ("metric definition '" ++ label ++ "' has an empty id")
  | nothingToRefresh => some "no metric definitions to refresh"
  | unknownMetric id => some ("metric definition " ++ id)
  | unknownTarget raw =>
    some ("Conversion error from type Text at index: 3, Unknown target server '" ++ raw ++ "'")
  | directory fault => some fault.text
  | worded _ text => some text
  | foreign _ => none

/-- The whole wording of an error, where it is fixed. -/
def message? (e : AppError) : Option String := e.text?.map fun t => e.kind.name ++ ": " ++ t

end AppError

end MetricBoard
