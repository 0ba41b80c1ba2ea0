import MetricBoard.AppError
import MetricBoard.Text.Path

/-!
# Disks

A stand-in for the files that the program finds and makes. A path is followed name by name; all
but the last of them have to be directories.
-/

namespace MetricBoard.Rehearsal

/-- What stands at a place. -/
inductive Entry where
  | directory
  | text (content : String)
  /-- The file of a store. -/
  | store
  deriving DecidableEq, Repr

/-- A place, by the names that lead to it from the root, the last one in front. -/
abbrev Place := List String

/-- A disk. -/
structure Disk where
  /-- Where relative paths start. -/
  workingDirectory : Place
  entries : List (Place × Entry)
  deriving DecidableEq, Repr

namespace Disk

/-- A disk with nothing but a directory to work in. -/
def empty (name : String) : Disk := ⟨[name], [([name], .directory)]⟩

/-- What stands at a place. -/
def entry? (d : Disk) (p : Place) : Option Entry :=
  if p.isEmpty then some .directory else d.entries.lookup p

/-- The disk with something put at a place. -/
def put (d : Disk) (p : Place) (e : Entry) : Disk := { d with entries := (p, e) :: d.entries }

/-- The place that a name leads to from a directory. -/
def enter (p : Place) (name : String) : Place :=
  if name = "" ∨ name = "." then p else if name = ".." then p.tail else name :: p

/-- Where a path starts, and the names in it. -/
def route (d : Disk) (path : String) : Place × List String :=
  (if Text.isAbsolute path then [] else d.workingDirectory,
    (Text.split '/' path.toList).map String.ofList)

/-- The place that names lead to from a place. -/
def follow (d : Disk) (p : Place) : List String → Except FileFault Place
  | [] => .ok p
  | name :: names =>
    match d.entry? p with
    | none => .error .missing
    | some .directory => d.follow (enter p name) names
    | some _ => .error .notADirectory

/-- The place of a path. -/
def place (d : Disk) (path : String) : Except FileFault Place :=
  let (start, names) := d.route path
  d.follow start names

/-- The text of a file. -/
def read (d : Disk) (path : String) : Except FileFault String := do
  if path = "" then throw .missing
  match d.entry? (← d.place path) with
  | none => throw .missing
  | some .directory => throw .isADirectory
  | some (.text content) => return content
  | some .store => throw .notUtf8

/-- Makes the directories that names lead to from a place. -/
def make (d : Disk) (p : Place) (names : List String) : Except FileFault Disk :=
  match d.entry? p, names with
  | none, [] => .ok (d.put p .directory)
  | some .directory, [] => .ok d
  | some _, [] => .error .occupied
  | none, name :: names => (d.put p .directory).make (enter p name) names
  | some .directory, name :: names => d.make (enter p name) names
  | some _, _ :: _ => .error .notADirectory

/-- Makes the directories of a path. -/
def makeDirectory (d : Disk) (path : String) : Except FileFault Disk :=
  if path = "" then .ok d
  else
    let (start, names) := d.route path
    d.make start names

/-- Makes the directory that a path names its last segment in. -/
def makeParent (d : Disk) (path : String) : Except FileFault Disk :=
  match Text.parentPath? path with
  | some parent => d.makeDirectory parent
  | none => .ok d

/-- The disk with a file, and the directories that lead to it. -/
def write (d : Disk) (path content : String) : Except FileFault Disk := do
  let d ← d.makeParent path
  return d.put (← d.place path) (.text content)

/-- The disk with the file of a store opened, and made if it is not there. A file with anything
else in it is no store. -/
def openStore (d : Disk) (path : String) : Except AppError Disk := do
  let d ← (d.makeParent path).mapError .directory
  if path = "" then return d
  match d.place path with
  | .error _ => throw (.foreign .internal)
  | .ok p =>
    match d.entry? p with
    | none | some (.text "") | some .store => return d.put p .store
    | some _ => throw (.foreign .internal)

/-- Whether a path is that of a store. -/
def isStore (d : Disk) (path : String) : Bool :=
  match d.place path with
  | .ok p => d.entry? p == some .store
  | .error _ => false

/-- How many files in a directory have a name that starts with some text. -/
def count (d : Disk) (directory start : String) : Nat :=
  match d.place directory with
  | .ok p => (d.entries.map (·.1)).eraseDups.countP fun q =>
      q.tail == p && (q.head?.any fun name => start.toList.isPrefixOf name.toList)
  | .error _ => 0

end Disk

end MetricBoard.Rehearsal
