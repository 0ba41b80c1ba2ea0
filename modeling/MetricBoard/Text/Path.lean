import MetricBoard.Text.Split

/-!
# Paths

Paths as texts: segments between slashes. Nothing is looked up and nothing is made shorter; a
joined path keeps its `.` and `..` as written.
-/

namespace MetricBoard.Text

/-- Whether a path starts at the root. -/
def isAbsolute (path : String) : Bool := path.toList.head? == some '/'

/-- A path below a directory; an absolute one stays. -/
def joinPath (base path : String) : String :=
  if isAbsolute path then path
  else if base = "" ∨ base.toList.getLast? = some '/' then base ++ path
  else base ++ "/" ++ path

/-- A path that resolves against a directory; the empty one stays. -/
def resolvePath (base path : String) : String := if path = "" then path else joinPath base path

/-- A path, from its end, without the slashes and the `.` segments there. -/
def dropEmptySegments : List Char → List Char
  | '/' :: cs => dropEmptySegments cs
  | ['.'] => ['.']
  | '.' :: '/' :: cs => dropEmptySegments ('/' :: cs)
  | cs => cs
termination_by cs => cs.length

/-- The directory that a path names its last segment in. -/
def parentPath? (path : String) : Option String :=
  match dropEmptySegments path.toList.reverse with
  | [] => none
  | cs =>
    match cs.dropWhile (· ≠ '/') with
    | [] => some ""
    | rest =>
      match dropEmptySegments rest with
      | [] => some "/"
      | cs => some (String.ofList cs.reverse)

end MetricBoard.Text
