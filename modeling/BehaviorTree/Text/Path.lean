import BehaviorTree.Text.Blank

/-!
Paths as texts. Nothing about a path says whether it exists.
-/

namespace BehaviorTree.Text.Path

def isAbsolute (path : String) : Bool := path.startsWith "/"

/-- The steps of a path. Empty ones and those that stay in place do not count. -/
def steps (path : String) : List String :=
  ((path.splitToList (· = '/')).filter fun step => !step.isEmpty && step != ".")

/-- A path seen from a directory. An absolute path stays as it is. -/
def join (directory path : String) : String :=
  if isAbsolute path || directory.isEmpty then path
  else if directory.endsWith "/" then directory ++ path
  else directory ++ "/" ++ path

/-- Where the last step starts. -/
def parent (path : String) : String :=
  (if isAbsolute path then "/" else "") ++ "/".intercalate (steps path).dropLast

/-- The last step, if it is a name. -/
def fileName? (path : String) : Option String := (steps path).getLast?.filter (· != "..")

/-- What follows the last point of a file name. A name that begins with its only point has none. -/
def extension? (path : String) : Option String := do
  let name ← fileName? path
  let ending := (name.toList.reverse.takeWhile (· ≠ '.')).reverse
  if name.length ≤ ending.length + 1 then none else some (String.ofList ending)

/-- Whether a path insists on naming a directory. -/
def isDirectoryPath (path : String) : Bool :=
  path.endsWith "/" || path.endsWith "/." || path == "." || path.isEmpty

end BehaviorTree.Text.Path
