import BehaviorTree.CommandLine.Session
import BehaviorTree.Plan.Outline

/-!
The program on the command line: it shows the outline of a tree file, validates it, or runs it.
-/

namespace BehaviorTree.CommandLine

/-- What the program leaves behind. -/
structure Outcome where
  code : Nat := 0
  output : String := ""
  complaint : String := ""
  disk : Disk

namespace Outcome

def failure (disk : Disk) (reason : String) : Outcome :=
  { code := 1, complaint := "Error: " ++ reason, disk }

def ofResult (disk : Disk) : Except String String → Outcome
  | .ok output => { output, disk }
  | .error reason => failure disk reason

end Outcome

/-- Loads a plan; what is wrong with it is a complaint. -/
def loadPlan (disk : Disk) (path : String) : Except String TreePlan :=
  (TreePlan.load disk path).mapError fun fault => complaint fault.circumstances

def outline (disk : Disk) (path : String) : Except String String :=
  (loadPlan disk path).map (·.outline)

/-- A plan is valid if it has no defect. -/
def validate (disk : Disk) (path : String) : Except String String := do
  let plan ← loadPlan disk path
  match plan.defect? with
  | none => .ok s!"{path}: ok ({plan.label.name})\n"
  | some found => .error s!"{path}: {found.message}"

/-- The beginning of a run. -/
def begin (request : Request) (overrides : Overrides) (start : Start) : Except String Session := do
  let config ← Session.config start.disk request.project overrides
  Session.begin start config request.tree

/-- Prints amid what is logged. A print is written in one piece, and so is a line of the log. -/
def amid (logged : Nat → List String) : List String → String
  | [] => String.join (logged 0)
  | print :: rest => String.join (logged 0) ++ print ++ amid (fun count => logged (count + 1)) rest

/-- The outcome of a run. -/
def Start.outcome (start : Start) : Except String (Session × List String) → Outcome
  | .ok (after, prints) => { output := amid start.logged prints, disk := after.manager.disk }
  | .error reason =>
      { Outcome.failure start.disk reason with output := amid start.logged [] }

/-- What a request brings, if it comes to an end by itself. -/
def Request.perform (request : Request) (start : Start) (input : String) : Option Outcome :=
  let disk := start.disk
  match request.errand with
  | .outline => some (.ofResult disk (outline disk request.tree))
  | .validate => some (.ofResult disk (validate disk request.tree))
  | .run overrides json =>
      match begin request overrides start with
      | .error reason => some (start.outcome (.error reason))
      | .ok session => (session.whole json (Text.lines input)).map start.outcome

end BehaviorTree.CommandLine
