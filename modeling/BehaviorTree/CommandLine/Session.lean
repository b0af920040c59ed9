import BehaviorTree.CommandLine.Request
import BehaviorTree.Manager
import BehaviorTree.Report.Record

/-!
A run of one tree: it is loaded and driven under the settings of its project, and in the end its
last status and its report are shown. Between two ticks every worker has the time to finish.
-/

namespace BehaviorTree.CommandLine

/-- Settings that are given count instead of those of the project. -/
def Overrides.apply (overrides : Overrides) (tick : TickSettings) : TickSettings :=
  { mode := overrides.mode.getD tick.mode
    period := overrides.period.getD tick.period
    count := overrides.count.getD tick.count }

/-- Complaints name all circumstances, the outermost first. -/
def complaint (circumstances : List String) : String := ": ".intercalate circumstances

/-- Where and when the program starts, and what it logs then. -/
structure Start where
  disk : Disk
  now : Timestamp := {}
  /-- The lines that are logged to the output before each print and after the last. -/
  logged : Nat → List String := fun _ => []

structure Session where
  manager : Manager
  id : TreeId
  policy : Policy

namespace Session

/-- Does something with the manager, and gives every worker the time to finish. -/
def perform (session : Session)
    (act : Manager → TreeId → Manager × Except ManagerFault Unit) : Except String Session :=
  match act session.manager session.id with
  | (after, .ok _) => .ok { session with manager := after.settle }
  | (_, .error fault) => .error fault.message

/-- The settings of a run. -/
def config (disk : Disk) (project : Option String) (overrides : Overrides) :
    Except String Config :=
  let root := project.getD disk.workingPath
  match Config.loadProject disk root with
  | .error fault => .error (complaint fault.circumstances)
  | .ok loaded =>
      let resolved := loaded.resolve root
      let config := { resolved with tick := overrides.apply resolved.tick }
      match config.problem? with
      | some reason => .error reason
      | none => .ok config

/-- Loads the tree and begins to drive it. -/
def begin (start : Start) (config : Config) (tree : String) : Except String Session :=
  let manager := Manager.ofConfig config { values := config.values } start.disk
  match { manager with now := start.now }.loadFile tree with
  | (_, .error fault) => .error fault.message
  | (loaded, .ok id) =>
      let session : Session := { manager := loaded, id, policy := config.tick.policy }
      session.perform fun manager id => manager.start id session.policy

def report (session : Session) : Except String Report :=
  (session.manager.report session.id).mapError (·.message)

/-- Whether the drive of the tree is not over. -/
def isDriven (session : Session) : Bool :=
  ((session.manager.tree? session.id).bind (·.activeDrive?)).isSome

/-- The period between two ticks runs out. -/
def elapse (session : Session) : Session :=
  { session with manager := (session.manager.elapse session.id).settle }

/-- Lets at most as many periods run out. -/
def elapseAll (session : Session) : Nat → Session
  | 0 => session
  | periods + 1 => session.elapse.elapseAll periods

/-- Releases one tick and shows the report after it. -/
def step (session : Session) : Except String (Session × String) := do
  let after ← session.perform Manager.step
  return (after, (← after.report).render)

/-- A line that says nothing but `q` ends an interactive run. -/
def isFarewell (line : String) : Bool := Text.trim line = "q"

/-- Every line releases one tick, until the farewell or the end of the input. -/
def interact (session : Session) : List String → Except String (Session × List String)
  | [] => return (session, [])
  | line :: rest =>
      if isFarewell line then return (session, [])
      else do
        let (stepped, shown) ← session.step
        let (after, more) ← stepped.interact rest
        return (after, shown :: more)

/-- What is printed in the end. -/
def conclusion (json : Bool) (status : Status) (report : Report) : List String :=
  if json then [report.writeIndented ++ "\n"]
  else ["\n", s!"Final status: {status.name}\n", report.render]

/-- Ends the run: an interactive drive is stopped, another has come to its end by itself. -/
def conclude (session : Session) (json : Bool) : Except String (Session × List String) :=
  let (stopped, answer) :=
    match session.policy with
    | .interactive => session.manager.stop session.id
    | .continuous _ | .count _ _ => session.manager.wait session.id
  match answer, stopped.report session.id with
  | .ok status, .ok report =>
      let unloaded := (stopped.unload session.id).1
      .ok ({ session with manager := unloaded }, conclusion json status report)
  | .error fault, _ | _, .error fault => .error fault.message

def greeting : String := "Press Enter to tick, q to quit.\n"

/-- A whole run on some input, with all that it prints. A continuous run has no end of its own. -/
def whole (session : Session) (json : Bool) (input : List String) :
    Option (Except String (Session × List String)) :=
  match session.policy with
  | .continuous _ => none
  | .count ticks _ => some ((session.elapseAll ticks).conclude json)
  | .interactive =>
      some do
        let (stepped, shown) ← session.interact input
        let (after, ending) ← stepped.conclude json
        return (after, greeting :: shown ++ ending)

end Session

end BehaviorTree.CommandLine
