import BehaviorTree.Text.Period
import BehaviorTree.Text.Quoted

/-!
Workers: a body of work is begun and stopped through a flag that tells it to keep working. Flags
are shared: whoever knows the number of a flag sees what was stored in it last. Every start makes a
flag for the new run, so a body that outlived its stop never sees a raised flag again, however often
its worker is started anew.
-/

namespace BehaviorTree

/-- Misuse of a worker, or a failure to begin one. -/
inductive WorkerFault where
  | alreadyStarted (name : String)
  | notRunning (name : String)
  | spawn (name reason : String)
  deriving DecidableEq, Repr

def WorkerFault.message : WorkerFault → String
  | .alreadyStarted name => s!"worker '{name}' is already started"
  | .notRunning name => s!"worker '{name}' is not running"
  | .spawn name reason => s!"failed to spawn worker '{name}': {reason}"

/-- What a body does: it returns when told to stop, or at once, or fails at once, or it goes on
for a while whatever it is told. -/
inductive Body where
  | untilStopped
  | returning
  | panicking
  | outliving (duration : Nat)
  deriving DecidableEq, Repr

/-- How one run of a body stands. -/
inductive RunState where
  | alive
  | returned
  | panicked
  deriving DecidableEq, Repr

/-- A run knows the number of the flag that it was given. -/
structure Run where
  flag : Nat
  state : RunState
  deriving DecidableEq, Repr

/-- A worker with all flags it ever made and all runs it ever began. -/
structure Worker where
  name : String
  body : Body
  grace : Nat := 200
  hooked : Bool := false
  /-- What is stored in the flags, each at its number. -/
  flags : List Bool := [false]
  /-- The number of the flag in hand. -/
  keepWorking : Nat := 0
  /-- The oldest first. -/
  runs : List Run := []
  /-- The number of the run that the worker holds on to while it is running. -/
  held : Option Nat := none
  hookCalls : Nat := 0
  deriving DecidableEq, Repr

namespace Body

def afterStart : Body → RunState
  | .untilStopped | .outliving _ => .alive
  | .returning => .returned
  | .panicking => .panicked

/-- How a run stands once the grace of a stop has passed. A body that polls returns when it finds
its flag lowered. -/
def afterStop (body : Body) (grace : Nat) (raised : Bool) (state : RunState) : RunState :=
  match body with
  | .outliving duration => if duration ≤ grace then .returned else state
  | .untilStopped => if raised then state else .returned
  | .returning | .panicking => state

end Body

namespace Worker

def isRunning (worker : Worker) : Bool := worker.held.isSome

/-- Whether a run is told to keep working. -/
def isRaised (worker : Worker) (run : Run) : Bool := worker.flags[run.flag]? == some true

/-- Makes a flag of its own for what comes next. -/
def makeFlag (worker : Worker) : Worker :=
  { worker with flags := worker.flags ++ [false], keepWorking := worker.flags.length }

/-- Raises or lowers the flag in hand. -/
def setFlag (worker : Worker) (raised : Bool) : Worker :=
  { worker with flags := worker.flags.set worker.keepWorking raised }

/-- Begins a run of the body with the flag in hand. -/
def begin (worker : Worker) : Worker :=
  { worker with
    runs := worker.runs ++ [⟨worker.keepWorking, worker.body.afterStart⟩]
    held := some worker.runs.length }

def start (worker : Worker) : Except WorkerFault Worker :=
  match worker.held with
  | some _ => .error (.alreadyStarted worker.name)
  | none => .ok (worker.makeFlag.setFlag true).begin

def callHook (worker : Worker) : Worker :=
  { worker with hookCalls := worker.hookCalls + if worker.hooked then 1 else 0 }

/-- Waits until the run returns or the grace has passed. -/
def waitFor (worker : Worker) (number : Nat) : Worker :=
  { worker with
    runs := worker.runs.modify number fun run =>
      { run with
        state := worker.body.afterStop worker.grace (worker.isRaised run) run.state } }

/-- Lowers the flag in hand, calls the hook, waits out the grace and lets the run go. -/
def stop (worker : Worker) : Except WorkerFault Worker :=
  match worker.held with
  | none => .error (.notRunning worker.name)
  | some number => .ok (({ worker with held := none }.setFlag false).callHook.waitFor number)

/-- Giving a worker up stops it, and a new one of the same name and body takes its place. -/
def replace (worker : Worker) : Worker :=
  let stopped := match worker.stop with
    | .ok stopped => stopped
    | .error _ => worker
  { stopped.makeFlag with grace := 200, hooked := false }

/-- How many bodies returned; one that failed never did. -/
def exits (worker : Worker) : Nat := worker.runs.countP (·.state = .returned)

def description (worker : Worker) : String :=
  s!"Worker \x7b name: {Text.quoted worker.name}, running: {worker.isRunning}, " ++
    s!"stop_grace: {Text.period worker.grace}, .. \x7d"

end Worker

end BehaviorTree
