import BehaviorTree.Status
import BehaviorTree.Store
import BehaviorTree.Trace

/-!
One cycle of an action's work. The cycle checks whether the goal is reached, looks at its timer,
and does a step, over and over; it ends when the goal is reached, the time is up, a step fails or
its worker is told to stop, and then a last check alone decides between success and failure. The
cycle is a state machine: it waits for the answer of a check or a step, and resuming it with that
answer carries it to the next such point or to its end.
-/

namespace BehaviorTree

/-- Why a step or a completion check failed. -/
inductive WorkFault where
  | store (fault : StoreFault)
  | failed (reason : String)
  /-- The reason may be anything; only a text is shown. -/
  | panicked (reason : Option String)
  deriving DecidableEq, Repr

def WorkFault.message : WorkFault → String
  | .store fault => fault.message
  | .failed reason => reason
  | .panicked (some reason) => s!"work step panicked: {reason}"
  | .panicked none => "work step panicked: non-string panic payload"

/-- How a cycle tells whether its goal is reached: never, by an outside answer, or by a check of a
process variable. -/
inductive Completion where
  | never
  | external
  | reading (check : Check)

/-- What a step does: something outside that answers, a write, or an addition. -/
inductive Step where
  | external
  | set (pv : String) (value : Value)
  | increment (pv : String) (amount : Value)

/-- The work of an action, with the pause between steps and the time limit of a cycle in
milliseconds. -/
structure Work where
  completion : Completion
  step : Step
  loopPeriod : Nat := 100
  timeout : Option Nat := some 10000

inductive Exit where
  | completed
  | timedOut
  | stepFailed
  | stopped
  deriving DecidableEq, Repr

def Exit.name : Exit → String
  | .completed => "Completed"
  | .timedOut => "TimedOut"
  | .stepFailed => "StepFailed"
  | .stopped => "Stopped"

/-- What a cycle waits for: a completion check, a step, or the check that has the last word. -/
inductive Point where
  | completion
  | step
  | lastCheck (exit : Exit)
  deriving DecidableEq, Repr

/-- The last check looks like any other. -/
def Point.name : Point → String
  | .completion | .lastCheck _ => "completion"
  | .step => "step"

/-- The answer of a check, the answer of a step, or the failure of either. -/
inductive Answer where
  | complete (holds : Bool)
  | stepped (status : Status)
  | failed (fault : WorkFault)
  deriving DecidableEq, Repr

/-- What a cycle does to the world on its way: it writes its status and leaves trace events. -/
inductive Effect where
  | write (status : Status)
  | trace (tag : String) (status : Status) (detail : Option String)
  deriving DecidableEq, Repr

/-- A cycle in progress, bound to the attempt that was the latest at its beginning. -/
structure Cycle where
  attempt : UInt64
  point : Point
  /-- Whether the worker was told to stop. -/
  stopped : Bool := false
  /-- Milliseconds since the beginning. -/
  elapsed : Nat := 0
  deriving DecidableEq, Repr

/-- Where an answer leads. -/
inductive Progress where
  | waiting (cycle : Cycle)
  | ended (status : Status) (exit : Exit)
  deriving DecidableEq, Repr

namespace Work

/-- Whether completion is looked at at all. -/
def isChecked (work : Work) : Bool :=
  match work.completion with
  | .never => false
  | .external | .reading _ => true

end Work

namespace Cycle

def toldToStop (cycle : Cycle) : Cycle := { cycle with stopped := true }

def after (cycle : Cycle) (milliseconds : Nat) : Cycle :=
  { cycle with elapsed := cycle.elapsed + milliseconds }

def timedOut (cycle : Cycle) (work : Work) : Bool :=
  match work.timeout with
  | none => false
  | some limit => limit ≤ cycle.elapsed

def finish (status : Status) (exit : Exit) : Progress × List Effect :=
  (.ended status exit, [.write status, .trace "cycle.end" status (some exit.name)])

/-- Leaves the loop. Work that is never complete fails without a look. -/
def leave (cycle : Cycle) (work : Work) (exit : Exit) : Progress × List Effect :=
  if work.isChecked then (.waiting { cycle with point := .lastCheck exit }, [])
  else finish .failure exit

/-- After a check that did not find the goal reached. -/
def afterCheck (cycle : Cycle) (work : Work) : Progress × List Effect :=
  if cycle.timedOut work then cycle.leave work .timedOut
  else (.waiting { cycle with point := .step }, [])

/-- The head of the loop. -/
def loop (cycle : Cycle) (work : Work) : Progress × List Effect :=
  if cycle.stopped then cycle.leave work .stopped
  else if work.isChecked then (.waiting { cycle with point := .completion }, [])
  else cycle.afterCheck work

/-- A worker that looked up `attempt` enters a new cycle for it and carries it to its first point.
It may have been told to stop before. -/
def enter (work : Work) (attempt : UInt64) (stopped : Bool) : Progress × List Effect :=
  let (progress, effects) := loop { attempt, point := .completion, stopped } work
  (progress, .write .running :: .trace "cycle.start" .running none :: effects)

/-- The cycle of a worker that is to go on. -/
def begin (work : Work) (attempt : UInt64) : Progress × List Effect := enter work attempt false

/-- Whether the answer is one that the cycle waits for. -/
def fits (cycle : Cycle) : Answer → Bool
  | .failed _ => true
  | .complete _ => cycle.point ≠ .step
  | .stepped _ => cycle.point = .step

/-- A failed check counts as one that found nothing. A failed step ends the loop. After any other
step the cycle pauses for the loop period. -/
def resume (cycle : Cycle) (work : Work) (answer : Answer) : Progress × List Effect :=
  match cycle.point, answer with
  | .completion, .complete true => cycle.leave work .completed
  | .completion, _ => cycle.afterCheck work
  | .step, .failed fault =>
      let (progress, effects) := cycle.leave work .stepFailed
      (progress,
        .trace "cycle.step_failed" .failure (some fault.message) :: .write .failure :: effects)
  | .step, .stepped status =>
      let (progress, effects) := (cycle.after work.loopPeriod).loop work
      (progress, .write status :: effects)
  | .step, .complete _ => (.waiting cycle, [])
  | .lastCheck exit, .complete holds => finish (.ofBool holds) exit
  | .lastCheck exit, _ => finish .failure exit

end Cycle

namespace Work

/-- The answer of a check of process variables. -/
def checkAnswer (work : Work) (store : Store) : Option Answer :=
  match work.completion with
  | .never => some (.complete false)
  | .external => none
  | .reading check =>
      match check.read store with
      | .ok holds => some (.complete holds)
      | .error fault => some (.failed (.store fault))

/-- What a step means to write after what it read, unless it has failed already. -/
abbrev Intent := Except WorkFault (Option (String × Value))

/-- What a step on process variables writes, if it can. -/
def written (work : Work) (store : Store) : Intent :=
  match work.step with
  | .external => .ok none
  | .set pv value => .ok (some (pv, value))
  | .increment pv amount =>
      match store.read pv with
      | .error fault => .error (.store fault)
      | .ok current =>
          match current.sum? amount with
          | some next => .ok (some (pv, next))
          | none => .error (.failed s!"cannot add {amount.shown} to {pv} = {current.shown}")

/-- What the store answers at a point, the store afterwards, and what was written. -/
structure Outcome where
  answer : Answer
  store : Store
  write : Option (String × Value) := none

/-- The end of a step, which writes what it means to write. -/
def Intent.carriedOut (intent : Intent) (store : Store) : Option Outcome :=
  match intent with
  | .error fault => some { answer := .failed fault, store }
  | .ok none => none
  | .ok (some (pv, value)) =>
      match store.write pv value with
      | .error fault => some { answer := .failed (.store fault), store }
      | .ok after => some { answer := .stepped .running, store := after, write := some (pv, value) }

/-- A step that nothing comes between. -/
def stepOutcome (work : Work) (store : Store) : Option Outcome :=
  (work.written store).carriedOut store

/-- Work on process variables answers for itself; outside work does not. -/
def outcome (work : Work) (point : Point) (store : Store) : Option Outcome :=
  match point with
  | .step => work.stepOutcome store
  | .completion | .lastCheck _ => (work.checkAnswer store).map fun answer => { answer, store }

end Work

end BehaviorTree
