import BehaviorTree.Cycle
import BehaviorTree.Worker

/-!
Actions. A tick opens attempts and reads the cell; the worker, once idle, consumes the gate and
runs one cycle for the attempt that is then the latest. Stopping the worker during a cycle
detaches that cycle, which goes on by itself but begins no other.
-/

namespace BehaviorTree

/-- What the worker of an action is about. -/
inductive Engagement where
  | off
  | idle
  | busy (cycle : Cycle)
  deriving DecidableEq, Repr

structure Action where
  work : Work
  cell : Cell := {}
  gate : Gate := {}
  isSetUp : Bool := false
  engagement : Engagement := .off
  /-- Cycles that outlived the stop of their worker. -/
  detached : List Cycle := []

/-- What came of handing an answer to an action. -/
inductive Feeding where
  | fed (point : Point)
  | mismatch (point : Point)
  | idle
  deriving DecidableEq, Repr

namespace Action

def isLive (action : Action) : Bool :=
  match action.engagement with
  | .off => false
  | .idle | .busy _ => true

def perform (name : String) (attempt : UInt64) (action : Action) :
    List Effect → Action × List TraceEvent
  | [] => (action, [])
  | .write status :: rest =>
      perform name attempt { action with cell := action.cell.setIfCurrent attempt status } rest
  | .trace tag status detail :: rest =>
      let (after, events) := perform name attempt action rest
      (after, { node := name, tag, status := some status, detail } :: events)

/-- A cycle that was carried to its next point or its end, bound to an attempt. -/
structure Advance where
  attempt : UInt64
  progress : Progress
  action : Action
  events : List TraceEvent

def advance (name : String) (action : Action) (attempt : UInt64)
    (result : Progress × List Effect) : Advance :=
  let (progress, effects) := result
  let (after, events) := perform name attempt action effects
  { attempt, progress, action := after, events }

/-- The worker holds on to its cycle until that ends. -/
def Advance.held (advance : Advance) : Advance :=
  { advance with
    action.engagement := match advance.progress with
      | .waiting cycle => .busy cycle
      | .ended _ _ => .idle }

def Advance.detached (others : List Cycle) (advance : Advance) : Advance :=
  { advance with
    action.detached := match advance.progress with
      | .waiting cycle => cycle :: others
      | .ended _ _ => others }

/-- An idle worker whose gate is set takes the signal. -/
def takeSignal? (action : Action) : Option Action :=
  match action.engagement, action.gate.consume with
  | .idle, (true, gate) => some { action with gate }
  | _, _ => none

/-- A worker enters a cycle for the attempt that it looked up. -/
def enterHeld (name : String) (action : Action) (attempt : UInt64) : Advance :=
  (advance name action attempt (Cycle.begin action.work attempt)).held

/-- A worker that was told to stop after it had passed the last test of its flag enters a cycle too,
which nobody holds on to. -/
def enterDetached (name : String) (action : Action) (attempt : UInt64) : Advance :=
  (advance name action attempt (Cycle.enter action.work attempt true)).detached action.detached

/-- An idle worker takes the signal, looks up the latest attempt and enters a cycle for it, with
nothing in between. -/
def begin? (name : String) (action : Action) : Option Advance :=
  action.takeSignal?.map fun taken => taken.enterHeld name taken.cell.attempt

/-- Hands an answer to the cycle of the worker. -/
def advanceHeld? (name : String) (action : Action) (answer : Answer) : Option Advance :=
  match action.engagement with
  | .busy cycle => some (advance name action cycle.attempt (cycle.resume action.work answer)).held
  | .off | .idle => none

/-- Hands an answer to the oldest detached cycle. -/
def advanceDetached? (name : String) (action : Action) (answer : Answer) : Option Advance :=
  match action.detached with
  | cycle :: others =>
      some ((advance name action cycle.attempt (cycle.resume action.work answer)).detached others)
  | [] => none

def wake (name : String) (action : Action) : Action × List TraceEvent :=
  match action.begin? name with
  | some begun => (begun.action, begun.events)
  | none => (action, [])

/-- The cycle that an answer would reach. -/
def current? (action : Action) : Option Cycle :=
  match action.engagement, action.detached with
  | .busy cycle, _ => some cycle
  | _, cycle :: _ => some cycle
  | _, [] => none

/-- When the cycle of the worker ends, a gate that was set meanwhile starts the next one. -/
def resume (name : String) (action : Action) (answer : Answer) : Action × List TraceEvent :=
  match action.advanceHeld? name answer with
  | some held =>
      let (woken, begun) := held.action.wake name
      (woken, held.events ++ begun)
  | none =>
      match action.advanceDetached? name answer with
      | some detached => (detached.action, detached.events)
      | none => (action, [])

/-- Resumes the cycle in progress if the answer is one it waits for. -/
def feed (name : String) (action : Action) (answer : Answer) :
    Feeding × Action × List TraceEvent :=
  match action.current? with
  | none => (.idle, action, [])
  | some cycle =>
      if cycle.fits answer then (.fed cycle.point, resume name action answer)
      else (.mismatch cycle.point, action, [])

/-- Lets the cycle in progress go on by what the store answers. -/
structure Settling where
  action : Action
  store : Store
  events : List TraceEvent := []
  writes : List (String × Value) := []

def settleWithin (name : String) : Nat → Settling → Settling
  | 0, state => state
  | fuel + 1, state =>
      match state.action.current? with
      | none => state
      | some cycle =>
          match state.action.work.outcome cycle.point state.store with
          | none => state
          | some outcome =>
              let (after, events) := resume name state.action outcome.answer
              settleWithin name fuel
                { action := after
                  store := outcome.store
                  events := state.events ++ events
                  writes := state.writes ++ outcome.write.toList }

/-- No cycle asks more often than this: twice for each period in its time limit, and a few times
around. -/
def askings (work : Work) : Nat :=
  match work.timeout with
  | none => 0
  | some limit => 2 * (limit / max 1 work.loopPeriod) + 6

/-- Runs every cycle of the action, and one more if the gate is set, to its end. -/
def settle (name : String) (action : Action) (store : Store) : Settling :=
  settleWithin name (askings action.work * (action.detached.length + 2)) { action, store }

def after (action : Action) (milliseconds : Nat) : Action :=
  { action with
    engagement := match action.engagement with
      | .busy cycle => .busy (cycle.after milliseconds)
      | other => other
    detached := action.detached.map (·.after milliseconds) }

/-! What the tick and the life cycle of the node do. -/

def openAttempt (action : Action) : Action := { action with cell := action.cell.beginAttempt }

def signal (action : Action) : Action := { action with gate := action.gate.set }

/-- Opens a new attempt and signals the worker. -/
def initialise (action : Action) : Action := action.openAttempt.signal

/-- Begins to work: the worker becomes idle. -/
def start (name : String) (action : Action) : Except WorkerFault Action :=
  match action.engagement with
  | .off => .ok { action with engagement := .idle }
  | .idle | .busy _ => .error (.alreadyStarted name)

/-- Stops working. A cycle in progress is told to stop and let go. -/
def stop (name : String) (action : Action) : Except WorkerFault Action :=
  match action.engagement with
  | .off => .error (.notRunning name)
  | .idle => .ok { action with engagement := .off }
  | .busy cycle =>
      .ok { action with engagement := .off, detached := action.detached ++ [cycle.toldToStop] }

def setup (name : String) (action : Action) : Except WorkerFault Action :=
  if action.isSetUp then .ok action
  else (action.start name).map fun started => { started with isSetUp := true }

def shutdown (name : String) (action : Action) : Action :=
  if action.isSetUp then
    match action.stop name with
    | .ok stopped => { stopped with isSetUp := false }
    | .error _ => { action with isSetUp := false }
  else action

end Action

end BehaviorTree
