import BehaviorTree.Ticker

/-!
A workbench for one tree: the ticker, the process variables and the workers are moved by hand, one
operation at a time. Between operations an idle worker whose gate is set begins its cycle; cycles
go on only when they are fed an answer or left to settle on the process variables.
-/

namespace BehaviorTree

def Call.description : Call → String
  | .setup node => s!"setup {node}"
  | .initialise node => s!"initialise {node}"
  | .update node tick => s!"update {node} @{tick}"
  | .terminate node status => s!"terminate {node} {status.name}"
  | .shutdown node => s!"shutdown {node}"

/-- What can be seen of one operation besides its answer. -/
structure Observation where
  log : List String := []
  events : List TraceEvent := []
  snapshots : List Snapshot := []
  /-- Successful writes of workers: the action, the variable and the value. -/
  writes : List (String × String × Value) := []

instance : Append Observation where
  append first second :=
    { log := first.log ++ second.log
      events := first.events ++ second.events
      snapshots := first.snapshots ++ second.snapshots
      writes := first.writes ++ second.writes }

structure Bench where
  ticker : Ticker
  store : Store := {}
  /-- How many handlers look at each snapshot: the first keeps it, the second writes a line. -/
  handlers : Nat := 1
  /-- The actions whose workers are listed. -/
  known : List String := []

namespace Bench

/-- A bench after an operation, its answer, and what was seen. -/
structure Done (Answer : Type) where
  bench : Bench
  answer : Answer
  seen : Observation := {}

def actions (bench : Bench) : List (String × Action) := bench.ticker.root.actions

def withRoot (bench : Bench) (root : Node) : Bench :=
  { bench with ticker := { bench.ticker with root } }

/-- An action shows itself once its worker was started or an attempt was opened. -/
def isKnown (action : Action) : Bool := action.isLive || action.cell.attempt != 0

def noticeActions (bench : Bench) : Bench :=
  let noticed := (bench.actions.filter fun (_, action) => isKnown action).map (·.1)
  { bench with known := bench.known ++ noticed.filter (!bench.known.contains ·) }

/-- Wakes every worker. -/
def wake (bench : Bench) : Bench × List TraceEvent :=
  let (root, events) := bench.ticker.root.mapActions fun name action => action.wake name
  ((bench.withRoot root).noticeActions, events)

/-- Ends an operation: workers wake, and what they trace is seen. -/
def conclude {Answer : Type} (bench : Bench) (answer : Answer) (seen : Observation := {}) :
    Done Answer :=
  let (after, events) := bench.wake
  ⟨after, answer, seen ++ { events }⟩

def logOf (calls : List Call) : List String := calls.map (·.description)

/-- What the handlers make of a tick. -/
def observe (bench : Bench) (performed : Ticker.Performed) : Observation :=
  { log := logOf performed.calls ++
      (if 2 ≤ bench.handlers then [s!"second handler {performed.snapshot.visited.length}"] else [])
    snapshots := if 1 ≤ bench.handlers then [performed.snapshot] else [] }

def hasDetached (bench : Bench) : Bool :=
  bench.actions.any fun (_, action) => !action.detached.isEmpty

/-- Setting up while a detached cycle is still in progress is refused. -/
inductive SetupAnswer where
  | ok
  | refused
  | fault (fault : WorkerFault)

def setup (bench : Bench) : Done SetupAnswer :=
  if bench.hasDetached then bench.conclude .refused
  else
    let prepared := bench.ticker.setup
    let answer := match prepared.fault with
      | none => .ok
      | some fault => .fault fault
    { bench with ticker := prepared.ticker }.conclude answer { log := logOf prepared.calls }

def tickOnce (bench : Bench) : Done Status :=
  let performed := bench.ticker.tick bench.store
  { bench with ticker := performed.ticker }.conclude performed.ticker.lastStatus
    (bench.observe performed)

/-- Ticks several times; the answer is the last status. -/
def tick (bench : Bench) : Nat → Done Status
  | 0 => bench.conclude bench.ticker.lastStatus
  | 1 => bench.tickOnce
  | count + 2 =>
      let first := bench.tickOnce
      let rest := first.bench.tick (count + 1)
      { rest with seen := first.seen ++ rest.seen }

/-- The answer of a run: the last status, the ticks counted and whether the driver is paused. -/
inductive RunAnswer where
  | ran (status : Status) (ticks : Nat) (paused : Bool)
  | refused
  | fault (fault : WorkerFault)

/-- More ticks than any driver with these commands releases. -/
def tickLimit (policy : Policy) (commands : List Command) : Nat :=
  commands.length + 1 + match policy with
    | .count ticks _ => ticks
    | .continuous _ | .interactive => 0

/-- Sets up if needed and ticks as the driver says. Absent commands leave the driver alone. -/
def run (bench : Bench) (policy : Policy) (commands : Option (List Command)) (expires : Bool) :
    Done RunAnswer :=
  if !bench.ticker.isSetUp && bench.hasDetached then bench.conclude .refused
  else
    let prepared := bench.ticker.setup
    let log := logOf prepared.calls
    match prepared.fault with
    | some fault => { bench with ticker := prepared.ticker }.conclude (.fault fault) { log }
    | none =>
        let driver : Driver :=
          { policy, channel := commands.map fun queue => { queue } }
        let result := prepared.ticker.run bench.store expires
          (tickLimit policy (commands.getD [])) driver
        let seen := result.performed.foldl
          (fun seen performed => seen ++ bench.observe performed) { log }
        { bench with ticker := result.ticker }.conclude
          (.ran result.ticker.lastStatus result.driver.ticks result.driver.paused) seen

def shutdown (bench : Bench) : Done Unit :=
  let (ticker, calls) := bench.ticker.shutdown
  { bench with ticker }.conclude () { log := logOf calls }

/-- Halts the node of that name, or the root. -/
def halt (bench : Bench) (name : Option String) : Done Unit :=
  let root := bench.ticker.root
  match name with
  | none =>
      let halted := root.halt
      (bench.withRoot halted.node).conclude () { log := logOf halted.calls }
  | some name =>
      let calls := ((root.find? name).map fun node => node.halt.calls).getD []
      (bench.withRoot ((root.modify? name fun node => node.halt.node).getD root)).conclude ()
        { log := logOf calls }

def acknowledge (bench : Bench) (name identity : String) : Done (Except TreeFault Unit) :=
  match bench.ticker.acknowledge name identity with
  | .ok ticker => { bench with ticker }.conclude (.ok ())
  | .error fault => bench.conclude (.error fault)

/-- Emits an event through the ticker's own collector. -/
def emit (bench : Bench) (event : TraceEvent) : Done Unit :=
  { bench with
    ticker := { bench.ticker with trace := bench.ticker.trace.emit event } }.conclude ()

/-- Gives every scripted leaf of that name new answers. -/
def rescript (bench : Bench) (name : String) (answers : List Status) : Done Unit :=
  (bench.withRoot <| bench.ticker.root.mapLeaves fun state leaf =>
    match leaf with
    | .scripted kind before fault =>
        .scripted kind (if state.name = name then answers else before) fault
    | other => other).conclude ()

/-- Sets the signal of every condition of that name. -/
def signal (bench : Bench) (name : String) (on : Bool) : Done Unit :=
  (bench.withRoot <| bench.ticker.root.mapLeaves fun state leaf =>
    match leaf with
    | .condition (.signal before) =>
        .condition (.signal (if state.name = name then on else before))
    | other => other).conclude ()

/-- Hands an answer to the cycle of the action of that name. -/
def feed (bench : Bench) (name : String) (answer : Answer) : Done Feeding :=
  let fed := bench.ticker.root.modifyAction? name fun action =>
    let (feeding, after, events) := action.feed name answer
    (after, feeding, events)
  match fed with
  | none => bench.conclude .idle
  | some (root, feeding, events) => (bench.withRoot root).conclude feeding { events }

/-- Lets the cycles of one action run to their end. -/
def settleAction (bench : Bench) (name : String) : Bench × Observation :=
  let settled := bench.ticker.root.modifyAction? name fun action =>
    let result := action.settle name bench.store
    (result.action, result)
  match settled with
  | none => (bench, {})
  | some (root, result) =>
      ({ bench.withRoot root with store := result.store },
        { events := result.events
          writes := result.writes.map fun (pv, value) => (name, pv, value) })

/-- The names of all actions, in the order of their characters. -/
def sortedActionNames (bench : Bench) : List String :=
  (bench.actions.map (·.1)).mergeSort fun first second => !(decide (second < first))

/-- Lets the action of that name settle, or all of them one after another. -/
def settle (bench : Bench) (name : Option String) : Done Unit :=
  let names := match name with
    | some name => [name]
    | none => bench.sortedActionNames
  let (after, seen) := names.foldl
    (fun (current, seen) name =>
      let (next, more) := settleAction current name
      (next, seen ++ more))
    (bench, ({} : Observation))
  after.conclude () seen

/-- Lets time pass for every cycle in progress. -/
def sleep (bench : Bench) (milliseconds : Nat) : Done Unit :=
  let aged := bench.ticker.root.mapActions fun _ action =>
    (action.after milliseconds, ([] : List Unit))
  (bench.withRoot aged.1).conclude ()

def insert (bench : Bench) (pv : String) (value : Value) : Done Unit :=
  { bench with store := bench.store.insert pv value }.conclude ()

def setUnreachable (bench : Bench) (pv : String) (silent : Bool) : Done Unit :=
  { bench with store := bench.store.setUnreachable pv silent }.conclude ()

end Bench

end BehaviorTree
