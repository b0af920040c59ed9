import BehaviorTree.Node.LifeCycle
import BehaviorTree.Node.Lookup
import BehaviorTree.Node.Tick
import BehaviorTree.Report
import BehaviorTree.Ticker.Driver

/-!
A ticker owns a tree and ticks it from the root, keeps the number of ticks, the last status and a
snapshot of the last tick, and opens, flushes and closes a collector of trace events around them.
-/

namespace BehaviorTree

/-- What cannot be done to a tree. -/
inductive TreeFault where
  | worker (fault : WorkerFault)
  | nodeNotFound (name : String)
  | notAcknowledgeable (name : String)
  deriving DecidableEq, Repr

def TreeFault.message : TreeFault → String
  | .worker fault => fault.message
  | .nodeNotFound name => s!"no node named '{name}' in tree"
  | .notAcknowledgeable name => s!"node '{name}' does not accept acknowledgements"

/-- The nodes that a tick visited, and how the root resolved. -/
structure Snapshot where
  tick : Nat
  rootStatus : Status
  visited : List Visit
  deriving DecidableEq, Repr

structure Ticker where
  root : Node
  trace : Collector := {}
  tickCount : Nat := 0
  lastStatus : Status := .invalid
  lastSnapshot : Option Snapshot := none
  isSetUp : Bool := false

namespace Ticker

/-- A ticker after something was done to it, with the calls this took. -/
structure Prepared where
  ticker : Ticker
  calls : List Call := []
  fault : Option WorkerFault := none

/-- Sets up every node, once. The collector is open even if a node cannot be set up. -/
def setup (ticker : Ticker) : Prepared :=
  if ticker.isSetUp then { ticker }
  else
    let result := ticker.root.setup
    { ticker :=
        { ticker with
          root := result.node, trace := ticker.trace.opened, isSetUp := result.fault.isNone }
      calls := result.calls
      fault := result.fault }

/-- A performed tick. -/
structure Performed where
  ticker : Ticker
  snapshot : Snapshot
  calls : List Call

def tick (ticker : Ticker) (store : Store) : Performed :=
  let ticked := ticker.root.tick { tick := ticker.tickCount, store }
  let snapshot : Snapshot :=
    { tick := ticker.tickCount, rootStatus := ticked.node.status, visited := ticked.journal.visits }
  { ticker :=
      { ticker with
        root := ticked.node
        trace := ticker.trace.flush.2
        tickCount := ticker.tickCount + 1
        lastStatus := ticked.node.status
        lastSnapshot := some snapshot }
    snapshot
    calls := ticked.journal.calls }

def shutdown (ticker : Ticker) : Ticker × List Call :=
  let (root, calls) := ticker.root.shutdown
  ({ ticker with root, trace := ticker.trace.close.2, isSetUp := false }, calls)

/-- Ticks released by a driver one after another, and the last answer of the driver. -/
structure Run where
  ticker : Ticker
  driver : Driver
  performed : List Performed
  verdict : Verdict

/-- Ticks as long as the driver says that a tick is due, at most `limit` times. -/
def run (store : Store) (expires : Bool) : Nat → Ticker → Driver → Run
  | 0, ticker, driver => ⟨ticker, driver, [], .due⟩
  | limit + 1, ticker, driver =>
      match driver.waitNext expires with
      | (.due, waited) =>
          let performed := ticker.tick store
          let rest := run store expires limit performed.ticker waited.recordTick
          { rest with performed := performed :: rest.performed }
      | (verdict, waited) => ⟨ticker, waited, [], verdict⟩

/-- What a ticker did as a driver told it, and the last status of the root. -/
structure Driven where
  ticker : Ticker
  driver : Driver
  performed : List Performed := []
  result : Except WorkerFault Status

/-- Sets up if needed, and ticks unless that fails. -/
def drive (ticker : Ticker) (store : Store) (expires : Bool) (limit : Nat) (driver : Driver) :
    Driven :=
  let prepared := ticker.setup
  match prepared.fault with
  | some fault => { ticker := prepared.ticker, driver, result := .error fault }
  | none =>
      let run := prepared.ticker.run store expires limit driver
      { ticker := run.ticker, driver := run.driver, performed := run.performed,
        result := .ok run.ticker.lastStatus }

def report (ticker : Ticker) : Report := .of ticker.root

/-- Passes an acknowledgement on to the node of that name. Whether the identity is permitted is
the node's affair and no fault. -/
def acknowledge (ticker : Ticker) (name identity : String) : Except TreeFault Ticker :=
  match ticker.root.find? name with
  | none => .error (.nodeNotFound name)
  | some node =>
      match node.acknowledgement? with
      | none => .error (.notAcknowledgeable name)
      | some _ =>
          .ok
            { ticker with
              root := (ticker.root.modify? name (·.acknowledge identity)).getD ticker.root }

/-- By whom the node of that name was acknowledged, if it is an acknowledge node. -/
def acknowledgement? (ticker : Ticker) (name : String) : Option (Option String) :=
  (ticker.root.find? name).bind (·.acknowledgement?)

end Ticker

end BehaviorTree
