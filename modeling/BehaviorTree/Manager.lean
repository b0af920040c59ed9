import BehaviorTree.Config
import BehaviorTree.Event.Log
import BehaviorTree.Manager.Handling
import BehaviorTree.Manager.Summary

/-!
The manager of trees: it loads them from plans, drives, inspects and unloads them, and records
what happens in a log of events. Trees are known by the order in which they were loaded.
-/

namespace BehaviorTree

structure Manager where
  store : Store := {}
  timing : Timing := {}
  /-- Where events are recorded, if they are. -/
  eventsPath : Option String := none
  disk : Disk := {}
  now : Timestamp := {}
  /-- How many trees were ever loaded. -/
  loaded : Nat := 0
  /-- In the order in which they were loaded. -/
  trees : List LoadedTree := []
  /-- Actions of unloaded trees whose last cycles are not over. -/
  orphans : List (String × Action) := []

namespace Manager

def ofConfig (config : Config) (store : Store) (disk : Disk) : Manager :=
  { store, timing := config.timing, eventsPath := some config.eventsPath, disk }

def record (manager : Manager) (event : Event) : Manager :=
  match manager.eventsPath with
  | none => manager
  | some path =>
      { manager with disk := manager.disk.emit path { event with timestamp := manager.now } }

def recordAll (manager : Manager) (events : List Event) : Manager := events.foldl record manager

def tree? (manager : Manager) (id : TreeId) : Option LoadedTree :=
  manager.trees.find? (·.id = id)

def replace (manager : Manager) (tree : LoadedTree) : Manager :=
  { manager with
    trees := manager.trees.map fun other => if other.id = tree.id then tree else other }

/-- Handles a loaded tree, if it is there. -/
def handle {Answer : Type} (manager : Manager) (id : TreeId) (act : LoadedTree → Handled Answer) :
    Manager × Except ManagerFault Answer :=
  match manager.tree? id with
  | none => (manager, .error (.unknownTree id))
  | some tree =>
      let handled := act tree
      ((manager.replace handled.tree).recordAll handled.events, handled.answer)

/-- Loads a plan. The workers of its tree start, but it is not ticked. -/
def load (manager : Manager) (plan : TreePlan) : Manager × Except ManagerFault TreeId :=
  match plan.build manager.timing with
  | .error defect => (manager, .error (.defect defect))
  | .ok root =>
      let prepared := Ticker.setup { root }
      match prepared.fault with
      | some fault => (manager, .error (.tree (.worker fault)))
      | none =>
          let id := TreeId.number manager.loaded
          let loaded : Event :=
            { kind := "tree_loaded", tree := plan.label.name, message := "Tree loaded"
              metadata := .ofFields [("id", .text id.name)] }
          let tree : LoadedTree := { id, name := plan.label.name, ticker := prepared.ticker }
          let recorded := manager.record loaded
          ({ recorded with loaded := manager.loaded + 1, trees := recorded.trees ++ [tree] },
            .ok id)

/-- Loads what was read, if that is a plan. -/
def loadRead (manager : Manager) (read : Except PlanFault TreePlan) :
    Manager × Except ManagerFault TreeId :=
  match read with
  | .error fault => (manager, .error (.plan fault))
  | .ok plan => manager.load plan

def loadFile (manager : Manager) (path : String) : Manager × Except ManagerFault TreeId :=
  manager.loadRead (TreePlan.load manager.disk path)

/-- Does something to a loaded tree, if it is there, and records what that brings. -/
def affect (manager : Manager) (id : TreeId) (act : LoadedTree → LoadedTree × List Event) :
    Manager :=
  (manager.handle id fun tree =>
    let (after, events) := act tree
    ({ tree := after, events, answer := .ok () } : Handled Unit)).1

/-- Records something about a loaded tree. -/
def announce (manager : Manager) (id : TreeId) (about : LoadedTree → Option Event) : Manager :=
  manager.affect id fun tree => (tree, (about tree).toList)

/-- Goes on with the drive of a tree. -/
def advance (manager : Manager) (id : TreeId) : Manager :=
  manager.affect id (·.advance manager.store)

/-- The period of the drive of a tree runs out. -/
def elapse (manager : Manager) (id : TreeId) : Manager :=
  manager.affect id (·.elapse manager.store)

/-- Begins to drive a tree that is not driven. -/
def start (manager : Manager) (id : TreeId) (policy : Policy) :
    Manager × Except ManagerFault Unit :=
  match manager.handle id (·.launch policy) with
  | (launched, .error fault) => (launched, .error fault)
  | (launched, .ok ()) =>
      ((launched.announce id fun tree => some (tree.startEvent policy)).advance id, .ok ())

def send (manager : Manager) (id : TreeId) (command : Command) :
    Manager × Except ManagerFault Unit :=
  match manager.handle id (·.command command) with
  | (told, .error fault) => (told, .error fault)
  | (told, .ok ()) => ((told.advance id).announce id (·.commandEvent? command), .ok ())

def pause (manager : Manager) (id : TreeId) : Manager × Except ManagerFault Unit :=
  manager.send id .pause

def resume (manager : Manager) (id : TreeId) : Manager × Except ManagerFault Unit :=
  manager.send id .resume

/-- Releases one tick of a paused or interactive tree. -/
def step (manager : Manager) (id : TreeId) : Manager × Except ManagerFault Unit :=
  manager.send id .step

def tickOnce (manager : Manager) (id : TreeId) : Manager × Except ManagerFault Status :=
  manager.handle id (·.tickOnce manager.store)

/-- Stops driving a tree; the answer is its last root status. -/
def stop (manager : Manager) (id : TreeId) : Manager × Except ManagerFault Status :=
  match manager.handle id (·.dismiss) with
  | (told, .error fault) => (told, .error fault)
  | (told, .ok ()) =>
      let (released, answer) := (told.advance id).handle id (·.release)
      (released.announce id fun tree => some tree.stopEvent, answer)

/-- Lets go of a drive that came to its end by itself; the answer is the last root status. -/
def wait (manager : Manager) (id : TreeId) : Manager × Except ManagerFault Status :=
  manager.handle id (·.release)

/-- Shuts the workers of a tree down and forgets it. -/
def forget (manager : Manager) (id : TreeId) : Manager × Except ManagerFault Unit :=
  match manager.tree? id with
  | none => (manager, .error (.unknownTree id))
  | some tree =>
      let (ticker, _) := tree.ticker.shutdown
      let unfinished := ticker.root.actions.filter fun (_, action) => !action.detached.isEmpty
      let remaining : Manager :=
        { manager with
          trees := manager.trees.filter (·.id ≠ id), orphans := manager.orphans ++ unfinished }
      (remaining.record tree.unloadEvent, .ok ())

/-- Stops driving a tree, shuts its workers down and forgets it. -/
def unload (manager : Manager) (id : TreeId) : Manager × Except ManagerFault Unit :=
  ((manager.handle id (·.dismiss)).1.advance id).forget id

def acknowledge (manager : Manager) (id : TreeId) (node identity : String) :
    Manager × Except ManagerFault Unit :=
  manager.handle id (·.acknowledge node identity)

def report (manager : Manager) (id : TreeId) : Except ManagerFault Report :=
  match manager.tree? id with
  | none => .error (.unknownTree id)
  | some tree => .ok tree.ticker.report

def lastSnapshot (manager : Manager) (id : TreeId) : Except ManagerFault (Option Snapshot) :=
  match manager.tree? id with
  | none => .error (.unknownTree id)
  | some tree => .ok tree.ticker.lastSnapshot

def list (manager : Manager) : List Summary := manager.trees.map (·.summary)

def recentEvents (manager : Manager) (limit : Nat) : List Event :=
  match manager.eventsPath with
  | none => []
  | some path => manager.disk.recentEvents path limit

/-! Workers between commands. -/

/-- Begins the cycles of idle workers whose gates are set. -/
def wake (manager : Manager) : Manager :=
  { manager with trees := manager.trees.map (·.wake) }

/-- Lets the cycles of one action of one tree run to their end. -/
def settleAction (manager : Manager) (id : TreeId) (name : String) : Manager :=
  match manager.tree? id with
  | none => manager
  | some tree =>
      let settled := tree.ticker.root.modifyAction? name fun action =>
        let result := action.settle name manager.store
        (result.action, result.store)
      match settled with
      | none => manager
      | some (root, store) =>
          { manager.replace { tree with ticker := { tree.ticker with root } } with store }

/-- Lets the oldest orphan of that name come to its end. -/
def settleOrphan (manager : Manager) (name : String) : Manager :=
  match manager.orphans.find? (·.1 = name) with
  | none => manager
  | some (_, action) =>
      { manager with
        store := (action.settle name manager.store).store
        orphans := manager.orphans.eraseP (·.1 = name) }

/-- The actions with their trees; orphans have none. -/
def actions (manager : Manager) : List (String × Option TreeId) :=
  manager.orphans.map (fun orphan => (orphan.1, none)) ++
    manager.trees.flatMap fun tree =>
      tree.ticker.root.actions.map fun action => (action.1, some tree.id)

/-- Lets the cycles of all actions run to their end, one action after another in the order of
their names. -/
def settle (manager : Manager) : Manager :=
  let ordered := manager.actions.mergeSort fun first second => !(decide (second.1 < first.1))
  ordered.foldl
    (fun current (name, id) =>
      match id with
      | some id => current.settleAction id name
      | none => current.settleOrphan name)
    manager

def insert (manager : Manager) (pv : String) (value : Value) : Manager :=
  { manager with store := manager.store.insert pv value }

def setUnreachable (manager : Manager) (pv : String) (silent : Bool) : Manager :=
  { manager with store := manager.store.setUnreachable pv silent }

/-- The last command to a manager unloads every tree. -/
def close (manager : Manager) : Manager :=
  (manager.trees.map (·.id)).foldl (fun current id => (current.unload id).1) manager

end Manager

end BehaviorTree
