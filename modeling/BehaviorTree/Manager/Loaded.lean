import BehaviorTree.Event
import BehaviorTree.Ticker

/-!
A loaded tree, and the drive that ticks it by itself. A drive asks its driver again and again and
ticks the tree whenever a tick is due; it is over when the driver says so. Time passes for a drive
only when its period is said to have run out.
-/

namespace BehaviorTree

/-- What a tree is called after it was loaded: a number that no other tree gets, or a name for no
tree at all. -/
inductive TreeId where
  | none
  | number (count : Nat)
  deriving DecidableEq, Repr

def TreeId.name : TreeId → String
  | .none => "<none>"
  | .number count => "t" ++ toString count

/-- Where a drive stands: it asks its driver for the next tick, or is to perform one that is due, or
knows that there will be none and is about to end, or has no driver any more, or is over. -/
inductive Stage where
  | asking
  | ticking
  | leaving
  | gone
  | over
  deriving DecidableEq, Repr

def Verdict.stage : Verdict → Stage
  | .due => .ticking
  | .over => .leaving
  | .blocked => .asking

structure Drive where
  driver : Driver
  /-- Whether the last pause or resumption that was asked for was a pause. -/
  paused : Bool := false
  stage : Stage := .asking
  deriving Repr

namespace Drive

def isOver (drive : Drive) : Bool := drive.stage = .over

/-- Whether a drive counts as paused after a command. -/
def pausedAfter (paused : Bool) : Command → Bool
  | .pause => true
  | .resume => false
  | .step | .stop => paused

/-- Sends a command on its way to the driver. -/
def tell (drive : Drive) (command : Command) : Drive :=
  { drive with
    driver := drive.driver.send command, paused := pausedAfter drive.paused command }

/-- Asks the driver for the next tick. A period that is running out `expires`. -/
def ask (drive : Drive) (expires : Bool) : Drive :=
  match drive.stage with
  | .asking =>
      let (verdict, driver) := drive.driver.waitNext expires
      { drive with driver, stage := verdict.stage }
  | .ticking | .leaving | .gone | .over => drive

/-- Goes on to ask for another tick after one was performed. -/
def ticked (drive : Drive) : Drive :=
  { drive with driver := drive.driver.recordTick, stage := .asking }

/-- Goes on to the end once there will be no tick. -/
def finish (drive : Drive) : Drive :=
  match drive.stage with
  | .leaving => { drive with stage := .gone }
  | .gone => { drive with stage := .over }
  | .asking | .ticking | .over => drive

end Drive

structure LoadedTree where
  id : TreeId
  name : String
  ticker : Ticker
  drive : Option Drive := none
  /-- The root status that was recorded last. -/
  recorded : Status := .invalid

namespace LoadedTree

def ofStatusChange (tree : LoadedTree) (snapshot : Snapshot) : Event :=
  { kind := "root_status", tree := tree.name
    message := s!"{tree.recorded.name} -> {snapshot.rootStatus.name}"
    metadata := .ofFields
      [("from", .text tree.recorded.name), ("tick", .int snapshot.tick),
        ("to", .text snapshot.rootStatus.name)] }

/-- Begins the cycles of idle workers whose gates are set. -/
def wake (tree : LoadedTree) : LoadedTree :=
  let woken := tree.ticker.root.mapActions fun name action => action.wake name
  { tree with ticker := { tree.ticker with root := woken.1 } }

/-- Ticks once. A root status other than the one recorded last is an event. -/
def tick (tree : LoadedTree) (store : Store) : LoadedTree × List Event :=
  let performed := tree.ticker.tick store
  let events :=
    if performed.snapshot.rootStatus = tree.recorded then []
    else [tree.ofStatusChange performed.snapshot]
  ({ tree with ticker := performed.ticker, recorded := performed.snapshot.rootStatus }.wake,
    events)

/-- The drive, as long as it is not over. -/
def activeDrive? (tree : LoadedTree) : Option Drive := tree.drive.filter (!·.isOver)

def ask (tree : LoadedTree) (expires : Bool) : LoadedTree :=
  { tree with drive := tree.drive.map (·.ask expires) }

/-- Performs the tick that is due, if one is. -/
def perform (tree : LoadedTree) (store : Store) : LoadedTree × List Event :=
  match tree.drive with
  | some drive =>
      if drive.stage = .ticking then
        let (after, events) := tree.tick store
        ({ after with drive := some drive.ticked }, events)
      else (tree, [])
  | none => (tree, [])

def finish (tree : LoadedTree) : LoadedTree := { tree with drive := tree.drive.map (·.finish) }

/-- One round of the drive. It does nothing if no tick is due. -/
def round (tree : LoadedTree) (store : Store) (expires : Bool) : LoadedTree × List Event :=
  let (after, events) := (tree.ask expires).perform store
  (after.finish.finish, events)

def rounds (store : Store) : Nat → LoadedTree → LoadedTree × List Event
  | 0, tree => (tree, [])
  | count + 1, tree =>
      let (first, events) := tree.round store false
      let (after, more) := rounds store count first
      (after, events ++ more)

/-- Before a period runs out there is at most one tick for every command, and one that nothing
delays. -/
def tickLimit (tree : LoadedTree) : Nat :=
  match tree.drive.bind (·.driver.channel) with
  | some channel => channel.queue.length + 2
  | none => 2

/-- Ticks as often as the drive can before another command comes or the period runs out. -/
def advance (tree : LoadedTree) (store : Store) : LoadedTree × List Event :=
  rounds store tree.tickLimit tree

/-- Goes on after the period has run out. -/
def elapse (tree : LoadedTree) (store : Store) : LoadedTree × List Event :=
  let (ticked, events) := tree.round store true
  let (after, more) := ticked.advance store
  (after, events ++ more)

/-- Lets go of a drive that is over. -/
def reap (tree : LoadedTree) : LoadedTree :=
  match tree.drive with
  | some drive => if drive.isOver then { tree with drive := none } else tree
  | none => tree

def tell (tree : LoadedTree) (command : Command) : LoadedTree :=
  { tree with drive := tree.drive.map (·.tell command) }

end LoadedTree

end BehaviorTree
