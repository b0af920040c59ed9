import BehaviorTree.Manager.Loaded
import BehaviorTree.Plan.Defect
import BehaviorTree.Plan.File

/-!
Handling of a loaded tree: what its manager can do to it, what that brings into the log, and what
is answered.
-/

namespace BehaviorTree

/-- Why a command failed. -/
inductive ManagerFault where
  | unknownTree (id : TreeId)
  | alreadyRunning (id : TreeId)
  | notRunning (id : TreeId)
  | defect (defect : Defect)
  | tree (fault : TreeFault)
  | plan (fault : PlanFault)
  deriving DecidableEq, Repr

namespace ManagerFault

/-- What went wrong, the outermost circumstance first. -/
def circumstances : ManagerFault → List String
  | .unknownTree id => [s!"unknown tree {id.name}"]
  | .alreadyRunning id => [s!"tree {id.name} is already being driven"]
  | .notRunning id => [s!"tree {id.name} is not being driven"]
  | .defect found => [found.message]
  | .tree fault => [fault.message]
  | .plan fault => "failed to read tree" :: fault.circumstances

def message (fault : ManagerFault) : String := ": ".intercalate fault.circumstances

end ManagerFault

/-- A loaded tree after it was handled. -/
structure Handled (Answer : Type) where
  tree : LoadedTree
  events : List Event := []
  answer : Except ManagerFault Answer

namespace LoadedTree

/-- Gives a drive to a tree that has none. -/
def launch (policy : Policy) (found : LoadedTree) : Handled Unit :=
  let tree := found.reap
  match tree.drive with
  | some _ => { tree, answer := .error (.alreadyRunning tree.id) }
  | none => { tree := { tree with drive := some { driver := { policy } } }, answer := .ok () }

/-- Sends a command on its way to the drive, if there is one whose driver is there to take it. -/
def command (command : Command) (found : LoadedTree) : Handled Unit :=
  let tree := found.reap
  match tree.drive with
  | none => { tree, answer := .error (.notRunning tree.id) }
  | some drive =>
      if drive.stage = .gone then { tree, answer := .error (.notRunning tree.id) }
      else { tree := tree.tell command, answer := .ok () }

/-- Ticks a tree that is not driven. -/
def tickOnce (store : Store) (found : LoadedTree) : Handled Status :=
  let tree := found.reap
  match tree.drive with
  | some _ => { tree, answer := .error (.alreadyRunning tree.id) }
  | none =>
      let (after, events) := tree.tick store
      { tree := after, events, answer := .ok after.ticker.lastStatus }

/-- Tells the drive to stop, if there is one. -/
def dismiss (tree : LoadedTree) : Handled Unit :=
  match tree.drive with
  | none => { tree, answer := .error (.notRunning tree.id) }
  | some _ => { tree := tree.tell .stop, answer := .ok () }

/-- Lets go of the drive, however it stands; the answer is the last root status. -/
def release (tree : LoadedTree) : Handled Status :=
  match tree.drive with
  | none => { tree, answer := .error (.notRunning tree.id) }
  | some _ => { tree := { tree with drive := none }, answer := .ok tree.ticker.lastStatus }

/-- Passes an acknowledgement on. It is recorded whether or not the identity is permitted. -/
def acknowledge (node identity : String) (tree : LoadedTree) : Handled Unit :=
  match tree.ticker.acknowledge node identity with
  | .error fault => { tree, answer := .error (.tree fault) }
  | .ok ticker =>
      let accepted := ticker.acknowledgement? node == some (some identity)
      let acknowledged : Event :=
        { kind := "acknowledge", tree := tree.name, node := some node
          message := s!"Acknowledgement from {identity}"
          metadata := .ofFields [("accepted", .bool accepted), ("identity", .text identity)] }
      { tree := { tree with ticker }, events := [acknowledged], answer := .ok () }

/-! What is recorded about a tree besides the changes of its status. -/

def startEvent (policy : Policy) (tree : LoadedTree) : Event :=
  { kind := "tree_started", tree := tree.name, message := "Tree started"
    metadata := .ofFields [("policy", .text policy.description)] }

/-- The event that a command is, if it is one. -/
def commandEvent? (command : Command) (tree : LoadedTree) : Option Event :=
  match command with
  | .pause => some { kind := "tree_paused", tree := tree.name, message := "Tree paused" }
  | .resume => some { kind := "tree_resumed", tree := tree.name, message := "Tree resumed" }
  | .step | .stop => none

def stopEvent (tree : LoadedTree) : Event :=
  { kind := "tree_stopped", tree := tree.name, message := "Tree stopped"
    metadata := .ofFields [("status", .text tree.ticker.lastStatus.name)] }

def unloadEvent (tree : LoadedTree) : Event :=
  { kind := "tree_unloaded", tree := tree.name, message := "Tree unloaded" }

end LoadedTree

end BehaviorTree
