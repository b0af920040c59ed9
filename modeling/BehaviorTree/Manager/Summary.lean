import BehaviorTree.Manager.Loaded

/-!
What can be seen of a loaded tree at a glance.
-/

namespace BehaviorTree

structure Summary where
  id : TreeId
  name : String
  isDriven : Bool
  paused : Bool
  ticks : Nat
  status : Status
  deriving DecidableEq, Repr

/-- A tree is driven as long as its drive is not over, and nothing else can be paused. -/
def LoadedTree.summary (tree : LoadedTree) : Summary :=
  { id := tree.id, name := tree.name, isDriven := tree.activeDrive?.isSome
    paused := (tree.activeDrive?.map (·.paused)).getD false
    ticks := tree.ticker.tickCount, status := tree.ticker.lastStatus }

def Summary.toDatum (summary : Summary) : Datum :=
  .ofFields
    [("id", .text summary.id.name), ("name", .text summary.name),
      ("driven", .bool summary.isDriven), ("paused", .bool summary.paused),
      ("ticks", .int summary.ticks), ("status", summary.status.toDatum)]

end BehaviorTree
