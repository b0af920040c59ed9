import BehaviorTree.Datum.Choice
import BehaviorTree.Ticker

/-!
Snapshots and policies as data. A visit is a pair of a name and a status.
-/

namespace BehaviorTree

def Visit.toDatum (visit : Visit) : Datum := .list [.text visit.name, visit.status.toDatum]

def Snapshot.toDatum (snapshot : Snapshot) : Datum :=
  .ofFields
    [("tick", .int snapshot.tick), ("status", snapshot.rootStatus.toDatum),
      ("visited", .list (snapshot.visited.map Visit.toDatum))]

/-- A policy has only the numbers that it looks at. -/
def Policy.toDatum : Policy → Datum
  | .continuous period => .ofFields [("mode", .text "continuous"), ("period_ms", .int period)]
  | .interactive => .ofFields [("mode", .text "interactive")]
  | .count ticks period =>
      .ofFields [("mode", .text "count"), ("ticks", .int ticks), ("period_ms", .int period)]

end BehaviorTree
