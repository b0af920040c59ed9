import BehaviorTree.Datum.Shape
import BehaviorTree.Node

/-!
The choices of the domain as data: statuses, comparators, kinds of nodes and policies are written
by name.
-/

namespace BehaviorTree

def Status.ofDatum? (datum : Datum) : Option Status :=
  (datum.choice? .strict (all.map name)).bind ofName?

def Status.toDatum (status : Status) : Datum := .text status.name

def Comparator.ofDatum? (manner : Manner) (datum : Datum) : Option Comparator :=
  (datum.choice? manner (all.map name)).bind ofName?

def Comparator.toDatum (comparator : Comparator) : Datum := .text comparator.name

def Kind.ofDatum? (datum : Datum) : Option Kind :=
  (datum.choice? .strict (all.map name)).bind ofName?

def Kind.toDatum (kind : Kind) : Datum := .text kind.name

def ParallelPolicy.ofDatum? (manner : Manner) (datum : Datum) : Option ParallelPolicy :=
  (datum.choice? manner (all.map name)).bind ofName?

def ParallelPolicy.toDatum (policy : ParallelPolicy) : Datum := .text policy.name

end BehaviorTree
