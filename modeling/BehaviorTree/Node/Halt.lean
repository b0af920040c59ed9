import BehaviorTree.Node

/-!
Abandoning nodes. Halting a subtree ends the cycles of its running nodes and leaves every status
in it invalid. Scripted leaves report what is done to them.
-/

namespace BehaviorTree

/-- What was done to a scripted leaf. -/
inductive Call where
  | setup (node : String)
  | initialise (node : String)
  | update (node : String) (tick : Nat)
  | terminate (node : String) (status : Status)
  | shutdown (node : String)
  deriving DecidableEq, Repr

namespace Leaf

def calls (leaf : Leaf) (call : Call) : List Call :=
  match leaf with
  | .scripted _ _ _ => [call]
  | _ => []

end Leaf

namespace Node

/-- A node after it was halted, the calls that this took, and whether it was running. -/
structure Halted where
  node : Node
  calls : List Call
  wasRunning : Bool

/-- The calls in the order of two rounds: first the running children end, then the others. -/
def Halted.inRounds (halted : List Halted) : List Call :=
  (halted.filter (·.wasRunning)).flatMap (·.calls) ++
    (halted.filter (!·.wasRunning)).flatMap (·.calls)

def Halted.inOrder (halted : List Halted) : List Call := halted.flatMap (·.calls)

mutual

def halt : Node → Halted
  | .leaf state content =>
      { node := .leaf { state with status := .invalid } content
        calls :=
          if state.status = .running then content.calls (.terminate state.name .invalid) else []
        wasRunning := state.status == .running }
  | .branch state rule children =>
      let halted := haltAll children
      if state.status = .running then
        { node := .branch { state with status := .invalid } rule.terminate (halted.map (·.node))
          calls := Halted.inRounds halted
          wasRunning := true }
      else
        { node := .branch { state with status := .invalid } rule (halted.map (·.node))
          calls := Halted.inOrder halted
          wasRunning := false }

def haltAll : List Node → List Halted
  | [] => []
  | child :: rest => halt child :: haltAll rest

end

/-- Halts the running ones among some children and leaves the others alone. -/
def haltRunning : List Node → List Node × List Call
  | [] => ([], [])
  | child :: rest =>
      let (others, calls) := haltRunning rest
      if child.isRunning then
        let halted := child.halt
        (halted.node :: others, halted.calls ++ calls)
      else (child :: others, calls)

end Node

end BehaviorTree
