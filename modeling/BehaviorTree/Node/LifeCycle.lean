import BehaviorTree.Node.Halt

/-!
Setting a tree up and shutting it down. Both go through the tree in pre-order; setting up stops at
the first fault and leaves what was set up before it as it is.
-/

namespace BehaviorTree.Node

structure SetUp where
  node : Node
  calls : List Call := []
  fault : Option WorkerFault := none

structure SetUpAll where
  children : List Node
  calls : List Call := []
  fault : Option WorkerFault := none

def setupLeaf (state : NodeState) : Leaf → SetUp
  | .action action =>
      match action.setup state.name with
      | .ok started => { node := .leaf state (.action started) }
      | .error fault => { node := .leaf state (.action action), fault }
  | .scripted kind answers reason =>
      { node := .leaf state (.scripted kind answers reason)
        calls := [.setup state.name]
        fault := reason.map (.spawn state.name) }
  | other => { node := .leaf state other }

mutual

def setup : Node → SetUp
  | .leaf state content => setupLeaf state content
  | .branch state rule children =>
      let result := setupAll children
      { node := .branch state rule result.children, calls := result.calls, fault := result.fault }

def setupAll : List Node → SetUpAll
  | [] => { children := [] }
  | child :: rest =>
      let result := setup child
      match result.fault with
      | some fault => { children := result.node :: rest, calls := result.calls, fault }
      | none =>
          let others := setupAll rest
          { others with
            children := result.node :: others.children
            calls := result.calls ++ others.calls }

end

def shutdownLeaf (state : NodeState) : Leaf → Node × List Call
  | .action action => (.leaf state (.action (action.shutdown state.name)), [])
  | .scripted kind answers reason =>
      (.leaf state (.scripted kind answers reason), [.shutdown state.name])
  | other => (.leaf state other, [])

mutual

def shutdown : Node → Node × List Call
  | .leaf state content => shutdownLeaf state content
  | .branch state rule children =>
      let (after, calls) := shutdownAll children
      (.branch state rule after, calls)

def shutdownAll : List Node → List Node × List Call
  | [] => ([], [])
  | child :: rest =>
      let (first, calls) := shutdown child
      let (others, more) := shutdownAll rest
      (first :: others, calls ++ more)

end

end BehaviorTree.Node
