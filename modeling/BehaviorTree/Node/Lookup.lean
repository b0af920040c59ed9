import BehaviorTree.Node

/-!
Looking nodes up by name. Names may repeat: the first node in pre-order is meant.
-/

namespace BehaviorTree.Node

mutual

def find? (name : String) : Node → Option Node
  | .leaf state content => if state.name = name then some (.leaf state content) else none
  | .branch state rule children =>
      if state.name = name then some (.branch state rule children) else findIn? name children

def findIn? (name : String) : List Node → Option Node
  | [] => none
  | child :: rest => (find? name child).or (findIn? name rest)

end

mutual

/-- Changes the first node of that name; `none` if there is none. -/
def modify? (name : String) (change : Node → Node) : Node → Option Node
  | .leaf state content => if state.name = name then some (change (.leaf state content)) else none
  | .branch state rule children =>
      if state.name = name then some (change (.branch state rule children))
      else (modifyIn? name change children).map (.branch state rule ·)

def modifyIn? (name : String) (change : Node → Node) : List Node → Option (List Node)
  | [] => none
  | child :: rest =>
      match modify? name change child with
      | some changed => some (changed :: rest)
      | none => (modifyIn? name change rest).map (child :: ·)

end

mutual

/-- Changes every leaf. -/
def mapLeaves (change : NodeState → Leaf → Leaf) : Node → Node
  | .leaf state content => .leaf state (change state content)
  | .branch state rule children => .branch state rule (mapLeavesIn change children)

def mapLeavesIn (change : NodeState → Leaf → Leaf) : List Node → List Node
  | [] => []
  | child :: rest => mapLeaves change child :: mapLeavesIn change rest

end

mutual

/-- All leaves in order, each with its state. -/
def leaves : Node → List (NodeState × Leaf)
  | .leaf state content => [(state, content)]
  | .branch _ _ children => leavesIn children

def leavesIn : List Node → List (NodeState × Leaf)
  | [] => []
  | child :: rest => leaves child ++ leavesIn rest

end

/-- The actions of a tree in order, by name. -/
def actions (node : Node) : List (String × Action) :=
  node.leaves.filterMap fun (state, content) =>
    match content with
    | .action action => some (state.name, action)
    | _ => none

mutual

/-- Runs through all actions in order, changing each and gathering what that gives. -/
def mapActions {Result : Type} (change : String → Action → Action × List Result) :
    Node → Node × List Result
  | .leaf state (.action action) =>
      let (after, results) := change state.name action
      (.leaf state (.action after), results)
  | .leaf state content => (.leaf state content, [])
  | .branch state rule children =>
      let (after, results) := mapActionsIn change children
      (.branch state rule after, results)

def mapActionsIn {Result : Type} (change : String → Action → Action × List Result) :
    List Node → List Node × List Result
  | [] => ([], [])
  | child :: rest =>
      let (first, results) := mapActions change child
      let (others, more) := mapActionsIn change rest
      (first :: others, results ++ more)

end

mutual

/-- Changes the first action of that name; `none` if there is none. -/
def modifyAction? {Result : Type} (name : String) (change : Action → Action × Result) :
    Node → Option (Node × Result)
  | .leaf state (.action action) =>
      if state.name = name then
        let (after, result) := change action
        some (.leaf state (.action after), result)
      else none
  | .leaf _ _ => none
  | .branch state rule children =>
      (modifyActionIn? name change children).map fun (after, result) =>
        (.branch state rule after, result)

def modifyActionIn? {Result : Type} (name : String) (change : Action → Action × Result) :
    List Node → Option (List Node × Result)
  | [] => none
  | child :: rest =>
      match modifyAction? name change child with
      | some (changed, result) => some (changed :: rest, result)
      | none =>
          (modifyActionIn? name change rest).map fun (others, result) => (child :: others, result)

end

/-- Acknowledging by somebody who is not permitted changes nothing. -/
def acknowledge (identity : String) : Node → Node
  | .leaf state (.acknowledge permitted acknowledgedBy) =>
      if permitted.contains identity then
        .leaf { state with message := s!"Acknowledged by {identity}" }
          (.acknowledge permitted (some identity))
      else .leaf state (.acknowledge permitted acknowledgedBy)
  | other => other

/-- By whom an acknowledge node was acknowledged last, if it is one. -/
def acknowledgement? : Node → Option (Option String)
  | .leaf _ (.acknowledge _ acknowledgedBy) => some acknowledgedBy
  | _ => none

end BehaviorTree.Node
