import BehaviorTree.Node

/-!
Reports: the statuses of a tree in the shape of the tree, for display.
-/

namespace BehaviorTree

inductive Report where
  | node (name : String) (kind : Kind) (status : Status) (message : String)
      (children : List Report)

namespace Report

def name : Report → String
  | .node name _ _ _ _ => name

def status : Report → Status
  | .node _ _ status _ _ => status

mutual

def of : Node → Report
  | .leaf state leaf => .node state.name leaf.kind state.status state.message []
  | .branch state rule children =>
      .node state.name rule.kind state.status state.message (ofAll children)

def ofAll : List Node → List Report
  | [] => []
  | child :: rest => of child :: ofAll rest

end

theorem of_all_eq_map (nodes : List Node) : ofAll nodes = nodes.map of := by
  induction nodes with
  | nil => rfl
  | cons node rest ih => rw [ofAll, ih, List.map_cons]

theorem of_name (node : Node) : (of node).name = node.name := by
  cases node <;> rfl

theorem of_status (node : Node) : (of node).status = node.status := by
  cases node <;> rfl

mutual

/-- The first report in pre-order with that name. -/
def find? (wanted : String) : Report → Option Report
  | .node name kind status message children =>
      if name = wanted then some (.node name kind status message children)
      else findIn? wanted children

def findIn? (wanted : String) : List Report → Option Report
  | [] => none
  | child :: rest => (find? wanted child).or (findIn? wanted rest)

end

/-- One line of the rendering: two blanks for each level, status, name, kind, and the message if
there is one. -/
def line (depth : Nat) (name : String) (kind : Kind) (status : Status) (message : String) :
    String :=
  String.ofList (List.replicate (2 * depth) ' ') ++
    s!"[{status.name}] {name} ({kind.name})" ++
    (if message.isEmpty then "" else s!" - {message}") ++ "\n"

mutual

def renderAt (depth : Nat) : Report → String
  | .node name kind status message children =>
      line depth name kind status message ++ renderAll (depth + 1) children

def renderAll (depth : Nat) : List Report → String
  | [] => ""
  | child :: rest => renderAt depth child ++ renderAll depth rest

end

def render (report : Report) : String := report.renderAt 0

end Report

end BehaviorTree
