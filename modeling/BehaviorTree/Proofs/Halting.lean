import BehaviorTree.Node.Halt
import BehaviorTree.Proofs.Position

/-!
What halting leaves behind. Halting reaches every position of a subtree, a second halt changes
nothing, and the row of children that are halted only if they are running is a map over them.
-/

namespace BehaviorTree.Node

/-- A node that is halted if it is running, and left alone otherwise. -/
def stilled (node : Node) : Node := if node.isRunning then node.halt.node else node

@[simp] theorem is_running_iff (node : Node) : node.isRunning = true ↔ node.status = .running := by
  simp [isRunning]

theorem halt_all_eq_map (children : List Node) : haltAll children = children.map halt := by
  induction children with
  | nil => rfl
  | cons child rest induction => rw [haltAll, induction, List.map_cons]

@[simp] theorem halt_status (node : Node) : node.halt.node.status = .invalid := by
  cases node with
  | leaf state content => rfl
  | branch state rule children =>
      rw [halt]
      split <;> rfl

/-- The memory of a rule after its branch was halted. -/
def haltedRule (status : Status) (rule : Rule) : Rule :=
  if status = .running then rule.terminate else rule

theorem halt_branch (state : NodeState) (rule : Rule) (children : List Node) :
    (halt (.branch state rule children)).node =
      .branch { state with status := .invalid } (haltedRule state.status rule)
        (children.map (·.halt.node)) := by
  rw [halt, haltedRule]
  simp only [halt_all_eq_map, List.map_map]
  split <;> rfl

@[simp] theorem halt_children (node : Node) :
    node.halt.node.children = node.children.map (·.halt.node) := by
  cases node with
  | leaf state content => rfl
  | branch state rule children =>
      rw [halt_branch]
      rfl

theorem halt_was_running (node : Node) : node.halt.wasRunning = node.isRunning := by
  cases node with
  | leaf state content => rfl
  | branch state rule children =>
      rw [halt, isRunning, status]
      dsimp only [Node.state]
      split
      next running => simp [running]
      next resting => simp [resting]

/-- Halting a tree halts the node at every position. -/
theorem at_halt (node : Node) (path : Path) :
    node.halt.node.at? path = (node.at? path).map (·.halt.node) := by
  induction path generalizing node with
  | nil => rfl
  | cons index path induction =>
      rw [at_cons, at_cons, halt_children, List.getElem?_map]
      cases node.children[index]? with
      | none => rfl
      | some child => exact induction child

theorem halt_halt (node : Node) : node.halt.node.halt.node = node.halt.node := by
  induction node with
  | leaf state content => rfl
  | branch state rule children induction =>
      rw [halt_branch, halt_branch, List.map_map]
      congr 1
      apply List.map_congr_left
      exact induction

/-- Nothing runs at any position of a tree that was halted. -/
theorem halted_not_running {node sub : Node} {path : Path}
    (found : node.halt.node.at? path = some sub) : sub.status ≠ .running := by
  rw [at_halt, Option.map_eq_some_iff] at found
  obtain ⟨before, _, same⟩ := found
  rw [← same, halt_status]
  decide

theorem stilled_not_running (node : Node) : node.stilled.status ≠ .running := by
  unfold stilled
  split
  · rw [halt_status]
    decide
  next resting => simpa using resting

theorem stilled_of_running {node : Node} (running : node.status = .running) :
    node.stilled = node.halt.node := by
  simp [stilled, running]

theorem stilled_of_resting {node : Node} (resting : node.status ≠ .running) :
    node.stilled = node := by
  simp [stilled, resting]

theorem halt_running_eq_map (children : List Node) :
    (haltRunning children).1 = children.map stilled := by
  induction children with
  | nil => rfl
  | cons child rest induction =>
      rw [List.map_cons, ← induction, stilled, haltRunning]
      cases child.isRunning <;> rfl

end BehaviorTree.Node
