import BehaviorTree.Plan.Defect

/-!
Building the tree of a plan. Every node of the plan becomes a node of the tree, idle and with
nothing in its memory; no process variable is touched.
-/

namespace BehaviorTree

/-- The timing of workers whose plan leaves it open, in milliseconds. -/
structure Timing where
  loopPeriod : Nat := 100
  timeout : Nat := 10000
  stopGrace : Nat := 200
  gatePoll : Nat := 50
  deriving DecidableEq, Repr

def Label.state (label : Label) : NodeState :=
  { name := label.name, description := label.description }

namespace ConditionPlan

def node (plan : ConditionPlan) : Node :=
  .leaf plan.label.state (.condition (.reading plan.check))

end ConditionPlan

namespace ActionPlan

/-- The check of the plan itself comes first, then the goal that the action serves, and then the
value that it sets. -/
def completion (plan : ActionPlan) (goal : Option Check) : Completion :=
  match (plan.termination.map (·.check)).or goal, plan.task with
  | some check, _ => .reading check
  | none, .set value => .reading { pv := plan.pv, operator := .eq, value }
  | none, .increment _ => .never

def step (plan : ActionPlan) : Step :=
  match plan.task with
  | .set value => .set plan.pv value
  | .increment amount => .increment plan.pv amount

def work (plan : ActionPlan) (timing : Timing) (goal : Option Check) : Work where
  completion := plan.completion goal
  step := plan.step
  loopPeriod := plan.loopPeriod.getD timing.loopPeriod
  timeout := some (plan.timeout.getD timing.timeout)

def node (plan : ActionPlan) (timing : Timing) (goal : Option Check) : Node :=
  .action plan.label.state (plan.work timing goal)

end ActionPlan

namespace NodePlan

mutual

def node (timing : Timing) : NodePlan → Node
  | .condition plan => plan.node
  | .acknowledge label permitted => .leaf label.state (.acknowledge permitted none)
  | .action plan => plan.node timing none
  | .row label flow memory children => .row label.state flow memory (nodes timing children)
  | .parallel label policy synchronise children =>
      .parallel label.state policy synchronise (nodes timing children)
  | .checkAndDo label check act =>
      .checkAndDo label.state check.node (act.node timing (some check.check))

def nodes (timing : Timing) : List NodePlan → List Node
  | [] => []
  | child :: rest => node timing child :: nodes timing rest

end

end NodePlan

namespace TreePlan

/-- The root of the tree, unless the plan is defective. -/
def build (plan : TreePlan) (timing : Timing) : Except Defect Node :=
  plan.inspect.map fun _ => plan.root.node timing

end TreePlan

end BehaviorTree
