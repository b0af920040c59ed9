import BehaviorTree.Node

/-!
Plans of trees, as people write them. A plan names the nodes, the process variables they look at
and what actions do to them, and leaves timing open where it does not matter.
-/

namespace BehaviorTree

structure Label where
  name : String
  description : String := ""
  deriving DecidableEq, Repr, Inhabited

structure ConditionPlan where
  label : Label
  check : Check
  deriving Inhabited

/-- What an action does to its process variable in every step: write a value, or add an amount. -/
inductive Task where
  | set (value : Value)
  | increment (amount : Value)
  deriving Inhabited

/-- Times are milliseconds. -/
structure ActionPlan where
  label : Label
  pv : String
  task : Task
  loopPeriod : Option Nat := none
  timeout : Option Nat := none
  termination : Option ConditionPlan := none
  deriving Inhabited

inductive NodePlan where
  | condition (plan : ConditionPlan)
  | acknowledge (label : Label) (permitted : List String)
  | action (plan : ActionPlan)
  | row (label : Label) (flow : Flow) (memory : Bool) (children : List NodePlan)
  | parallel (label : Label) (policy : ParallelPolicy) (synchronise : Bool)
      (children : List NodePlan)
  | checkAndDo (label : Label) (check : ConditionPlan) (action : ActionPlan)

instance : Inhabited NodePlan := ⟨.acknowledge default []⟩

structure TreePlan where
  label : Label
  root : NodePlan
  deriving Inhabited

namespace Task

/-- Under what name a task is asked for. -/
def kindName : Task → String
  | .set _ => "set_pv"
  | .increment _ => "increment_pv"

def operand : Task → Value
  | .set value => value
  | .increment amount => amount

end Task

namespace NodePlan

def label : NodePlan → Label
  | .condition plan => plan.label
  | .acknowledge label _ => label
  | .action plan => plan.label
  | .row label _ _ _ => label
  | .parallel label _ _ _ => label
  | .checkAndDo label _ _ => label

def kindName : NodePlan → String
  | .condition _ => "condition"
  | .acknowledge _ _ => "acknowledge"
  | .action plan => plan.task.kindName
  | .row _ .sequence _ _ => "sequence"
  | .row _ .selector _ _ => "selector"
  | .parallel _ _ _ _ => "parallel"
  | .checkAndDo _ _ _ => "check_and_do"

mutual

/-- The nodes in pre-order, each as its kind and its name; the action inside a check-and-do is
marked. -/
def inventory : NodePlan → List String
  | .checkAndDo label _ act =>
      [s!"check_and_do:{label.name}", s!"do {act.task.kindName}:{act.label.name}"]
  | .row label flow memory children =>
      s!"{kindName (.row label flow memory [])}:{label.name}" :: inventoryOf children
  | .parallel label _ _ children => s!"parallel:{label.name}" :: inventoryOf children
  | .condition plan => [s!"condition:{plan.label.name}"]
  | .acknowledge label _ => [s!"acknowledge:{label.name}"]
  | .action plan => [s!"{plan.task.kindName}:{plan.label.name}"]

def inventoryOf : List NodePlan → List String
  | [] => []
  | child :: rest => inventory child ++ inventoryOf rest

end

end NodePlan

/-! Equality compares values by kind and content, so a plan with a number that is not a number
differs from itself. -/

def Check.same (first second : Check) : Bool :=
  first.pv == second.pv && first.operator == second.operator && first.value.same second.value

def ConditionPlan.same (first second : ConditionPlan) : Bool :=
  first.label == second.label && first.check.same second.check

def Task.same : Task → Task → Bool
  | .set first, .set second => first.same second
  | .increment first, .increment second => first.same second
  | _, _ => false

def ActionPlan.same (first second : ActionPlan) : Bool :=
  let terminationSame := match first.termination, second.termination with
    | none, none => true
    | some one, some other => one.same other
    | _, _ => false
  first.label == second.label && first.pv == second.pv && first.task.same second.task &&
    first.loopPeriod == second.loopPeriod && first.timeout == second.timeout && terminationSame

namespace NodePlan

mutual

def same : NodePlan → NodePlan → Bool
  | .condition first, .condition second => first.same second
  | .acknowledge label permitted, .acknowledge other others =>
      label == other && permitted == others
  | .action first, .action second => first.same second
  | .row label flow memory children, .row other otherFlow otherMemory others =>
      label == other && flow == otherFlow && memory == otherMemory && sameAll children others
  | .parallel label policy synchronise children,
      .parallel other otherPolicy otherSynchronise others =>
      label == other && policy == otherPolicy && synchronise == otherSynchronise &&
        sameAll children others
  | .checkAndDo label check act, .checkAndDo other otherCheck otherAct =>
      label == other && check.same otherCheck && act.same otherAct
  | _, _ => false

def sameAll : List NodePlan → List NodePlan → Bool
  | [], [] => true
  | first :: rest, second :: others => same first second && sameAll rest others
  | _, _ => false

end

end NodePlan

def TreePlan.same (first second : TreePlan) : Bool :=
  first.label == second.label && first.root.same second.root

end BehaviorTree
