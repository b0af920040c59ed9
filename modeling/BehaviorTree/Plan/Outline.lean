import BehaviorTree.Plan

/-!
The outline of a plan, for people: the name of the tree, its description if it has one, and a line
for each node, indented by its depth.
-/

namespace BehaviorTree

def indented (depth : Nat) (text : String) : String :=
  String.ofList (List.replicate (2 * depth) ' ') ++ text ++ "\n"

def ConditionPlan.outline (plan : ConditionPlan) : String :=
  let check := plan.check
  s!"{plan.label.name} (condition: {check.pv} {check.operator.symbol} {check.value.shown})"

def ActionPlan.outline (plan : ActionPlan) : String :=
  let deed := match plan.task with
    | .set value => s!"{plan.pv} = {value.shown}"
    | .increment amount => s!"{plan.pv} += {amount.shown}"
  s!"{plan.label.name} ({plan.task.kindName}: {deed})"

namespace NodePlan

/-- What is said about a node besides its children. -/
def summary : NodePlan → String
  | .condition plan => plan.outline
  | .acknowledge label permitted =>
      let identities := ", ".intercalate permitted
      s!"{label.name} (acknowledge: {identities})"
  | .action plan => plan.outline
  | .row label .sequence memory _ =>
      label.name ++ (if memory then " (sequence, memory)" else " (sequence)")
  | .row label .selector memory _ =>
      label.name ++ (if memory then " (selector, memory)" else " (selector)")
  | .parallel label policy _ _ => s!"{label.name} (parallel: {policy.title})"
  | .checkAndDo label _ _ => s!"{label.name} (check_and_do)"

mutual

def outlineAt (depth : Nat) : NodePlan → String
  | .row label flow memory children =>
      indented depth (summary (.row label flow memory [])) ++ outlineAll (depth + 1) children
  | .parallel label policy synchronise children =>
      indented depth (summary (.parallel label policy synchronise [])) ++
        outlineAll (depth + 1) children
  | .checkAndDo label check act =>
      indented depth (summary (.checkAndDo label check act)) ++
        indented (depth + 1) check.outline ++ indented (depth + 1) act.outline
  | .condition plan => indented depth plan.outline
  | .acknowledge label permitted => indented depth (summary (.acknowledge label permitted))
  | .action plan => indented depth plan.outline

def outlineAll (depth : Nat) : List NodePlan → String
  | [] => ""
  | child :: rest => outlineAt depth child ++ outlineAll depth rest

end

end NodePlan

def TreePlan.outline (plan : TreePlan) : String :=
  indented 0 plan.label.name ++
    (if plan.label.description.isEmpty then "" else indented 1 plan.label.description) ++
    plan.root.outlineAt 1

end BehaviorTree
