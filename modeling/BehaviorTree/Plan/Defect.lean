import BehaviorTree.Plan
import BehaviorTree.Text.Blank

/-!
Defects of plans. A plan is looked through in pre-order, and the first defect met is the answer.
-/

namespace BehaviorTree

inductive Defect where
  | emptyName
  | duplicateName (name : String)
  | noChildren (node : String)
  | emptyPv (node : String)
  | nonPositive (node field : String)
  | nonNumericIncrement (node : String)
  | noPermittedIdentities (node : String)
  deriving DecidableEq, Repr

namespace Defect

def message : Defect → String
  | .emptyName => "node names must not be empty"
  | .duplicateName name => s!"duplicate node name '{name}'"
  | .noChildren node => s!"composite '{node}' has no children"
  | .emptyPv node => s!"node '{node}' must name a process variable"
  | .nonPositive node field => s!"node '{node}': {field} must be positive"
  | .nonNumericIncrement node => s!"node '{node}': increment must be numeric"
  | .noPermittedIdentities node => s!"acknowledge node '{node}' permits nobody"

end Defect

/-- The names met so far, unless a defect was met. -/
abbrev Inspection := Except Defect (List String)

namespace Inspection

/-- A name must show something and be new. -/
def register (names : List String) (name : String) : Inspection :=
  if Text.isBlankText name then .error .emptyName
  else if names.contains name then .error (.duplicateName name)
  else .ok (name :: names)

def requirePv (names : List String) (node pv : String) : Inspection :=
  if Text.isBlankText pv then .error (.emptyPv node) else .ok names

/-- A time that is given must not be zero. -/
def requirePositive (names : List String) (node field : String) (time : Option Nat) : Inspection :=
  if time = some 0 then .error (.nonPositive node field) else .ok names

end Inspection

namespace ConditionPlan

def inspect (plan : ConditionPlan) (names : List String) : Inspection := do
  let names ← Inspection.register names plan.label.name
  Inspection.requirePv names plan.label.name plan.check.pv

end ConditionPlan

namespace ActionPlan

def inspectTiming (plan : ActionPlan) (names : List String) : Inspection := do
  let node := plan.label.name
  let names ← Inspection.register names node
  let names ← Inspection.requirePv names node plan.pv
  let names ← Inspection.requirePositive names node "loop_period_ms" plan.loopPeriod
  let names ← Inspection.requirePositive names node "timeout_ms" plan.timeout
  match plan.termination with
  | none => .ok names
  | some termination => Inspection.requirePv names node termination.check.pv

def inspect (plan : ActionPlan) (names : List String) : Inspection :=
  match plan.task with
  | .set _ => plan.inspectTiming names
  | .increment amount =>
      if amount.isNumeric then plan.inspectTiming names
      else .error (.nonNumericIncrement plan.label.name)

end ActionPlan

namespace NodePlan

def requireChildren (label : Label) (children : List NodePlan) (names : List String) :
    Inspection := do
  let names ← Inspection.register names label.name
  if children.isEmpty then .error (.noChildren label.name) else .ok names

mutual

def inspect : NodePlan → List String → Inspection
  | .condition plan, names => plan.inspect names
  | .acknowledge label permitted, names => do
      let names ← Inspection.register names label.name
      if permitted.isEmpty then .error (.noPermittedIdentities label.name) else .ok names
  | .action plan, names => plan.inspect names
  | .row label _ _ children, names => do
      let names ← requireChildren label children names
      inspectAll children names
  | .parallel label _ _ children, names => do
      let names ← requireChildren label children names
      inspectAll children names
  | .checkAndDo label check act, names => do
      let names ← Inspection.register names label.name
      let names ← check.inspect names
      act.inspect names

def inspectAll : List NodePlan → List String → Inspection
  | [], names => .ok names
  | child :: rest, names => do
      let names ← inspect child names
      inspectAll rest names

end

end NodePlan

namespace TreePlan

def inspect (plan : TreePlan) : Except Defect Unit := (plan.root.inspect []).map fun _ => ()

/-- The first defect, if there is one. -/
def defect? (plan : TreePlan) : Option Defect :=
  match plan.inspect with
  | .ok _ => none
  | .error defect => some defect

end TreePlan

end BehaviorTree
