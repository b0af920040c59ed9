import BehaviorTree.Datum.Choice
import BehaviorTree.Plan

/-!
Plans as data. Nodes and actions are records that tell by their tag what they are; descriptions,
memory, policies and timing may be left out.
-/

namespace BehaviorTree

namespace Label

def ofItems? (items : Items) : Option Label := do
  let name ← items.required Datum.asText? "name"
  let description ← items.withDefault Datum.asText? "" "description"
  return { name, description }

def fields (label : Label) : List (String × Datum) :=
  [("name", .text label.name), ("description", .text label.description)]

end Label

/-- An item that is left out when there is nothing to say. -/
def optionalField {Content : Type} (name : String) (write : Content → Datum) :
    Option Content → List (String × Datum)
  | none => []
  | some content => [(name, write content)]

namespace ConditionPlan

def shape : Shape :=
  { names := ["name", "description", "pv", "operator", "value"], needed := 5 }

def ofDatum? (datum : Datum) : Option ConditionPlan := do
  let items ← shape.items? datum
  let label ← Label.ofItems? items
  let pv ← items.required Datum.asText? "pv"
  let operator ← items.required (Comparator.ofDatum? .lenient) "operator"
  let value ← items.required Value.ofDatum? "value"
  return { label, check := { pv, operator, value } }

def fields (plan : ConditionPlan) : List (String × Datum) :=
  plan.label.fields ++
    [("pv", .text plan.check.pv), ("operator", plan.check.operator.toDatum),
      ("value", plan.check.value.toDatum)]

def toDatum (plan : ConditionPlan) : Datum := .ofFields plan.fields

end ConditionPlan

namespace ActionPlan

/-- The shape of an action whose operand is called `operand`. -/
def shape (operand : String) : Shape :=
  { names :=
      ["name", "description", "pv", operand, "loop_period_ms", "timeout_ms", "termination_check"]
    needed := 4 }

def ofItems? (operand : String) (task : Value → Task) (items : Items) : Option ActionPlan := do
  let label ← Label.ofItems? items
  let pv ← items.required Datum.asText? "pv"
  let value ← items.required Value.ofDatum? operand
  let loopPeriod ← items.optional Datum.asNat? "loop_period_ms"
  let timeout ← items.optional Datum.asNat? "timeout_ms"
  let termination ← items.optional ConditionPlan.ofDatum? "termination_check"
  return { label, pv, task := task value, loopPeriod, timeout, termination }

def ofNamed? (kind : String) (datum : Datum) : Option ActionPlan :=
  match kind with
  | "set_pv" => ((shape "value").items? datum).bind (ofItems? "value" .set)
  | "increment_pv" => ((shape "increment").items? datum).bind (ofItems? "increment" .increment)
  | _ => none

def ofDatum? (datum : Datum) : Option ActionPlan := do
  let (kind, body) ← datum.tagged? .lenient "kind" ["set_pv", "increment_pv"]
  ofNamed? kind body

def operandName (plan : ActionPlan) : String :=
  match plan.task with
  | .set _ => "value"
  | .increment _ => "increment"

def time (milliseconds : Nat) : Datum := .int milliseconds

def fields (plan : ActionPlan) : List (String × Datum) :=
  [("kind", .text plan.task.kindName)] ++ plan.label.fields ++
    [("pv", .text plan.pv), (plan.operandName, plan.task.operand.toDatum)] ++
    optionalField "loop_period_ms" time plan.loopPeriod ++
    optionalField "timeout_ms" time plan.timeout ++
    optionalField "termination_check" ConditionPlan.toDatum plan.termination

def toDatum (plan : ActionPlan) : Datum := .ofFields plan.fields

end ActionPlan

namespace NodePlan

def kindNames : List String :=
  ["condition", "acknowledge", "set_pv", "increment_pv", "sequence", "selector", "parallel",
    "check_and_do"]

def acknowledgeShape : Shape := { names := ["name", "description", "permitted"], needed := 3 }

def rowShape : Shape := { names := ["name", "description", "memory", "children"], needed := 4 }

def parallelShape : Shape :=
  { names := ["name", "description", "policy", "synchronise", "children"], needed := 5 }

def checkAndDoShape : Shape := { names := ["name", "description", "check", "do"], needed := 4 }

def acknowledgeOf? (datum : Datum) : Option NodePlan := do
  let items ← acknowledgeShape.items? datum
  let label ← Label.ofItems? items
  let permitted ← items.required (Datum.asList? Datum.asText?) "permitted"
  return .acknowledge label permitted

def rowOf? (read : Datum → Option NodePlan) (flow : Flow) (datum : Datum) : Option NodePlan := do
  let items ← rowShape.items? datum
  let label ← Label.ofItems? items
  let memory ← items.withDefault Datum.asBool? false "memory"
  let children ← items.required (Datum.asList? read) "children"
  return .row label flow memory children

def parallelOf? (read : Datum → Option NodePlan) (datum : Datum) : Option NodePlan := do
  let items ← parallelShape.items? datum
  let label ← Label.ofItems? items
  let policy ← items.withDefault (ParallelPolicy.ofDatum? .lenient) default "policy"
  let synchronise ← items.withDefault Datum.asBool? false "synchronise"
  let children ← items.required (Datum.asList? read) "children"
  return .parallel label policy synchronise children

def checkAndDoOf? (datum : Datum) : Option NodePlan := do
  let items ← checkAndDoShape.items? datum
  let label ← Label.ofItems? items
  let check ← items.required ConditionPlan.ofDatum? "check"
  let action ← items.required ActionPlan.ofDatum? "do"
  return .checkAndDo label check action

/-- A node of a known kind, given how to read its children. -/
def ofNamed? (read : Datum → Option NodePlan) (kind : String) (datum : Datum) : Option NodePlan :=
  match kind with
  | "condition" => (ConditionPlan.ofDatum? datum).map .condition
  | "acknowledge" => acknowledgeOf? datum
  | "sequence" => rowOf? read .sequence datum
  | "selector" => rowOf? read .selector datum
  | "parallel" => parallelOf? read datum
  | "check_and_do" => checkAndDoOf? datum
  | other => (ActionPlan.ofNamed? other datum).map .action

/-- Reads a node with at most as many levels below it. -/
def ofDatumWithin : Nat → Manner → Datum → Option NodePlan
  | 0, _, _ => none
  | levels + 1, manner, datum => do
      let (kind, body) ← datum.tagged? manner "kind" kindNames
      ofNamed? (ofDatumWithin levels .lenient) kind body

/-- The tag of the node itself is read in the given manner, those of the nodes below it
leniently. -/
def ofDatum? (manner : Manner) (datum : Datum) : Option NodePlan :=
  if datum.isReadable then ofDatumWithin datum.depth manner datum else none

mutual

def toDatum : NodePlan → Datum
  | .condition plan => .ofFields (("kind", .text "condition") :: plan.fields)
  | .acknowledge label permitted =>
      .ofFields <|
        [("kind", .text "acknowledge")] ++ label.fields ++
          [("permitted", .list (permitted.map .text))]
  | .action plan => plan.toDatum
  | .row label flow memory children =>
      .ofFields <|
        [("kind", .text flow.kind.name)] ++ label.fields ++
          [("memory", .bool memory), ("children", .list (toData children))]
  | .parallel label policy synchronise children =>
      .ofFields <|
        [("kind", .text "parallel")] ++ label.fields ++
          [("policy", policy.toDatum), ("synchronise", .bool synchronise),
            ("children", .list (toData children))]
  | .checkAndDo label check act =>
      .ofFields <|
        [("kind", .text "check_and_do")] ++ label.fields ++
          [("check", check.toDatum), ("do", act.toDatum)]

def toData : List NodePlan → List Datum
  | [] => []
  | child :: rest => toDatum child :: toData rest

end

end NodePlan

namespace TreePlan

def shape : Shape := { names := ["name", "description", "root"], needed := 3 }

def ofDatum? (datum : Datum) : Option TreePlan := do
  let items ← shape.items? datum
  let label ← Label.ofItems? items
  let root ← items.required (NodePlan.ofDatum? .strict) "root"
  return { label, root }

def toDatum (plan : TreePlan) : Datum :=
  .ofFields (plan.label.fields ++ [("root", plan.root.toDatum)])

end TreePlan

end BehaviorTree
