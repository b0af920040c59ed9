import BehaviorTree.Plan.File
import BehaviorTree.Proofs.Fitting

/-!
Plans in writing. A plan whose values are no doubles is read back from its JSON as it was.
-/

namespace BehaviorTree

/-! Values and choices. -/

namespace Value

/-- Whether JSON tells all of a value. -/
def isExact : Value → Bool
  | .bool _ | .int _ | .text _ => true
  | .float _ => false

theorem to_datum_exact {value : Value} (faithful : value.isExact = true) :
    value.toDatum.isExact = true := by
  cases value with
  | bool | text => rfl
  | float => cases faithful
  | int number =>
      have least := number.le_toInt
      have most := number.toInt_lt
      have large : Nat.pow 2 63 = 9223372036854775808 := rfl
      have larger : Nat.pow 2 64 = 18446744073709551616 := rfl
      simp [toDatum, Datum.isExact, Json.isMachineInt]
      omega

theorem to_datum_depth (value : Value) : value.toDatum.depth = 0 := by
  cases value <;> rfl

/-- A value keeps its kind. -/
theorem of_datum_to_datum {value : Value} (faithful : value.isExact = true) :
    ofDatum? value.toDatum = some value := by
  cases value with
  | bool | text => rfl
  | float => cases faithful
  | int number =>
      have fits : Int64.minValue.toInt ≤ number.toInt ∧ number.toInt ≤ Int64.maxValue.toInt :=
        ⟨number.minValue_le_toInt, number.toInt_le⟩
      rw [toDatum, ofDatum?, if_pos fits, Int64.ofInt_toInt]

end Value

theorem Comparator.of_datum_to_datum (comparator : Comparator) :
    Comparator.ofDatum? .lenient comparator.toDatum = some comparator := by
  cases comparator <;> rfl

theorem ParallelPolicy.of_datum_to_datum (policy : ParallelPolicy) :
    ParallelPolicy.ofDatum? .lenient policy.toDatum = some policy := by
  cases policy <;> rfl

/-! The items of a label and those that may be left out. -/

namespace Label

theorem find_in_fields (label : Label) (others : List (String × Datum)) (name : String) :
    (Items.mk (label.fields ++ others)).find? name =
      if name = "name" then some (.text label.name)
      else if name = "description" then some (.text label.description)
      else (Items.mk others).find? name := by
  simp only [fields, Items.find_append, Items.find_cons, Items.find_nil, eq_comm]
  split
  · rfl
  · split <;> rfl

theorem of_fields (label : Label) (others : List (String × Datum)) :
    ofItems? ⟨label.fields ++ others⟩ = some label := by
  simp [ofItems?, Items.required, Items.withDefault, find_in_fields, Datum.asText?]

theorem fields_exact (label : Label) : ∀ field ∈ label.fields, field.2.isExact = true := by
  simp [fields, Datum.isExact]

end Label

section

variable {Content : Type} {write : Content → Datum} {content : Option Content}

theorem find_optional (name wanted : String) :
    (Items.mk (optionalField name write content)).find? wanted =
      if name = wanted then content.map write else none := by
  cases content with
  | none => simp [optionalField, Items.find_nil]
  | some inside => simp [optionalField, Items.find_cons, Items.find_nil]

theorem optional_exact {name : String}
    (faithful : ∀ inside ∈ content, (write inside).isExact = true) :
    ∀ field ∈ optionalField name write content, field.2.isExact = true := by
  cases content with
  | none => simp [optionalField]
  | some inside => simpa [optionalField] using faithful

end

/-! Conditions. -/

namespace ConditionPlan

/-- Whether JSON tells all of a condition. -/
def isExact (plan : ConditionPlan) : Bool := plan.check.value.isExact

variable {plan : ConditionPlan}

theorem of_fields (faithful : plan.isExact = true) :
    ofDatum? (.ofFields plan.fields) = some plan := by
  have value := Value.of_datum_to_datum faithful
  rw [ofDatum?, Shape.items_of_fields (.refl _) (by decide), fields]
  simp [Label.of_fields, Items.required, Label.find_in_fields, Items.find_cons, Datum.asText?,
    Comparator.of_datum_to_datum, value]

theorem fields_exact (faithful : plan.isExact = true) :
    ∀ field ∈ plan.fields, field.2.isExact = true := by
  have value := Value.to_datum_exact faithful
  simp only [fields, List.forall_mem_append]
  exact ⟨plan.label.fields_exact, by simp [Datum.isExact, Comparator.toDatum, value]⟩

end ConditionPlan

/-! Actions. -/

/-- Whether a time, if there is one, is a machine word. -/
def isMachineTime (time : Option Nat) : Bool := time.all fun count => decide (count < Nat.pow 2 64)

namespace ActionPlan

/-- Whether JSON tells all of an action. -/
def isExact (plan : ActionPlan) : Bool :=
  plan.task.operand.isExact && isMachineTime plan.loopPeriod && isMachineTime plan.timeout &&
    plan.termination.all ConditionPlan.isExact

/-- The items of an action but its kind. -/
def body (plan : ActionPlan) : List (String × Datum) :=
  plan.label.fields ++ ([("pv", .text plan.pv), (plan.operandName, plan.task.operand.toDatum)] ++
    optionalField "loop_period_ms" time plan.loopPeriod ++
    optionalField "timeout_ms" time plan.timeout ++
    optionalField "termination_check" ConditionPlan.toDatum plan.termination)

theorem fields_eq (plan : ActionPlan) :
    plan.fields = ("kind", .text plan.task.kindName) :: plan.body := by
  simp [fields, body]

theorem body_known (plan : ActionPlan) :
    (plan.body.map (·.1)).Sublist (shape plan.operandName).names := by
  obtain ⟨label, pv, task, period, timeout, termination⟩ := plan
  cases task <;> cases period <;> cases timeout <;> cases termination <;>
    exact List.isSublist_iff_sublist.mp rfl

theorem shape_distinct (plan : ActionPlan) : (shape plan.operandName).names.Nodup := by
  rw [operandName]
  cases plan.task with
  | set => exact (by decide : (shape "value").names.Nodup)
  | increment => exact (by decide : (shape "increment").names.Nodup)

theorem body_untagged (plan : ActionPlan) : "kind" ∉ plan.body.map (·.1) := by
  intro inside
  have known := plan.body_known.subset inside
  rw [operandName] at known
  cases task : plan.task <;> simp [shape, task] at known

theorem time_back {time : Option Nat} (fits : isMachineTime time = true) :
    ∀ count ∈ time, (ActionPlan.time count).asOption? Datum.asNat? = some (some count) := by
  rintro count rfl
  have below : count < Nat.pow 2 64 := by simpa [isMachineTime] using fits
  have inRange : (0 : Int) ≤ count ∧ (count : Int) < Nat.pow 2 64 := by omega
  rw [ActionPlan.time, Datum.asOption?, Datum.asNat?, if_pos inRange]
  · rfl
  · simp

/-- The items that an action is read from. -/
theorem find_in_body (plan : ActionPlan) :
    (Items.mk plan.body).find? "pv" = some (.text plan.pv) ∧
      (Items.mk plan.body).find? plan.operandName = some plan.task.operand.toDatum ∧
      (Items.mk plan.body).find? "loop_period_ms" = plan.loopPeriod.map time ∧
      (Items.mk plan.body).find? "timeout_ms" = plan.timeout.map time ∧
      (Items.mk plan.body).find? "termination_check" =
        plan.termination.map ConditionPlan.toDatum := by
  simp only [body, operandName, Label.find_in_fields]
  cases plan.task <;> simp [Items.find_append, Items.find_cons, find_optional]

theorem of_items {plan : ActionPlan} {task : Value → Task} (faithful : plan.isExact = true)
    (same : plan.task = task plan.task.operand) :
    ofItems? plan.operandName task ⟨plan.body⟩ = some plan := by
  simp only [isExact, Bool.and_eq_true] at faithful
  obtain ⟨⟨⟨operand, period⟩, timeout⟩, termination⟩ := faithful
  obtain ⟨foundPv, foundOperand, foundPeriod, foundTimeout, foundTermination⟩ :=
    plan.find_in_body
  have label : Label.ofItems? ⟨plan.body⟩ = some plan.label := Label.of_fields _ _
  have value := Value.of_datum_to_datum operand
  have periods := Items.optional_of_find foundPeriod (time_back period)
  have timeouts := Items.optional_of_find foundTimeout (time_back timeout)
  have terminations : (Items.mk plan.body).optional ConditionPlan.ofDatum? "termination_check" =
      some plan.termination := by
    refine Items.optional_of_find foundTermination ?_
    intro check inside
    rw [inside] at termination
    exact congrArg (Option.map some) (ConditionPlan.of_fields termination)
  simp only [ofItems?, label, Items.required, foundPv, foundOperand, value, periods, timeouts,
    terminations, Option.bind_eq_bind, Option.bind_some, Datum.asText?]
  rw [← same]
  rfl

theorem of_body {plan : ActionPlan} (faithful : plan.isExact = true) :
    ofNamed? plan.task.kindName (.ofFields plan.body) = some plan := by
  have items := Shape.items_of_fields plan.body_known plan.shape_distinct
  have read : ∀ {task : Value → Task}, plan.task = task plan.task.operand →
      ((shape plan.operandName).items? (.ofFields plan.body)).bind
        (ofItems? plan.operandName task) = some plan := by
    intro task same
    rw [items, Option.bind_some]
    exact of_items faithful same
  rw [operandName] at read
  cases task : plan.task with
  | set value =>
      rw [task] at read
      exact read rfl
  | increment amount =>
      rw [task] at read
      exact read rfl

theorem of_datum_to_datum {plan : ActionPlan} (faithful : plan.isExact = true) :
    ofDatum? plan.toDatum = some plan := by
  rw [ofDatum?, toDatum, fields_eq, Datum.tagged_of_fields plan.body_untagged]
  exact of_body faithful

theorem body_exact {plan : ActionPlan} (faithful : plan.isExact = true) :
    ∀ field ∈ plan.body, field.2.isExact = true := by
  simp only [isExact, Bool.and_eq_true] at faithful
  obtain ⟨⟨⟨operand, period⟩, timeout⟩, termination⟩ := faithful
  have time_exact : ∀ {moment : Option Nat}, isMachineTime moment = true →
      ∀ count ∈ moment, (time count).isExact = true := by
    rintro _ fits count rfl
    have below : count < Nat.pow 2 64 := by simpa [isMachineTime] using fits
    simp only [time, Datum.isExact, Json.isMachineInt, Bool.and_eq_true, decide_eq_true_eq]
    omega
  simp only [body, List.forall_mem_append]
  refine ⟨plan.label.fields_exact, ⟨⟨?_, optional_exact (time_exact period)⟩,
    optional_exact (time_exact timeout)⟩, optional_exact ?_⟩
  · simp [Value.to_datum_exact operand, Datum.isExact]
  · intro check inside
    rw [inside] at termination
    exact Datum.of_fields_exact_iff.mpr (ConditionPlan.fields_exact termination)

theorem to_datum_exact {plan : ActionPlan} (faithful : plan.isExact = true) :
    plan.toDatum.isExact = true := by
  rw [toDatum, fields_eq, Datum.of_fields_exact_iff, List.forall_mem_cons]
  exact ⟨rfl, body_exact faithful⟩

end ActionPlan

/-! Nodes. -/

namespace NodePlan

mutual

/-- Whether JSON tells all of a node: its values are no doubles, and its times machine words. -/
def isExact : NodePlan → Bool
  | .condition plan => plan.isExact
  | .acknowledge _ _ => true
  | .action plan => plan.isExact
  | .row _ _ _ children => areExact children
  | .parallel _ _ _ children => areExact children
  | .checkAndDo _ check act => check.isExact && act.isExact

def areExact : List NodePlan → Bool
  | [] => true
  | child :: rest => isExact child && areExact rest

end

theorem are_exact_iff {plans : List NodePlan} :
    areExact plans = true ↔ ∀ plan ∈ plans, plan.isExact = true := by
  induction plans with
  | nil => simp [areExact]
  | cons plan rest ih => simp [areExact, ih]

theorem to_data_eq_map (plans : List NodePlan) : toData plans = plans.map toDatum := by
  induction plans with
  | nil => rfl
  | cons plan rest ih => rw [toData, ih, List.map_cons]

/-- The nodes that a node has a list of. -/
def offspring : NodePlan → List NodePlan
  | .row _ _ _ children | .parallel _ _ _ children => children
  | .condition _ | .acknowledge _ _ | .action _ | .checkAndDo _ _ _ => []

/-- The items of a node but its kind. -/
def body : NodePlan → List (String × Datum)
  | .condition plan => plan.fields
  | .acknowledge label permitted =>
      label.fields ++ [("permitted", .list (permitted.map .text))]
  | .action plan => plan.body
  | .row label _ memory children =>
      label.fields ++ [("memory", .bool memory), ("children", .list (children.map toDatum))]
  | .parallel label policy synchronise children =>
      label.fields ++
        [("policy", policy.toDatum), ("synchronise", .bool synchronise),
          ("children", .list (children.map toDatum))]
  | .checkAndDo label check act =>
      label.fields ++ [("check", check.toDatum), ("do", act.toDatum)]

theorem to_datum_eq (plan : NodePlan) :
    plan.toDatum = .ofFields (("kind", .text plan.kindName) :: plan.body) := by
  cases plan with
  | condition | acknowledge | checkAndDo => rfl
  | action plan => rw [toDatum, ActionPlan.toDatum, ActionPlan.fields_eq]; rfl
  | row label flow memory children =>
      rw [toDatum, to_data_eq_map]
      cases flow <;> rfl
  | parallel label policy synchronise children =>
      rw [toDatum, to_data_eq_map]
      rfl

theorem body_untagged (plan : NodePlan) : "kind" ∉ plan.body.map (·.1) := by
  cases plan with
  | action plan => exact plan.body_untagged
  | condition | acknowledge | row | parallel | checkAndDo =>
      simp [body, Label.fields, ConditionPlan.fields]

/-- A node is read from its items, if its children are. -/
theorem of_body {plan : NodePlan} {read : Datum → Option NodePlan}
    (faithful : plan.isExact = true)
    (back : ∀ child ∈ plan.offspring, read child.toDatum = some child) :
    ofNamed? read plan.kindName (.ofFields plan.body) = some plan := by
  have listed : Datum.asList? read (.list (plan.offspring.map toDatum)) = some plan.offspring :=
    Datum.as_list_map back
  cases plan with
  | condition plan => exact congrArg (Option.map _) (ConditionPlan.of_fields faithful)
  | acknowledge label permitted =>
      have texts : Datum.asList? Datum.asText? (.list (permitted.map .text)) = some permitted :=
        Datum.as_list_map fun _ _ => rfl
      change acknowledgeOf? _ = _
      rw [acknowledgeOf?, Shape.items_of_fields (.refl _) (by decide), body]
      simp [Label.of_fields, Items.required, Label.find_in_fields, Items.find_cons, texts]
  | action plan =>
      have known : ofNamed? read (kindName (.action plan)) =
          fun datum => (ActionPlan.ofNamed? plan.task.kindName datum).map .action := by
        rw [kindName]
        cases plan.task <;> rfl
      rw [known]
      exact congrArg (Option.map _) (ActionPlan.of_body faithful)
  | row label flow memory children =>
      have known : ofNamed? read (kindName (.row label flow memory children)) =
          rowOf? read flow := by
        cases flow <;> rfl
      simp only [NodePlan.offspring] at listed
      rw [known, rowOf?, Shape.items_of_fields (.refl _) (by decide), body]
      simp [Label.of_fields, Items.required, Items.withDefault, Label.find_in_fields,
        Items.find_cons, Datum.asBool?, listed]
  | parallel label policy synchronise children =>
      simp only [NodePlan.offspring] at listed
      change parallelOf? read _ = _
      rw [parallelOf?, Shape.items_of_fields (.refl _) (by decide), body]
      simp [Label.of_fields, Items.required, Items.withDefault, Label.find_in_fields,
        Items.find_cons, Datum.asBool?, ParallelPolicy.of_datum_to_datum, listed]
  | checkAndDo label check act =>
      obtain ⟨checked, acted⟩ := Bool.and_eq_true_iff.mp faithful
      have condition : ConditionPlan.ofDatum? check.toDatum = some check :=
        ConditionPlan.of_fields checked
      change checkAndDoOf? _ = _
      rw [checkAndDoOf?, Shape.items_of_fields (.refl _) (by decide), body]
      simp [Label.of_fields, Items.required, Label.find_in_fields, Items.find_cons, condition,
        ActionPlan.of_datum_to_datum acted]

theorem offspring_exact {plan : NodePlan} (faithful : plan.isExact = true) :
    ∀ child ∈ plan.offspring, child.isExact = true := by
  cases plan with
  | row | parallel => exact are_exact_iff.mp faithful
  | condition | acknowledge | action | checkAndDo => simp [offspring]

theorem child_depth {plan child : NodePlan} (inside : child ∈ plan.offspring) :
    child.toDatum.depth < plan.toDatum.depth := by
  have listed : ("children", Datum.list (plan.offspring.map toDatum)) ∈
      ("kind", .text plan.kindName) :: plan.body := by
    cases plan with
    | row | parallel => simp [body, offspring]
    | condition | acknowledge | action | checkAndDo => cases inside
  rw [to_datum_eq plan]
  exact Nat.lt_trans (Datum.depth_lt_of_mem (List.mem_map_of_mem inside))
    (Datum.depth_lt_of_field listed)

/-- A node is read back from its data, given as many levels as there are. -/
theorem of_datum_within {levels : Nat} {manner : Manner} {plan : NodePlan}
    (faithful : plan.isExact = true) (shallow : plan.toDatum.depth ≤ levels) :
    ofDatumWithin levels manner plan.toDatum = some plan := by
  induction levels generalizing manner plan with
  | zero =>
      rw [to_datum_eq] at shallow
      have deep := Datum.of_fields_depth_pos (("kind", .text plan.kindName) :: plan.body)
      omega
  | succ levels ih =>
      have back : ∀ child ∈ plan.offspring,
          ofDatumWithin levels .lenient child.toDatum = some child := by
        intro child inside
        apply ih (offspring_exact faithful child inside)
        exact Nat.le_of_lt_succ (Nat.lt_of_lt_of_le (child_depth inside) shallow)
      rw [ofDatumWithin, to_datum_eq, Datum.tagged_of_fields plan.body_untagged]
      exact of_body faithful back

theorem exact_of_children {plan : NodePlan} (faithful : plan.isExact = true)
    (below : Datum.areExact (toData plan.offspring) = true) : plan.toDatum.isExact = true := by
  rw [to_data_eq_map] at below
  rw [to_datum_eq, Datum.of_fields_exact_iff, List.forall_mem_cons]
  refine ⟨rfl, ?_⟩
  cases plan with
  | condition plan => exact ConditionPlan.fields_exact faithful
  | action plan => exact ActionPlan.body_exact faithful
  | acknowledge label permitted =>
      simp [body, Label.fields, Datum.isExact, Datum.are_exact_iff]
  | row label flow memory children =>
      simp only [NodePlan.offspring] at below
      simp [body, Label.fields, Datum.isExact, below]
  | parallel label policy synchronise children =>
      simp only [NodePlan.offspring] at below
      simp [body, Label.fields, Datum.isExact, ParallelPolicy.toDatum, below]
  | checkAndDo label check act =>
      obtain ⟨checked, acted⟩ := Bool.and_eq_true_iff.mp faithful
      have condition : check.toDatum.isExact = true :=
        Datum.of_fields_exact_iff.mpr (ConditionPlan.fields_exact checked)
      simp [body, Label.fields, Datum.isExact, condition, ActionPlan.to_datum_exact acted]

mutual

theorem to_datum_exact : ∀ plan : NodePlan, plan.isExact = true → plan.toDatum.isExact = true
  | .row _ _ _ children, faithful | .parallel _ _ _ children, faithful =>
      exact_of_children faithful (to_data_exact children faithful)
  | .condition _, faithful | .acknowledge _ _, faithful | .action _, faithful
  | .checkAndDo _ _ _, faithful => exact_of_children faithful rfl

theorem to_data_exact : ∀ plans : List NodePlan, areExact plans = true →
    Datum.areExact (toData plans) = true
  | [], _ => rfl
  | plan :: rest, faithful => by
      obtain ⟨first, others⟩ := Bool.and_eq_true_iff.mp faithful
      rw [toData, Datum.areExact, to_datum_exact plan first, to_data_exact rest others]
      rfl

end

theorem of_datum_to_datum {manner : Manner} {plan : NodePlan} (faithful : plan.isExact = true) :
    ofDatum? manner plan.toDatum = some plan := by
  rw [ofDatum?, if_pos (Datum.readable_of_exact _ (plan.to_datum_exact faithful))]
  exact of_datum_within faithful (Nat.le_refl _)

end NodePlan

/-! Trees. -/

/-- A plan without doubles, whose times are machine words, is read back from its JSON as it was, as
long as it is nested no deeper than a reader goes; so every value keeps its kind. -/
theorem TreePlan.parse_write (plan : TreePlan) (faithful : plan.root.isExact = true)
    (shallow : plan.toDatum.depth ≤ Json.maxDepth) : parse .json plan.write = .ok plan := by
  have whole : plan.toDatum.isExact = true := by
    rw [toDatum, Datum.of_fields_exact_iff, List.forall_mem_append]
    exact ⟨plan.label.fields_exact, by simp [plan.root.to_datum_exact faithful]⟩
  have back : ofDatum? plan.toDatum = some plan := by
    rw [ofDatum?, toDatum, Shape.items_of_fields (.refl _) (by decide)]
    simp [Label.of_fields, Items.required, Label.find_in_fields, Items.find_cons,
      NodePlan.of_datum_to_datum faithful]
  rw [parse, read?, write, Json.read_write whole shallow, Option.bind_some, back]

/-- Texts that look like other kinds of values, the least and the greatest number, a time that is
there and one that is not. -/
theorem TreePlan.lookalikes_read_back :
    let check : ConditionPlan :=
      { label := { name := "is \"1\"" }
        check := { pv := "a\\b", operator := .eq, value := .text "1" } }
    let put : ActionPlan :=
      { label := { name := "", description := "true\n" }, pv := "x", task := .set (.text "true")
        timeout := some 0, termination := some check }
    let add : ActionPlan :=
      { label := { name := "add" }, pv := "x", task := .increment (.int Int64.minValue)
        loopPeriod := some 18446744073709551615 }
    let plan : TreePlan :=
      { label := { name := "né" }
        root := .row { name := "all" } .selector true
          [.checkAndDo { name := "1" } check put,
            .parallel { name := "both" } .successOnOne false
              [.action add, .acknowledge { name := "ok?" } ["yes", ""]]] }
    plan.root.isExact = true ∧ plan.toDatum.depth ≤ Json.maxDepth ∧
      parse .json plan.write = .ok plan := by
  intro check put add plan
  have faithful : plan.root.isExact = true := by decide
  have shallow : plan.toDatum.depth ≤ Json.maxDepth := by decide
  exact ⟨faithful, shallow, plan.parse_write faithful shallow⟩

end BehaviorTree
