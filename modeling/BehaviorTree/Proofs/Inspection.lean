import BehaviorTree.CommandLine

/-!
What an inspection finds. It is a scan of the nodes of a plan in pre-order, so a plan is accepted
exactly when it is sound as a whole, and what is found otherwise is a flaw of the first node that
has one. Whatever builds a tree from a plan goes by the inspection.
-/

namespace BehaviorTree

/-- A text with something else than white space in it. -/
def Text.Shows (text : String) : Prop := ∃ char ∈ text.toList, Text.isBlank char = false

theorem Text.blank_iff (text : String) : Text.isBlankText text = true ↔ ¬Text.Shows text := by
  simp [Text.isBlankText, Text.Shows]

namespace NodePlan

/-- The nodes right below a node. A check-and-do has its check and its action there. -/
def children : NodePlan → List NodePlan
  | .row _ _ _ children | .parallel _ _ _ children => children
  | .checkAndDo _ check act => [.condition check, .action act]
  | .condition _ | .acknowledge _ _ | .action _ => []

def name (plan : NodePlan) : String := plan.label.name

/-- What holds of a node whenever it holds of the nodes right below holds of every node. -/
@[elab_as_elim]
theorem induct {motive : NodePlan → Prop}
    (step : ∀ plan, (∀ child ∈ plan.children, motive child) → motive plan) (plan : NodePlan) :
    motive plan := by
  have childless : ∀ plan : NodePlan, plan.children = [] → motive plan := by
    intro plan none
    exact step plan (by simp [none])
  refine @NodePlan.rec motive (fun children => ∀ child ∈ children, motive child) ?_ ?_ ?_ ?_ ?_ ?_
    ?_ ?_ plan
  · exact fun check => childless _ rfl
  · exact fun label permitted => childless _ rfl
  · exact fun act => childless _ rfl
  · exact fun label flow memory children below => step _ below
  · exact fun label policy synchronise children below => step _ below
  · intro label check act
    apply step
    intro child member
    rcases List.mem_cons.mp member with rfl | second
    · exact childless _ rfl
    · exact List.mem_singleton.mp second ▸ childless _ rfl
  · simp
  · intro first rest own others child member
    rcases List.mem_cons.mp member with rfl | later
    · exact own
    · exact others child later

mutual

/-- All nodes in pre-order. -/
def parts : NodePlan → List NodePlan
  | .condition check => [.condition check]
  | .acknowledge label permitted => [.acknowledge label permitted]
  | .action act => [.action act]
  | .row label flow memory children => .row label flow memory children :: partsOf children
  | .parallel label policy synchronise children =>
      .parallel label policy synchronise children :: partsOf children
  | .checkAndDo label check act =>
      [.checkAndDo label check act, .condition check, .action act]

def partsOf : List NodePlan → List NodePlan
  | [] => []
  | child :: rest => parts child ++ partsOf rest

end

theorem parts_of_eq_flatMap (children : List NodePlan) :
    partsOf children = children.flatMap parts := by
  induction children with
  | nil => rfl
  | cons child rest ih => rw [partsOf, ih, List.flatMap_cons]

theorem parts_eq (plan : NodePlan) : plan.parts = plan :: plan.children.flatMap parts := by
  cases plan <;> simp [parts, children, parts_of_eq_flatMap]

/-- The process variables that a node names itself. -/
def pvs : NodePlan → List String
  | .condition check => [check.check.pv]
  | .action act => act.pv :: (act.termination.map (·.check.pv)).toList
  | .acknowledge _ _ | .row _ _ _ _ | .parallel _ _ _ _ | .checkAndDo _ _ _ => []

/-- The times that a node gives, by their fields. -/
def times : NodePlan → List (String × Option Nat)
  | .action act => [("loop_period_ms", act.loopPeriod), ("timeout_ms", act.timeout)]
  | .condition _ | .acknowledge _ _ | .row _ _ _ _ | .parallel _ _ _ _ | .checkAndDo _ _ _ => []

def isComposite : NodePlan → Bool
  | .row _ _ _ _ | .parallel _ _ _ _ => true
  | .condition _ | .acknowledge _ _ | .action _ | .checkAndDo _ _ _ => false

/-- What can be wrong with a node itself, when nodes of some names came before it. -/
inductive Flaw (earlier : List String) : NodePlan → Defect → Prop where
  | nameless {part : NodePlan} (blank : ¬Text.Shows part.name) : Flaw earlier part .emptyName
  | repeated {part : NodePlan} (taken : part.name ∈ earlier) :
      Flaw earlier part (.duplicateName part.name)
  | childless {part : NodePlan} (composite : part.isComposite = true)
      (none : part.children = []) : Flaw earlier part (.noChildren part.name)
  | aimless {part : NodePlan} {pv : String} (names : pv ∈ part.pvs) (blank : ¬Text.Shows pv) :
      Flaw earlier part (.emptyPv part.name)
  | timeless {part : NodePlan} {field : String} (given : (field, some 0) ∈ part.times) :
      Flaw earlier part (.nonPositive part.name field)
  | uncountable {plan : ActionPlan} {amount : Value} (task : plan.task = .increment amount)
      (notInt : ∀ number, amount ≠ .int number) (notFloat : ∀ number, amount ≠ .float number) :
      Flaw earlier (.action plan) (.nonNumericIncrement plan.label.name)
  | closed (label : Label) :
      Flaw earlier (.acknowledge label []) (.noPermittedIdentities label.name)

/-- The defect is a flaw of the first node that has any. -/
def FirstFlaw (plan : NodePlan) (defect : Defect) : Prop :=
  ∃ before part after, plan.parts = before ++ part :: after ∧
    Flaw (before.map name) part defect ∧
    ∀ front one rest, before = front ++ one :: rest → ∀ other, ¬Flaw (front.map name) one other

/-- Nothing is wrong with a plan. -/
structure Sound (plan : NodePlan) : Prop where
  named : ∀ part ∈ plan.parts, Text.Shows part.name
  distinct : (plan.parts.map name).Nodup
  rows : ∀ label flow memory, .row label flow memory [] ∉ plan.parts
  parallels : ∀ label policy synchronise, .parallel label policy synchronise [] ∉ plan.parts
  conditions : ∀ check, .condition check ∈ plan.parts → Text.Shows check.check.pv
  actions : ∀ act, .action act ∈ plan.parts →
    Text.Shows act.pv ∧ (∀ termination ∈ act.termination, Text.Shows termination.check.pv) ∧
      act.loopPeriod ≠ some 0 ∧ act.timeout ≠ some 0 ∧
      ∀ amount, act.task = .increment amount →
        (∃ number, amount = .int number) ∨ ∃ number, amount = .float number
  acknowledgements : ∀ label, .acknowledge label [] ∉ plan.parts

end NodePlan

/-! Single tests. -/

namespace Inspection

theorem bind_eq_ok_iff {Found Next : Type} {first : Except Defect Found}
    {second : Found → Except Defect Next} {after : Next} :
    (first >>= second) = .ok after ↔ ∃ found, first = .ok found ∧ second found = .ok after := by
  cases first <;> simp [bind, Except.bind]

theorem bind_eq_error_iff {Found Next : Type} {first : Except Defect Found}
    {second : Found → Except Defect Next} {defect : Defect} :
    (first >>= second) = .error defect ↔
      first = .error defect ∨ ∃ found, first = .ok found ∧ second found = .error defect := by
  cases first <;> simp [bind, Except.bind]

theorem register_eq_ok_iff {names after : List String} {name : String} :
    register names name = .ok after ↔
      Text.Shows name ∧ name ∉ names ∧ name :: names = after := by
  unfold register
  split
  next blank => simp [(Text.blank_iff name).mp blank]
  next shown =>
    have shows : Text.Shows name := by simpa [Text.blank_iff] using shown
    split
    next taken => simpa [shows] using fun fresh => absurd (by simpa using taken) fresh
    next fresh =>
      have apart : name ∉ names := by simpa using fresh
      simp [shows, apart]

theorem register_eq_error_iff {names : List String} {name : String} {defect : Defect} :
    register names name = .error defect ↔
      ¬Text.Shows name ∧ defect = .emptyName ∨
        Text.Shows name ∧ name ∈ names ∧ defect = .duplicateName name := by
  unfold register
  split
  next blank => simp [(Text.blank_iff name).mp blank, eq_comm]
  next shown =>
    have shows : Text.Shows name := by simpa [Text.blank_iff] using shown
    split
    next taken =>
      have before : name ∈ names := by simpa using taken
      simp [shows, before, eq_comm]
    next fresh =>
      have apart : name ∉ names := by simpa using fresh
      simp [shows, apart]

theorem require_pv_eq_ok_iff {names after : List String} {node pv : String} :
    requirePv names node pv = .ok after ↔ Text.Shows pv ∧ names = after := by
  unfold requirePv
  split
  next blank => simp [(Text.blank_iff pv).mp blank]
  next shown =>
    have shows : Text.Shows pv := by simpa [Text.blank_iff] using shown
    simp [shows]

theorem require_pv_eq_error_iff {names : List String} {node pv : String} {defect : Defect} :
    requirePv names node pv = .error defect ↔ ¬Text.Shows pv ∧ defect = .emptyPv node := by
  unfold requirePv
  split
  next blank => simp [(Text.blank_iff pv).mp blank, eq_comm]
  next shown =>
    have shows : Text.Shows pv := by simpa [Text.blank_iff] using shown
    simp [shows]

theorem require_positive_eq_ok_iff {names after : List String} {node field : String}
    {time : Option Nat} :
    requirePositive names node field time = .ok after ↔ time ≠ some 0 ∧ names = after := by
  unfold requirePositive
  split <;> simp_all

theorem require_positive_eq_error_iff {names : List String} {node field : String}
    {time : Option Nat} {defect : Defect} :
    requirePositive names node field time = .error defect ↔
      time = some 0 ∧ defect = .nonPositive node field := by
  unfold requirePositive
  split <;> simp_all [eq_comm]

end Inspection

/-! Single nodes. -/

namespace ActionPlan

open Inspection

theorem inspect_timing_eq_ok_iff {act : ActionPlan} {names after : List String} :
    act.inspectTiming names = .ok after ↔
      Text.Shows act.label.name ∧ act.label.name ∉ names ∧
        (∀ pv ∈ NodePlan.pvs (.action act), Text.Shows pv) ∧
        act.loopPeriod ≠ some 0 ∧ act.timeout ≠ some 0 ∧ act.label.name :: names = after := by
  unfold inspectTiming
  cases ends : act.termination with
  | none =>
      simp [bind_eq_ok_iff, register_eq_ok_iff, require_pv_eq_ok_iff, require_positive_eq_ok_iff,
        NodePlan.pvs, ends, and_assoc]
  | some termination =>
      simp only [bind_eq_ok_iff, register_eq_ok_iff, require_pv_eq_ok_iff,
        require_positive_eq_ok_iff, NodePlan.pvs, ends, Option.map_some, Option.toList_some,
        List.forall_mem_cons, List.not_mem_nil, false_implies, implies_true, and_true]
      constructor
      · rintro ⟨_, ⟨shows, fresh, rfl⟩, _, ⟨aims, rfl⟩, _, ⟨period, rfl⟩, _, ⟨timeout, rfl⟩, looks,
          rfl⟩
        exact ⟨shows, fresh, ⟨aims, looks⟩, period, timeout, rfl⟩
      · rintro ⟨shows, fresh, ⟨aims, looks⟩, period, timeout, rfl⟩
        exact ⟨_, ⟨shows, fresh, rfl⟩, _, ⟨aims, rfl⟩, _, ⟨period, rfl⟩, _, ⟨timeout, rfl⟩, looks,
          rfl⟩

theorem inspect_timing_flaw {act : ActionPlan} {names : List String} {defect : Defect}
    (refused : act.inspectTiming names = .error defect) :
    NodePlan.Flaw names (.action act) defect := by
  have named : NodePlan.name (.action act) = act.label.name := rfl
  rw [inspectTiming, bind_eq_error_iff] at refused
  rcases refused with refused | ⟨_, _, refused⟩
  · rcases register_eq_error_iff.mp refused with ⟨blank, rfl⟩ | ⟨-, taken, rfl⟩
    · exact .nameless blank
    · exact .repeated taken
  rcases bind_eq_error_iff.mp refused with refused | ⟨_, _, refused⟩
  · obtain ⟨blank, rfl⟩ := require_pv_eq_error_iff.mp refused
    exact named ▸ .aimless (by simp [NodePlan.pvs]) blank
  rcases bind_eq_error_iff.mp refused with refused | ⟨_, _, refused⟩
  · obtain ⟨zero, rfl⟩ := require_positive_eq_error_iff.mp refused
    exact named ▸ .timeless (by simp [NodePlan.times, zero])
  rcases bind_eq_error_iff.mp refused with refused | ⟨_, _, refused⟩
  · obtain ⟨zero, rfl⟩ := require_positive_eq_error_iff.mp refused
    exact named ▸ .timeless (by simp [NodePlan.times, zero])
  cases ends : act.termination with
  | none => simp [ends] at refused
  | some termination =>
      rw [ends] at refused
      obtain ⟨blank, rfl⟩ := require_pv_eq_error_iff.mp refused
      exact named ▸ .aimless (by simp [NodePlan.pvs, ends]) blank

end ActionPlan

namespace NodePlan

open Inspection

/-- The inspection of a node apart from those below it. -/
def inspectAlone (names : List String) : NodePlan → Inspection
  | .condition check => check.inspect names
  | .acknowledge label permitted => inspect (.acknowledge label permitted) names
  | .action act => act.inspect names
  | .row label _ _ children | .parallel label _ _ children =>
      requireChildren label children names
  | .checkAndDo label _ _ => Inspection.register names label.name

theorem require_children_eq_ok_iff {label : Label} {children : List NodePlan}
    {names after : List String} :
    requireChildren label children names = .ok after ↔
      Text.Shows label.name ∧ label.name ∉ names ∧ children ≠ [] ∧ label.name :: names = after := by
  unfold requireChildren
  cases children <;> simp [bind_eq_ok_iff, register_eq_ok_iff, and_assoc]

theorem require_children_flaw {part : NodePlan} {names : List String} {defect : Defect}
    (composite : part.isComposite = true)
    (refused : requireChildren part.label part.children names = .error defect) :
    Flaw names part defect := by
  rw [requireChildren, bind_eq_error_iff] at refused
  rcases refused with refused | ⟨_, _, refused⟩
  · rcases register_eq_error_iff.mp refused with ⟨blank, rfl⟩ | ⟨-, taken, rfl⟩
    · exact .nameless blank
    · exact .repeated taken
  · split at refused
    next none =>
      cases refused
      exact .childless composite (by simpa using none)
    next => cases refused

/-- A node that is refused has a flaw. -/
theorem inspect_alone_flaw {part : NodePlan} {names : List String} {defect : Defect}
    (refused : part.inspectAlone names = .error defect) : Flaw names part defect := by
  cases part with
  | condition check =>
      rw [inspectAlone, ConditionPlan.inspect, bind_eq_error_iff] at refused
      rcases refused with refused | ⟨_, _, refused⟩
      · rcases register_eq_error_iff.mp refused with ⟨blank, rfl⟩ | ⟨-, taken, rfl⟩
        · exact .nameless blank
        · exact .repeated taken
      · obtain ⟨blank, rfl⟩ := require_pv_eq_error_iff.mp refused
        have aims : check.check.pv ∈ pvs (.condition check) := by simp [pvs]
        exact .aimless aims blank
  | acknowledge label permitted =>
      rw [inspectAlone, inspect, bind_eq_error_iff] at refused
      rcases refused with refused | ⟨_, _, refused⟩
      · rcases register_eq_error_iff.mp refused with ⟨blank, rfl⟩ | ⟨-, taken, rfl⟩
        · exact .nameless blank
        · exact .repeated taken
      · split at refused
        next none =>
          cases refused
          obtain rfl : permitted = [] := by simpa using none
          exact .closed label
        next => cases refused
  | action act =>
      rw [inspectAlone, ActionPlan.inspect] at refused
      split at refused
      next => exact ActionPlan.inspect_timing_flaw refused
      next amount task =>
        split at refused
        next => exact ActionPlan.inspect_timing_flaw refused
        next other =>
          cases refused
          refine .uncountable task ?_ ?_ <;> rintro number rfl <;> exact other rfl
  | row label flow memory children => exact require_children_flaw rfl refused
  | parallel label policy synchronise children => exact require_children_flaw rfl refused
  | checkAndDo label check act =>
      rcases register_eq_error_iff.mp refused with ⟨blank, rfl⟩ | ⟨-, taken, rfl⟩
      · exact .nameless blank
      · exact .repeated taken

/-- What a node has to show for itself, besides a name that no node before it has. -/
def IsWhole : NodePlan → Prop
  | .condition check => Text.Shows check.check.pv
  | .acknowledge _ permitted => permitted ≠ []
  | .action act =>
      (∀ pv ∈ pvs (.action act), Text.Shows pv) ∧ act.loopPeriod ≠ some 0 ∧
        act.timeout ≠ some 0 ∧
        ∀ amount, act.task = .increment amount →
          (∃ number, amount = .int number) ∨ ∃ number, amount = .float number
  | .row _ _ _ children | .parallel _ _ _ children => children ≠ []
  | .checkAndDo _ _ _ => True

theorem inspect_alone_eq_ok_iff {part : NodePlan} {names after : List String} :
    part.inspectAlone names = .ok after ↔
      Text.Shows part.name ∧ part.name ∉ names ∧ part.IsWhole ∧ part.name :: names = after := by
  cases part with
  | condition check =>
      simp [inspectAlone, ConditionPlan.inspect, bind_eq_ok_iff, register_eq_ok_iff,
        require_pv_eq_ok_iff, IsWhole, name, label, and_assoc]
  | acknowledge label permitted =>
      cases permitted <;>
        simp [inspectAlone, inspect, bind_eq_ok_iff, register_eq_ok_iff, IsWhole, name,
          NodePlan.label, and_assoc]
  | action act =>
      have same : NodePlan.name (.action act) = act.label.name := rfl
      rw [inspectAlone, ActionPlan.inspect, IsWhole, same]
      split
      next value task =>
        simp [ActionPlan.inspect_timing_eq_ok_iff, task, and_assoc]
      next amount task =>
        cases amount <;>
          simp [ActionPlan.inspect_timing_eq_ok_iff, task, Value.isNumeric, and_assoc]
  | row label flow memory children => exact require_children_eq_ok_iff
  | parallel label policy synchronise children => exact require_children_eq_ok_iff
  | checkAndDo label check act =>
      simp [inspectAlone, register_eq_ok_iff, IsWhole, name, NodePlan.label]

theorem IsWhole.unflawed {part : NodePlan} (whole : part.IsWhole) {names : List String}
    (shows : Text.Shows part.name) (fresh : part.name ∉ names) (defect : Defect) :
    ¬Flaw names part defect := by
  intro flaw
  cases flaw with
  | nameless blank => exact blank shows
  | repeated taken => exact fresh taken
  | childless composite none =>
      cases part with
      | row | parallel => exact whole none
      | condition | acknowledge | action | checkAndDo => cases composite
  | aimless aims blank =>
      cases part with
      | condition check =>
          obtain rfl := List.mem_singleton.mp aims
          exact blank whole
      | action act => exact blank (whole.1 _ aims)
      | acknowledge | row | parallel | checkAndDo => cases aims
  | timeless given =>
      cases part with
      | action act => simp [times, whole.2.1.symm, whole.2.2.1.symm] at given
      | condition | acknowledge | row | parallel | checkAndDo => cases given
  | uncountable task notInt notFloat =>
      rcases whole.2.2.2 _ task with ⟨number, int⟩ | ⟨number, float⟩
      · exact notInt number int
      · exact notFloat number float
  | closed => exact whole rfl

/-! The scan. -/

/-- The inspection of some nodes one after another. -/
def scan (names : List String) (nodes : List NodePlan) : Inspection :=
  nodes.foldlM inspectAlone names

theorem scan_cons (names : List String) (node : NodePlan) (rest : List NodePlan) :
    scan names (node :: rest) = node.inspectAlone names >>= (scan · rest) := by
  rw [scan, List.foldlM_cons]
  rfl

theorem scan_append (names : List String) (front rest : List NodePlan) :
    scan names (front ++ rest) = scan names front >>= (scan · rest) := by
  rw [scan, List.foldlM_append]
  rfl

theorem inspect_all_eq_scan {children : List NodePlan}
    (each : ∀ child ∈ children, ∀ names, child.inspect names = scan names child.parts)
    (names : List String) : inspectAll children names = scan names (children.flatMap parts) := by
  induction children generalizing names with
  | nil => rfl
  | cons child rest ih =>
      rw [inspectAll, List.flatMap_cons, scan_append, each child (by simp)]
      congr 1
      funext later
      exact ih (fun other member => each other (List.mem_cons_of_mem child member)) later

theorem inspect_eq_scan (plan : NodePlan) (names : List String) :
    plan.inspect names = scan names plan.parts := by
  induction plan using induct generalizing names with
  | step plan ih =>
      have below : ∀ later, inspectAll plan.children later =
          scan later (plan.children.flatMap parts) := inspect_all_eq_scan ih
      rw [parts_eq, scan_cons]
      cases plan with
      | condition | acknowledge | action => simp [inspectAlone, inspect, children, scan]
      | row label flow memory children | parallel label policy synchronise children =>
          rw [inspect, inspectAlone]
          congr 1
          funext later
          exact below later
      | checkAndDo label check act =>
          simp [inspect, inspectAlone, children, parts, scan]

theorem scan_eq_ok_iff {nodes : List NodePlan} {names after : List String} :
    scan names nodes = .ok after ↔
      (∀ node ∈ nodes, Text.Shows node.name ∧ node.name ∉ names ∧ node.IsWhole) ∧
        (nodes.map name).Nodup ∧ (nodes.map name).reverse ++ names = after := by
  induction nodes generalizing names with
  | nil => simp [scan, pure, Except.pure]
  | cons node rest ih =>
      rw [scan_cons, bind_eq_ok_iff]
      simp only [inspect_alone_eq_ok_iff, ih]
      constructor
      · rintro ⟨_, ⟨shows, fresh, whole, rfl⟩, others, apart, rfl⟩
        refine ⟨?_, ?_, by simp⟩
        · intro other member
          rcases List.mem_cons.mp member with rfl | later
          · exact ⟨shows, fresh, whole⟩
          · obtain ⟨shown, unseen, sound⟩ := others other later
            exact ⟨shown, fun taken => unseen (List.mem_cons_of_mem _ taken), sound⟩
        · rw [List.map_cons, List.nodup_cons]
          refine ⟨fun again => ?_, apart⟩
          obtain ⟨other, later, same⟩ := List.mem_map.mp again
          exact (others other later).2.1 (by simp [same])
      · rintro ⟨each, apart, rfl⟩
        rw [List.map_cons, List.nodup_cons] at apart
        obtain ⟨shows, fresh, whole⟩ := each node (by simp)
        refine ⟨_, ⟨shows, fresh, whole, rfl⟩, ?_, apart.2, by simp⟩
        intro other later
        obtain ⟨shown, unseen, sound⟩ := each other (List.mem_cons_of_mem node later)
        refine ⟨shown, fun taken => ?_, sound⟩
        rcases List.mem_cons.mp taken with same | earlier
        · exact apart.1 (same ▸ List.mem_map_of_mem later)
        · exact unseen earlier

/-- A scan that was refused came through to the node that has the flaw. -/
theorem scan_refused {nodes : List NodePlan} {names : List String} {defect : Defect}
    (refused : scan names nodes = .error defect) :
    ∃ before node after seen, nodes = before ++ node :: after ∧ scan names before = .ok seen ∧
      Flaw seen node defect := by
  induction nodes generalizing names with
  | nil => cases refused
  | cons node rest ih =>
      rw [scan_cons, bind_eq_error_iff] at refused
      rcases refused with here | ⟨seen, passed, later⟩
      · exact ⟨[], node, rest, names, rfl, rfl, inspect_alone_flaw here⟩
      · obtain ⟨before, flawed, after, known, rfl, through, flaw⟩ := ih later
        refine ⟨node :: before, flawed, after, known, rfl, ?_, flaw⟩
        rw [scan_cons, passed]
        exact through

theorem Flaw.of_same_names {first second : List String} {part : NodePlan} {defect : Defect}
    (flaw : Flaw first part defect) (same : ∀ name, name ∈ first → name ∈ second) :
    Flaw second part defect := by
  cases flaw with
  | nameless blank => exact .nameless blank
  | repeated taken => exact .repeated (same _ taken)
  | childless composite none => exact .childless composite none
  | aimless aims blank => exact .aimless aims blank
  | timeless given => exact .timeless given
  | uncountable task notInt notFloat => exact .uncountable task notInt notFloat
  | closed => exact .closed _

/-- The nodes that a scan came through have no flaw. -/
theorem scan_unflawed {front rest : List NodePlan} {node : NodePlan} {seen : List String}
    (passed : scan [] (front ++ node :: rest) = .ok seen) (defect : Defect) :
    ¬Flaw (front.map name) node defect := by
  rw [scan_append, bind_eq_ok_iff] at passed
  obtain ⟨known, early, late⟩ := passed
  rw [scan_cons, bind_eq_ok_iff] at late
  obtain ⟨_, here, -⟩ := late
  obtain ⟨shows, fresh, whole, -⟩ := inspect_alone_eq_ok_iff.mp here
  obtain ⟨-, -, rfl⟩ := scan_eq_ok_iff.mp early
  intro flaw
  exact whole.unflawed shows fresh defect (flaw.of_same_names (by simp))

theorem first_flaw_of_refused {plan : NodePlan} {defect : Defect}
    (refused : plan.inspect [] = .error defect) : plan.FirstFlaw defect := by
  rw [inspect_eq_scan] at refused
  obtain ⟨before, part, after, seen, split, passed, flaw⟩ := scan_refused refused
  refine ⟨before, part, after, split, ?_, ?_⟩
  · obtain ⟨-, -, rfl⟩ := scan_eq_ok_iff.mp passed
    exact flaw.of_same_names (by simp)
  · rintro front one rest rfl other
    exact scan_unflawed passed other

theorem sound_iff {plan : NodePlan} :
    plan.Sound ↔
      (∀ part ∈ plan.parts, Text.Shows part.name ∧ part.IsWhole) ∧ (plan.parts.map name).Nodup := by
  constructor
  · intro sound
    refine ⟨fun part inside => ⟨sound.named part inside, ?_⟩, sound.distinct⟩
    cases part with
    | condition check => exact sound.conditions check inside
    | acknowledge label permitted =>
        rintro rfl
        exact sound.acknowledgements label inside
    | action act =>
        obtain ⟨aims, looks, period, timeout, counts⟩ := sound.actions act inside
        refine ⟨?_, period, timeout, counts⟩
        simpa [pvs] using ⟨aims, looks⟩
    | row label flow memory children =>
        rintro rfl
        exact sound.rows label flow memory inside
    | parallel label policy synchronise children =>
        rintro rfl
        exact sound.parallels label policy synchronise inside
    | checkAndDo => trivial
  · rintro ⟨each, distinct⟩
    exact
      { named := fun part inside => (each part inside).1
        distinct
        rows := fun _ _ _ inside => (each _ inside).2 rfl
        parallels := fun _ _ _ inside => (each _ inside).2 rfl
        conditions := fun _ inside => (each _ inside).2
        actions := by
          intro act inside
          obtain ⟨aims, period, timeout, counts⟩ := (each _ inside).2
          obtain ⟨own, looks⟩ := List.forall_mem_cons.mp aims
          exact ⟨own, by simpa using looks, period, timeout, counts⟩
        acknowledgements := fun _ inside => (each _ inside).2 rfl }

theorem inspect_eq_ok_iff {plan : NodePlan} :
    (∃ names, plan.inspect [] = .ok names) ↔ plan.Sound := by
  rw [sound_iff]
  simp only [inspect_eq_scan, scan_eq_ok_iff]
  simp

end NodePlan

/-! What goes by the inspection. -/

theorem Node.setup_all_fault {children : List Node}
    (each : ∀ child ∈ children, child.setup.fault = none) : (setupAll children).fault = none := by
  induction children with
  | nil => rfl
  | cons child rest ih =>
      have others := ih fun other member => each other (List.mem_cons_of_mem child member)
      simp [setupAll, each child (by simp), others]

namespace NodePlan

theorem nodes_eq_map (timing : Timing) (children : List NodePlan) :
    nodes timing children = children.map (node timing) := by
  induction children with
  | nil => rfl
  | cons child rest ih => rw [nodes, ih, List.map_cons]

/-- A tree as it is built can be set up. -/
theorem node_setup_fault (timing : Timing) (plan : NodePlan) :
    (plan.node timing).setup.fault = none := by
  induction plan using induct with
  | step plan ih =>
      have below : (Node.setupAll (plan.children.map (node timing))).fault = none := by
        apply Node.setup_all_fault
        intro child member
        obtain ⟨part, inside, rfl⟩ := List.mem_map.mp member
        exact ih part inside
      cases plan with
      | condition | acknowledge | action => rfl
      | row label flow memory children | parallel label policy synchronise children =>
          rw [node, nodes_eq_map]
          exact below
      | checkAndDo => rfl

end NodePlan

namespace TreePlan

theorem inspect_eq_ok_iff (plan : TreePlan) : plan.inspect = .ok () ↔ plan.root.Sound := by
  rw [inspect, ← NodePlan.inspect_eq_ok_iff]
  cases plan.root.inspect [] <;> simp [Except.map]

theorem first_flaw (plan : TreePlan) {defect : Defect} (refused : plan.inspect = .error defect) :
    plan.root.FirstFlaw defect := by
  apply NodePlan.first_flaw_of_refused
  rw [inspect] at refused
  cases inspected : plan.root.inspect [] with
  | ok names => simp [inspected, Except.map] at refused
  | error found => simpa [inspected, Except.map] using refused

theorem build_eq (plan : TreePlan) (timing : Timing) :
    plan.build timing = plan.inspect.map fun _ => plan.root.node timing := rfl

theorem load_answer (plan : TreePlan) (manager : Manager) :
    (manager.load plan).2 =
      (plan.inspect.mapError ManagerFault.defect).map fun _ => .number manager.loaded := by
  rw [Manager.load, build_eq]
  cases plan.inspect with
  | error defect => rfl
  | ok =>
      have ready : (Ticker.setup { root := plan.root.node manager.timing }).fault = none :=
        NodePlan.node_setup_fault manager.timing plan.root
      change _ = Except.ok (TreeId.number manager.loaded)
      simp [Except.map, ready]

theorem validate_code (plan : TreePlan) {request : CommandLine.Request} {start : CommandLine.Start}
    (validates : request.errand = .validate)
    (read : TreePlan.load start.disk request.tree = .ok plan) (input : String) :
    ∃ outcome, request.perform start input = some outcome ∧
      (outcome.code = 0 ↔ plan.inspect = .ok ()) := by
  have loaded : CommandLine.loadPlan start.disk request.tree = .ok plan := by
    rw [CommandLine.loadPlan, read]
    rfl
  refine ⟨_, by rw [CommandLine.Request.perform, validates], ?_⟩
  rw [CommandLine.validate, loaded]
  cases inspected : plan.inspect with
  | ok => simp [defect?, inspected, bind, Except.bind, CommandLine.Outcome.ofResult]
  | error defect =>
      simp [defect?, inspected, bind, Except.bind, CommandLine.Outcome.ofResult,
        CommandLine.Outcome.failure]

/-- A plan is accepted exactly when it is sound, and refused for a flaw of the first node that has
one; and a tree is built and loaded, and a file found valid, exactly when its plan is accepted. -/
theorem accepted_when_sound (plan : TreePlan) :
    (plan.inspect = .ok () ↔ plan.root.Sound) ∧
    (∀ defect, plan.inspect = .error defect → plan.root.FirstFlaw defect) ∧
    (∀ timing, (∃ root, plan.build timing = .ok root) ↔ plan.inspect = .ok ()) ∧
    (∀ timing defect, plan.build timing = .error defect ↔ plan.inspect = .error defect) ∧
    (∀ manager : Manager, (∃ id, (manager.load plan).2 = .ok id) ↔ plan.inspect = .ok ()) ∧
    (∀ (manager : Manager) (defect : Defect),
      (manager.load plan).2 = .error (.defect defect) ↔ plan.inspect = .error defect) ∧
    (∀ (request : CommandLine.Request) (start : CommandLine.Start) (input : String),
      request.errand = .validate → TreePlan.load start.disk request.tree = .ok plan →
        ∃ outcome, request.perform start input = some outcome ∧
          (outcome.code = 0 ↔ plan.inspect = .ok ())) := by
  refine ⟨inspect_eq_ok_iff plan, fun _ => first_flaw plan, ?_, ?_, ?_, ?_, ?_⟩
  · intro timing
    rw [build_eq]
    cases plan.inspect <;> simp [Except.map]
  · intro timing defect
    rw [build_eq]
    cases plan.inspect <;> simp [Except.map]
  · intro manager
    rw [load_answer]
    cases plan.inspect with
    | ok => exact iff_of_true ⟨_, rfl⟩ rfl
    | error => exact iff_of_false (fun ⟨_, answer⟩ => nomatch answer) nofun
  · intro manager defect
    rw [load_answer]
    cases plan.inspect with
    | ok => exact iff_of_false nofun nofun
    | error found =>
        constructor
        · intro answer
          cases answer
          rfl
        · intro refused
          cases refused
          rfl
  · intro request start input validates read
    exact validate_code plan validates read input

/-- A repeated name is the fault of the second bearer, even if that has no process variable. -/
example :
    TreePlan.defect?
        { label := { name := "twice" }
          root := .row { name := "both" } .sequence false
            [.condition ⟨{ name := "high" }, ⟨"height", .ge, .int 5⟩⟩,
              .condition ⟨{ name := "high" }, ⟨"", .ge, .int 5⟩⟩] } =
      some (.duplicateName "high") := by
  decide

end TreePlan

end BehaviorTree
