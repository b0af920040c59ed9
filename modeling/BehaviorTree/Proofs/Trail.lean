import BehaviorTree.Proofs.Ticking

/-!
The trail of a tick: which positions it ticks, in the order in which they are done with. Its names
and answers are the visits that the tick records, and no position occurs in it twice.
-/

namespace BehaviorTree.Node

/-- A visit with the position of the node, and whether the node was initialised for it. -/
structure Footstep extends Visit where
  path : Path
  entered : Bool
  deriving DecidableEq, Repr

def Footstep.below (index : Nat) (step : Footstep) : Footstep :=
  { step with path := index :: step.path }

/-- The footstep that ticking the node at a position leaves. -/
def footstep (surroundings : Surroundings) (path : Path) (node : Node) : Footstep :=
  { name := node.name
    status := answer surroundings node
    path
    entered := node.status != .running }

mutual

def trail (surroundings : Surroundings) : Node → List Footstep
  | .leaf state content => [footstep surroundings [] (.leaf state content)]
  | .branch state rule children =>
      trailBelow surroundings (treatment surroundings (rule.atEntry state.status) children) 0
        children ++ [footstep surroundings [] (.branch state rule children)]

def trailBelow (surroundings : Surroundings) (treatments : Nat → Treatment) :
    Nat → List Node → List Footstep
  | _, [] => []
  | index, child :: rest =>
      (if treatments index = .ticked then (trail surroundings child).map (·.below index)
        else []) ++ trailBelow surroundings treatments (index + 1) rest

end

variable (surroundings : Surroundings)

/-! The trail and the recorded visits. -/

def visitsBelow (treatments : Nat → Treatment) : List Node → List Visit
  | [] => []
  | child :: rest =>
      (if treatments 0 = .ticked then (tick surroundings child).journal.visits else []) ++
        visitsBelow (fun index => treatments (index + 1)) rest

theorem visits_below_congr {first second : Nat → Treatment}
    (same : ∀ index, first index = .ticked ↔ second index = .ticked) (children : List Node) :
    visitsBelow surroundings first children = visitsBelow surroundings second children := by
  induction children generalizing first second with
  | nil => rfl
  | cons child rest induction =>
      rw [visitsBelow, visitsBelow, induction fun index => same (index + 1)]
      simp only [same 0]

theorem visits_below_rested (children : List Node) :
    visitsBelow surroundings (fun _ => .rested) children = [] := by
  induction children with
  | nil => rfl
  | cons child rest induction =>
      rw [visitsBelow, induction]
      rfl

theorem sweep_visits (onward : Status) (skip : Nat) (children : List Node) :
    (sweep surroundings onward skip children).journal.visits =
      visitsBelow surroundings
        (sweepTreatment skip (sweep surroundings onward skip children).passed) children := by
  induction children generalizing skip with
  | nil => rfl
  | cons child rest induction =>
      cases skip with
      | succ skip =>
          rw [sweep, visitsBelow]
          dsimp only
          simp only [sweep_treatment_succ]
          rw [induction]
          rfl
      | zero =>
          rw [sweep]
          split
          next answered =>
            rw [visitsBelow]
            dsimp only
            simp only [sweep_treatment_passed]
            rw [← induction]
            rfl
          next refused =>
            have rest := visits_below_rested surroundings rest
            rw [visitsBelow]
            simp [sweepTreatment, rest]

theorem gather_visits (synchronise : Bool) (settled : List Bool) (children : List Node) :
    (gather surroundings synchronise settled children).journal.visits =
      visitsBelow surroundings (gatherTreatment synchronise settled) children := by
  induction children generalizing settled with
  | nil => simp [gather, visitsBelow]
  | cons child rest induction =>
      cases settled with
      | nil => exact (visits_below_rested surroundings (child :: rest)).symm
      | cons done settled =>
          rw [gather, visitsBelow]
          simp only [gather_treatment_succ]
          split
          next resting =>
            simp only [gatherTreatment, List.getElem?_cons_zero, resting, if_true]
            exact induction settled
          next working =>
            simp only [gatherTreatment, List.getElem?_cons_zero, working]
            exact congrArg ((tick surroundings child).journal.visits ++ ·) (induction settled)

theorem reactive_visits (rule : Rule) (flow : Flow) (children : List Node) :
    (decideReactive rule flow (sweep surroundings flow.onward 0 children)).journal.visits =
      visitsBelow surroundings
        (reactiveTreatment (sweep surroundings flow.onward 0 children).passed) children := by
  have same : ∀ index,
      sweepTreatment 0 (sweep surroundings flow.onward 0 children).passed index = .ticked ↔
        reactiveTreatment (sweep surroundings flow.onward 0 children).passed index = .ticked := by
    intro index
    unfold sweepTreatment reactiveTreatment
    split <;> split <;> simp <;> omega
  rw [← visits_below_congr surroundings same, ← sweep_visits, decideReactive]
  split
  · rfl
  · exact List.append_nil _

theorem decision_visits (rule : Rule) (children : List Node) :
    (decision surroundings rule children).journal.visits =
      visitsBelow surroundings (treatment surroundings rule children) children := by
  cases rule with
  | reactive flow => exact reactive_visits surroundings _ flow children
  | memory flow start => exact sweep_visits surroundings flow.onward start children
  | parallel policy synchronise settled =>
      exact gather_visits surroundings synchronise settled children
  | checkAndDo => exact reactive_visits surroundings _ .selector children

theorem conclude_visits (state : NodeState) (decided : Decided) :
    (conclude state decided).journal.visits =
      decided.journal.visits ++ [⟨state.name, decided.status⟩] := by
  unfold conclude
  by_cases running : decided.status = .running
  · rw [if_pos running]
    rfl
  · rw [if_neg running]
    have silent : decided.journal.visits ++ [] = decided.journal.visits := List.append_nil _
    exact congrArg (fun visits => visits ++ [Visit.mk state.name decided.status]) silent

/-- The trail tells the same visits as the tick records. -/
theorem trail_visits (node : Node) :
    (trail surroundings node).map (·.toVisit) = (tick surroundings node).journal.visits := by
  induction node with
  | leaf state content => rfl
  | branch state rule children induction =>
      have below : ∀ treatments start,
          (trailBelow surroundings treatments start children).map (·.toVisit) =
            visitsBelow surroundings (fun index => treatments (start + index)) children := by
        intro treatments start
        induction children generalizing start with
        | nil => rfl
        | cons child rest later =>
            have first := induction child (by simp)
            have others := later (fun other member => induction other (by simp [member]))
              (start + 1)
            have shifted : (fun index => treatments (start + 1 + index)) =
                fun index => treatments (start + (index + 1)) := by
              funext index
              congr 1
              omega
            rw [trailBelow, visitsBelow, List.map_append, others, shifted, Nat.add_zero, ← first]
            split
            · rw [List.map_map]
              rfl
            · rfl
      rw [trail, List.map_append, below, tick_branch, conclude_visits, decision_visits]
      simp only [Nat.zero_add, List.map_cons, List.map_nil, footstep, answer_branch]
      rfl

/-! The footsteps at one position. -/

def stepsAt (path : Path) (steps : List Footstep) : List Footstep :=
  steps.filter (·.path = path)

theorem steps_at_append (path : Path) (first second : List Footstep) :
    stepsAt path (first ++ second) = stepsAt path first ++ stepsAt path second :=
  List.filter_append _ _

theorem steps_at_below (index place : Nat) (path : Path) (steps : List Footstep) :
    stepsAt (index :: path) (steps.map (·.below place)) =
      if place = index then (stepsAt path steps).map (·.below index) else [] := by
  unfold stepsAt
  rw [List.filter_map]
  split
  next same =>
    subst same
    congr 1
    apply List.filter_congr
    intro step _
    simp [Footstep.below]
  next apart =>
    rw [List.map_eq_nil_iff, List.filter_eq_nil_iff]
    intro step _
    simp [Footstep.below, apart]

theorem steps_at_earlier (treatments : Nat → Treatment) {start index : Nat}
    (before : index < start) (path : Path) (children : List Node) :
    stepsAt (index :: path) (trailBelow surroundings treatments start children) = [] := by
  induction children generalizing start with
  | nil => rfl
  | cons child rest induction =>
      rw [trailBelow, steps_at_append, induction (by omega), List.append_nil]
      split
      · rw [steps_at_below, if_neg (by omega)]
      · rfl

/-- Below a branch only its ticked children leave footsteps, each those of its own tick. -/
theorem steps_at_children (treatments : Nat → Treatment) (start index : Nat) (path : Path)
    (children : List Node) :
    stepsAt ((start + index) :: path) (trailBelow surroundings treatments start children) =
      match children[index]? with
      | none => []
      | some child =>
          if treatments (start + index) = .ticked then
            (stepsAt path (trail surroundings child)).map (·.below (start + index))
          else [] := by
  induction children generalizing start index with
  | nil => rfl
  | cons child rest induction =>
      rw [trailBelow, steps_at_append]
      cases index with
      | zero =>
          rw [Nat.add_zero, steps_at_earlier surroundings treatments (Nat.lt_succ_self start),
            List.append_nil, List.getElem?_cons_zero]
          dsimp only
          split
          · rw [steps_at_below, if_pos rfl]
          · rfl
      | succ index =>
          have first : stepsAt ((start + (index + 1)) :: path)
              (if treatments start = .ticked then
                (trail surroundings child).map (·.below start) else []) = [] := by
            split
            · rw [steps_at_below, if_neg (by omega)]
            · rfl
          have shifted : start + (index + 1) = start + 1 + index := by omega
          rw [first, List.nil_append, List.getElem?_cons_succ, shifted]
          exact induction (start + 1) index

theorem steps_at_root (node : Node) :
    stepsAt [] (trail surroundings node) = [footstep surroundings [] node] := by
  cases node with
  | leaf state content => rfl
  | branch state rule children =>
      have below : ∀ start treatments,
          stepsAt [] (trailBelow surroundings treatments start children) = [] := by
        intro start treatments
        induction children generalizing start with
        | nil => rfl
        | cons child rest induction =>
            rw [trailBelow, steps_at_append, induction, List.append_nil]
            split
            · rw [stepsAt, List.filter_map, List.map_eq_nil_iff, List.filter_eq_nil_iff]
              intro step _
              simp [Footstep.below]
            · rfl
      rw [trail, steps_at_append, below]
      rfl

theorem steps_at_branch (state : NodeState) (rule : Rule) {children : List Node} {index : Nat}
    {child : Node} (found : children[index]? = some child) (path : Path) :
    stepsAt (index :: path) (trail surroundings (.branch state rule children)) =
      if treatment surroundings (rule.atEntry state.status) children index = .ticked then
        (stepsAt path (trail surroundings child)).map (·.below index)
      else [] := by
  have below := steps_at_children surroundings
    (treatment surroundings (rule.atEntry state.status) children) 0 index path children
  rw [Nat.zero_add, found] at below
  rw [trail, steps_at_append, below]
  exact List.append_nil _

/-- A position is ticked at most once, and then as it was before the tick. -/
theorem steps_at_cases {node sub : Node} {path : Path} (found : node.at? path = some sub) :
    stepsAt path (trail surroundings node) = [] ∨
      stepsAt path (trail surroundings node) = [footstep surroundings path sub] := by
  induction path generalizing node with
  | nil =>
      cases found
      exact Or.inr (steps_at_root surroundings _)
  | cons index path induction =>
      obtain ⟨state, rule, children, child, rfl, own, below⟩ := branch_of_at_cons found
      rw [steps_at_branch surroundings state rule own path]
      split
      · rcases induction below with none | once
        · exact Or.inl (by rw [none]; rfl)
        · exact Or.inr (by rw [once]; rfl)
      · exact Or.inl rfl

end BehaviorTree.Node
