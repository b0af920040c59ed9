import BehaviorTree.Node.Tick
import BehaviorTree.Proofs.Halting

/-!
What a tick does to the children of a branch. Each child is ticked, or passed over and stopped, or
left as it is; the rule of the branch decides which. The branch as a whole is then the decision of
its rule, concluded.
-/

namespace BehaviorTree

/-- The rule with which a branch of that status goes into a tick. -/
def Rule.atEntry (status : Status) (rule : Rule) : Rule :=
  if status = .running then rule else rule.initialise

namespace Node

/-- What becomes of a child while its branch comes to an answer. -/
inductive Treatment where
  | ticked
  /-- Not ticked, and halted if it was running. -/
  | stopped
  | rested
  deriving DecidableEq

def treated (surroundings : Surroundings) : Treatment → Node → Node
  | .ticked, child => (child.tick surroundings).node
  | .stopped, child => child.stilled
  | .rested, child => child

theorem treated_rested (surroundings : Surroundings) : treated surroundings .rested = id := rfl

/-! A row ticks the children from where it starts to the one that decides. -/

def sweepTreatment (skip passed index : Nat) : Treatment :=
  if skip ≤ index ∧ index ≤ skip + passed then .ticked else .rested

theorem sweep_treatment_succ (skip passed index : Nat) :
    sweepTreatment (skip + 1) passed (index + 1) = sweepTreatment skip passed index := by
  unfold sweepTreatment
  congr 1
  simp only [eq_iff_iff]
  omega

theorem sweep_treatment_passed (passed index : Nat) :
    sweepTreatment 0 (passed + 1) (index + 1) = sweepTreatment 0 passed index := by
  unfold sweepTreatment
  congr 1
  simp only [eq_iff_iff]
  omega

variable (surroundings : Surroundings)

theorem sweep_children (onward : Status) (skip : Nat) (children : List Node) (index : Nat) :
    (sweep surroundings onward skip children).children[index]? =
      children[index]?.map (treated surroundings
        (sweepTreatment skip (sweep surroundings onward skip children).passed index)) := by
  induction children generalizing skip index with
  | nil => simp [sweep]
  | cons child rest induction =>
      cases skip with
      | succ skip =>
          rw [sweep]
          cases index with
          | zero => simp [sweepTreatment, treated]
          | succ index =>
              rw [List.getElem?_cons_succ, List.getElem?_cons_succ, induction,
                sweep_treatment_succ]
      | zero =>
          rw [sweep]
          split
          · cases index with
            | zero => simp [sweepTreatment, treated]
            | succ index =>
                rw [List.getElem?_cons_succ, List.getElem?_cons_succ, induction,
                  sweep_treatment_passed]
          · cases index with
            | zero => simp [sweepTreatment, treated]
            | succ index => simp [sweepTreatment, treated_rested]

def answer (child : Node) : Status := (tick surroundings child).node.status

/-- The children before the deciding one all answer as the row needs to go on. -/
theorem sweep_passed {onward : Status} {skip : Nat} {children : List Node} {index : Nat}
    (lower : skip ≤ index)
    (upper : index < skip + (sweep surroundings onward skip children).passed) :
    children[index]?.map (answer surroundings) = some onward := by
  induction children generalizing skip index with
  | nil =>
      simp only [sweep] at upper
      omega
  | cons child rest induction =>
      cases skip with
      | succ skip =>
          rw [sweep] at upper
          dsimp only at upper
          obtain ⟨index, rfl⟩ : ∃ before, index = before + 1 := ⟨index - 1, by omega⟩
          exact @induction skip index (by omega) (by omega)
      | zero =>
          rw [sweep] at upper
          split at upper
          next answered =>
            dsimp only at upper
            cases index with
            | zero => simpa [answer] using answered
            | succ index => exact @induction 0 index (by omega) (by omega)
          next =>
            dsimp only at upper
            omega

/-- The verdict is what the deciding child answers. -/
theorem sweep_decider {onward : Status} {skip : Nat} {children : List Node} {verdict : Status}
    (decided : (sweep surroundings onward skip children).verdict = some verdict) :
    verdict ≠ onward ∧
      children[skip + (sweep surroundings onward skip children).passed]?.map
        (answer surroundings) = some verdict := by
  induction children generalizing skip with
  | nil => simp [sweep] at decided
  | cons child rest induction =>
      cases skip with
      | succ skip =>
          rw [sweep] at decided ⊢
          have later := induction decided
          rw [Nat.add_right_comm]
          exact later
      | zero =>
          rw [sweep] at decided ⊢
          split at decided
          next answered =>
            rw [if_pos answered]
            have later := induction decided
            rw [← Nat.add_assoc]
            exact later
          next refused =>
            rw [if_neg refused]
            cases decided
            exact ⟨refused, rfl⟩

/-- A row that nobody stops runs to its end. -/
theorem sweep_undecided {onward : Status} {skip : Nat} {children : List Node}
    (undecided : (sweep surroundings onward skip children).verdict = none) :
    children.length ≤ skip + (sweep surroundings onward skip children).passed := by
  induction children generalizing skip with
  | nil => simp
  | cons child rest induction =>
      cases skip with
      | succ skip =>
          rw [sweep] at undecided ⊢
          have later := induction undecided
          simp only [List.length_cons]
          omega
      | zero =>
          rw [sweep] at undecided ⊢
          split at undecided
          next answered =>
            rw [if_pos answered]
            have later := induction undecided
            simp only [List.length_cons]
            omega
          next => cases undecided

/-! A parallel ticks every child but the settled ones of a synchronised one. -/

def gatherTreatment (synchronise : Bool) (settled : List Bool) (index : Nat) : Treatment :=
  match settled[index]? with
  | some done => if synchronise && done then .rested else .ticked
  | none => .rested

theorem gather_treatment_succ (synchronise first : Bool) (settled : List Bool) (index : Nat) :
    gatherTreatment synchronise (first :: settled) (index + 1) =
      gatherTreatment synchronise settled index := by
  simp [gatherTreatment]

theorem gather_children (synchronise : Bool) (settled : List Bool) (children : List Node)
    (index : Nat) :
    (gather surroundings synchronise settled children).children[index]? =
      children[index]?.map
        (treated surroundings (gatherTreatment synchronise settled index)) := by
  induction children generalizing settled index with
  | nil => simp [gather]
  | cons child rest induction =>
      cases settled with
      | nil =>
          simp only [gather, gatherTreatment, List.getElem?_nil]
          cases (child :: rest)[index]? <;> rfl
      | cons done settled =>
          rw [gather]
          split
          next resting =>
            cases index with
            | zero => simp [gatherTreatment, treated, resting]
            | succ index =>
                rw [List.getElem?_cons_succ, List.getElem?_cons_succ, induction,
                  gather_treatment_succ]
          next working =>
            cases index with
            | zero => simp [gatherTreatment, treated, working]
            | succ index =>
                rw [List.getElem?_cons_succ, List.getElem?_cons_succ, induction,
                  gather_treatment_succ]

/-- The answers are the statuses of the children afterwards, provided that settled children have
succeeded. -/
theorem gather_answers (synchronise : Bool) (settled : List Bool) (children : List Node)
    (length : settled.length = children.length)
    (succeeded : ∀ index : Nat, settled[index]? = some true →
      (children[index]?).map status = some .success) :
    (gather surroundings synchronise settled children).answers =
      (gather surroundings synchronise settled children).children.map status := by
  induction children generalizing settled with
  | nil => simp [gather]
  | cons child rest induction =>
      cases settled with
      | nil => simp at length
      | cons done settled =>
          have later := induction settled (by simpa using length)
            (fun index found => succeeded (index + 1) found)
          rw [gather]
          split
          next resting =>
            have own : child.status = .success := by
              have flagged : done = true := by
                revert resting
                cases done <;> simp
              simpa using succeeded 0 (by simp [flagged])
            rw [List.map_cons, own]
            exact congrArg (Status.success :: ·) later
          next working =>
            rw [List.map_cons]
            exact congrArg ((tick surroundings child).node.status :: ·) later

/-! A row without memory also stops the children behind the deciding one. -/

def reactiveTreatment (passed index : Nat) : Treatment :=
  if index ≤ passed then .ticked else .stopped

private theorem take_append_map_drop {Item : Type} (items : List Item) (count index : Nat)
    (change : Item → Item) :
    (items.take count ++ (items.drop count).map change)[index]? =
      items[index]?.map (if index < count then id else change) := by
  by_cases outside : items.length ≤ index
  · have shown : items[index]? = none := List.getElem?_eq_none outside
    rw [shown, List.getElem?_eq_none]
    · rfl
    · simp only [List.length_append, List.length_take, List.length_map, List.length_drop]
      omega
  · rw [List.getElem?_append, List.length_take]
    by_cases early : index < count
    · rw [if_pos (by omega), List.getElem?_take, if_pos early, if_pos early, Option.map_id]
      rfl
    · rw [if_neg (by omega), List.getElem?_map, List.getElem?_drop, if_neg early]
      congr 2
      omega

theorem reactive_children (rule : Rule) (flow : Flow) (children : List Node) (index : Nat) :
    (decideReactive rule flow (sweep surroundings flow.onward 0 children)).children[index]? =
      children[index]?.map (treated surroundings
        (reactiveTreatment (sweep surroundings flow.onward 0 children).passed index)) := by
  have swept := sweep_children surroundings flow.onward 0 children index
  unfold decideReactive
  split
  next undecided =>
    have ended := sweep_undecided surroundings undecided
    rw [swept]
    cases found : children[index]? with
    | none => rfl
    | some child =>
        have inside : index < children.length := (List.getElem?_eq_some_iff.mp found).1
        have early : index ≤ (sweep surroundings flow.onward 0 children).passed := by omega
        simp [sweepTreatment, reactiveTreatment, early]
  next verdict decided =>
    dsimp only
    rw [halt_running_eq_map, take_append_map_drop, swept, Option.map_map]
    congr 1
    unfold sweepTreatment reactiveTreatment
    split
    next early => rw [if_pos (by omega), if_pos (by omega), Function.id_comp]
    next late =>
      rw [if_neg (by omega), if_neg (by omega), treated_rested, Function.comp_id]
      rfl

theorem reactive_rule (rule : Rule) (flow : Flow) (swept : Swept) :
    (decideReactive rule flow swept).rule = rule := by
  unfold decideReactive
  split <;> rfl

theorem reactive_status (rule : Rule) (flow : Flow) (swept : Swept) :
    (decideReactive rule flow swept).status = swept.verdict.getD flow.onward := by
  unfold decideReactive
  split
  next undecided => rw [undecided, Option.getD_none]
  next verdict decided => rw [decided, Option.getD_some]

/-! The branch as a whole. -/

/-- How a branch comes to its answer, by the rule with which it goes into the tick. -/
def decision (rule : Rule) (children : List Node) : Decided :=
  match rule with
  | .reactive flow =>
      decideReactive (.reactive flow) flow (sweep surroundings flow.onward 0 children)
  | .memory flow index =>
      decideMemory flow index (sweep surroundings flow.onward index children)
  | .parallel policy synchronise settled =>
      decideParallel policy synchronise (gather surroundings synchronise settled children)
  | .checkAndDo =>
      decideReactive .checkAndDo .selector
        (sweep surroundings Flow.selector.onward 0 children)

theorem tick_branch (state : NodeState) (rule : Rule) (children : List Node) :
    tick surroundings (.branch state rule children) =
      conclude state (decision surroundings (rule.atEntry state.status) children) := by
  rw [tick, ← Rule.atEntry]
  cases rule.atEntry state.status <;> rfl

/-- What becomes of the child of that number. -/
def treatment (rule : Rule) (children : List Node) (index : Nat) : Treatment :=
  match rule with
  | .reactive flow =>
      reactiveTreatment (sweep surroundings flow.onward 0 children).passed index
  | .memory flow start =>
      sweepTreatment start (sweep surroundings flow.onward start children).passed index
  | .parallel _ synchronise settled => gatherTreatment synchronise settled index
  | .checkAndDo =>
      reactiveTreatment (sweep surroundings Flow.selector.onward 0 children).passed index

theorem decision_children (rule : Rule) (children : List Node) (index : Nat) :
    (decision surroundings rule children).children[index]? =
      children[index]?.map
        (treated surroundings (treatment surroundings rule children index)) := by
  cases rule with
  | reactive flow => exact reactive_children surroundings _ flow children index
  | memory flow start => exact sweep_children surroundings flow.onward start children index
  | parallel policy synchronise settled =>
      exact gather_children surroundings synchronise settled children index
  | checkAndDo => exact reactive_children surroundings _ .selector children index

/-- A child once its branch has answered. -/
def concluded (answer : Status) (child : Node) : Node :=
  if answer = .running then child else child.stilled

def concludedRule (answer : Status) (rule : Rule) : Rule :=
  if answer = .running then rule else rule.terminate

theorem concluded_of_running {answer : Status} (running : answer = .running) :
    concluded answer = id := by
  funext child
  exact if_pos running

theorem concluded_of_ended {answer : Status} (ended : answer ≠ .running) :
    concluded answer = stilled := by
  funext child
  exact if_neg ended

/-- What a branch shows once it has answered. Only a check-and-do tells more than its answer. -/
def concludedState (state : NodeState) (decided : Decided) : NodeState :=
  { state with
    status := decided.status
    message := match decided.rule with
      | .checkAndDo => goalMessage (decided.children.head?.map (·.status)) decided.status
      | _ => state.message }

theorem conclude_node (state : NodeState) (decided : Decided) :
    (conclude state decided).node =
      .branch (concludedState state decided) (concludedRule decided.status decided.rule)
        (decided.children.map (concluded decided.status)) := by
  unfold conclude
  by_cases running : decided.status = .running
  · rw [if_pos running, concluded_of_running running, concludedRule, if_pos running, List.map_id]
    rfl
  · rw [if_neg running, concluded_of_ended running, concludedRule, if_neg running,
      ← halt_running_eq_map]
    rfl

@[simp] theorem conclude_status (state : NodeState) (decided : Decided) :
    (conclude state decided).node.status = decided.status := by
  rw [conclude_node]
  rfl

theorem answer_branch (state : NodeState) (rule : Rule) (children : List Node) :
    answer surroundings (.branch state rule children) =
      (decision surroundings (rule.atEntry state.status) children).status := by
  rw [answer, tick_branch, conclude_status]

theorem tick_children (state : NodeState) (rule : Rule) (children : List Node) (index : Nat) :
    (tick surroundings (.branch state rule children)).node.children[index]? =
      children[index]?.map fun child =>
        concluded (answer surroundings (.branch state rule children))
          (treated surroundings
            (treatment surroundings (rule.atEntry state.status) children index) child) := by
  rw [answer_branch, tick_branch, conclude_node]
  dsimp only [Node.children]
  rw [List.getElem?_map, decision_children, Option.map_map]
  rfl

end Node

end BehaviorTree
