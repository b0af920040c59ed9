import BehaviorTree.Proofs.Visits

/-!
A tick that comes to an action in two steps: it opens an attempt, and reads what the cell says then.
Whether a tick comes to a position depends on what lies before it alone. So the attempt may as well
be opened before the tick begins, and whatever the worker does in between is done there.
-/

namespace BehaviorTree

namespace Node

/-- Another node in the place of the one at a position. -/
def put : Node → Path → Node → Node
  | _, [], sub => sub
  | .branch state rule children, index :: path, sub =>
      .branch state rule (children.modify index fun child => put child path sub)
  | .leaf state content, _ :: _, _ => .leaf state content

theorem put_branch (state : NodeState) (rule : Rule) (children : List Node) (index : Nat)
    (path : Path) (sub : Node) :
    put (.branch state rule children) (index :: path) sub =
      .branch state rule (children.modify index fun child => put child path sub) := rfl

theorem at_put {node before : Node} {path : Path} (found : node.at? path = some before)
    (sub : Node) : (node.put path sub).at? path = some sub := by
  induction path generalizing node with
  | nil => rfl
  | cons index path ih =>
      obtain ⟨state, rule, children, child, rfl, own, below⟩ := branch_of_at_cons found
      refine at_branch_eq_some.mpr ⟨child.put path sub, ?_, ih below⟩
      rw [List.getElem?_modify_eq, own]
      rfl

variable (surroundings : Surroundings)

/-! Whether a child is ticked. -/

theorem sweep_reaches {onward : Status} {skip : Nat} {children others : List Node} {index : Nat}
    (before : ∀ place < index, children[place]? = others[place]?) (inside : index < others.length)
    (reached : index ≤ skip + (sweep surroundings onward skip children).passed) :
    index ≤ skip + (sweep surroundings onward skip others).passed := by
  by_contra short
  cases decided : (sweep surroundings onward skip others).verdict with
  | none =>
      have ended := sweep_undecided surroundings decided
      omega
  | some verdict =>
      obtain ⟨refused, answered⟩ := sweep_decider surroundings decided
      generalize decider : skip + (sweep surroundings onward skip others).passed = place at *
      have early : place < skip + (sweep surroundings onward skip children).passed := by omega
      have passed := sweep_passed surroundings (by omega) early
      rw [before place (by omega), answered] at passed
      exact refused (Option.some.inj passed)

/-- Only the children before it decide whether a child is ticked. -/
theorem treatment_ticked_of_before {rule : Rule} {children others : List Node} {index : Nat}
    (before : ∀ place < index, children[place]? = others[place]?) (inside : index < others.length)
    (ticked : treatment surroundings rule children index = .ticked) :
    treatment surroundings rule others index = .ticked := by
  cases rule with
  | reactive flow | checkAndDo =>
      simp only [treatment, reactiveTreatment] at ticked ⊢
      split at ticked
      next reached =>
        have same := sweep_reaches surroundings before inside (by rwa [Nat.zero_add])
        rw [Nat.zero_add] at same
        exact if_pos same
      next => cases ticked
  | memory flow start =>
      simp only [treatment, sweepTreatment] at ticked ⊢
      split at ticked
      next reached =>
        exact if_pos ⟨reached.1, sweep_reaches surroundings before inside reached.2⟩
      next => cases ticked
  | parallel policy synchronise settled => exact ticked

theorem visited_put {node before : Node} {path : Path} (found : node.at? path = some before)
    (seen : visited surroundings path node = true) (sub : Node) :
    visited surroundings path (node.put path sub) = true := by
  induction path generalizing node with
  | nil => exact visited_root surroundings _
  | cons index path ih =>
      obtain ⟨state, rule, children, child, rfl, own, below⟩ := branch_of_at_cons found
      rw [visited_branch surroundings state rule own, Bool.and_eq_true, decide_eq_true_iff] at seen
      have changed : (children.modify index fun child => put child path sub)[index]? =
          some (child.put path sub) := by
        rw [List.getElem?_modify_eq, own]
        rfl
      rw [put_branch, visited_branch surroundings state rule changed, ih below seen.2,
        Bool.and_true, decide_eq_true_iff]
      apply treatment_ticked_of_before surroundings _ _ seen.1
      · intro place early
        exact (List.getElem?_modify_ne _ _ (Nat.ne_of_gt early)).symm
      · exact (List.getElem?_eq_some_iff.mp changed).1

/-! A node in whose place another one is ticked to the same effect. -/

theorem sweep_modify {onward : Status} {skip : Nat} {children : List Node} {index : Nat}
    {change : Node → Node}
    (same : ∀ child, children[index]? = some child →
      tick surroundings (change child) = tick surroundings child)
    (lower : skip ≤ index)
    (upper : index ≤ skip + (sweep surroundings onward skip children).passed) :
    sweep surroundings onward skip (children.modify index change) =
      sweep surroundings onward skip children := by
  induction children generalizing skip index with
  | nil => simp
  | cons child rest ih =>
      cases skip with
      | succ skip =>
          obtain ⟨index, rfl⟩ : ∃ before, index = before + 1 := ⟨index - 1, by omega⟩
          rw [sweep] at upper
          dsimp only at upper
          rw [List.modify_succ_cons, sweep, sweep, @ih skip index same (by omega) (by omega)]
      | zero =>
          cases index with
          | zero => rw [List.modify_zero_cons, sweep, sweep, same child rfl]
          | succ index =>
              rw [sweep] at upper
              rw [List.modify_succ_cons, sweep, sweep]
              split at upper
              next answered =>
                dsimp only at upper
                rw [if_pos answered, if_pos answered, @ih 0 index same (by omega) (by omega)]
              next =>
                dsimp only at upper
                omega

theorem gather_modify {synchronise : Bool} {settled : List Bool} {children : List Node}
    {index : Nat} {change : Node → Node}
    (same : ∀ child, children[index]? = some child →
      tick surroundings (change child) = tick surroundings child)
    (ticked : gatherTreatment synchronise settled index = .ticked) :
    gather surroundings synchronise settled (children.modify index change) =
      gather surroundings synchronise settled children := by
  induction children generalizing settled index with
  | nil => simp
  | cons child rest ih =>
      cases settled with
      | nil => simp [gatherTreatment] at ticked
      | cons done settled =>
          cases index with
          | zero =>
              have working : (synchronise && done) = false := by
                by_contra resting
                simp [gatherTreatment, Bool.not_eq_false _ ▸ resting] at ticked
              rw [List.modify_zero_cons, gather, gather]
              simp only [working, same child rfl, Bool.false_eq_true, if_false]
          | succ index =>
              rw [gather_treatment_succ] at ticked
              rw [List.modify_succ_cons, gather, gather, @ih settled index same ticked]

theorem decision_modify {rule : Rule} {children : List Node} {index : Nat} {change : Node → Node}
    (same : ∀ child, children[index]? = some child →
      tick surroundings (change child) = tick surroundings child)
    (ticked : treatment surroundings rule children index = .ticked) :
    decision surroundings rule (children.modify index change) =
      decision surroundings rule children := by
  have swept : ∀ onward,
      reactiveTreatment (sweep surroundings onward 0 children).passed index = .ticked →
        sweep surroundings onward 0 (children.modify index change) =
          sweep surroundings onward 0 children := by
    intro onward ticked
    apply sweep_modify surroundings same (Nat.zero_le _)
    rw [Nat.zero_add]
    by_contra short
    rw [reactiveTreatment, if_neg short] at ticked
    cases ticked
  cases rule with
  | reactive flow => rw [decision, decision, swept _ ticked]
  | checkAndDo => rw [decision, decision, swept _ ticked]
  | memory flow start =>
      simp only [treatment, sweepTreatment] at ticked
      split at ticked
      next reached =>
        rw [decision, decision, sweep_modify surroundings same reached.1 reached.2]
      next => cases ticked
  | parallel policy synchronise settled =>
      rw [decision, decision, gather_modify surroundings same ticked]

theorem tick_put {node before sub : Node} {path : Path} (found : node.at? path = some before)
    (seen : visited surroundings path node = true)
    (same : tick surroundings sub = tick surroundings before) :
    tick surroundings (node.put path sub) = tick surroundings node := by
  induction path generalizing node with
  | nil =>
      cases found
      exact same
  | cons index path ih =>
      obtain ⟨state, rule, children, child, rfl, own, below⟩ := branch_of_at_cons found
      rw [visited_branch surroundings state rule own, Bool.and_eq_true, decide_eq_true_iff] at seen
      rw [put_branch, tick_branch, tick_branch]
      congr 1
      apply decision_modify surroundings _ seen.1
      intro other there
      cases own.symm.trans there
      exact ih below seen.2

end Node

/-! An action that is entered. -/

/-- What a node shows once it is entered, as long as it has not answered. -/
def NodeState.entered (state : NodeState) : NodeState :=
  if state.status = .running then state else { state with status := .running, message := "" }

theorem NodeState.entered_status (state : NodeState) : state.entered.status = .running := by
  unfold entered
  split
  · assumption
  · rfl

theorem NodeState.entered_name (state : NodeState) : state.entered.name = state.name := by
  unfold entered
  split <;> rfl

def Action.enter (status : Status) (action : Action) : Action :=
  if status = .running then action else action.initialise

namespace Node

/-- To open the attempt first and then to tick is to tick. -/
theorem tick_entered (surroundings : Surroundings) {node : Node} {path : Path} {state : NodeState}
    {action : Action} (found : node.at? path = some (.leaf state (.action action)))
    (seen : visited surroundings path node = true) :
    tick surroundings (node.put path (.leaf state.entered (.action (action.enter state.status)))) =
      tick surroundings node := by
  apply tick_put surroundings found seen
  obtain ⟨name, description, status, message⟩ := state
  cases status <;> rfl

end Node

end BehaviorTree
