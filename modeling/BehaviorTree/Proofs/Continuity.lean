import BehaviorTree.Proofs.Orderly
import BehaviorTree.Proofs.Trail

/-!
What becomes of running nodes. A node that is running when a tick begins is either ticked in it
once, without being initialised, or halted; so no tick leaves a running node behind that it did
not visit, and an action opens an attempt exactly when it is visited while it is not running.
-/

namespace BehaviorTree.Node

variable (surroundings : Surroundings)

/-- No rule leaves out a running child without stopping it. -/
theorem running_not_rested {rule : Rule} {children : List Node}
    (ready : rule.Ready (children.map status)) {index : Nat} {child : Node}
    (found : children[index]? = some child) (running : child.status = .running) :
    treatment surroundings rule children index ≠ .rested := by
  have own : (children.map status)[index]? = some .running := by
    rw [List.getElem?_map, found]
    exact congrArg some running
  cases rule with
  | reactive flow | checkAndDo =>
      simp only [treatment, reactiveTreatment]
      split <;> decide
  | memory flow start =>
      have atStart : index = start :=
        Decidable.byContradiction fun apart => ready.2 index apart own
      simp only [treatment, sweepTreatment]
      rw [if_pos (by omega)]
      decide
  | parallel policy synchronise settled =>
      have inside : index < settled.length := by
        rw [ready.1]
        exact (List.getElem?_eq_some_iff.mp own).1
      have unsettled : settled[index]? = some false := by
        cases flag : settled[index] with
        | false => exact List.getElem?_eq_some_iff.mpr ⟨inside, flag⟩
        | true =>
            have success := ready.2 index (List.getElem?_eq_some_iff.mpr ⟨inside, flag⟩)
            rw [own] at success
            cases success
      simp [treatment, gatherTreatment, unsettled]

/-! Positions below a child that is stilled or left as it is. -/

theorem at_stilled_of_running {child sub : Node} {path : Path}
    (found : child.stilled.at? path = some sub) (running : sub.status = .running) :
    child.status ≠ .running ∧ child.at? path = some sub := by
  by_cases childRunning : child.status = .running
  · rw [stilled_of_running childRunning] at found
    exact absurd running (halted_not_running found)
  · rw [stilled_of_resting childRunning] at found
    exact ⟨childRunning, found⟩

theorem at_concluded_of_running {answer : Status} {child sub : Node} {path : Path}
    (found : (concluded answer child).at? path = some sub) (running : sub.status = .running) :
    child.at? path = some sub := by
  unfold concluded at found
  split at found
  · exact found
  · exact (at_stilled_of_running found running).2

/-- What was halted once stays as it is when its branch concludes. -/
theorem at_concluded_of_halted {answer : Status} {child sub : Node} {path : Path}
    (found : child.at? path = some sub.halt.node) :
    (concluded answer child).at? path = some sub.halt.node := by
  unfold concluded stilled
  split
  · exact found
  · split
    · rw [at_halt, found]
      exact congrArg some (halt_halt sub)
    · exact found

/-- A running node is ticked once and goes on, or it is halted and not ticked. -/
theorem running_ticked_or_halted {node sub : Node} {path : Path} (orderly : Orderly node)
    (found : node.at? path = some sub) (running : sub.status = .running) :
    stepsAt path (trail surroundings node) = [footstep surroundings path sub] ∨
      stepsAt path (trail surroundings node) = [] ∧
        (tick surroundings node).node.at? path = some sub.halt.node := by
  induction path generalizing node with
  | nil =>
      cases found
      exact Or.inl (steps_at_root surroundings _)
  | cons index path induction =>
      obtain ⟨state, rule, children, child, rfl, own, below⟩ := branch_of_at_cons found
      obtain _ | ⟨here, under⟩ := orderly
      have childOrderly := under child (List.mem_of_getElem? own)
      have childRunning := childOrderly.running_above below running
      have after := tick_children surroundings state rule children index
      rw [own, Option.map_some] at after
      rw [steps_at_branch surroundings state rule own path, at_cons, after, Option.bind_some]
      cases treat : treatment surroundings (rule.atEntry state.status) children index with
      | ticked =>
          rw [if_pos rfl]
          rcases induction childOrderly below with once | ⟨none, halted⟩
          · exact Or.inl (by rw [once]; rfl)
          · refine Or.inr ⟨by rw [none]; rfl, ?_⟩
            exact at_concluded_of_halted halted
      | stopped =>
          refine Or.inr ⟨rfl, ?_⟩
          apply at_concluded_of_halted
          rw [treated, stilled_of_running childRunning, at_halt, below]
          rfl
      | rested =>
          exact absurd treat (running_not_rested surroundings here.ready own childRunning)

/-- A node that runs after a tick was visited by it. -/
theorem running_after_visited {node sub : Node} {path : Path} (orderly : Orderly node)
    (found : (tick surroundings node).node.at? path = some sub) (running : sub.status = .running) :
    ∃ before, node.at? path = some before ∧
      stepsAt path (trail surroundings node) = [footstep surroundings path before] := by
  induction path generalizing node with
  | nil => exact ⟨node, rfl, steps_at_root surroundings node⟩
  | cons index path induction =>
      cases node with
      | leaf state content => simp [at_cons, tick, tickLeaf, children] at found
      | branch state rule children =>
          obtain _ | ⟨here, under⟩ := orderly
          have after := tick_children surroundings state rule children index
          rw [at_cons, after, Option.bind_eq_some_iff] at found
          obtain ⟨final, known, found⟩ := found
          obtain ⟨child, own, rfl⟩ := Option.map_eq_some_iff.mp known
          have childOrderly := under child (List.mem_of_getElem? own)
          have inside := at_concluded_of_running found running
          cases treat : treatment surroundings (rule.atEntry state.status) children index with
          | ticked =>
              rw [treat] at inside
              obtain ⟨before, below, once⟩ := induction childOrderly inside
              refine ⟨before, at_branch_eq_some.mpr ⟨child, own, below⟩, ?_⟩
              rw [steps_at_branch surroundings state rule own path, treat, if_pos rfl, once]
              rfl
          | stopped =>
              rw [treat] at inside
              have resting := at_stilled_of_running inside running
              exact absurd (childOrderly.running_above resting.2 running) resting.1
          | rested =>
              rw [treat] at inside
              have childRunning := childOrderly.running_above inside running
              exact absurd treat (running_not_rested surroundings here.ready own childRunning)

/-! The contents of leaves. -/

/-- Halting leaves the content of a leaf alone. -/
theorem leaf_at_stilled {child : Node} {path : Path} {state : NodeState} {content : Leaf}
    (found : child.at? path = some (.leaf state content)) :
    ∃ after, child.stilled.at? path = some (.leaf after content) := by
  unfold stilled
  split
  · exact ⟨_, by rw [at_halt, found]; rfl⟩
  · exact ⟨state, found⟩

theorem leaf_at_concluded (answer : Status) {child : Node} {path : Path} {state : NodeState}
    {content : Leaf} (found : child.at? path = some (.leaf state content)) :
    ∃ after, (concluded answer child).at? path = some (.leaf after content) := by
  unfold concluded
  split
  · exact ⟨state, found⟩
  · exact leaf_at_stilled found

def visited (path : Path) (node : Node) : Bool :=
  !(stepsAt path (trail surroundings node)).isEmpty

theorem visited_branch (state : NodeState) (rule : Rule) {children : List Node} {index : Nat}
    {child : Node} (found : children[index]? = some child) (path : Path) :
    visited surroundings (index :: path) (.branch state rule children) =
      (decide (treatment surroundings (rule.atEntry state.status) children index = .ticked) &&
        visited surroundings path child) := by
  rw [visited, steps_at_branch surroundings state rule found]
  split
  next ticked => simp [visited, ticked]
  next other => simp [other]

/-- A leaf that is visited is updated, and entered before that unless it was running. -/
def contentAfter (seen : Bool) (status : Status) (content : Leaf) : Leaf :=
  if seen then
    ((if status = .running then content else content.initialise).update surroundings).2
  else content

theorem content_after_tick {node : Node} {path : Path} {state : NodeState} {content : Leaf}
    (found : node.at? path = some (.leaf state content)) :
    ∃ after, (tick surroundings node).node.at? path =
      some (.leaf after (contentAfter surroundings (visited surroundings path node) state.status
        content)) := by
  induction path generalizing node with
  | nil =>
      cases found
      have seen : visited surroundings [] (.leaf state content) = true := by
        rw [visited, steps_at_root]
        rfl
      rw [seen]
      refine ⟨(tickLeaf surroundings state content).node.state, ?_⟩
      by_cases running : state.status = .running
      · simp [tick, tickLeaf, contentAfter, running, Node.state]
      · simp [tick, tickLeaf, contentAfter, running, Node.state]
  | cons index path induction =>
      obtain ⟨before, rule, children, child, rfl, own, below⟩ := branch_of_at_cons found
      have after := tick_children surroundings before rule children index
      rw [own, Option.map_some] at after
      rw [visited_branch surroundings before rule own, at_cons, after, Option.bind_some]
      cases treat : treatment surroundings (rule.atEntry before.status) children index with
      | ticked =>
          obtain ⟨own, inside⟩ := induction below
          exact leaf_at_concluded _ inside
      | stopped =>
          obtain ⟨own, inside⟩ := leaf_at_stilled below
          exact leaf_at_concluded _ inside
      | rested => exact leaf_at_concluded _ below

theorem action_after_tick {node : Node} {path : Path} {state : NodeState} {action : Action}
    (found : node.at? path = some (.leaf state (.action action))) :
    ∃ after, (tick surroundings node).node.at? path =
      some (.leaf after (.action
        (if visited surroundings path node ∧ state.status ≠ .running then action.initialise
          else action))) := by
  obtain ⟨after, known⟩ := content_after_tick surroundings found
  refine ⟨after, known.trans ?_⟩
  unfold contentAfter
  cases visited surroundings path node with
  | false => simp
  | true =>
      by_cases running : state.status = .running
      · simp [running, Leaf.update]
      · simp [running, Leaf.update, Leaf.initialise]

/-- In every tick of a reachable tree a running node is ticked exactly once and not initialised, or
it is halted; what runs afterwards was visited; and the attempt of an action is counted up by one
if it is visited while not running, and stays as it is otherwise. -/
theorem tick_of_reachable_tree {root : Node} (built : Built root) (moves : List Move)
    (surroundings : Surroundings) :
    (trail surroundings (root.after moves)).map (·.toVisit) =
      (tick surroundings (root.after moves)).journal.visits ∧
    (∀ path node, (root.after moves).at? path = some node → node.status = .running →
      (∃ step, stepsAt path (trail surroundings (root.after moves)) = [step] ∧
        step.entered = false) ∨
      (visited surroundings path (root.after moves) = false ∧
        (tick surroundings (root.after moves)).node.at? path = some node.halt.node ∧
        node.halt.node.status = .invalid)) ∧
    (∀ path node, (tick surroundings (root.after moves)).node.at? path = some node →
      node.status = .running → visited surroundings path (root.after moves) = true) ∧
    (∀ path state action, (root.after moves).at? path = some (.leaf state (.action action)) →
      ∃ after later,
        (tick surroundings (root.after moves)).node.at? path =
          some (.leaf after (.action later)) ∧
        (later.cell.attempt = action.cell.attempt + 1 ↔
          visited surroundings path (root.after moves) = true ∧ state.status ≠ .running) ∧
        (later.cell.attempt = action.cell.attempt ↔
          ¬(visited surroundings path (root.after moves) = true ∧ state.status ≠ .running))) := by
  have orderly := built.orderly_after moves
  refine ⟨trail_visits surroundings _, ?_, ?_, ?_⟩
  · intro path node found running
    rcases running_ticked_or_halted surroundings orderly found running with once | ⟨none, halted⟩
    · exact Or.inl ⟨_, once, by simp [footstep, running]⟩
    · exact Or.inr ⟨by simp [visited, none], halted, halt_status node⟩
  · intro path node found running
    obtain ⟨before, _, once⟩ := running_after_visited surroundings orderly found running
    simp [visited, once]
  · intro path state action found
    obtain ⟨after, known⟩ := action_after_tick surroundings found
    refine ⟨after, _, known, ?_⟩
    have apart : action.cell.attempt + 1 ≠ action.cell.attempt := by simp
    split
    next entered =>
      exact ⟨iff_of_true rfl entered, iff_of_false apart (not_not_intro entered)⟩
    next left =>
      exact ⟨iff_of_false apart.symm left, iff_of_true rfl left⟩

/-- An arrival in the middle of the drive: the drive is running, is not ticked, and is halted. -/
theorem drive_halted_on_arrival :
    Built excursion ∧ ∃ node,
      (excursion.after [.tick ⟨0, {}⟩, .outside [1, 0] (.condition (.signal true))]).at? [1, 1] =
        some node ∧
      node.status = .running ∧
      ((∃ step, stepsAt [1, 1] (trail ⟨1, {}⟩ (excursion.after
          [.tick ⟨0, {}⟩, .outside [1, 0] (.condition (.signal true))])) = [step] ∧
        step.entered = false) ∨
      (visited ⟨1, {}⟩ [1, 1] (excursion.after
          [.tick ⟨0, {}⟩, .outside [1, 0] (.condition (.signal true))]) = false ∧
        (tick ⟨1, {}⟩ (excursion.after
          [.tick ⟨0, {}⟩, .outside [1, 0] (.condition (.signal true))])).node.at? [1, 1] =
            some node.halt.node ∧
        node.halt.node.status = .invalid)) := by
  refine ⟨excursion_built, _, rfl, rfl, ?_⟩
  have running := (tick_of_reachable_tree excursion_built
    [.tick ⟨0, {}⟩, .outside [1, 0] (.condition (.signal true))] ⟨1, {}⟩).2.1
  exact running [1, 1] _ rfl rfl

end BehaviorTree.Node
