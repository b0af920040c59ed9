import BehaviorTree.Proofs.Forgetting
import BehaviorTree.Proofs.Naming

/-!
Changes that nobody can tell. A change of nodes that goes together with ticking, halting and
whatever else happens to them, and that keeps what others see of a node, goes together with all of
it at any position of a tree. So it may be made before a run or after it, and what is seen of the
run is the same.
-/

namespace BehaviorTree.Node

/-- A change that goes together with everything that can happen to a node, and keeps what a branch
looks at in its children. -/
structure Unseen (change : Node → Node) : Prop where
  status : ∀ node, (change node).status = node.status
  tick : ∀ surroundings node,
    (tick surroundings (change node)).node = change (tick surroundings node).node
  journal : ∀ surroundings node,
    (Node.tick surroundings (change node)).journal = (Node.tick surroundings node).journal
  halt : ∀ node, (change node).halt.node = change node.halt.node
  calls : ∀ node, (change node).halt.calls = node.halt.calls
  setup : ∀ node, (change node).setup.node = change node.setup.node
  fault : ∀ node, (change node).setup.fault = node.setup.fault
  shutdown : ∀ node, (change node).shutdown.1 = change node.shutdown.1
  acknowledge : ∀ name identity node,
    (change node).modify? name (·.acknowledge identity) =
      (node.modify? name (·.acknowledge identity)).map change
  outside : ∀ content path node,
    (change node).withLeaf content path = change (node.withLeaf content path)

/-! Lists with one item changed. -/

section Modify

variable {change : Node → Node} {index : Nat} {children : List Node}

theorem modify_of_lookup {results ends : List Node} {treat : Nat → Node → Node}
    (left : ∀ place : Nat, results[place]? = children[place]?.map (treat place))
    (right : ∀ place : Nat, ends[place]? = (children.modify index change)[place]?.map (treat place))
    (commutes : ∀ place child, treat place (change child) = change (treat place child)) :
    ends = results.modify index change := by
  apply List.ext_getElem?
  intro place
  rw [right, List.getElem?_modify, List.getElem?_modify, left, Option.map_eq_map,
    Option.map_map, Option.map_map]
  congr 1
  funext child
  dsimp only [Function.comp_apply]
  split
  · exact commutes place child
  · rfl

theorem map_modify_of_commutes {treat : Node → Node}
    (commutes : ∀ child, treat (change child) = change (treat child)) :
    (children.modify index change).map treat = (children.map treat).modify index change :=
  modify_of_lookup (fun _ => List.getElem?_map) (fun _ => List.getElem?_map) fun _ => commutes

theorem map_modify_of_kept {Item : Type} {look : Node → Item}
    (kept : ∀ child, look (change child) = look child) :
    (children.modify index change).map look = children.map look := by
  apply List.ext_getElem?
  intro place
  rw [List.getElem?_map, List.getElem?_modify, List.getElem?_map, Option.map_eq_map, Option.map_map]
  congr 1
  funext child
  dsimp only [Function.comp_apply]
  split
  · exact kept child
  · rfl

theorem modify_modify_of_commutes {other : Node → Node} {place : Nat}
    (commutes : ∀ child, other (change child) = change (other child)) :
    (children.modify index change).modify place other =
      (children.modify place other).modify index change := by
  have looked : ∀ (items : List Node) (here : Nat), (items.modify place other)[here]? =
      items[here]?.map (if place = here then other else id) := by
    intro items here
    rw [List.getElem?_modify, Option.map_eq_map]
    split <;> rfl
  refine modify_of_lookup (looked children) (looked (children.modify index change)) ?_
  · intro here child
    split
    · exact commutes child
    · rfl

end Modify

theorem change_child (change : Node → Node) (index : Nat) (state : NodeState) (rule : Rule)
    (children : List Node) :
    changeAt change [index] (.branch state rule children) =
      .branch state rule (children.modify index change) := rfl

theorem change_at_cons (change : Node → Node) (index : Nat) (path : Path) :
    changeAt change (index :: path) = changeAt (changeAt change path) [index] := by
  funext node
  cases node <;> rfl

/-- Acknowledging a leaf leaves a leaf. -/
theorem modify_leaf (name identity : String) (state : NodeState) (content : Leaf)
    {change : Node → Node}
    (kept : ∀ state content, change (.leaf state content) = .leaf state content) :
    (modify? name (·.acknowledge identity) (.leaf state content)).map change =
      modify? name (·.acknowledge identity) (.leaf state content) := by
  rw [modify?]
  split
  · cases content with
    | acknowledge permitted acknowledgedBy =>
        rw [acknowledge]
        split <;> exact congrArg some (kept _ _)
    | condition | action | scripted => exact congrArg some (kept _ _)
  · rfl

section Child

variable {change : Node → Node} (unseen : Unseen change)

include unseen

theorem Unseen.is_running (node : Node) : (change node).isRunning = node.isRunning := by
  rw [isRunning, unseen.status, ← isRunning]

theorem Unseen.stilled (node : Node) : (change node).stilled = change node.stilled := by
  unfold Node.stilled
  rw [unseen.is_running, unseen.halt]
  split <;> rfl

theorem Unseen.treated (surroundings : Surroundings) (treatment : Treatment) (node : Node) :
    treated surroundings treatment (change node) =
      change (treated surroundings treatment node) := by
  cases treatment with
  | ticked => exact unseen.tick surroundings node
  | stopped => exact unseen.stilled node
  | rested => rfl

theorem Unseen.concluded (answer : Status) (node : Node) :
    concluded answer (change node) = change (concluded answer node) := by
  unfold Node.concluded
  split
  · rfl
  · exact unseen.stilled node

variable (surroundings : Surroundings) (index : Nat) (children : List Node)

theorem Unseen.same_ticks :
    List.Forall₂ (SameTick surroundings) (children.modify index change) children := by
  refine forall₂_iff_each.mpr ⟨List.length_modify .., fun place left right own opposite => ?_⟩
  rw [List.getElem?_modify, opposite] at own
  cases own
  split
  · refine ⟨unseen.journal surroundings right, ?_⟩
    rw [answer, answer, unseen.tick, unseen.status]
  · exact ⟨rfl, rfl⟩

theorem Unseen.sweep_children (onward : Status) (skip : Nat) :
    (sweep surroundings onward skip (children.modify index change)).children =
      (sweep surroundings onward skip children).children.modify index change := by
  obtain ⟨passed, _⟩ := sweep_same surroundings (unseen.same_ticks surroundings index children) skip
  have right := Node.sweep_children surroundings onward skip (children.modify index change)
  rw [passed] at right
  exact modify_of_lookup (Node.sweep_children surroundings onward skip children) right
    fun _ => unseen.treated surroundings _

theorem Unseen.decision_children (rule : Rule) :
    (decision surroundings rule (children.modify index change)).children =
      (decision surroundings rule children).children.modify index change := by
  have same := treatment_same surroundings (unseen.same_ticks surroundings index children) rule
  have right := Node.decision_children surroundings rule (children.modify index change)
  rw [same] at right
  exact modify_of_lookup (Node.decision_children surroundings rule children) right
    fun _ => unseen.treated surroundings _

/-- Halting the running ones calls the same, from whichever child on. -/
theorem Unseen.halt_running_calls (start : Nat) :
    (haltRunning ((children.modify index change).drop start)).2 =
      (haltRunning (children.drop start)).2 := by
  rw [Node.halt_running_calls, Node.halt_running_calls, List.map_drop, List.map_drop,
    map_modify_of_kept]
  intro child
  rw [unseen.is_running, unseen.calls]

theorem Unseen.decision_journal (rule : Rule) :
    (decision surroundings rule (children.modify index change)).journal =
      (decision surroundings rule children).journal := by
  have same := unseen.same_ticks surroundings index children
  have swept : ∀ rule flow,
      (decideReactive rule flow
        (sweep surroundings flow.onward 0 (children.modify index change))).journal =
      (decideReactive rule flow (sweep surroundings flow.onward 0 children)).journal := by
    intro rule flow
    obtain ⟨passed, verdict, journal⟩ := sweep_same surroundings same 0
    rw [decide_reactive_journal, decide_reactive_journal, passed, verdict, journal,
      unseen.sweep_children, unseen.halt_running_calls]
  cases rule with
  | reactive flow => exact swept _ flow
  | memory flow start => exact (sweep_same surroundings same start).2.2
  | parallel policy synchronise settled => exact (gather_same surroundings same settled).2
  | checkAndDo => exact swept _ .selector

theorem Unseen.tick_child (node : Node) :
    (Node.tick surroundings (changeAt change [index] node)).node =
        changeAt change [index] (Node.tick surroundings node).node ∧
      (Node.tick surroundings (changeAt change [index] node)).journal =
        (Node.tick surroundings node).journal := by
  cases node with
  | leaf state content => exact ⟨rfl, rfl⟩
  | branch state rule children =>
      have same := unseen.same_ticks surroundings index children
      rw [change_child, tick_branch, tick_branch]
      generalize rule.atEntry state.status = entry
      have status := decision_status_same surroundings same entry
      have ruled := decision_rule_same surroundings same entry
      have below := unseen.decision_children surroundings index children entry
      have journal := unseen.decision_journal surroundings index children entry
      generalize decision surroundings entry children = decided at *
      generalize decision surroundings entry (children.modify index change) = altered at *
      obtain ⟨_, rows, _, _⟩ := decided
      obtain ⟨kept, _, ended, record⟩ := altered
      dsimp only at status ruled below journal
      subst status ruled below journal
      have first : (rows.modify index change).head?.map Node.status =
          rows.head?.map Node.status := by
        rw [← List.head?_map, ← List.head?_map, map_modify_of_kept unseen.status]
      have halted := unseen.halt_running_calls index rows 0
      rw [List.drop_zero, List.drop_zero] at halted
      constructor
      · rw [conclude_node, conclude_node, change_child, concludedState, concludedState]
        dsimp only
        rw [first, map_modify_of_commutes (unseen.concluded ended)]
      · rw [conclude_journal, conclude_journal]
        dsimp only
        rw [halted]

theorem Unseen.halt_child (node : Node) :
    (changeAt change [index] node).halt.node = changeAt change [index] node.halt.node ∧
      (changeAt change [index] node).halt.calls = node.halt.calls := by
  cases node with
  | leaf state content => exact ⟨rfl, rfl⟩
  | branch state rule children =>
      constructor
      · rw [change_child, halt_branch, halt_branch, change_child,
          map_modify_of_commutes unseen.halt]
      · have pairs : (haltAll (children.modify index change)).map
              (fun halted => (halted.calls, halted.wasRunning)) =
            (haltAll children).map fun halted => (halted.calls, halted.wasRunning) := by
          rw [halt_all_eq_map, halt_all_eq_map, List.map_map, List.map_map]
          apply map_modify_of_kept
          intro child
          dsimp only [Function.comp_apply]
          rw [unseen.calls, halt_was_running, halt_was_running, unseen.is_running]
        rw [change_child, Node.halt, Node.halt]
        simp only [Halted.in_order_eq, Halted.in_rounds_eq, pairs]
        split <;> rfl

/-- Setting up stops at the same child. -/
theorem Unseen.setup_all :
    (setupAll (children.modify index change)).children =
        (setupAll children).children.modify index change ∧
      (setupAll (children.modify index change)).fault = (setupAll children).fault := by
  induction children generalizing index with
  | nil => simp [setupAll]
  | cons child rest ih =>
      cases index with
      | zero =>
          rw [List.modify_zero_cons, setupAll, setupAll, unseen.fault, unseen.setup]
          split <;> exact ⟨rfl, rfl⟩
      | succ index =>
          obtain ⟨later, fault⟩ := ih index
          rw [List.modify_succ_cons, setupAll, setupAll]
          split
          · exact ⟨rfl, rfl⟩
          · exact ⟨congrArg (child.setup.node :: ·) later, fault⟩

theorem Unseen.modify_in (name identity : String) :
    modifyIn? name (·.acknowledge identity) (children.modify index change) =
      (modifyIn? name (·.acknowledge identity) children).map (·.modify index change) := by
  induction children generalizing index with
  | nil => simp [modifyIn?]
  | cons child rest ih =>
      cases index with
      | zero =>
          rw [List.modify_zero_cons, modifyIn?, modifyIn?, unseen.acknowledge]
          cases modify? name (·.acknowledge identity) child with
          | some changed => rfl
          | none =>
              dsimp only [Option.map_none]
              rw [Option.map_map]
              rfl
      | succ index =>
          rw [List.modify_succ_cons, modifyIn?, modifyIn?, ih]
          cases modify? name (·.acknowledge identity) child with
          | some changed => rfl
          | none =>
              dsimp only
              rw [Option.map_map, Option.map_map]
              rfl

theorem Unseen.setup_child (node : Node) :
    (changeAt change [index] node).setup.node = changeAt change [index] node.setup.node ∧
      (changeAt change [index] node).setup.fault = node.setup.fault := by
  cases node with
  | leaf state content =>
      refine ⟨?_, rfl⟩
      cases content with
      | action action =>
          rw [changeAt, Node.setup, setupLeaf]
          cases action.setup state.name <;> rfl
      | condition | acknowledge | scripted => rfl
  | branch state rule children =>
      obtain ⟨below, fault⟩ := unseen.setup_all index children
      exact ⟨congrArg (Node.branch state rule ·) below, fault⟩

theorem Unseen.shutdown_child (node : Node) :
    (changeAt change [index] node).shutdown.1 = changeAt change [index] node.shutdown.1 := by
  cases node with
  | leaf state content => cases content <;> rfl
  | branch state rule children =>
      have opened : ∀ children, (Node.shutdown (.branch state rule children)).1 =
          .branch state rule (shutdownAll children).1 := fun _ => rfl
      rw [change_child, opened, opened, change_child, shutdown_all_eq_map, shutdown_all_eq_map,
        map_modify_of_commutes unseen.shutdown]

theorem Unseen.acknowledge_child (name identity : String) (node : Node) :
    (changeAt change [index] node).modify? name (·.acknowledge identity) =
      (node.modify? name (·.acknowledge identity)).map (changeAt change [index]) := by
  cases node with
  | leaf state content => exact (modify_leaf name identity state content fun _ _ => rfl).symm
  | branch state rule children =>
      rw [change_child, modify?, modify?, unseen.modify_in]
      split
      · rfl
      · rw [Option.map_map, Option.map_map]
        rfl

theorem Unseen.outside_child (content : Leaf) (path : Path) (node : Node) :
    (changeAt change [index] node).withLeaf content path =
      changeAt change [index] (node.withLeaf content path) := by
  cases node with
  | leaf state other => cases path <;> rfl
  | branch state rule children =>
      cases path with
      | nil => rfl
      | cons place path =>
          rw [change_child, withLeaf, withLeaf, change_child,
            modify_modify_of_commutes (unseen.outside content path)]

/-- What nobody can tell of a child nobody can tell of the branch. -/
theorem Unseen.child : Unseen (changeAt change [index]) where
  status node := by cases node <;> rfl
  tick surroundings node := (unseen.tick_child surroundings index node).1
  journal surroundings node := (unseen.tick_child surroundings index node).2
  halt node := (unseen.halt_child index node).1
  calls node := (unseen.halt_child index node).2
  setup node := (unseen.setup_child index node).1
  fault node := (unseen.setup_child index node).2
  shutdown := unseen.shutdown_child index
  acknowledge := unseen.acknowledge_child index
  outside := unseen.outside_child index

theorem Unseen.anywhere (path : Path) : Unseen (changeAt change path) := by
  induction path with
  | nil => exact unseen
  | cons index path ih =>
      rw [change_at_cons]
      exact ih.child index

/-! Runs. -/

theorem Unseen.move (step : Move) (node : Node) :
    (change node).move step = change (node.move step) := by
  cases step with
  | tick surroundings => exact unseen.tick surroundings node
  | halt => exact unseen.halt node
  | setup => exact unseen.setup node
  | shutdown => exact unseen.shutdown node
  | outside path content => exact unseen.outside content path node
  | acknowledge name identity =>
      rw [Node.move, Node.move, unseen.acknowledge]
      cases modify? name (·.acknowledge identity) node <;> rfl

theorem Unseen.after (node : Node) (moves : List Move) :
    (change node).after moves = change (node.after moves) := by
  induction moves generalizing node with
  | nil => rfl
  | cons step moves ih =>
      have later := ih (node.move step)
      rw [← unseen.move] at later
      exact later

theorem Unseen.observe (node : Node) (moves : List Move) :
    (change node).observe moves = node.observe moves := by
  induction moves generalizing node with
  | nil => rfl
  | cons step moves ih =>
      have later := ih (node.move step)
      rw [← unseen.move] at later
      cases step with
      | tick surroundings =>
          rw [Node.observe, Node.observe, later, unseen.journal, answer, answer, unseen.tick,
            unseen.status]
      | halt | acknowledge | setup | shutdown | outside => exact later

end Child

end BehaviorTree.Node
