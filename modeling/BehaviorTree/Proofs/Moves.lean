import BehaviorTree.Node.LifeCycle
import BehaviorTree.Node.Lookup
import BehaviorTree.Node.Tick
import BehaviorTree.Proofs.Position

/-!
Runs of a control tree. A tree is built idle; from then on it is ticked, halted, acknowledged, set
up and shut down from the root, in any order, while its leaves may come to stand differently by
what happens outside of it. Only ticks and halts touch statuses and the memory of rules.
-/

namespace BehaviorTree.Node

/-- Trees as they are built: nothing was ticked yet, and no rule remembers anything. -/
inductive Built : Node → Prop where
  | leaf (state : NodeState) (content : Leaf) (fresh : state.status = .invalid) :
      Built (.leaf state content)
  | row (state : NodeState) (flow : Flow) (memory : Bool) (children : List Node)
      (fresh : state.status = .invalid) (below : ∀ child ∈ children, Built child) :
      Built (.row state flow memory children)
  | parallel (state : NodeState) (policy : ParallelPolicy) (synchronise : Bool)
      (children : List Node) (fresh : state.status = .invalid)
      (below : ∀ child ∈ children, Built child) :
      Built (.parallel state policy synchronise children)
  | checkAndDo (state : NodeState) (check act : Node) (fresh : state.status = .invalid)
      (first : Built check) (second : Built act) : Built (.checkAndDo state check act)

/-- A drive to some place, followed by two reports side by side. -/
def excursion : Node :=
  .row { name := "excursion" } .sequence true
    [.leaf { name := "ready" } (.condition (.signal true)),
      .row { name := "arrive" } .selector false
        [.leaf { name := "arrived" } (.condition (.signal false)),
          .action { name := "drive" } { completion := .external, step := .external }],
      .parallel { name := "report" } .successOnAll true
        [.leaf { name := "released" } (.acknowledge ["operator"] none),
          .leaf { name := "logged" } (.scripted .action [.running, .success] none)]]

theorem excursion_built : Built excursion := by
  apply Built.row { name := "excursion" } .sequence true _ rfl
  simp only [List.forall_mem_cons, List.not_mem_nil, false_implies, implies_true, and_true]
  refine ⟨.leaf _ _ rfl, ?_, ?_⟩
  · apply Built.row { name := "arrive" } .selector false _ rfl
    simp only [List.forall_mem_cons, List.not_mem_nil, false_implies, implies_true, and_true]
    exact ⟨.leaf _ _ rfl, .leaf _ _ rfl⟩
  · apply Built.parallel { name := "report" } .successOnAll true _ rfl
    simp only [List.forall_mem_cons, List.not_mem_nil, false_implies, implies_true, and_true]
    exact ⟨.leaf _ _ rfl, .leaf _ _ rfl⟩

/-- What can happen to a tree. The last kind stands for workers, signals and scripts: the content
of one leaf becomes any other, so the leaf may answer anything from then on. -/
inductive Move where
  | tick (surroundings : Surroundings)
  | halt
  | acknowledge (name identity : String)
  | setup
  | shutdown
  | outside (path : Path) (content : Leaf)

def move (node : Node) : Move → Node
  | .tick surroundings => (node.tick surroundings).node
  | .halt => node.halt.node
  | .acknowledge name identity => (node.modify? name (·.acknowledge identity)).getD node
  | .setup => node.setup.node
  | .shutdown => node.shutdown.1
  | .outside path content => node.withLeaf content path

/-- The tree after a run of moves. -/
def after (node : Node) (moves : List Move) : Node := moves.foldl move node

/-- What every move keeps holds after every run. -/
theorem after_invariant {invariant : Node → Prop}
    (kept : ∀ node step, invariant node → invariant (node.move step))
    {node : Node} (holds : invariant node) (moves : List Move) : invariant (node.after moves) := by
  induction moves generalizing node with
  | nil => exact holds
  | cons first moves induction => exact induction (kept node first holds)

/-! The skeleton of a tree: its shape with the statuses and rules, and nothing else. -/

def bareState (state : NodeState) : NodeState := { name := "", status := state.status }

mutual

def skeleton : Node → Node
  | .leaf state _ => .leaf (bareState state) (.condition (.signal false))
  | .branch state rule children => .branch (bareState state) rule (skeletons children)

def skeletons : List Node → List Node
  | [] => []
  | child :: rest => skeleton child :: skeletons rest

end

theorem skeletons_eq_map (children : List Node) : skeletons children = children.map skeleton := by
  induction children with
  | nil => rfl
  | cons child rest induction => rw [skeletons, induction, List.map_cons]

theorem skeleton_branch (state : NodeState) (rule : Rule) (children : List Node) :
    skeleton (.branch state rule children) =
      .branch (bareState state) rule (children.map skeleton) := by
  rw [skeleton, skeletons_eq_map]

@[simp] theorem skeleton_status (node : Node) : node.skeleton.status = node.status := by
  cases node <;> rfl

theorem setup_skeleton (node : Node) : node.setup.node.skeleton = node.skeleton := by
  induction node with
  | leaf state content =>
      cases content with
      | action action =>
          rw [setup, setupLeaf]
          cases action.setup state.name <;> rfl
      | condition | acknowledge | scripted => rfl
  | branch state rule children induction =>
      have below : (setupAll children).children.map skeleton = children.map skeleton := by
        induction children with
        | nil => rfl
        | cons child rest later =>
            have first := induction child (by simp)
            have others := later fun other member => induction other (by simp [member])
            rw [setupAll]
            split
            · rw [List.map_cons, List.map_cons, first]
            · rw [List.map_cons, List.map_cons, first, others]
      rw [setup, skeleton_branch, skeleton_branch, below]

theorem shutdown_skeleton (node : Node) : node.shutdown.1.skeleton = node.skeleton := by
  induction node with
  | leaf state content => cases content <;> rfl
  | branch state rule children induction =>
      have below : (shutdownAll children).1.map skeleton = children.map skeleton := by
        induction children with
        | nil => rfl
        | cons child rest later =>
            have first := induction child (by simp)
            have others := later fun other member => induction other (by simp [member])
            rw [List.map_cons, ← first, ← others]
            rfl
      have opened : (shutdown (.branch state rule children)).1 =
          .branch state rule (shutdownAll children).1 := rfl
      rw [opened, skeleton_branch, skeleton_branch, below]

theorem acknowledge_skeleton (identity : String) (node : Node) :
    (node.acknowledge identity).skeleton = node.skeleton := by
  cases node with
  | branch state rule children => rfl
  | leaf state content =>
      cases content with
      | acknowledge permitted acknowledgedBy =>
          rw [acknowledge]
          split <;> rfl
      | condition | action | scripted => rfl

theorem modify_skeleton {name : String} {change : Node → Node}
    (kept : ∀ node, (change node).skeleton = node.skeleton) {node changed : Node}
    (modified : node.modify? name change = some changed) : changed.skeleton = node.skeleton := by
  induction node generalizing changed with
  | leaf state content =>
      rw [modify?] at modified
      split at modified
      · cases modified
        exact kept _
      · cases modified
  | branch state rule children induction =>
      have below : ∀ others, modifyIn? name change children = some others →
          others.map skeleton = children.map skeleton := by
        clear modified
        induction children with
        | nil =>
            intro others found
            cases found
        | cons child rest later =>
            intro others found
            rw [modifyIn?] at found
            split at found
            next first own =>
              cases found
              rw [List.map_cons, List.map_cons, induction child (by simp) own]
            next =>
              obtain ⟨tail, inside, rfl⟩ := Option.map_eq_some_iff.mp found
              have others := later (fun other member => induction other (by simp [member]))
                tail inside
              rw [List.map_cons, List.map_cons, others]
      rw [modify?] at modified
      split at modified
      · cases modified
        exact kept _
      · obtain ⟨others, found, rfl⟩ := Option.map_eq_some_iff.mp modified
        rw [skeleton_branch, skeleton_branch, below others found]

theorem with_leaf_skeleton (content : Leaf) (path : Path) (node : Node) :
    (node.withLeaf content path).skeleton = node.skeleton := by
  induction path generalizing node with
  | nil => cases node <;> rfl
  | cons index path induction =>
      cases node with
      | leaf state other => rfl
      | branch state rule children =>
          have below : (children.modify index (withLeaf content path)).map skeleton =
              children.map skeleton := by
            apply List.ext_getElem?
            intro place
            rw [List.getElem?_map, List.getElem?_map, List.getElem?_modify, Option.map_eq_map,
              Option.map_map]
            congr 1
            funext child
            dsimp only [Function.comp_apply]
            split
            · exact induction child
            · rfl
          rw [withLeaf, skeleton_branch, skeleton_branch, below]

/-- Moves other than ticks and halts keep the skeleton. -/
theorem move_skeleton (node : Node) (step : Move) (noHalt : step ≠ .halt)
    (noTick : ∀ surroundings, step ≠ .tick surroundings) :
    (node.move step).skeleton = node.skeleton := by
  cases step with
  | tick surroundings => exact absurd rfl (noTick surroundings)
  | halt => exact absurd rfl noHalt
  | setup => exact setup_skeleton node
  | shutdown => exact shutdown_skeleton node
  | outside path content => exact with_leaf_skeleton content path node
  | acknowledge name identity =>
      rw [move]
      cases modified : node.modify? name (·.acknowledge identity) with
      | none => rfl
      | some changed => exact modify_skeleton (acknowledge_skeleton identity) modified

end BehaviorTree.Node
