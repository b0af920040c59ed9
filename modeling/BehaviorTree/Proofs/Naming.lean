import BehaviorTree.Proofs.Moves
import BehaviorTree.Proofs.Places
import BehaviorTree.Proofs.Visits

/-!
Names and positions. A search by name comes to one position, whether it is for looking or for
changing, and what happens to a tree leaves every name where it is. So in a tree whose names are
distinct a name stands for one position for good, and no tick visits it twice.
-/

namespace BehaviorTree.Node

/-- Changes the node at a position. -/
def changeAt (change : Node → Node) : Path → Node → Node
  | [], node => change node
  | index :: path, .branch state rule children =>
      .branch state rule (children.modify index (changeAt change path))
  | _ :: _, .leaf state content => .leaf state content

theorem change_at_branch (change : Node → Node) (index : Nat) (path : Path) (state : NodeState)
    (rule : Rule) (children : List Node) :
    changeAt change (index :: path) (.branch state rule children) =
      .branch state rule (children.modify index (changeAt change path)) := rfl

theorem at_change_at (change : Node → Node) (path : Path) (node : Node) :
    (node.changeAt change path).at? path = (node.at? path).map change := by
  induction path generalizing node with
  | nil => rfl
  | cons index path ih =>
      cases node with
      | leaf state content => rfl
      | branch state rule children =>
          rw [change_at_branch, at_cons, at_cons, Node.children, Node.children,
            List.getElem?_modify_eq]
          cases children[index]? with
          | none => rfl
          | some child => exact ih child

/-- What can be seen of a node without its children. -/
def Shallow {Look : Type} (look : Node → Look) : Prop :=
  ∀ state rule first second,
    look (.branch state rule first) = look (.branch state rule second)

/-- Besides the position itself no node looks different. -/
theorem at_change_at_other {Look : Type} {look : Node → Look} (shallow : Shallow look)
    {change : Node → Node} (below : ∀ node, (change node).children = node.children)
    {path other : Path} (apart : other ≠ path) (node : Node) :
    ((node.changeAt change path).at? other).map look = (node.at? other).map look := by
  induction path generalizing node other with
  | nil =>
      cases other with
      | nil => contradiction
      | cons place lower => rw [changeAt, at_cons, at_cons, below]
  | cons index path ih =>
      cases node with
      | leaf state content => rfl
      | branch state rule children =>
          rw [change_at_branch]
          cases other with
          | nil => exact congrArg some (shallow state rule _ _)
          | cons place lower =>
              rw [at_cons, at_cons, Node.children, Node.children, List.getElem?_modify]
              cases children[place]? with
              | none => rfl
              | some child =>
                  by_cases here : index = place
                  · have elsewhere : lower ≠ path := by
                      intro same
                      exact apart (by rw [here, same])
                    simpa [here] using ih elsewhere child
                  · simp [here]

/-- A change that keeps how a node looks and what is below it keeps how the tree looks. -/
theorem at_change_at_kept {Look : Type} {look : Node → Look} (shallow : Shallow look)
    {change : Node → Node} (below : ∀ node, (change node).children = node.children)
    (kept : ∀ node, look (change node) = look node) (place : Path) (node : Node) (path : Path) :
    ((node.changeAt change place).at? path).map look = (node.at? path).map look := by
  by_cases here : path = place
  · rw [here, at_change_at, Option.map_map]
    congr 1
    funext sub
    exact kept sub
  · exact at_change_at_other shallow below here node

theorem with_leaf_eq_change_at (content : Leaf) (path : Path) (node : Node) :
    node.withLeaf content path = node.changeAt (withLeaf content []) path := by
  induction path generalizing node with
  | nil => rfl
  | cons index path ih =>
      cases node with
      | leaf state other => rfl
      | branch state rule children =>
          have same : withLeaf content path = changeAt (withLeaf content []) path := funext ih
          rw [withLeaf, change_at_branch, same]

/-! Searches. -/

/-- A search for the name comes to that position. -/
structure Finds (name : String) (node : Node) (path : Path) : Prop where
  bears : (node.at? path).map Node.name = some name
  looked : node.find? name = node.at? path
  changed : ∀ change, node.modify? name change = some (node.changeAt change path)

/-- A search for the name comes to nothing. -/
structure Misses (name : String) (node : Node) : Prop where
  unknown : ∀ path, (node.at? path).map Node.name ≠ some name
  looked : node.find? name = none
  changed : ∀ change, node.modify? name change = none

theorem finds_at_root {name : String} {node : Node} (same : node.name = name) :
    Finds name node [] := by
  cases node with
  | leaf state content =>
      have own : state.name = name := same
      exact ⟨congrArg some same, by simp [find?, own], by simp [modify?, own, changeAt]⟩
  | branch state rule children =>
      have own : state.name = name := same
      exact ⟨congrArg some same, by simp [find?, own], by simp [modify?, own, changeAt]⟩

/-- A search among some nodes comes to the first of them in which it comes to something. -/
theorem search_children {name : String} {children : List Node}
    (each : ∀ child ∈ children, (∃ path, Finds name child path) ∨ Misses name child) :
    (∃ index child path, children[index]? = some child ∧ Finds name child path ∧
        findIn? name children = child.at? path ∧
        ∀ change, modifyIn? name change children =
          some (children.modify index (changeAt change path))) ∨
      (∀ child ∈ children, Misses name child) ∧ findIn? name children = none ∧
        ∀ change, modifyIn? name change children = none := by
  induction children with
  | nil => exact .inr ⟨by simp, rfl, fun _ => rfl⟩
  | cons child rest ih =>
      rcases each child (by simp) with ⟨path, finds⟩ | misses
      · refine .inl ⟨0, child, path, rfl, finds, ?_, ?_⟩
        · obtain ⟨sub, found, -⟩ := Option.map_eq_some_iff.mp finds.bears
          rw [findIn?, finds.looked, found, Option.some_or]
        · intro change
          rw [modifyIn?, finds.changed change]
          rfl
      · -- Nothing in the first child: what the rest gives moves one place on.
        rcases ih fun other member => each other (List.mem_cons_of_mem child member) with
          ⟨index, other, path, own, finds, looked, changed⟩ | ⟨others, looked, changed⟩
        · refine .inl ⟨index + 1, other, path, own, finds, ?_, ?_⟩
          · rw [findIn?, misses.looked, Option.none_or, looked]
          · intro change
            rw [modifyIn?, misses.changed change, changed change]
            rfl
        · refine .inr ⟨List.forall_mem_cons.mpr ⟨misses, others⟩, ?_, ?_⟩
          · rw [findIn?, misses.looked, Option.none_or, looked]
          · intro change
            rw [modifyIn?, misses.changed change, changed change]
            rfl

/-- A search comes to one position, or the name is not there. -/
theorem finds_or_misses (name : String) (node : Node) :
    (∃ path, Finds name node path) ∨ Misses name node := by
  induction node with
  | leaf state content =>
      by_cases own : state.name = name
      · exact .inl ⟨[], finds_at_root own⟩
      · refine .inr ⟨?_, by simp [find?, own], by simp [modify?, own]⟩
        intro path
        cases path with
        | nil => simpa [Node.name, Node.state] using own
        | cons index path => simp [at_cons, children]
  | branch state rule children ih =>
      by_cases own : state.name = name
      · exact .inl ⟨[], finds_at_root own⟩
      · rcases search_children ih with ⟨index, child, path, here, finds, looked, changed⟩ |
          ⟨others, looked, changed⟩
        · have below : (branch state rule children).at? (index :: path) = child.at? path := by
            rw [at_cons, Node.children, here, Option.bind_some]
          refine .inl ⟨index :: path, by rw [below]; exact finds.bears, ?_, ?_⟩
          · rw [below, find?, if_neg own, looked]
          · intro change
            rw [modify?, if_neg own, changed change]
            rfl
        · refine .inr ⟨?_, by rw [find?, if_neg own, looked], ?_⟩
          · intro path
            cases path with
            | nil => simpa [Node.name, Node.state] using own
            | cons index path =>
                rw [at_cons, Node.children]
                cases here : children[index]? with
                | none => simp
                | some child => exact (others child (List.mem_of_getElem? here)).unknown path
          · intro change
            rw [modify?, if_neg own, changed change]
            rfl

theorem Finds.of_bears {name : String} {node : Node} {path : Path}
    (bears : (node.at? path).map Node.name = some name) : ∃ place, Finds name node place := by
  rcases finds_or_misses name node with found | misses
  · exact found
  · exact absurd bears (misses.unknown path)

/-! What lasts. -/

/-- What can be seen of a node before and after anything that the life of its tree does to it. -/
structure Lasting {Look : Type} (look : Node → Look) : Prop where
  tick : ∀ surroundings node, look (node.tick surroundings).node = look node
  halt : ∀ node, look node.halt.node = look node
  setup : ∀ node, look node.setup.node = look node
  shutdown : ∀ node, look node.shutdown.1 = look node

section

variable {Look : Type} {look : Node → Look}

theorem Lasting.at_halt (lasting : Lasting look) (node : Node) (path : Path) :
    (node.halt.node.at? path).map look = (node.at? path).map look := by
  rw [Node.at_halt, Option.map_map]
  congr 1
  funext sub
  exact lasting.halt sub

theorem Lasting.at_stilled (lasting : Lasting look) (node : Node) (path : Path) :
    (node.stilled.at? path).map look = (node.at? path).map look := by
  unfold stilled
  split
  · exact lasting.at_halt node path
  · rfl

theorem Lasting.at_concluded (lasting : Lasting look) (answer : Status) (node : Node)
    (path : Path) : ((concluded answer node).at? path).map look = (node.at? path).map look := by
  unfold concluded
  split
  · rfl
  · exact lasting.at_stilled node path

/-- A tick leaves at every position what it found there. -/
theorem Lasting.at_tick (lasting : Lasting look) (surroundings : Surroundings) (node : Node)
    (path : Path) :
    ((node.tick surroundings).node.at? path).map look = (node.at? path).map look := by
  induction path generalizing node with
  | nil => exact congrArg some (lasting.tick surroundings node)
  | cons index path ih =>
      cases node with
      | leaf state content => rfl
      | branch state rule children =>
          rw [at_cons, tick_children, at_cons, Node.children]
          cases children[index]? with
          | none => rfl
          | some child =>
              rw [Option.map_some, Option.bind_some, Option.bind_some, lasting.at_concluded]
              cases treatment surroundings (rule.atEntry state.status) children index with
              | ticked => exact ih child
              | stopped => exact lasting.at_stilled child path
              | rested => rfl

theorem Lasting.at_setup (lasting : Lasting look) (node : Node) (path : Path) :
    (node.setup.node.at? path).map look = (node.at? path).map look := by
  induction path generalizing node with
  | nil => exact congrArg some (lasting.setup node)
  | cons index path ih =>
      cases node with
      | leaf state content =>
          cases content with
          | action action =>
              rw [Node.setup, setupLeaf]
              cases action.setup state.name <;> rfl
          | condition | acknowledge | scripted => rfl
      | branch state rule children =>
          have after : (Node.setup (.branch state rule children)).node =
              .branch state rule (setupAll children).children := rfl
          rw [after, at_cons, at_cons, Node.children, Node.children]
          rcases setup_all_child children index with prepared | left
          · rw [prepared]
            cases children[index]? with
            | none => rfl
            | some child => exact ih child
          · rw [left]

theorem Lasting.at_shutdown (lasting : Lasting look) (node : Node) (path : Path) :
    (node.shutdown.1.at? path).map look = (node.at? path).map look := by
  rw [Node.at_shutdown, Option.map_map]
  congr 1
  funext sub
  exact lasting.shutdown sub

end

theorem name_shallow : Shallow name := fun _ _ _ _ => rfl

@[simp] theorem tick_name (surroundings : Surroundings) (node : Node) :
    (tick surroundings node).node.name = node.name := by
  cases node with
  | leaf state content => rfl
  | branch state rule children =>
      rw [tick_branch, conclude_node]
      rfl

@[simp] theorem halt_name (node : Node) : node.halt.node.name = node.name := by
  cases node with
  | leaf state content => rfl
  | branch state rule children =>
      rw [halt_branch]
      rfl

@[simp] theorem setup_name (node : Node) : node.setup.node.name = node.name := by
  cases node with
  | leaf state content =>
      cases content with
      | action action =>
          rw [setup, setupLeaf]
          cases action.setup state.name <;> rfl
      | condition | acknowledge | scripted => rfl
  | branch state rule children => rfl

@[simp] theorem shutdown_name (node : Node) : node.shutdown.1.name = node.name := by
  cases node with
  | leaf state content => cases content <;> rfl
  | branch state rule children => rfl

theorem name_lasting : Lasting name := ⟨tick_name, halt_name, setup_name, shutdown_name⟩

@[simp] theorem acknowledge_children (identity : String) (node : Node) :
    (node.acknowledge identity).children = node.children := by
  cases node with
  | branch state rule children => rfl
  | leaf state content =>
      cases content with
      | acknowledge permitted acknowledgedBy =>
          rw [acknowledge]
          split <;> rfl
      | condition | action | scripted => rfl

@[simp] theorem acknowledge_name (identity : String) (node : Node) :
    (node.acknowledge identity).name = node.name := by
  cases node with
  | branch state rule children => rfl
  | leaf state content =>
      cases content with
      | acknowledge permitted acknowledgedBy =>
          rw [acknowledge]
          split <;> rfl
      | condition | action | scripted => rfl

/-- Whatever happens to a tree, every name stays where it is. -/
theorem move_names (step : Move) (node : Node) (path : Path) :
    ((node.move step).at? path).map name = (node.at? path).map name := by
  cases step with
  | tick surroundings => exact name_lasting.at_tick surroundings node path
  | halt => exact name_lasting.at_halt node path
  | setup => exact name_lasting.at_setup node path
  | shutdown => exact name_lasting.at_shutdown node path
  | outside place content =>
      rw [move, with_leaf_eq_change_at]
      apply at_change_at_kept name_shallow
      · intro sub
        cases sub <;> rfl
      · intro sub
        cases sub <;> rfl
  | acknowledge text identity =>
      rw [move]
      rcases finds_or_misses text node with ⟨place, finds⟩ | misses
      · rw [finds.changed, Option.getD_some]
        exact at_change_at_kept name_shallow (acknowledge_children identity)
          (acknowledge_name identity) place node path
      · rw [misses.changed, Option.getD_none]

theorem after_names (moves : List Move) (node : Node) (path : Path) :
    ((node.after moves).at? path).map name = (node.at? path).map name := by
  induction moves generalizing node with
  | nil => rfl
  | cons first rest ih =>
      have later := ih (node.move first)
      rw [move_names] at later
      exact later

/-! Distinct names. -/

/-- No name stands at two positions. -/
def Distinct (node : Node) : Prop :=
  ∀ ⦃first second : Path⦄ ⦃name : String⦄, (node.at? first).map Node.name = some name →
    (node.at? second).map Node.name = some name → first = second

theorem Distinct.of_names {before after : Node} (distinct : before.Distinct)
    (same : ∀ path, (after.at? path).map name = (before.at? path).map name) : after.Distinct := by
  intro first second text one other
  rw [same] at one other
  exact distinct one other

/-- Where names are distinct a search comes to the one position that has the name. -/
theorem Distinct.finds {node : Node} (distinct : node.Distinct) {name : String} {path : Path}
    (bears : (node.at? path).map Node.name = some name) : Finds name node path := by
  obtain ⟨place, finds⟩ := Finds.of_bears bears
  exact distinct finds.bears bears ▸ finds

/-- Where names are distinct no tick visits a name twice. -/
theorem Distinct.visits_nodup {node : Node} (distinct : node.Distinct)
    (surroundings : Surroundings) :
    ((tick surroundings node).journal.visits.map (·.name)).Nodup := by
  have paths : ((trail surroundings node).map (·.path)).Nodup := by
    rw [trail_paths]
    exact (postorder_nodup node).filter _
  have bears : ∀ step ∈ trail surroundings node,
      (node.at? step.path).map name = some step.name := by
    intro step member
    obtain ⟨sub, found, same, -⟩ := footstep_of_mem surroundings member
    rw [found, same]
    rfl
  rw [← trail_visits, List.map_map]
  apply List.Nodup.map_on _ (List.Nodup.of_map _ paths)
  intro first inFirst second inSecond same
  have named : first.name = second.name := same
  apply List.inj_on_of_nodup_map paths inFirst inSecond
  apply distinct (bears first inFirst)
  rw [named]
  exact bears second inSecond

end BehaviorTree.Node
