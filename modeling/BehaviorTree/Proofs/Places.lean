import BehaviorTree.Node.LifeCycle
import BehaviorTree.Node.Lookup
import BehaviorTree.Proofs.Halting

/-!
What the operations of a tree leave at a position. Setting up may stop before it comes there,
shutting down never does, and halting by name may mean a node above, the node itself, a node below
or another one.
-/

namespace BehaviorTree.Node

theorem setup_all_child (children : List Node) (index : Nat) :
    (setupAll children).children[index]? = children[index]?.map (·.setup.node) ∨
      (setupAll children).children[index]? = children[index]? := by
  induction children generalizing index with
  | nil => exact .inr rfl
  | cons child rest ih =>
      rw [setupAll]
      split
      · cases index with
        | zero => exact .inl rfl
        | succ index => exact .inr rfl
      · cases index with
        | zero => exact .inl rfl
        | succ index => exact ih index

theorem at_setup {node sub : Node} {path : Path} (found : node.at? path = some sub) :
    node.setup.node.at? path = some sub.setup.node ∨ node.setup.node.at? path = some sub := by
  induction path generalizing node with
  | nil =>
      cases found
      exact .inl rfl
  | cons index path ih =>
      obtain ⟨state, rule, children, child, rfl, own, below⟩ := branch_of_at_cons found
      have after : (setup (.branch state rule children)).node =
          .branch state rule (setupAll children).children := rfl
      rw [after]
      rcases setup_all_child children index with prepared | left
      · rw [own, Option.map_some] at prepared
        simpa [at_cons, Node.children, prepared] using ih below
      · rw [own] at left
        refine .inr (at_branch_eq_some.mpr ⟨child, left, below⟩)

theorem shutdown_all_eq_map (children : List Node) :
    (shutdownAll children).1 = children.map (·.shutdown.1) := by
  induction children with
  | nil => rfl
  | cons child rest ih =>
      rw [List.map_cons, ← ih]
      rfl

theorem at_shutdown (node : Node) (path : Path) :
    node.shutdown.1.at? path = (node.at? path).map (·.shutdown.1) := by
  induction path generalizing node with
  | nil => rfl
  | cons index path ih =>
      cases node with
      | leaf state content => cases content <;> rfl
      | branch state rule children =>
          have after : (shutdown (.branch state rule children)).1 =
              .branch state rule (shutdownAll children).1 := rfl
          rw [after, at_cons, at_cons, Node.children, Node.children, shutdown_all_eq_map,
            List.getElem?_map]
          cases children[index]? with
          | none => rfl
          | some child => exact ih child

theorem at_with_leaf (content : Leaf) (upper lower : Path) (node : Node) :
    (node.withLeaf content (upper ++ lower)).at? upper =
      (node.at? upper).map (withLeaf content lower) := by
  induction upper generalizing node with
  | nil => rfl
  | cons index upper ih =>
      cases node with
      | leaf state other => rfl
      | branch state rule children =>
          rw [List.cons_append, withLeaf, at_cons, at_cons, Node.children, Node.children,
            List.getElem?_modify_eq]
          cases children[index]? with
          | none => rfl
          | some child => exact ih child

theorem at_with_leaf_self {node : Node} {path : Path} {state : NodeState} {content : Leaf}
    (found : node.at? path = some (.leaf state content)) (after : Leaf) :
    (node.withLeaf after path).at? path = some (.leaf state after) := by
  have known := at_with_leaf after path [] node
  rw [List.append_nil, found] at known
  exact known

theorem with_leaf_twice (first second : Leaf) (path : Path) (node : Node) :
    (node.withLeaf first path).withLeaf second path = node.withLeaf second path := by
  induction path generalizing node with
  | nil => cases node <;> rfl
  | cons index path ih =>
      cases node with
      | leaf state content => rfl
      | branch state rule children =>
          have both : withLeaf second path ∘ withLeaf first path = withLeaf second path :=
            funext ih
          rw [withLeaf, withLeaf, withLeaf, List.modify_modify_eq, both]

theorem with_leaf_same {node : Node} {path : Path} {state : NodeState} {content : Leaf}
    (found : node.at? path = some (.leaf state content)) : node.withLeaf content path = node := by
  induction path generalizing node with
  | nil =>
      cases found
      rfl
  | cons index path ih =>
      obtain ⟨before, rule, children, child, rfl, own, below⟩ := branch_of_at_cons found
      rw [withLeaf]
      congr 1
      apply List.ext_getElem?
      intro place
      rw [List.getElem?_modify]
      split
      next here =>
        rw [← here, own, Option.map_eq_map, Option.map_some, ih below]
      next => simp

theorem modify_in_child {name : String} {change : Node → Node} {children others : List Node}
    (modified : modifyIn? name change children = some others) {index : Nat} {child : Node}
    (own : children[index]? = some child) :
    others[index]? = some child ∨
      ∃ changed, child.modify? name change = some changed ∧ others[index]? = some changed := by
  induction children generalizing others index with
  | nil => cases modified
  | cons first rest ih =>
      rw [modifyIn?] at modified
      split at modified
      next changed here =>
        cases modified
        cases index with
        | zero =>
            cases own
            exact .inr ⟨changed, here, rfl⟩
        | succ index => exact .inl own
      next =>
        obtain ⟨later, inside, rfl⟩ := Option.map_eq_some_iff.mp modified
        cases index with
        | zero => exact .inl own
        | succ index => exact ih inside own

/-- The first node of that name is above the position, or at or below it, or elsewhere. -/
theorem at_modify_halt {name : String} {node after sub : Node} {path : Path}
    (modified : node.modify? name (·.halt.node) = some after)
    (found : node.at? path = some sub) :
    after.at? path = some sub ∨ after.at? path = some sub.halt.node ∨
      ∃ inner, sub.modify? name (·.halt.node) = some inner ∧ after.at? path = some inner := by
  induction path generalizing node after with
  | nil =>
      cases found
      exact .inr (.inr ⟨after, modified, rfl⟩)
  | cons index path ih =>
      obtain ⟨state, rule, children, child, rfl, own, below⟩ := branch_of_at_cons found
      rw [modify?] at modified
      split at modified
      · cases modified
        rw [at_halt, found]
        exact .inr (.inl rfl)
      · obtain ⟨others, inside, rfl⟩ := Option.map_eq_some_iff.mp modified
        rcases modify_in_child inside own with same | ⟨changed, here, moved⟩
        · exact .inl (at_branch_eq_some.mpr ⟨child, same, below⟩)
        · simpa [at_cons, Node.children, moved] using ih here below

end BehaviorTree.Node
