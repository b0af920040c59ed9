import BehaviorTree.Node

/-!
Nodes by position. A position lists the child numbers that lead from the root to a node, so it
tells apart nodes that share a name.
-/

namespace BehaviorTree.Node

abbrev Path := List Nat

/-- What holds of every leaf, and of a branch whenever it holds of its children, holds of every
node. -/
@[elab_as_elim, induction_eliminator]
theorem induct {motive : Node → Prop}
    (leaf : ∀ state content, motive (.leaf state content))
    (branch : ∀ state rule children,
      (∀ child ∈ children, motive child) → motive (.branch state rule children))
    (node : Node) : motive node := by
  refine @Node.rec motive (fun children => ∀ child ∈ children, motive child) leaf branch
    ?_ ?_ node
  · intro child member
    simp at member
  · intro head tail first others child member
    rcases List.mem_cons.mp member with same | later
    · exact same ▸ first
    · exact others child later

/-- The node at a position, if there is one. -/
def at? : Node → Path → Option Node
  | node, [] => some node
  | node, index :: path => node.children[index]?.bind (at? · path)

@[simp] theorem at_nil (node : Node) : node.at? [] = some node := rfl

theorem at_cons (node : Node) (index : Nat) (path : Path) :
    node.at? (index :: path) = node.children[index]?.bind (at? · path) := rfl

theorem at_append (node : Node) (upper lower : Path) :
    node.at? (upper ++ lower) = (node.at? upper).bind (·.at? lower) := by
  induction upper generalizing node with
  | nil => rfl
  | cons index upper induction =>
      rw [List.cons_append, at_cons, at_cons]
      cases node.children[index]? with
      | none => rfl
      | some child => exact induction child

theorem at_branch_eq_some {state : NodeState} {rule : Rule} {children : List Node} {index : Nat}
    {path : Path} {sub : Node} :
    (branch state rule children).at? (index :: path) = some sub ↔
      ∃ child, children[index]? = some child ∧ child.at? path = some sub := by
  rw [at_cons, Option.bind_eq_some_iff]
  rfl

/-- A node below the root lies below a child, and only branches have children. -/
theorem branch_of_at_cons {node sub : Node} {index : Nat} {path : Path}
    (found : node.at? (index :: path) = some sub) :
    ∃ state rule children child, node = .branch state rule children ∧
      children[index]? = some child ∧ child.at? path = some sub := by
  cases node with
  | leaf state content => simp [at_cons, children] at found
  | branch state rule children =>
      obtain ⟨child, own, below⟩ := at_branch_eq_some.mp found
      exact ⟨state, rule, children, child, rfl, own, below⟩

/-- The leaf at a position gets another content. -/
def withLeaf (content : Leaf) : Path → Node → Node
  | [], .leaf state _ => .leaf state content
  | index :: path, .branch state rule children =>
      .branch state rule (children.modify index (withLeaf content path))
  | [], .branch state rule children => .branch state rule children
  | _ :: _, .leaf state other => .leaf state other

end BehaviorTree.Node
