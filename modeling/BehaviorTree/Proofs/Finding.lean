import BehaviorTree.Proofs.Naming
import BehaviorTree.Proofs.Reporting

/-!
Looking for names. A node may be looked up in a tree, looked up in the report of the tree, or
changed in place by its name. All three come to the first node in pre-order that has the name, and
a change shows nowhere in the report but below that node.
-/

namespace BehaviorTree

namespace Node

/-! Pre-order. -/

/-- A position with the node there. -/
abbrev Place := Path × Node

mutual

/-- The places of a tree, every node before those below it. -/
def preorder : Node → List Place
  | .leaf state content => [([], .leaf state content)]
  | .branch state rule children =>
      ([], .branch state rule children) ::
        (preorderBelow children).map fun inner => (inner.1 :: inner.2.1, inner.2.2)

/-- The places in some trees, each with the number of its tree. -/
def preorderBelow : List Node → List (Nat × Place)
  | [] => []
  | child :: rest =>
      (preorder child).map (fun place => (0, place)) ++
        (preorderBelow rest).map fun inner => (inner.1 + 1, inner.2)

end

theorem mem_preorder_below {children : List Node} {index : Nat} {place : Place} :
    (index, place) ∈ preorderBelow children ↔
      ∃ child, children[index]? = some child ∧ place ∈ preorder child := by
  induction children generalizing index with
  | nil => simp [preorderBelow]
  | cons child rest ih =>
      rw [preorderBelow, List.mem_append, List.mem_map, List.mem_map]
      cases index with
      | zero => simp
      | succ index =>
          rw [List.getElem?_cons_succ, ← ih]
          simp

/-- The pre-order has every node of the tree at its position. -/
theorem mem_preorder_iff {node sub : Node} {path : Path} :
    (path, sub) ∈ preorder node ↔ node.at? path = some sub := by
  induction node generalizing path with
  | leaf state content =>
      rw [preorder, List.mem_singleton]
      cases path with
      | nil => simp [eq_comm]
      | cons index path => simp [at_cons, children]
  | branch state rule children ih =>
      rw [preorder, List.mem_cons, List.mem_map]
      cases path with
      | nil => simp [eq_comm]
      | cons index path =>
          rw [at_branch_eq_some]
          constructor
          · rintro (root | ⟨⟨number, place⟩, member, same⟩)
            · cases root
            · cases same
              obtain ⟨child, own, inside⟩ := mem_preorder_below.mp member
              exact ⟨child, own, (ih child (List.mem_of_getElem? own)).mp inside⟩
          · rintro ⟨child, own, below⟩
            have inside := (ih child (List.mem_of_getElem? own)).mpr below
            exact .inr ⟨(index, path, sub), mem_preorder_below.mpr ⟨child, own, inside⟩, rfl⟩

/-- The first place in pre-order whose node has the name. -/
def first? (name : String) (node : Node) : Option Place :=
  node.preorder.find? (·.2.name = name)

def firstBelow? (name : String) (children : List Node) : Option (Nat × Place) :=
  (preorderBelow children).find? (·.2.2.name = name)

theorem first_at_root {name : String} {node : Node} (same : node.name = name) :
    node.first? name = some ([], node) := by
  cases node with
  | leaf | branch =>
      rw [first?, preorder, List.find?_cons_of_pos]
      exact decide_eq_true same

theorem first_leaf_of_ne {name : String} {state : NodeState} (apart : state.name ≠ name)
    (content : Leaf) : (leaf state content).first? name = none := by
  rw [first?, preorder, List.find?_singleton]
  exact if_neg (Bool.eq_false_iff.mp (decide_eq_false apart))

theorem first_branch_of_ne {name : String} {state : NodeState} (apart : state.name ≠ name)
    (rule : Rule) (children : List Node) :
    (branch state rule children).first? name =
      (firstBelow? name children).map fun inner => (inner.1 :: inner.2.1, inner.2.2) := by
  rw [first?, preorder, List.find?_cons_of_neg, List.find?_map]
  · rfl
  · exact Bool.eq_false_iff.mp (decide_eq_false apart)

theorem first_below_cons (name : String) (child : Node) (rest : List Node) :
    firstBelow? name (child :: rest) =
      ((child.first? name).map fun place => (0, place)).or
        ((firstBelow? name rest).map fun inner => (inner.1 + 1, inner.2)) := by
  rw [firstBelow?, preorderBelow, List.find?_append, List.find?_map, List.find?_map]
  rfl

theorem first_eq_none_iff {name : String} {node : Node} :
    node.first? name = none ↔ ∀ path, (node.at? path).map Node.name ≠ some name := by
  rw [first?, List.find?_eq_none]
  constructor
  · intro missing path bears
    obtain ⟨sub, found, named⟩ := Option.map_eq_some_iff.mp bears
    exact missing (path, sub) (mem_preorder_iff.mpr found) (decide_eq_true named)
  · rintro missing ⟨path, sub⟩ member named
    apply missing path
    rw [mem_preorder_iff.mp member, Option.map_some, of_decide_eq_true named]

theorem at_of_first {name : String} {node found : Node} {path : Path}
    (first : node.first? name = some (path, found)) :
    node.at? path = some found ∧ found.name = name := by
  rw [first?] at first
  have named := List.find?_some first
  exact ⟨mem_preorder_iff.mp (List.mem_of_find?_eq_some first), of_decide_eq_true named⟩

/-! Searches. -/

/-- Looking in the tree, looking in its report and changing in place come to the first place. -/
structure Agrees (name : String) (node : Node) : Prop where
  looked : node.find? name = (node.first? name).map (·.2)
  reported : (Report.of node).find? name = (node.first? name).map fun place => .of place.2
  changed : ∀ change,
    node.modify? name change = (node.first? name).map fun place => node.changeAt change place.1

structure AgreesBelow (name : String) (children : List Node) : Prop where
  looked : findIn? name children = (firstBelow? name children).map (·.2.2)
  reported : Report.findIn? name (Report.ofAll children) =
    (firstBelow? name children).map fun inner => .of inner.2.2
  changed : ∀ change, modifyIn? name change children =
    (firstBelow? name children).map fun inner =>
      children.modify inner.1 (changeAt change inner.2.1)

theorem agrees_below {name : String} {children : List Node}
    (each : ∀ child ∈ children, Agrees name child) : AgreesBelow name children := by
  induction children with
  | nil => exact ⟨rfl, rfl, fun _ => rfl⟩
  | cons child rest ih =>
      have here := each child List.mem_cons_self
      have later := ih fun other member => each other (List.mem_cons_of_mem child member)
      have first := first_below_cons name child rest
      -- The name is somewhere in the first tree, or all three go on with the others.
      cases found : child.first? name with
      | some place =>
          rw [found, Option.map_some, Option.some_or] at first
          refine ⟨?_, ?_, ?_⟩
          · rw [findIn?, here.looked, found, first]
            rfl
          · rw [Report.ofAll, Report.findIn?, here.reported, found, first]
            rfl
          · intro change
            rw [modifyIn?, here.changed, found, first]
            rfl
      | none =>
          rw [found, Option.map_none, Option.none_or] at first
          refine ⟨?_, ?_, ?_⟩
          · rw [findIn?, here.looked, found, first, Option.map_none, Option.none_or, later.looked,
              Option.map_map]
            rfl
          · rw [Report.ofAll, Report.findIn?, here.reported, found, first, Option.map_none,
              Option.none_or, later.reported, Option.map_map]
            rfl
          · intro change
            rw [modifyIn?, here.changed, found, first, Option.map_none]
            dsimp only
            rw [later.changed, Option.map_map, Option.map_map]
            rfl

theorem agrees_at_root {name : String} {node : Node} (same : node.name = name) :
    Agrees name node := by
  have first := first_at_root same
  cases node with
  | leaf state content | branch state rule children =>
      have own : state.name = name := same
      refine ⟨?_, ?_, ?_⟩
      · rw [find?, if_pos own, first]
        rfl
      · rw [Report.of, Report.find?, if_pos own, first]
        rfl
      · intro change
        rw [modify?, if_pos own, first]
        rfl

theorem agrees (name : String) (node : Node) : Agrees name node := by
  by_cases same : node.name = name
  · exact agrees_at_root same
  · induction node with
    | leaf state content =>
        have own : state.name ≠ name := same
        have first := first_leaf_of_ne own content
        refine ⟨?_, ?_, ?_⟩
        · rw [find?, if_neg own, first]
          rfl
        · rw [Report.of, Report.find?, if_neg own, first]
          rfl
        · intro change
          rw [modify?, if_neg own, first]
          rfl
    | branch state rule children ih =>
        have own : state.name ≠ name := same
        have first := first_branch_of_ne own rule children
        have below : AgreesBelow name children := by
          apply agrees_below
          intro child member
          by_cases named : child.name = name
          · exact agrees_at_root named
          · exact ih child member named
        refine ⟨?_, ?_, ?_⟩
        · rw [find?, if_neg own, first, below.looked, Option.map_map]
          rfl
        · rw [Report.of, Report.find?, if_neg own, first, below.reported, Option.map_map]
          rfl
        · intro change
          rw [modify?, if_neg own, first, below.changed, Option.map_map, Option.map_map]
          rfl

/-- A change at a position shows nowhere but at this position and below. -/
theorem at_change_at_outside {Look : Type} {look : Node → Look} (shallow : Shallow look)
    (change : Node → Node) {path other : Path} (outside : ¬path <+: other) (node : Node) :
    ((node.changeAt change path).at? other).map look = (node.at? other).map look := by
  induction path generalizing node other with
  | nil => exact absurd List.nil_prefix outside
  | cons index path ih =>
      cases node with
      | leaf state content => rfl
      | branch state rule children =>
          rw [change_at_branch]
          cases other with
          | nil => exact congrArg some (shallow state rule _ _)
          | cons place lower =>
              rw [at_cons, at_cons, Node.children, Node.children, List.getElem?_modify]
              cases children[place]? with
              | none => rfl
              | some child =>
                  by_cases here : index = place
                  · have elsewhere : ¬path <+: lower := by
                      intro above
                      exact outside (List.cons_prefix_cons.mpr ⟨here, above⟩)
                    simpa [here] using ih elsewhere child
                  · simp [here]

end Node

namespace Report

/-- The part of a report for a position in the tree. -/
def at? : Report → Node.Path → Option Report
  | report, [] => some report
  | report, index :: path => report.children[index]?.bind (at? · path)

/-- What a report says about a node itself. -/
def face (report : Report) : String × Kind × Status × String :=
  match report with
  | .node name kind status message _ => (name, kind, status, message)

theorem of_children (node : Node) : (of node).children = node.children.map of := by
  cases node with
  | leaf state content => rfl
  | branch state rule children => exact of_all_eq_map children

/-- A report has the shape of its tree. -/
theorem at_of (node : Node) (path : Node.Path) : (of node).at? path = (node.at? path).map of := by
  induction path generalizing node with
  | nil => rfl
  | cons index path ih =>
      rw [at?, of_children, Node.at_cons, List.getElem?_map]
      cases node.children[index]? with
      | none => rfl
      | some child => exact ih child

end Report

/-- Looking for a name in a tree, looking for it in the report of the tree and changing a node by
its name all come to the first node in pre-order that has it, or to nothing if none does. A change
of that node changes its part of the report and no other line. -/
theorem Node.searches_agree (name : String) (root : Node) :
    root.find? name = (root.first? name).map (·.2) ∧
      (Report.of root).find? name = (root.first? name).map (fun place => .of place.2) ∧
      (∀ change, root.modify? name change =
        (root.first? name).map fun place => root.changeAt change place.1) ∧
      (root.first? name = none ↔ ∀ path, (root.at? path).map Node.name ≠ some name) ∧
      ∀ path found, root.first? name = some (path, found) →
        root.at? path = some found ∧ found.name = name ∧
          ∀ change changed, root.modify? name change = some changed →
            (Report.of changed).at? path = some (.of (change found)) ∧
              ∀ other, ¬path <+: other →
                ((Report.of changed).at? other).map Report.face =
                  ((Report.of root).at? other).map Report.face := by
  have searches := agrees name root
  refine ⟨searches.looked, searches.reported, searches.changed, first_eq_none_iff, ?_⟩
  intro path found first
  obtain ⟨there, named⟩ := at_of_first first
  refine ⟨there, named, ?_⟩
  intro change changed came
  rw [searches.changed, first, Option.map_some, Option.some_inj] at came
  subst came
  constructor
  · rw [Report.at_of, at_change_at, there]
    rfl
  · intro other outside
    have shallow : Shallow fun node => (Report.of node).face := fun _ _ _ _ => rfl
    rw [Report.at_of, Report.at_of, Option.map_map, Option.map_map]
    exact at_change_at_outside shallow change outside root

namespace Node

/-- A row with a lamp in it and a lamp beside it, all of one name. -/
def lamps : Node :=
  .row { name := "room" } .sequence false
    [.row { name := "lamp" } .selector false
        [.leaf { name := "lamp" } (.acknowledge ["guest"] none)],
      .leaf { name := "lamp" } (.acknowledge ["guest"] none)]

/-- The row is what is found, and putting a lamp in its place leaves the one beside it as it is. -/
theorem lamps_searches_agree : ∃ path found changed,
    lamps.first? "lamp" = some (path, found) ∧ path = [0] ∧ found.children.length = 1 ∧
      lamps.find? "lamp" = some found ∧ (Report.of lamps).find? "lamp" = some (.of found) ∧
      lamps.modify? "lamp" (fun _ => .leaf { name := "lit" } (.acknowledge [] none)) =
        some changed ∧
      ((Report.of changed).at? [0]).map Report.name = some "lit" ∧ ¬[0] <+: [1] ∧
      ((Report.of changed).at? [1]).map Report.face =
        ((Report.of lamps).at? [1]).map Report.face := by
  obtain ⟨looked, reported, changed, -, first⟩ := searches_agree "lamp" lamps
  have here : lamps.first? "lamp" = some ([0], _) := rfl
  rw [here] at looked reported
  have came := changed fun _ => .leaf { name := "lit" } (.acknowledge [] none)
  rw [here] at came
  obtain ⟨-, -, shows⟩ := first _ _ here
  obtain ⟨part, others⟩ := shows _ _ came
  refine ⟨_, _, _, here, rfl, rfl, looked, reported, came, ?_, by decide, others [1] (by decide)⟩
  rw [part]
  rfl

end Node

end BehaviorTree
