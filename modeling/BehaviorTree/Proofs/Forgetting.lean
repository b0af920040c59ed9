import BehaviorTree.Proofs.Alike
import BehaviorTree.Proofs.Orderly

/-!
What a tree forgets. A tree whose root is not running goes on exactly as it would with every
status invalid and the memory of every rule cleared: only what its leaves hold matters to it. The
two trees are alike, and every move keeps alike trees alike.
-/

namespace BehaviorTree.Node

/-! Moves other than ticks and halts. -/

theorem setup_alike {first second : Node} (alike : Alike first second) :
    first.setup.fault = second.setup.fault ∧ Alike first.setup.node second.setup.node := by
  induction alike with
  | leaf content name running =>
      cases content with
      | condition test | acknowledge permitted acknowledgedBy =>
          exact ⟨rfl, .leaf _ name running⟩
      | action action =>
          rw [setup, setup, setupLeaf, setupLeaf, name]
          split <;> exact ⟨rfl, .leaf _ name running⟩
      | scripted kind answers reason =>
          refine ⟨?_, .leaf _ name running⟩
          rw [setup, setup, setupLeaf, setupLeaf, name]
  | @branch first second rule other children others name running memory length below induction =>
      have rows : List.Forall₂ (fun left right => Alike left right ∧
          left.setup.fault = right.setup.fault ∧ Alike left.setup.node right.setup.node)
          children others :=
        forall₂_iff_each.mpr ⟨length, fun index left right own opposite =>
          ⟨below index left right own opposite, induction index left right own opposite⟩⟩
      have row : (setupAll children).fault = (setupAll others).fault ∧
          List.Forall₂ Alike (setupAll children).children (setupAll others).children := by
        clear length below induction
        induction rows with
        | nil => exact ⟨rfl, .nil⟩
        | @cons left right rest more own rows later =>
            obtain ⟨_, fault, node⟩ := own
            obtain ⟨faults, nodes⟩ := later
            have left := rows.imp fun _ _ each => each.1
            rw [setupAll, setupAll, fault]
            split
            · exact ⟨rfl, .cons node left⟩
            · exact ⟨faults, .cons node nodes⟩
      exact ⟨row.1, .of_children name running memory row.2⟩

theorem Alike.shutdown {first second : Node} (alike : Alike first second) :
    Alike first.shutdown.1 second.shutdown.1 := by
  induction alike with
  | leaf content name running =>
      cases content with
      | condition test | acknowledge permitted acknowledgedBy | scripted kind answers reason =>
          exact .leaf _ name running
      | action action =>
          rw [Node.shutdown, Node.shutdown, shutdownLeaf, shutdownLeaf, name]
          exact .leaf _ name running
  | @branch first second rule other children others name running memory length below induction =>
      have rows : List.Forall₂ (fun left right => Alike left.shutdown.1 right.shutdown.1)
          children others := forall₂_iff_each.mpr ⟨length, induction⟩
      have row : List.Forall₂ Alike (shutdownAll children).1 (shutdownAll others).1 := by
        clear length below induction
        induction rows with
        | nil => exact .nil
        | cons own _ later => exact .cons own later
      exact .of_children name running memory row

theorem Alike.acknowledge (identity : String) {first second : Node} (alike : Alike first second) :
    Alike (first.acknowledge identity) (second.acknowledge identity) := by
  cases alike with
  | branch name running memory length below => exact .branch name running memory length below
  | leaf content name running =>
      cases content with
      | condition test | action action | scripted kind answers reason =>
          exact .leaf _ name running
      | acknowledge permitted acknowledgedBy =>
          rw [Node.acknowledge, Node.acknowledge]
          split <;> exact .leaf _ name running

/-- A change by name reaches the same position in both trees, or none. -/
theorem modify_alike (name : String) {change : Node → Node}
    (kept : ∀ left right, Alike left right → Alike (change left) (change right))
    {first second : Node} (alike : Alike first second) :
    Option.Rel Alike (first.modify? name change) (second.modify? name change) := by
  induction alike with
  | @leaf first second content same running =>
      rw [modify?, modify?, same]
      split
      · exact .some (kept _ _ (.leaf content same running))
      · exact .none
  | @branch first second rule other children others same running memory length below induction =>
      have rows : List.Forall₂ (fun left right => Alike left right ∧
          Option.Rel Alike (left.modify? name change) (right.modify? name change))
          children others :=
        forall₂_iff_each.mpr ⟨length, fun index left right own opposite =>
          ⟨below index left right own opposite, induction index left right own opposite⟩⟩
      have row : Option.Rel (List.Forall₂ Alike) (modifyIn? name change children)
          (modifyIn? name change others) := by
        clear length below induction
        induction rows with
        | nil => exact .none
        | @cons left right rest more own rows later =>
            obtain ⟨alike, own⟩ := own
            have still := rows.imp fun _ _ each => each.1
            rw [modifyIn?, modifyIn?]
            generalize modify? name change left = result, modify? name change right = final at own
            generalize modifyIn? name change rest = tail, modifyIn? name change more = ends
              at later
            cases own with
            | some changed => exact .some (.cons changed still)
            | none =>
                cases later with
                | some tails => exact .some (.cons alike tails)
                | none => exact .none
      rw [modify?, modify?, same]
      split
      · exact .some (kept _ _ (.branch same running memory length below))
      · generalize modifyIn? name change children = changed, modifyIn? name change others = ends
          at row
        cases row with
        | some changed => exact .some (.of_children same running memory changed)
        | none => exact .none

theorem Alike.with_leaf (content : Leaf) (path : Path) {first second : Node}
    (alike : Alike first second) :
    Alike (first.withLeaf content path) (second.withLeaf content path) := by
  induction path generalizing first second with
  | nil =>
      cases alike with
      | leaf other name running => exact .leaf content name running
      | branch name running memory length below => exact .branch name running memory length below
  | cons index path induction =>
      cases alike with
      | leaf other name running => exact .leaf other name running
      | branch name running memory length below =>
          refine .of_children name running memory ?_
          apply forall₂_of_lookup length (fun place => List.getElem?_modify _ index _ place)
            (fun place => List.getElem?_modify _ index _ place)
          intro place left right own opposite
          split
          · exact induction (below place left right own opposite)
          · exact below place left right own opposite

theorem Alike.move {first second : Node} (alike : Alike first second) (step : Move) :
    Alike (first.move step) (second.move step) := by
  cases step with
  | tick surroundings => exact (alike.tick surroundings).2
  | halt => exact alike.halt
  | setup => exact (setup_alike alike).2
  | shutdown => exact alike.shutdown
  | outside path content => exact alike.with_leaf content path
  | acknowledge name identity =>
      have changed := modify_alike name (fun _ _ same => same.acknowledge identity) alike
      rw [Node.move, Node.move]
      generalize modify? name _ first = result, modify? name _ second = final at changed
      cases changed with
      | some changed => exact changed
      | none => exact alike

/-! What is seen of a run. -/

/-- The answers of the ticks in a run, each with what the tick recorded. -/
def observe (node : Node) : List Move → List (Status × Journal)
  | [] => []
  | .tick surroundings :: later =>
      (answer surroundings node, (tick surroundings node).journal) ::
        observe (node.move (.tick surroundings)) later
  | step :: later => observe (node.move step) later

mutual

/-- What the leaves hold, in order. -/
def contents : Node → List Leaf
  | .leaf _ content => [content]
  | .branch _ _ children => contentsIn children

def contentsIn : List Node → List Leaf
  | [] => []
  | child :: rest => contents child ++ contentsIn rest

end

theorem Alike.contents {first second : Node} (alike : Alike first second) :
    first.contents = second.contents := by
  induction alike with
  | leaf content name running => rfl
  | @branch first second rule other children others name running memory length below induction =>
      have rows : List.Forall₂ (fun left right => Node.contents left = Node.contents right)
          children others := forall₂_iff_each.mpr ⟨length, induction⟩
      rw [Node.contents, Node.contents]
      clear length below induction
      induction rows with
      | nil => rfl
      | cons own _ later => rw [contentsIn, contentsIn, own, later]

theorem Alike.observe {first second : Node} (alike : Alike first second) (moves : List Move) :
    first.observe moves = second.observe moves := by
  induction moves generalizing first second with
  | nil => rfl
  | cons step moves induction =>
      have later := induction (alike.move step)
      cases step with
      | tick surroundings =>
          obtain ⟨same, _⟩ := alike.tick surroundings
          rw [Node.observe, Node.observe, same.answer, same.journal, later]
      | halt | acknowledge | setup | shutdown | outside => exact later

theorem Alike.after {first second : Node} (alike : Alike first second) (moves : List Move) :
    Alike (first.after moves) (second.after moves) := by
  induction moves generalizing first second with
  | nil => exact alike
  | cons step moves induction => exact induction (alike.move step)

/-! Clearing. -/

mutual

/-- The same tree with every status invalid and nothing in the memory of its rules. -/
def cleared : Node → Node
  | .leaf state content => .leaf { state with status := .invalid } content
  | .branch state rule children =>
      .branch { state with status := .invalid } rule.initialise (clearedAll children)

def clearedAll : List Node → List Node
  | [] => []
  | child :: rest => cleared child :: clearedAll rest

end

theorem cleared_all_eq_map (children : List Node) : clearedAll children = children.map cleared := by
  induction children with
  | nil => rfl
  | cons child rest induction => rw [clearedAll, induction, List.map_cons]

/-- Where nothing runs, every rule is initialised before it is used again. -/
theorem alike_cleared {node : Node}
    (resting : ∀ path sub, node.at? path = some sub → sub.status ≠ .running) :
    Alike node node.cleared := by
  induction node with
  | leaf state content =>
      have here : state.status ≠ .running := resting [] _ rfl
      exact .leaf content rfl (iff_of_false here (by simp))
  | branch state rule children induction =>
      have here : state.status ≠ .running := resting [] _ rfl
      rw [cleared, cleared_all_eq_map]
      refine .branch rfl (iff_of_false here (by simp)) ?_ (List.length_map _).symm ?_
      · rw [Rule.atEntry, if_neg here]
        exact (at_entry_initialise .invalid rule).symm.trans rfl
      · intro index left right own opposite
        rw [List.getElem?_map, own] at opposite
        cases opposite
        apply induction left (List.mem_of_getElem? own)
        intro path sub found
        exact resting (index :: path) sub (at_branch_eq_some.mpr ⟨left, own, found⟩)

/-- A reachable tree whose root is not running answers and records in every later run as its
cleared version does, and its leaves come to hold the same. -/
theorem cleared_goes_on_the_same {root : Node} (built : Built root) (moves : List Move)
    (resting : (root.after moves).status ≠ .running) (later : List Move) :
    (root.after moves).observe later = (root.after moves).cleared.observe later ∧
      ((root.after moves).after later).contents =
        ((root.after moves).cleared.after later).contents := by
  have orderly := built.orderly_after moves
  have alike : Alike (root.after moves) (root.after moves).cleared := by
    apply alike_cleared
    intro path sub found running
    exact resting (orderly.running_above found running)
  exact ⟨alike.observe later, (alike.after later).contents⟩

/-- An excursion whose reports fail with one of them settled. -/
def failedReport : List Move :=
  [.outside [1, 0] (.condition (.signal true)), .acknowledge "released" "operator",
    .outside [2, 1] (.scripted .action [.failure] none), .tick ⟨0, {}⟩]

theorem failed_report_goes_on_the_same :
    Built excursion ∧ (excursion.after failedReport).status = .failure ∧
      (∃ state children, (excursion.after failedReport).at? [2] =
        some (.branch state (.parallel .successOnAll true [true, false]) children)) ∧
      (excursion.after failedReport).observe [.tick ⟨1, {}⟩, .halt, .tick ⟨2, {}⟩] =
        (excursion.after failedReport).cleared.observe [.tick ⟨1, {}⟩, .halt, .tick ⟨2, {}⟩] := by
  have failed : (excursion.after failedReport).status = .failure := by decide
  refine ⟨excursion_built, failed, ⟨_, _, rfl⟩, ?_⟩
  exact (cleared_goes_on_the_same excursion_built failedReport (by rw [failed]; decide) _).1

end BehaviorTree.Node
