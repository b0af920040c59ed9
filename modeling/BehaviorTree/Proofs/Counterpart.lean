import BehaviorTree.Proofs.Inspection
import BehaviorTree.Proofs.Naming

/-!
The tree of a plan. It mirrors the plan node for node, idle and with nothing done to it yet. The
names of an accepted plan are distinct, so each of them stands for the same position in the plan
and in the tree, whatever happens to the tree later.
-/

namespace BehaviorTree

/-- What a node shows, by which a plan and a tree can be compared. -/
structure Face where
  name : String
  description : String
  kind : Kind
  /-- How many nodes lie right below. -/
  breadth : Nat
  status : Status := .invalid
  message : String := ""
  deriving DecidableEq, Repr

def Node.face (node : Node) : Face :=
  { name := node.name, description := node.state.description, kind := node.kind
    breadth := node.children.length, status := node.status, message := node.state.message }

namespace NodePlan

/-- Whatever an action does, it is of one kind. -/
def kind : NodePlan → Kind
  | .condition _ => .condition
  | .acknowledge _ _ => .acknowledge
  | .action _ => .action
  | .row _ flow _ _ => flow.kind
  | .parallel _ _ _ _ => .parallel
  | .checkAndDo _ _ _ => .checkAndDo

/-- The face of a node that nothing was done to. -/
def face (plan : NodePlan) : Face :=
  { name := plan.name, description := plan.label.description, kind := plan.kind
    breadth := plan.children.length }

/-- The node of a plan at a position, if there is one. -/
def at? : NodePlan → Node.Path → Option NodePlan
  | plan, [] => some plan
  | plan, index :: path => plan.children[index]?.bind (at? · path)

theorem at_cons (plan : NodePlan) (index : Nat) (path : Node.Path) :
    plan.at? (index :: path) = plan.children[index]?.bind (at? · path) := rfl

theorem mem_parts_iff {plan part : NodePlan} :
    part ∈ plan.parts ↔ ∃ path, plan.at? path = some part := by
  induction plan using induct with
  | step plan ih =>
      rw [parts_eq, List.mem_cons, List.mem_flatMap]
      constructor
      · rintro (rfl | ⟨child, member, inside⟩)
        · exact ⟨[], rfl⟩
        · obtain ⟨index, own⟩ := List.mem_iff_getElem?.mp member
          obtain ⟨path, found⟩ := (ih child member).mp inside
          exact ⟨index :: path, by rw [at_cons, own, Option.bind_some, found]⟩
      · rintro ⟨path, found⟩
        cases path with
        | nil => exact .inl (Option.some.inj found).symm
        | cons index path =>
            rw [at_cons, Option.bind_eq_some_iff] at found
            obtain ⟨child, own, below⟩ := found
            have member := List.mem_of_getElem? own
            exact .inr ⟨child, member, (ih child member).mpr ⟨path, below⟩⟩

theorem name_mem_of_at {plan : NodePlan} {path : Node.Path} {text : String}
    (bears : (plan.at? path).map name = some text) : text ∈ plan.parts.map name := by
  obtain ⟨part, found, rfl⟩ := Option.map_eq_some_iff.mp bears
  exact List.mem_map_of_mem (mem_parts_iff.mpr ⟨path, found⟩)

theorem name_below {plan : NodePlan} {index : Nat} {path : Node.Path} {text : String}
    (bears : (plan.at? (index :: path)).map name = some text) :
    ∃ child, plan.children[index]? = some child ∧ (child.at? path).map name = some text := by
  rw [at_cons] at bears
  cases own : plan.children[index]? with
  | none => simp [own] at bears
  | some child => exact ⟨child, rfl, by simpa [own] using bears⟩

/-- Children that share a name are the same child, if no two have a name in common. -/
theorem index_unique {children : List NodePlan}
    (disjoint : children.Pairwise (Function.onFun List.Disjoint fun child => child.parts.map name))
    {index place : Nat} {child sibling : NodePlan} (own : children[index]? = some child)
    (beside : children[place]? = some sibling) {text : String}
    (shared : text ∈ child.parts.map name) (again : text ∈ sibling.parts.map name) :
    index = place := by
  obtain ⟨inRow, rfl⟩ := List.getElem?_eq_some_iff.mp own
  obtain ⟨alsoInRow, rfl⟩ := List.getElem?_eq_some_iff.mp beside
  rw [List.pairwise_iff_getElem] at disjoint
  rcases Nat.lt_trichotomy index place with before | same | behind
  · exact absurd again (disjoint index place inRow alsoInRow before shared)
  · exact same
  · exact absurd shared (disjoint place index alsoInRow inRow behind again)

/-- Where no name is repeated, a name stands at one position. -/
theorem position_unique {plan : NodePlan} (distinct : (plan.parts.map name).Nodup)
    {first second : Node.Path} {text : String} (one : (plan.at? first).map name = some text)
    (other : (plan.at? second).map name = some text) : first = second := by
  induction plan using induct generalizing first second with
  | step plan ih =>
      rw [parts_eq, List.map_cons, List.nodup_cons, List.map_flatMap, List.nodup_flatMap]
        at distinct
      obtain ⟨apart, each, disjoint⟩ := distinct
      have lower : ∀ {index : Nat} {path : Node.Path},
          (plan.at? (index :: path)).map name = some text → plan.name ≠ text := by
        rintro index path found rfl
        obtain ⟨child, own, inside⟩ := name_below found
        exact apart (List.mem_flatMap.mpr
          ⟨child, List.mem_of_getElem? own, name_mem_of_at inside⟩)
      cases first with
      | nil =>
          cases second with
          | nil => rfl
          | cons index path => exact absurd (Option.some.inj one) (lower other)
      | cons index path =>
          cases second with
          | nil => exact absurd (Option.some.inj other) (lower one)
          | cons place tail =>
              obtain ⟨child, own, inside⟩ := name_below one
              obtain ⟨sibling, beside, within⟩ := name_below other
              -- Both positions lead below the same child, and it holds there by induction.
              obtain rfl := index_unique disjoint own beside (name_mem_of_at inside)
                (name_mem_of_at within)
              obtain rfl : child = sibling := Option.some.inj (own.symm.trans beside)
              have member := List.mem_of_getElem? own
              rw [ih child member (each child member) inside within]

/-- The node that is built for a part of a plan. An action may serve the check beside it. -/
inductive Counterpart (timing : Timing) : NodePlan → Node → Prop where
  | alone (part : NodePlan) : Counterpart timing part (part.node timing)
  | serving (act : ActionPlan) (goal : Check) :
      Counterpart timing (.action act) (act.node timing (some goal))

theorem Counterpart.below {timing : Timing} {part : NodePlan} {node : Node}
    (counterpart : Counterpart timing part node) :
    List.Forall₂ (Counterpart timing) part.children node.children := by
  cases counterpart with
  | serving act goal => exact .nil
  | alone =>
      cases part with
      | condition | acknowledge | action => exact .nil
      | row label flow memory children | parallel label policy synchronise children =>
          rw [NodePlan.node, nodes_eq_map]
          apply List.forall₂_map_right_iff.mpr
          exact List.forall₂_same.mpr fun child _ => .alone child
      | checkAndDo label check act =>
          exact .cons (.alone (.condition check)) (.cons (.serving act check.check) .nil)

theorem Counterpart.face_eq {timing : Timing} {part : NodePlan} {node : Node}
    (counterpart : Counterpart timing part node) : node.face = part.face := by
  have breadth := counterpart.below.length_eq
  cases counterpart with
  | serving act goal => rfl
  | alone =>
      cases part with
      | condition | acknowledge | action | checkAndDo => rfl
      | row label flow memory children =>
          rw [Node.face, face, breadth]
          cases memory <;> rfl
      | parallel label policy synchronise children =>
          rw [Node.face, face, breadth]
          rfl

/-- The worker of an action as it is built has not started. -/
theorem Counterpart.off {timing : Timing} {part : NodePlan} {state : NodeState} {act : Action}
    (counterpart : Counterpart timing part (.leaf state (.action act))) :
    act.engagement = .off ∧ act.detached = [] ∧ act.isSetUp = false := by
  generalize built : Node.leaf state (.action act) = node at counterpart
  cases counterpart with
  | serving plan goal =>
      cases built
      exact ⟨rfl, rfl, rfl⟩
  | alone =>
      cases part with
      | action plan =>
          cases built
          exact ⟨rfl, rfl, rfl⟩
      | condition | acknowledge | row | parallel | checkAndDo => cases built

theorem counterpart_at {timing : Timing} {plan : NodePlan} {node : Node}
    (counterpart : Counterpart timing plan node) (path : Node.Path) :
    Option.Rel (Counterpart timing) (plan.at? path) (node.at? path) := by
  induction path generalizing plan node with
  | nil => exact .some counterpart
  | cons index path ih =>
      rw [at_cons, Node.at_cons]
      have beside : ∀ {parts nodes}, List.Forall₂ (Counterpart timing) parts nodes →
          Option.Rel (Counterpart timing) parts[index]? nodes[index]? := by
        intro parts nodes each
        induction each generalizing index with
        | nil => exact .none
        | cons first rest later =>
            cases index with
            | zero => exact .some first
            | succ index => exact later index
      generalize plan.children[index]? = part, node.children[index]? = sub,
        beside counterpart.below = known
      cases known with
      | none => exact .none
      | some child => exact ih child

/-- Building keeps every position and what a node shows there. -/
theorem face_at (timing : Timing) (plan : NodePlan) (path : Node.Path) :
    ((plan.node timing).at? path).map Node.face = (plan.at? path).map face := by
  generalize plan.at? path = part, (plan.node timing).at? path = sub,
    counterpart_at (.alone plan : Counterpart timing plan (plan.node timing)) path = known
  cases known with
  | none => rfl
  | some counterpart => exact congrArg some counterpart.face_eq

theorem name_at (timing : Timing) (plan : NodePlan) (path : Node.Path) :
    ((plan.node timing).at? path).map Node.name = (plan.at? path).map name := by
  have same := congrArg (Option.map Face.name) (face_at timing plan path)
  rwa [Option.map_map, Option.map_map] at same

/-- The check and the action of a check-and-do become its two children. -/
theorem check_and_do_at (timing : Timing) {plan : NodePlan} {path : Node.Path} {label : Label}
    {check : ConditionPlan} {act : ActionPlan}
    (found : plan.at? path = some (.checkAndDo label check act)) :
    (plan.node timing).at? path =
      some (.checkAndDo label.state check.node (act.node timing (some check.check))) := by
  have known := counterpart_at (.alone plan : Counterpart timing plan (plan.node timing)) path
  rw [found] at known
  generalize (plan.node timing).at? path = sub at known
  cases known with
  | some counterpart =>
      cases counterpart with
      | alone => rfl

theorem counterpart_of_at {timing : Timing} {plan : NodePlan} {path : Node.Path} {node : Node}
    (found : (plan.node timing).at? path = some node) :
    ∃ part, Counterpart timing part node := by
  have known := counterpart_at (.alone plan : Counterpart timing plan (plan.node timing)) path
  rw [found] at known
  generalize plan.at? path = part at known
  cases known with
  | some counterpart => exact ⟨_, counterpart⟩

theorem off_at (timing : Timing) {plan : NodePlan} {path : Node.Path} {state : NodeState}
    {act : Action} (found : (plan.node timing).at? path = some (.leaf state (.action act))) :
    act.engagement = .off ∧ act.detached = [] ∧ act.isSetUp = false := by
  obtain ⟨part, counterpart⟩ := counterpart_of_at found
  exact counterpart.off

theorem Sound.distinct_node {plan : NodePlan} (sound : plan.Sound) (timing : Timing) :
    (plan.node timing).Distinct := by
  intro first second text one other
  rw [name_at] at one other
  exact position_unique sound.distinct one other

end NodePlan

theorem Manager.record_any_store (manager : Manager) (event : Event) (store : Store) :
    { manager with store }.record event = { manager.record event with store } := by
  cases path : manager.eventsPath <;> simp [record, path]

/-- Process variables play no part in loading. -/
theorem Manager.load_any_store (manager : Manager) (plan : TreePlan) (store : Store) :
    { manager with store }.load plan =
      ({ (manager.load plan).1 with store }, (manager.load plan).2) := by
  simp only [Manager.load, Manager.record_any_store]
  split
  · rfl
  · split <;> rfl

namespace TreePlan

/-- The tree of an accepted plan mirrors the plan node for node, with no status, no worker at work
and no process variable read or written. Its names are distinct, each of them leads to the node
that was built for it and no other text leads anywhere, now and after whatever happens to the tree;
and no tick visits a name twice. -/
theorem built_node_for_node (plan : TreePlan) (timing : Timing)
    (accepted : plan.inspect = .ok ()) :
    ∃ root, plan.build timing = .ok root ∧
      (∀ path, (root.at? path).map Node.face = (plan.root.at? path).map NodePlan.face) ∧
      (∀ path label check act, plan.root.at? path = some (.checkAndDo label check act) →
        root.at? path =
          some (.checkAndDo label.state check.node (act.node timing (some check.check)))) ∧
      (∀ path state act, root.at? path = some (.leaf state (.action act)) →
        act.engagement = .off ∧ act.detached = [] ∧ act.isSetUp = false) ∧
      (∀ (manager : Manager) (store : Store), { manager with store }.load plan =
        ({ (manager.load plan).1 with store }, (manager.load plan).2)) ∧
      root.Distinct ∧
      (∀ moves path part, plan.root.at? path = some part →
        ∃ node, (root.after moves).at? path = some node ∧ node.name = part.name ∧
          (root.after moves).find? part.name = some node ∧
          ∀ change, (root.after moves).modify? part.name change =
            some ((root.after moves).changeAt change path)) ∧
      (∀ moves text, text ∉ plan.root.parts.map NodePlan.name →
        (root.after moves).find? text = none ∧
          ∀ change, (root.after moves).modify? text change = none) ∧
      ∀ moves surroundings,
        (((root.after moves).tick surroundings).journal.visits.map (·.name)).Nodup := by
  have sound := (inspect_eq_ok_iff plan).mp accepted
  have distinct := sound.distinct_node timing
  have lasting : ∀ moves path, (((plan.root.node timing).after moves).at? path).map Node.name =
      (plan.root.at? path).map NodePlan.name := by
    intro moves path
    rw [Node.after_names, NodePlan.name_at]
  have apart : ∀ moves, ((plan.root.node timing).after moves).Distinct := by
    intro moves
    exact distinct.of_names (Node.after_names moves _)
  refine ⟨plan.root.node timing, by rw [build_eq, accepted]; rfl, NodePlan.face_at timing plan.root,
    fun _ _ _ _ => NodePlan.check_and_do_at timing, fun _ _ _ => NodePlan.off_at timing,
    fun manager => manager.load_any_store plan, distinct, ?_, ?_, ?_⟩
  · intro moves path part found
    have bears : (((plan.root.node timing).after moves).at? path).map Node.name =
        some part.name := by
      rw [lasting, found]
      rfl
    obtain ⟨node, here, named⟩ := Option.map_eq_some_iff.mp bears
    have finds := (apart moves).finds bears
    exact ⟨node, here, named, finds.looked.trans here, finds.changed⟩
  · intro moves text foreign
    rcases Node.finds_or_misses text ((plan.root.node timing).after moves) with
      ⟨path, finds⟩ | misses
    · have bears := finds.bears
      rw [lasting] at bears
      exact absurd (NodePlan.name_mem_of_at bears) foreign
    · exact ⟨misses.looked, misses.changed⟩
  · intro moves surroundings
    exact (apart moves).visits_nodup surroundings

/-- A climb that is tried while the height is not reached, and a report. -/
def climb : TreePlan where
  label := { name := "climb" }
  root := .row { name := "mission" } .sequence true
    [.checkAndDo { name := "reach" }
        { label := { name := "high" }, check := ⟨"height", .ge, .int 5⟩ }
        { label := { name := "rise" }, pv := "height", task := .increment (.int 1) },
      .acknowledge { name := "report" } ["operator"]]

theorem climb_built_node_for_node :
    climb.inspect = .ok () ∧
      ∃ root, climb.build {} = .ok root ∧
        (∀ path, (root.at? path).map Node.face = (climb.root.at? path).map NodePlan.face) ∧
        root.Distinct ∧ root.find? "rise" = root.at? [0, 1] ∧
        root.find? "reach/selector" = none := by
  have accepted : climb.inspect = .ok () := by decide
  obtain ⟨root, built, faces, -, -, -, distinct, known, unknown, -⟩ :=
    climb.built_node_for_node {} accepted
  obtain ⟨node, here, -, looked, -⟩ := known [] [0, 1] _ rfl
  refine ⟨accepted, root, built, faces, distinct, looked.trans here.symm, ?_⟩
  exact (unknown [] "reach/selector" (by decide)).1

end TreePlan

end BehaviorTree
