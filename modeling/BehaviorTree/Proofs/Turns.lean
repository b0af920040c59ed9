import BehaviorTree.Proofs.Alike
import BehaviorTree.Proofs.Visits
import Mathlib.Data.List.Induction

/-!
The turns of a branch. A tick that comes to a branch is a turn of it: the branch is entered or goes
on, some of its children answer, and it answers itself. The turns from the last one that entered it
are its cycle. Whatever happens to a tree is a tick or a halt at each of its positions, or touches
no status there; so what these keep of a branch and its cycle holds in every run.
-/

namespace BehaviorTree.Node

/-- One tick of a node: whether the node was entered for it, the answers of the children that were
ticked, each with its number and in the order of the ticks, and the answer of the node itself. -/
structure Turn where
  entered : Bool
  answers : List (Nat × Status)
  result : Status
  deriving DecidableEq, Repr

/-- The footstep of a child of the node at a position tells its number and its answer. -/
def childAnswer? (path : Path) (step : Footstep) : Option (Nat × Status) :=
  if step.path.dropLast = path then step.path.getLast?.map fun index => (index, step.status)
  else none

/-- The turn of the node at a position, as the footsteps of a tick tell it. -/
def turnAt? (path : Path) (steps : List Footstep) : Option Turn :=
  (stepsAt path steps).head?.map fun own =>
    { entered := own.entered
      answers := steps.filterMap (childAnswer? path)
      result := own.status }

/-- The turns of the node at a position in a run of the tree. -/
def turns (path : Path) (root : Node) : List Move → List Turn
  | [] => []
  | .tick surroundings :: later =>
      (turnAt? path (trail surroundings root)).toList ++
        turns path (root.move (.tick surroundings)) later
  | step :: later => turns path (root.move step) later

/-- A node that is entered begins a cycle, and goes on with it otherwise. -/
def Turn.follow (cycle : List Turn) (turn : Turn) : List Turn :=
  if turn.entered then [turn] else cycle ++ [turn]

/-- The cycle that the node at a position is in after a run of the tree, or was in last. -/
def cycle (path : Path) (root : Node) (moves : List Move) : List Turn :=
  (turns path root moves).foldl Turn.follow []

/-- What a child answered in some turns. -/
def answersOf (child : Nat) (turns : List Turn) : List Status :=
  (turns.flatMap (·.answers)).filterMap fun answer =>
    if answer.1 = child then some answer.2 else none

theorem answers_of_append (child : Nat) (first second : List Turn) :
    answersOf child (first ++ second) = answersOf child first ++ answersOf child second := by
  rw [answersOf, List.flatMap_append, List.filterMap_append]
  rfl

theorem answers_of_single (child : Nat) (turn : Turn) :
    answersOf child [turn] =
      turn.answers.filterMap fun answer => if answer.1 = child then some answer.2 else none := by
  rw [answersOf, List.flatMap_singleton]

variable (surroundings : Surroundings)

/-- The turn that a tick of the node by itself is. -/
def turn (node : Node) : Turn :=
  { entered := node.status != .running
    answers := (trail surroundings node).filterMap (childAnswer? [])
    result := answer surroundings node }

/-! A turn within the tick of a tree. -/

theorem child_answer_below (index place : Nat) (path : Path) (step : Footstep) :
    childAnswer? (index :: path) (step.below place) =
      if place = index then childAnswer? path step else none := by
  obtain ⟨visit, lower, entered⟩ := step
  unfold childAnswer?
  cases lower with
  | nil => simp [Footstep.below]
  | cons first rest =>
      simp only [Footstep.below, List.dropLast_cons_cons, List.cons.injEq, List.getLast?_cons_cons]
      by_cases same : place = index
      · simp [same]
      · simp [same]

theorem child_answers_earlier (treatments : Nat → Treatment) {start index : Nat}
    (before : index < start) (path : Path) (children : List Node) :
    (trailBelow surroundings treatments start children).filterMap
      (childAnswer? (index :: path)) = [] := by
  induction children generalizing start with
  | nil => rfl
  | cons child rest ih =>
      have apart : start ≠ index := Nat.ne_of_gt before
      rw [trailBelow, List.filterMap_append, ih (Nat.lt_succ_of_lt before), List.append_nil]
      split
      · rw [List.filterMap_map, List.filterMap_eq_nil_iff]
        intro step _
        rw [Function.comp_apply, child_answer_below, if_neg apart]
      · rfl

/-- Of the footsteps below a branch those of one child tell what its own children answered. -/
theorem child_answers_children (treatments : Nat → Treatment) (start index : Nat) (path : Path)
    (children : List Node) :
    (trailBelow surroundings treatments start children).filterMap
        (childAnswer? ((start + index) :: path)) =
      match children[index]? with
      | none => []
      | some child =>
          if treatments (start + index) = .ticked then
            (trail surroundings child).filterMap (childAnswer? path)
          else [] := by
  induction children generalizing start index with
  | nil => rfl
  | cons child rest ih =>
      rw [trailBelow, List.filterMap_append]
      cases index with
      | zero =>
          rw [Nat.add_zero, List.getElem?_cons_zero,
            child_answers_earlier surroundings treatments (Nat.lt_succ_self start),
            List.append_nil]
          dsimp only
          split
          · rw [List.filterMap_map]
            apply List.filterMap_congr
            intro step _
            rw [Function.comp_apply, child_answer_below, if_pos rfl]
          · rfl
      | succ index =>
          have apart : start ≠ start + (index + 1) := by omega
          have first : (if treatments start = .ticked then
              (trail surroundings child).map (·.below start) else []).filterMap
                (childAnswer? ((start + (index + 1)) :: path)) = [] := by
            split
            · rw [List.filterMap_map, List.filterMap_eq_nil_iff]
              intro step _
              rw [Function.comp_apply, child_answer_below, if_neg apart]
            · rfl
          have shifted : start + (index + 1) = start + 1 + index := by omega
          rw [first, List.nil_append, List.getElem?_cons_succ, shifted]
          exact ih (start + 1) index

/-- A footstep at the root is nobody's child. -/
theorem child_answer_root (index : Nat) (path : Path) (node : Node) :
    childAnswer? (index :: path) (footstep surroundings [] node) = none := by
  simp [childAnswer?, footstep]

theorem child_answers_at {node sub : Node} {path : Path} (found : node.at? path = some sub)
    (seen : visited surroundings path node = true) :
    (trail surroundings node).filterMap (childAnswer? path) =
      (trail surroundings sub).filterMap (childAnswer? []) := by
  induction path generalizing node with
  | nil =>
      cases found
      rfl
  | cons index path ih =>
      obtain ⟨state, rule, children, child, rfl, own, below⟩ := branch_of_at_cons found
      rw [visited_branch surroundings state rule own, Bool.and_eq_true, decide_eq_true_iff] at seen
      have inside := child_answers_children surroundings
        (treatment surroundings (rule.atEntry state.status) children) 0 index path children
      rw [Nat.zero_add, own] at inside
      dsimp only at inside
      rw [if_pos seen.1, ih below seen.2] at inside
      rw [trail, List.filterMap_append, inside,
        List.filterMap_cons_none (child_answer_root surroundings index path _)]
      exact List.append_nil _

/-- A tick that comes to a position is there what a tick of that node by itself would be. -/
theorem turn_at {node sub : Node} {path : Path} (found : node.at? path = some sub) :
    turnAt? path (trail surroundings node) =
      if visited surroundings path node then some (turn surroundings sub) else none := by
  cases seen : visited surroundings path node with
  | false =>
      have none : stepsAt path (trail surroundings node) = [] := by simpa [visited] using seen
      rw [turnAt?, none]
      rfl
  | true =>
      rw [turnAt?, steps_at_visited surroundings found seen,
        child_answers_at surroundings found seen]
      rfl

/-! What the children answer. -/

/-- The answers of the children that are ticked, the first child having that number. -/
def answersBelow (treatments : Nat → Treatment) : Nat → List Node → List (Nat × Status)
  | _, [] => []
  | index, child :: rest =>
      (if treatments index = .ticked then [(index, answer surroundings child)] else []) ++
        answersBelow treatments (index + 1) rest

/-- Among the footsteps of a child's tick only the last is the child's own. -/
theorem child_answers_root (index : Nat) (child : Node) :
    ((trail surroundings child).map (·.below index)).filterMap (childAnswer? []) =
      [(index, answer surroundings child)] := by
  have own := steps_at_root surroundings child
  have each : childAnswer? [] ∘ Footstep.below index =
      fun step => if step.path = [] then some (index, step.status) else none := by
    funext step
    obtain ⟨visit, lower, entered⟩ := step
    cases lower with
    | nil => simp [childAnswer?, Footstep.below]
    | cons first rest => simp [childAnswer?, Footstep.below]
  rw [List.filterMap_map, each]
  rw [stepsAt] at own
  have picked : (trail surroundings child).filterMap
      (fun step => if step.path = [] then some (index, step.status) else none) =
        ((trail surroundings child).filter (·.path = [])).map fun step => (index, step.status) := by
    rw [← List.filterMap_eq_map, List.filterMap_filter]
    simp
  rw [picked, own]
  rfl

theorem answers_below_trail (treatments : Nat → Treatment) (start : Nat) (children : List Node) :
    (trailBelow surroundings treatments start children).filterMap (childAnswer? []) =
      answersBelow surroundings treatments start children := by
  induction children generalizing start with
  | nil => rfl
  | cons child rest ih =>
      rw [trailBelow, answersBelow, List.filterMap_append, ih]
      split
      · rw [child_answers_root]
      · rfl

theorem turn_branch (state : NodeState) (rule : Rule) (children : List Node) :
    turn surroundings (.branch state rule children) =
      { entered := state.status != .running
        answers := answersBelow surroundings
          (treatment surroundings (rule.atEntry state.status) children) 0 children
        result := answer surroundings (.branch state rule children) } := by
  rw [turn, trail, List.filterMap_append, answers_below_trail]
  simp [childAnswer?, footstep, status, Node.state]

@[simp] theorem turn_entered (node : Node) :
    (turn surroundings node).entered = (node.status != .running) := rfl

@[simp] theorem turn_result (node : Node) :
    (turn surroundings node).result = answer surroundings node := rfl

theorem answers_below_unticked {treatments : Nat → Treatment} {start : Nat}
    (none : ∀ index, treatments (start + index) ≠ .ticked) (children : List Node) :
    answersBelow surroundings treatments start children = [] := by
  induction children generalizing start with
  | nil => rfl
  | cons child rest ih =>
      have here : treatments start ≠ .ticked := none 0
      have others : ∀ index, treatments (start + 1 + index) ≠ .ticked := by
        intro index
        have shifted : start + 1 + index = start + (index + 1) := by omega
        rw [shifted]
        exact none (index + 1)
      rw [answersBelow, if_neg here, ih others]
      rfl

theorem places_below (treatments : Nat → Treatment) (start : Nat) (children : List Node) :
    (answersBelow surroundings treatments start children).map (·.1) =
      (List.range' start children.length).filter fun index => treatments index = .ticked := by
  induction children generalizing start with
  | nil => rfl
  | cons child rest ih =>
      rw [answersBelow, List.map_append, ih, List.length_cons, List.range'_succ,
        List.filter_cons]
      by_cases ticked : treatments start = .ticked
      · simp [ticked]
      · simp [ticked]

theorem answers_of_below (treatments : Nat → Treatment) (start index : Nat)
    (children : List Node) :
    (answersBelow surroundings treatments start children).filterMap
        (fun known => if known.1 = start + index then some known.2 else none) =
      match children[index]? with
      | none => []
      | some child =>
          if treatments (start + index) = .ticked then [answer surroundings child] else [] := by
  induction children generalizing start index with
  | nil => rfl
  | cons child rest ih =>
      rw [answersBelow, List.filterMap_append]
      cases index with
      | zero =>
          -- The numbers of the other children are beyond this one.
          have others : (answersBelow surroundings treatments (start + 1) rest).filterMap
              (fun known => if known.1 = start + 0 then some known.2 else none) = [] := by
            rw [List.filterMap_eq_nil_iff]
            intro known member
            have place := @List.mem_map_of_mem _ _ _ _ Prod.fst member
            rw [places_below, List.mem_filter, List.mem_range'_1] at place
            rw [if_neg (by omega)]
          rw [others, List.append_nil, Nat.add_zero, List.getElem?_cons_zero]
          dsimp only
          split <;> simp
      | succ index =>
          have first : (if treatments start = .ticked then
              [(start, answer surroundings child)] else []).filterMap
                (fun known => if known.1 = start + (index + 1) then some known.2 else none) =
              [] := by
            split <;> simp
          have shifted : start + (index + 1) = start + 1 + index := by omega
          rw [first, List.nil_append, List.getElem?_cons_succ, shifted]
          exact ih (start + 1) index

/-- In a row the children that are passed answer as the row needs to go on, and the one that
decides it, if there is one, gives the verdict. -/
theorem row_answers_below {onward : Status} {skip start : Nat} {children : List Node}
    {treatments : Nat → Treatment}
    (same : ∀ index, treatments (start + index) = .ticked ↔
      sweepTreatment skip (sweep surroundings onward skip children).passed index = .ticked) :
    answersBelow surroundings treatments start children =
      (List.range' (start + skip) (sweep surroundings onward skip children).passed).map
          (fun index => (index, onward)) ++
        ((sweep surroundings onward skip children).verdict.map fun verdict =>
          (start + skip + (sweep surroundings onward skip children).passed, verdict)).toList := by
  induction children generalizing skip start with
  | nil => rfl
  | cons child rest ih =>
      have moved : ∀ index, start + (index + 1) = start + 1 + index := by omega
      cases skip with
      | succ skip =>
          rw [sweep] at same ⊢
          have here : treatments start ≠ .ticked := by
            intro ticked
            have first := (same 0).mp ticked
            simp [sweepTreatment] at first
          have others := @ih skip (start + 1) fun index => by
            rw [← moved, same, sweep_treatment_succ]
          rw [answersBelow, if_neg here, others, List.nil_append, ← moved]
      | zero =>
          rw [sweep] at same ⊢
          have here : treatments start = .ticked := by
            apply (same 0).mpr
            split <;> simp [sweepTreatment]
          rw [answersBelow, if_pos here]
          split at same
          next answered =>
            have others := @ih 0 (start + 1) fun index => by
              rw [← moved, same, sweep_treatment_passed]
            rw [if_pos answered, others, answer, answered]
            simp only [Nat.add_zero, List.range'_succ, List.map_cons]
            rw [moved (sweep surroundings onward 0 rest).passed]
            rfl
          next refused =>
            have others : ∀ index, treatments (start + 1 + index) ≠ .ticked := by
              intro index ticked
              rw [← moved, same] at ticked
              simp [sweepTreatment] at ticked
            rw [if_neg refused, answers_below_unticked surroundings others]
            rfl

theorem tick_children_length (state : NodeState) (rule : Rule) (children : List Node) :
    (Node.tick surroundings (.branch state rule children)).node.children.length =
      children.length :=
  length_of_lookup (tick_children surroundings state rule children)

/-- A branch that has answered otherwise leaves none of its children running. -/
theorem quiet_after_tick {state : NodeState} {rule : Rule} {children : List Node}
    (ended : (turn surroundings (.branch state rule children)).result ≠ .running) :
    ∀ child ∈ (Node.tick surroundings (.branch state rule children)).node.children,
      child.status ≠ .running := by
  intro child member
  obtain ⟨index, found⟩ := List.mem_iff_getElem?.mp member
  rw [tick_children, Option.map_eq_some_iff] at found
  obtain ⟨before, _, rfl⟩ := found
  rw [turn_result] at ended
  rw [concluded_of_ended ended]
  exact stilled_not_running _

/-! What holds of a node and its cycle in every run. -/

theorem turns_append (path : Path) (root : Node) (first second : List Move) :
    turns path root (first ++ second) =
      turns path root first ++ turns path (root.after first) second := by
  induction first generalizing root with
  | nil => rfl
  | cons step first ih =>
      have later := ih (root.move step)
      cases step with
      | tick surroundings =>
          rw [List.cons_append, turns, turns, later, List.append_assoc]
          rfl
      | halt | acknowledge | setup | shutdown | outside => exact later

/-- One move more lets the cycle go on by the turns that it brings. -/
theorem cycle_snoc (path : Path) (root : Node) (moves : List Move) (step : Move) :
    root.cycle path (moves ++ [step]) =
      (turns path (root.after moves) [step]).foldl Turn.follow (root.cycle path moves) := by
  rw [cycle, turns_append, List.foldl_append]
  rfl

/-- A tick that comes to the position is the next turn there. -/
theorem cycle_tick {path : Path} {root sub : Node} {moves : List Move}
    (found : (root.after moves).at? path = some sub) :
    root.cycle path (moves ++ [.tick surroundings]) =
      if visited surroundings path (root.after moves) then
        Turn.follow (root.cycle path moves) (turn surroundings sub)
      else root.cycle path moves := by
  rw [cycle_snoc, turns, turn_at surroundings found]
  split <;> rfl

/-- The turn of a node that is not running begins a cycle. -/
theorem cycle_anew {path : Path} {root sub : Node} {moves : List Move}
    (found : (root.after moves).at? path = some sub) (rested : sub.status ≠ .running)
    (seen : visited surroundings path (root.after moves) = true) :
    root.cycle path (moves ++ [.tick surroundings]) = [turn surroundings sub] := by
  have entered : (turn surroundings sub).entered = true := bne_iff_ne.mpr rested
  rw [cycle_tick surroundings found, if_pos seen, Turn.follow, if_pos entered]

theorem cycle_aside (path : Path) (root : Node) (moves : List Move) {step : Move}
    (noTick : ∀ surroundings, step ≠ .tick surroundings) :
    root.cycle path (moves ++ [step]) = root.cycle path moves := by
  rw [cycle_snoc]
  cases step with
  | tick surroundings => exact absurd rfl (noTick surroundings)
  | halt | acknowledge | setup | shutdown | outside => rfl

/-- The cycle of a running node is not begun anew. -/
theorem cycle_grows {path : Path} {root sub : Node} {moves : List Move}
    (found : (root.after moves).at? path = some sub) (running : sub.status = .running)
    (step : Move) : root.cycle path moves <+: root.cycle path (moves ++ [step]) := by
  by_cases ticks : ∃ surroundings, step = .tick surroundings
  · obtain ⟨surroundings, rfl⟩ := ticks
    rw [cycle_tick surroundings found]
    split
    · rw [Turn.follow, turn_entered, running]
      exact List.prefix_append _ _
    · exact List.prefix_refl _
  · have same := cycle_aside path root moves (not_exists.mp ticks)
    exact same ▸ List.prefix_refl _

theorem after_snoc (root : Node) (moves : List Move) (step : Move) :
    root.after (moves ++ [step]) = (root.after moves).move step := by
  rw [after, List.foldl_append]
  rfl

theorem at_skeleton (node : Node) (path : Path) :
    node.skeleton.at? path = (node.at? path).map skeleton := by
  induction path generalizing node with
  | nil => rfl
  | cons index path ih =>
      cases node with
      | leaf state content => rfl
      | branch state rule children =>
          rw [skeleton_branch, at_cons, at_cons, Node.children, Node.children, List.getElem?_map]
          cases children[index]? with
          | none => rfl
          | some child => exact ih child

theorem length_of_same {Look : Type} {look : Node → Look} {children others : List Node}
    (same : others.map look = children.map look) : others.length = children.length := by
  rw [← List.length_map look, same, List.length_map]

/-- A node with the skeleton of a branch is such a branch, with such children. -/
theorem branch_of_skeleton {other : Node} {state : NodeState} {rule : Rule} {children : List Node}
    (same : other.skeleton = (branch state rule children).skeleton) :
    ∃ after rows, other = .branch after rule rows ∧ after.status = state.status ∧
      rows.map status = children.map status := by
  rw [skeleton_branch] at same
  cases other with
  | leaf after content => cases same
  | branch after own rows =>
      rw [skeleton_branch] at same
      obtain ⟨bare, rfl, below⟩ := Node.branch.inj same
      have shown : (bareState after).status = (bareState state).status := by rw [bare]
      refine ⟨after, rows, rfl, shown, ?_⟩
      have statuses := congrArg (List.map status) below
      simpa [Function.comp_def] using statuses

/-- What every tick and every halt of a node keep, and whatever leaves the statuses alone. -/
structure Kept (holds : List Turn → Node → Prop) : Prop where
  ticked : ∀ surroundings cycle node, holds cycle node →
    holds (Turn.follow cycle (turn surroundings node)) (tick surroundings node).node
  halted : ∀ cycle node, holds cycle node → holds cycle node.halt.node
  aside : ∀ cycle node other, other.skeleton = node.skeleton → holds cycle node →
    holds cycle other

theorem Kept.and {first second : List Turn → Node → Prop} (left : Kept first)
    (right : Kept second) : Kept fun cycle node => first cycle node ∧ second cycle node where
  ticked surroundings cycle node both :=
    ⟨left.ticked surroundings cycle node both.1, right.ticked surroundings cycle node both.2⟩
  halted cycle node both := ⟨left.halted cycle node both.1, right.halted cycle node both.2⟩
  aside cycle node other same both :=
    ⟨left.aside cycle node other same both.1, right.aside cycle node other same both.2⟩

variable {holds : List Turn → Node → Prop}

/-- At a position a tick of the tree is a tick or none, and then a halt or none. -/
theorem Kept.tick (kept : Kept holds) {path : Path} {root sub : Node} {moves : List Move}
    (found : (root.after moves).at? path = some sub) (now : holds (root.cycle path moves) sub) :
    ∃ later, ((root.after moves).move (.tick surroundings)).at? path = some later ∧
      holds (root.cycle path (moves ++ [.tick surroundings])) later := by
  have carried : holds (root.cycle path (moves ++ [.tick surroundings]))
      (carried surroundings path (root.after moves) sub) := by
    rw [cycle_tick surroundings found, Node.carried]
    split
    · exact kept.ticked surroundings _ _ now
    · exact now
  rcases at_tick surroundings found with whole | halted
  · exact ⟨_, whole, carried⟩
  · exact ⟨_, halted, kept.halted _ _ carried⟩

theorem Kept.move (kept : Kept holds) {path : Path} {root sub : Node} {moves : List Move}
    (found : (root.after moves).at? path = some sub) (now : holds (root.cycle path moves) sub)
    (step : Move) :
    ∃ later, ((root.after moves).move step).at? path = some later ∧
      holds (root.cycle path (moves ++ [step])) later := by
  by_cases ticks : ∃ surroundings, step = .tick surroundings
  · obtain ⟨surroundings, rfl⟩ := ticks
    exact kept.tick surroundings found now
  rw [cycle_aside path root moves (not_exists.mp ticks)]
  by_cases halts : step = .halt
  · subst halts
    refine ⟨sub.halt.node, ?_, kept.halted _ _ now⟩
    rw [Node.move, at_halt, found]
    rfl
  · have same := congrArg (·.at? path)
      (move_skeleton (root.after moves) step halts (not_exists.mp ticks))
    rw [at_skeleton, at_skeleton, found, Option.map_some, Option.map_eq_some_iff] at same
    obtain ⟨later, known, bare⟩ := same
    exact ⟨later, known, kept.aside _ _ _ bare now⟩

/-- What is kept holds of a node and its cycle in every run that it holds at the beginning of. -/
theorem Kept.after (kept : Kept holds) {path : Path} {root sub : Node}
    (found : root.at? path = some sub) (start : holds [] sub) (moves : List Move) :
    ∃ now, (root.after moves).at? path = some now ∧ holds (root.cycle path moves) now := by
  induction moves using List.reverseRecOn with
  | nil => exact ⟨sub, found, start⟩
  | append_singleton moves step ih =>
      obtain ⟨now, known, holding⟩ := ih
      rw [after_snoc]
      exact kept.move known holding step

/-! Cycles. -/

/-- Only its first turn enters a cycle, all but the last of its turns go on running, and so does
the last as long as the node is running. -/
structure Cyclic (cycle : List Turn) (node : Node) : Prop where
  turns : ∀ earlier turn later, cycle = earlier ++ turn :: later →
    (turn.entered = true ↔ earlier = []) ∧ (later ≠ [] → turn.result = .running)
  going : node.status = .running → ∃ earlier last, cycle = earlier ++ [last] ∧
    last.result = .running

/-- A list with one more at its end is split before that, or at it. -/
theorem split_snoc {Item : Type} {items earlier later : List Item} {item last : Item}
    (same : items ++ [last] = earlier ++ item :: later) :
    (earlier = items ∧ item = last ∧ later = []) ∨
      ∃ middle, later = middle ++ [last] ∧ items = earlier ++ item :: middle := by
  induction later using List.reverseRecOn with
  | nil =>
      obtain ⟨rfl, final⟩ := List.append_inj' same rfl
      cases final
      exact .inl ⟨rfl, rfl, rfl⟩
  | append_singleton middle final _ =>
      rw [← List.cons_append, ← List.append_assoc] at same
      obtain ⟨rfl, ends⟩ := List.append_inj' same rfl
      cases ends
      exact .inr ⟨middle, rfl, rfl⟩

theorem Cyclic.follow {cycle : List Turn} {node : Node} (cyclic : Cyclic cycle node) :
    Cyclic (Turn.follow cycle (turn surroundings node)) (Node.tick surroundings node).node := by
  by_cases running : node.status = .running
  · obtain ⟨before, last, rfl, still⟩ := cyclic.going running
    have goes : (turn surroundings node).entered = false := by simp [running]
    rw [Turn.follow, goes, if_neg Bool.false_ne_true]
    refine ⟨fun earlier each later same => ?_, fun still => ⟨_, _, rfl, still⟩⟩
    rcases split_snoc same with ⟨rfl, rfl, rfl⟩ | ⟨middle, _, before⟩
    · simp [running]
    · obtain ⟨entered, rest⟩ := cyclic.turns _ _ _ before
      refine ⟨entered, fun _ => ?_⟩
      rcases split_snoc before with ⟨_, rfl, _⟩ | ⟨ends, rfl, _⟩
      · exact still
      · exact rest (by simp)
  · have enters : (turn surroundings node).entered = true := by simp [running]
    rw [Turn.follow, enters, if_pos rfl]
    refine ⟨fun earlier each later same => ?_, fun still => ⟨[], _, rfl, still⟩⟩
    obtain ⟨rfl, rfl, rfl⟩ | ⟨middle, rfl, impossible⟩ := @split_snoc _ [] _ _ _ _ same
    · simp [running]
    · simp at impossible

theorem cyclic_kept : Kept Cyclic where
  ticked surroundings _ _ cyclic := cyclic.follow surroundings
  halted _ node cyclic := by
    refine ⟨cyclic.turns, fun running => ?_⟩
    rw [halt_status] at running
    cases running
  aside _ node other same cyclic := by
    have status := congrArg Node.status same
    rw [skeleton_status, skeleton_status] at status
    exact ⟨cyclic.turns, fun running => cyclic.going (status ▸ running)⟩

theorem cyclic_at_rest {node : Node} (resting : node.status ≠ .running) : Cyclic [] node where
  turns earlier turn later same := by simp at same
  going running := absurd running resting

end BehaviorTree.Node
