import BehaviorTree.Proofs.Moves
import BehaviorTree.Proofs.Ticking

/-!
Where a tree may be running. A branch that is not running has no running child, and a running row
has exactly one; with memory it is the child at the index, behind children that answered as the
row needs to go on. Every rule restores this in its own way, and no run of moves breaks it.
-/

namespace BehaviorTree

/-- One of the statuses in a row is running, the one at `index`. -/
def SoleRunning (statuses : List Status) (index : Nat) : Prop :=
  ∀ place : Nat, statuses[place]? = some .running ↔ place = index

namespace Rule

/-- What the memory of a rule says about the children of a branch of that status. -/
def Fits (status : Status) (statuses : List Status) : Rule → Prop
  | .reactive _ | .checkAndDo => status = .running → ∃ index, SoleRunning statuses index
  | .memory flow index =>
      if status = .running then
        SoleRunning statuses index ∧
          ∀ earlier < index, statuses[earlier]? = some flow.onward
      else index = 0
  | .parallel _ _ settled =>
      settled.length = statuses.length ∧
        (status = .running → settled = statuses.map (· == .success))

/-- What a rule relies on when it goes into a tick. -/
def Ready (statuses : List Status) : Rule → Prop
  | .reactive _ | .checkAndDo => True
  | .memory flow index =>
      (∀ earlier < index, statuses[earlier]? = some flow.onward) ∧
        ∀ place : Nat, place ≠ index → statuses[place]? ≠ some .running
  | .parallel _ _ settled =>
      settled.length = statuses.length ∧
        ∀ place : Nat, settled[place]? = some true → statuses[place]? = some .success

end Rule

theorem Flow.onward_ne_running (flow : Flow) : flow.onward ≠ .running := by
  cases flow <;> decide

namespace Node

/-- A branch and its children agree about what is running. -/
structure BranchOrderly (status : Status) (rule : Rule) (statuses : List Status) : Prop where
  quiet : status ≠ .running → Status.running ∉ statuses
  fits : rule.Fits status statuses

inductive Orderly : Node → Prop where
  | leaf (state : NodeState) (content : Leaf) : Orderly (.leaf state content)
  | branch {state : NodeState} {rule : Rule} {children : List Node}
      (here : BranchOrderly state.status rule (children.map status))
      (below : ∀ child ∈ children, Orderly child) : Orderly (.branch state rule children)

theorem Orderly.at_path {node sub : Node} {path : Path} (orderly : Orderly node)
    (found : node.at? path = some sub) : Orderly sub := by
  induction path generalizing node with
  | nil =>
      cases found
      exact orderly
  | cons index path induction =>
      obtain ⟨state, rule, children, child, rfl, own, below⟩ := branch_of_at_cons found
      obtain _ | ⟨here, under⟩ := orderly
      exact induction (under child (List.mem_of_getElem? own)) below

/-- Above a running node everything is running. -/
theorem Orderly.running_above {node sub : Node} {path : Path} (orderly : Orderly node)
    (found : node.at? path = some sub) (running : sub.status = .running) :
    node.status = .running := by
  induction path generalizing node with
  | nil =>
      cases found
      exact running
  | cons index path induction =>
      obtain ⟨state, rule, children, child, rfl, own, below⟩ := branch_of_at_cons found
      obtain _ | ⟨here, under⟩ := orderly
      have member := List.mem_of_getElem? own
      have childRunning := induction (under child member) below
      have inside : Status.running ∈ children.map status :=
        List.mem_map.mpr ⟨child, member, childRunning⟩
      exact Decidable.byContradiction fun resting => here.quiet resting inside

/-! Built trees, and moves that keep the skeleton. -/

theorem fits_at_rest {statuses : List Status} (flow : Flow) :
    (Rule.reactive flow).Fits .invalid statuses ∧ (Rule.memory flow 0).Fits .invalid statuses ∧
      Rule.checkAndDo.Fits .invalid statuses := by
  refine ⟨?_, ?_, ?_⟩
  · intro impossible
    cases impossible
  · simp [Rule.Fits]
  · intro impossible
    cases impossible

theorem Built.status_invalid {node : Node} (built : Built node) : node.status = .invalid := by
  cases built <;> assumption

theorem Built.orderly {node : Node} (built : Built node) : Orderly node := by
  induction built with
  | leaf state content fresh => exact .leaf state content
  | row state flow memory children fresh below induction =>
      apply Orderly.branch _ induction
      rw [fresh]
      refine ⟨fun _ running => ?_, ?_⟩
      · obtain ⟨child, member, same⟩ := List.mem_map.mp running
        rw [(below child member).status_invalid] at same
        cases same
      · cases memory
        · exact (fits_at_rest flow).1
        · exact (fits_at_rest flow).2.1
  | parallel state policy synchronise children fresh below induction =>
      apply Orderly.branch _ induction
      rw [fresh]
      refine ⟨fun _ running => ?_, ?_⟩
      · obtain ⟨child, member, same⟩ := List.mem_map.mp running
        rw [(below child member).status_invalid] at same
        cases same
      · simp [Rule.Fits]
  | checkAndDo state check act fresh first second firstOrderly secondOrderly =>
      apply Orderly.branch
      · rw [fresh]
        refine ⟨fun _ running => ?_, (fits_at_rest .selector).2.2⟩
        simp [first.status_invalid, second.status_invalid] at running
      · intro child member
        simp only [List.mem_cons, List.not_mem_nil, or_false] at member
        rcases member with rfl | rfl
        · exact firstOrderly
        · exact secondOrderly

theorem orderly_skeleton_iff (node : Node) : Orderly node.skeleton ↔ Orderly node := by
  induction node with
  | leaf state content => exact ⟨fun _ => .leaf _ _, fun _ => .leaf _ _⟩
  | branch state rule children induction =>
      have statuses : (children.map skeleton).map status = children.map status := by
        rw [List.map_map]
        apply List.map_congr_left
        intro child _
        exact skeleton_status child
      rw [skeleton_branch]
      constructor
      · rintro (_ | ⟨here, below⟩)
        rw [statuses] at here
        refine .branch here fun child member => (induction child member).mp ?_
        exact below _ (List.mem_map_of_mem member)
      · rintro (_ | ⟨here, below⟩)
        refine .branch (by rw [statuses]; exact here) fun child member => ?_
        obtain ⟨original, inside, rfl⟩ := List.mem_map.mp member
        exact (induction original inside).mpr (below original inside)

/-! Halting. -/

theorem BranchOrderly.halted {status : Status} {rule : Rule} {statuses after : List Status}
    (orderly : BranchOrderly status rule statuses) (length : after.length = statuses.length)
    (quiet : Status.running ∉ after) : BranchOrderly .invalid (haltedRule status rule) after := by
  refine ⟨fun _ => quiet, ?_⟩
  have fits := orderly.fits
  unfold haltedRule
  split
  next running =>
    cases rule with
    | reactive flow => exact (fits_at_rest flow).1
    | memory flow index => exact (fits_at_rest flow).2.1
    | parallel policy synchronise settled => exact ⟨fits.1.trans length.symm, by simp⟩
    | checkAndDo => exact (fits_at_rest .selector).2.2
  next resting =>
    cases rule with
    | reactive flow => exact (fits_at_rest flow).1
    | memory flow index =>
        simp only [Rule.Fits, if_neg resting] at fits
        rw [fits]
        exact (fits_at_rest flow).2.1
    | parallel policy synchronise settled => exact ⟨fits.1.trans length.symm, by simp⟩
    | checkAndDo => exact (fits_at_rest .selector).2.2

theorem Orderly.halt {node : Node} (orderly : Orderly node) : Orderly node.halt.node := by
  induction orderly with
  | leaf state content => exact .leaf _ _
  | @branch state rule children here below induction =>
      rw [halt_branch]
      apply Orderly.branch
      · apply here.halted
        · simp
        · intro running
          simp at running
      · intro child member
        obtain ⟨original, inside, rfl⟩ := List.mem_map.mp member
        exact induction original inside

theorem Orderly.stilled {node : Node} (orderly : Orderly node) : Orderly node.stilled := by
  unfold Node.stilled
  split
  · exact orderly.halt
  · exact orderly

/-! Ticking. -/

/-- Initialising a branch that was not running, or going on with one that was, leaves its rule
what it relies on. -/
theorem BranchOrderly.ready {status : Status} {rule : Rule} {statuses : List Status}
    (orderly : BranchOrderly status rule statuses) : (rule.atEntry status).Ready statuses := by
  have fits := orderly.fits
  unfold Rule.atEntry
  split
  next running =>
    cases rule with
    | reactive flow | checkAndDo => trivial
    | memory flow index =>
        simp only [Rule.Fits, if_pos running] at fits
        refine ⟨fits.2, fun place apart found => ?_⟩
        exact apart ((fits.1 place).mp found)
    | parallel policy synchronise settled =>
        refine ⟨fits.1, fun place found => ?_⟩
        rw [fits.2 running, List.getElem?_map, Option.map_eq_some_iff] at found
        obtain ⟨answered, own, success⟩ := found
        rw [own, beq_iff_eq.mp success]
  next resting =>
    have quiet := orderly.quiet resting
    cases rule with
    | reactive flow | checkAndDo => trivial
    | memory flow index =>
        refine ⟨fun earlier before => absurd before (Nat.not_lt_zero earlier), ?_⟩
        intro place _ found
        exact quiet (List.mem_of_getElem? found)
    | parallel policy synchronise settled =>
        refine ⟨(List.length_map _).trans fits.1, fun place found => ?_⟩
        rw [List.getElem?_map, Option.map_eq_some_iff] at found
        obtain ⟨_, _, impossible⟩ := found
        cases impossible

variable (surroundings : Surroundings)

private theorem verdict_of_running {flow : Flow} {verdict : Option Status}
    (running : verdict.getD flow.onward = .running) : verdict = some .running := by
  cases verdict with
  | none => exact absurd running flow.onward_ne_running
  | some status => exact congrArg some running

private theorem some_ne_running {status : Status} (apart : status ≠ .running) {place index : Nat}
    (elsewhere : place ≠ index) : some status = some Status.running ↔ place = index := by
  constructor
  · intro same
    exact absurd (Option.some.inj same) apart
  · intro same
    exact absurd same elsewhere

/-- A running row without memory runs its deciding child alone: those before it have answered, and
those behind it were stopped. -/
theorem reactive_sole_running (rule : Rule) (flow : Flow) (children : List Node)
    (running : (decideReactive rule flow
      (sweep surroundings flow.onward 0 children)).status = .running) :
    SoleRunning ((decideReactive rule flow
      (sweep surroundings flow.onward 0 children)).children.map status)
        (sweep surroundings flow.onward 0 children).passed := by
  rw [reactive_status] at running
  have decided := sweep_decider surroundings (verdict_of_running running)
  rw [Nat.zero_add] at decided
  intro place
  rw [List.getElem?_map, reactive_children, Option.map_map]
  rcases Nat.lt_trichotomy place (sweep surroundings flow.onward 0 children).passed with
    before | same | behind
  · have passed : children[place]?.map (answer surroundings) = some flow.onward :=
      sweep_passed surroundings (Nat.zero_le place) (by omega)
    rw [reactiveTreatment, if_pos (Nat.le_of_lt before)]
    exact passed ▸ some_ne_running flow.onward_ne_running (Nat.ne_of_lt before)
  · rw [reactiveTreatment, if_pos (Nat.le_of_eq same), same]
    exact iff_of_true decided.2 rfl
  · rw [reactiveTreatment, if_neg (by omega)]
    cases children[place]? with
    | none => exact iff_of_false (by simp) (by omega)
    | some child => exact some_ne_running (stilled_not_running child) (by omega)

/-- A running row with memory stands at its deciding child. -/
theorem memory_fits (flow : Flow) (start : Nat) (children : List Node)
    (ready : (Rule.memory flow start).Ready (children.map status))
    (running : (decideMemory flow start
      (sweep surroundings flow.onward start children)).status = .running) :
    (decideMemory flow start (sweep surroundings flow.onward start children)).rule.Fits .running
      ((sweep surroundings flow.onward start children).children.map status) := by
  have decided := sweep_decider surroundings (verdict_of_running running)
  obtain ⟨answered, elsewhere⟩ := ready
  have earlierStatus : ∀ earlier < start + (sweep surroundings flow.onward start children).passed,
      ((sweep surroundings flow.onward start children).children.map status)[earlier]? =
        some flow.onward := by
    intro earlier before
    rw [List.getElem?_map, sweep_children, Option.map_map, sweepTreatment]
    by_cases skipped : earlier < start
    · rw [if_neg (by omega), ← answered earlier skipped, List.getElem?_map]
      rfl
    · rw [if_pos (by omega)]
      exact sweep_passed surroundings (by omega) before
  simp only [decideMemory, Rule.Fits, if_true]
  refine ⟨fun place => ?_, earlierStatus⟩
  rcases Nat.lt_trichotomy place
    (start + (sweep surroundings flow.onward start children).passed) with before | same | behind
  · rw [earlierStatus place before]
    exact some_ne_running flow.onward_ne_running (Nat.ne_of_lt before)
  · rw [List.getElem?_map, sweep_children, Option.map_map, sweepTreatment, if_pos (by omega), same]
    exact iff_of_true decided.2 rfl
  · rw [List.getElem?_map, sweep_children, Option.map_map, sweepTreatment, if_neg (by omega)]
    have resting := elsewhere place (by omega)
    rw [List.getElem?_map] at resting
    exact iff_of_false resting (by omega)

/-- A parallel remembers which of its children have succeeded. -/
theorem parallel_fits (policy : ParallelPolicy) (synchronise : Bool) (settled : List Bool)
    (children : List Node)
    (ready : (Rule.parallel policy synchronise settled).Ready (children.map status))
    (answer : Status) :
    (decideParallel policy synchronise
      (gather surroundings synchronise settled children)).rule.Fits answer
        ((gather surroundings synchronise settled children).children.map status) := by
  have answers := gather_answers surroundings synchronise settled children
    (by simpa using ready.1) fun index found => by
      rw [← List.getElem?_map]
      exact ready.2 index found
  rw [decideParallel, answers]
  exact ⟨List.length_map _, fun _ => rfl⟩

theorem decision_running_fits (rule : Rule) (children : List Node)
    (ready : rule.Ready (children.map status))
    (running : (decision surroundings rule children).status = .running) :
    (decision surroundings rule children).rule.Fits .running
      ((decision surroundings rule children).children.map status) := by
  cases rule with
  | reactive flow =>
      have sole := reactive_sole_running surroundings (.reactive flow) flow children running
      rw [decision, reactive_rule]
      exact fun _ => ⟨_, sole⟩
  | memory flow start => exact memory_fits surroundings flow start children ready running
  | parallel policy synchronise settled =>
      exact parallel_fits surroundings policy synchronise settled children ready .running
  | checkAndDo =>
      have sole := reactive_sole_running surroundings .checkAndDo .selector children running
      rw [decision, reactive_rule]
      exact fun _ => ⟨_, sole⟩

theorem decision_ended_fits (rule : Rule) (children : List Node)
    (ready : rule.Ready (children.map status)) {answer : Status} (ended : answer ≠ .running)
    {statuses : List Status}
    (length : statuses.length = (decision surroundings rule children).children.length) :
    (decision surroundings rule children).rule.terminate.Fits answer statuses := by
  cases rule with
  | reactive flow =>
      rw [decision, reactive_rule]
      exact fun running => absurd running ended
  | memory flow start =>
      rw [decision, decideMemory, Rule.terminate, Rule.Fits, if_neg ended]
  | parallel policy synchronise settled =>
      have fits := parallel_fits surroundings policy synchronise settled children ready answer
      refine ⟨fits.1.trans ?_, fun running => absurd running ended⟩
      rw [List.length_map]
      exact length.symm
  | checkAndDo =>
      rw [decision, reactive_rule]
      exact fun running => absurd running ended

/-- However a branch comes to its answer, it and its children agree again afterwards. -/
theorem decision_orderly (rule : Rule) (children : List Node)
    (ready : rule.Ready (children.map status)) :
    BranchOrderly (decision surroundings rule children).status
      (concludedRule (decision surroundings rule children).status
        (decision surroundings rule children).rule)
      (((decision surroundings rule children).children.map
        (concluded (decision surroundings rule children).status)).map status) := by
  by_cases running : (decision surroundings rule children).status = .running
  · have fits := decision_running_fits surroundings rule children ready running
    rw [concluded_of_running running, concludedRule, if_pos running, List.map_id]
    refine ⟨fun resting => absurd running resting, ?_⟩
    rw [running]
    exact fits
  · rw [concluded_of_ended running, concludedRule, if_neg running]
    refine ⟨fun _ inside => ?_, ?_⟩
    · rw [List.map_map, List.mem_map] at inside
      obtain ⟨child, _, found⟩ := inside
      exact stilled_not_running child found
    · exact decision_ended_fits surroundings rule children ready running (by simp)

theorem Orderly.treated {child : Node} (orderly : Orderly child)
    (ticked : Orderly (tick surroundings child).node) (treatment : Treatment) :
    Orderly (treated surroundings treatment child) := by
  cases treatment with
  | ticked => exact ticked
  | stopped => exact orderly.stilled
  | rested => exact orderly

theorem Orderly.concluded {child : Node} (orderly : Orderly child) (answer : Status) :
    Orderly (concluded answer child) := by
  unfold Node.concluded
  split
  · exact orderly
  · exact orderly.stilled

theorem Orderly.tick {node : Node} (orderly : Orderly node) :
    Orderly (tick surroundings node).node := by
  induction orderly with
  | leaf state content => exact .leaf _ _
  | @branch state rule children here below induction =>
      rw [tick_branch, conclude_node]
      apply Orderly.branch
      · exact decision_orderly surroundings _ children here.ready
      · intro child member
        obtain ⟨treatedChild, inside, rfl⟩ := List.mem_map.mp member
        apply Orderly.concluded
        obtain ⟨index, found⟩ := List.mem_iff_getElem?.mp inside
        rw [decision_children, Option.map_eq_some_iff] at found
        obtain ⟨original, own, rfl⟩ := found
        have originalMember := List.mem_of_getElem? own
        exact (below original originalMember).treated surroundings
          (induction original originalMember) _

theorem Orderly.move {node : Node} (orderly : Orderly node) (step : Move) :
    Orderly (node.move step) := by
  by_cases halts : step = .halt
  · subst halts
    exact orderly.halt
  by_cases ticks : ∃ surroundings, step = .tick surroundings
  · obtain ⟨surroundings, rfl⟩ := ticks
    exact orderly.tick surroundings
  · rw [← orderly_skeleton_iff, move_skeleton node step halts (not_exists.mp ticks),
      orderly_skeleton_iff]
    exact orderly

theorem Built.orderly_after {root : Node} (built : Built root) (moves : List Move) :
    Orderly (root.after moves) :=
  after_invariant (fun _ step orderly => orderly.move step) built.orderly moves

/-- In every reachable tree the nodes above a running one are running, a running row has exactly
one running child, and a row with memory stands at that child, behind children that have answered
as it needs to go on, or at the first one if it is not running. -/
theorem running_in_reachable_tree {root : Node} (built : Built root) (moves : List Move) :
    (∀ upper lower node, (root.after moves).at? (upper ++ lower) = some node →
      node.status = .running →
        ∃ above, (root.after moves).at? upper = some above ∧ above.status = .running) ∧
    (∀ path state rule children,
      (root.after moves).at? path = some (.branch state rule children) →
        state.status = .running → rule.kind ≠ .parallel →
          ∃ index, SoleRunning (children.map status) index) ∧
    (∀ path state flow index children,
      (root.after moves).at? path = some (.branch state (.memory flow index) children) →
        (state.status = .running →
          SoleRunning (children.map status) index ∧
            ∀ earlier < index, (children.map status)[earlier]? = some flow.onward) ∧
        (state.status ≠ .running → index = 0)) := by
  have orderly := built.orderly_after moves
  refine ⟨?_, ?_, ?_⟩
  · intro upper lower node found running
    rw [at_append, Option.bind_eq_some_iff] at found
    obtain ⟨above, known, below⟩ := found
    exact ⟨above, known, (orderly.at_path known).running_above below running⟩
  · intro path state rule children found running row
    obtain _ | ⟨here, _⟩ := orderly.at_path found
    have fits := here.fits
    cases rule with
    | reactive flow | checkAndDo => exact fits running
    | memory flow index =>
        rw [Rule.Fits, if_pos running] at fits
        exact ⟨index, fits.1⟩
    | parallel policy synchronise settled => exact absurd rfl row
  · intro path state flow index children found
    obtain _ | ⟨here, _⟩ := orderly.at_path found
    have fits := here.fits
    rw [Rule.Fits] at fits
    constructor
    · intro running
      rwa [if_pos running] at fits
    · intro resting
      rwa [if_neg resting] at fits

theorem running_in_begun_excursion :
    Built excursion ∧ ∃ state children,
      (excursion.after [.tick ⟨0, {}⟩]).at? [] =
        some (.branch state (.memory .sequence 1) children) ∧
      state.status = .running ∧ SoleRunning (children.map status) 1 := by
  refine ⟨excursion_built, _, _, rfl, rfl, ?_⟩
  have memory := (running_in_reachable_tree excursion_built [.tick ⟨0, {}⟩]).2.2
  exact ((memory [] _ .sequence 1 _ rfl).1 rfl).1

end Node

end BehaviorTree
