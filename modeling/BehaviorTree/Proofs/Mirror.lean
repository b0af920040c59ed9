import BehaviorTree.Proofs.Turns

/-!
Sequences and selectors are mirror images. Of two rows of the same length, one of each kind, that
are ticked and halted together and whose children give opposite answers, one does to its children
whatever the other does, and gives the opposite answer.
-/

namespace BehaviorTree

/-- Success for failure, and the other way round. -/
def Status.swap : Status → Status
  | .success => .failure
  | .failure => .success
  | .running => .running
  | .invalid => .invalid

theorem Status.swap_inj {first second : Status} : first.swap = second.swap ↔ first = second := by
  cases first <;> cases second <;> decide

@[simp] theorem Status.swap_running_iff {status : Status} :
    status.swap = .running ↔ status = .running := @Status.swap_inj status .running

def Flow.swap : Flow → Flow
  | .sequence => .selector
  | .selector => .sequence

@[simp] theorem Flow.onward_swap (flow : Flow) : flow.swap.onward = flow.onward.swap := by
  cases flow <;> rfl

namespace Rule

def swap : Rule → Rule
  | .reactive flow => .reactive flow.swap
  | .memory flow index => .memory flow.swap index
  | other => other

/-- The rule of a row: whether it has memory, its kind, and the child from which it goes into a
tick. -/
inductive Sweeps : Rule → Bool → Flow → Nat → Prop where
  | reactive (flow : Flow) : Sweeps (.reactive flow) false flow 0
  | memory (flow : Flow) (index : Nat) : Sweeps (.memory flow index) true flow index

section Sweeps

variable {rule : Rule} {memory : Bool} {flow : Flow} {start : Nat}
  (sweeps : rule.Sweeps memory flow start)

include sweeps

theorem Sweeps.swap : rule.swap.Sweeps memory flow.swap start := by
  cases sweeps with
  | reactive => exact .reactive _
  | memory => exact .memory _ _

theorem Sweeps.initialise : rule.initialise.Sweeps memory flow 0 := by
  cases sweeps with
  | reactive => exact .reactive _
  | memory => exact .memory _ _

theorem Sweeps.terminate : rule.terminate.Sweeps memory flow 0 := by
  cases sweeps with
  | reactive => exact .reactive _
  | memory => exact .memory _ _

theorem Sweeps.at_entry (status : Status) :
    ∃ place, (rule.atEntry status).Sweeps memory flow place := by
  unfold Rule.atEntry
  split
  · exact ⟨_, sweeps⟩
  · exact ⟨_, sweeps.initialise⟩

theorem Sweeps.concluded (status : Status) :
    ∃ place, (Node.concludedRule status rule).Sweeps memory flow place := by
  unfold Node.concludedRule
  split
  · exact ⟨_, sweeps⟩
  · exact ⟨_, sweeps.terminate⟩

theorem Sweeps.halted (status : Status) :
    ∃ place, (Node.haltedRule status rule).Sweeps memory flow place := by
  unfold Node.haltedRule
  split
  · exact ⟨_, sweeps.terminate⟩
  · exact ⟨_, sweeps⟩

end Sweeps

theorem initialise_swap (rule : Rule) : rule.swap.initialise = rule.initialise.swap := by
  cases rule <;> rfl

theorem terminate_swap (rule : Rule) : rule.swap.terminate = rule.terminate.swap := by
  cases rule <;> rfl

theorem at_entry_swap {first second : Status} (begun : second = .running ↔ first = .running)
    (rule : Rule) : rule.swap.atEntry second = (rule.atEntry first).swap := by
  by_cases goes : first = .running
  · rw [atEntry, atEntry, if_pos goes, if_pos (begun.mpr goes)]
  · rw [atEntry, atEntry, if_neg goes, if_neg (mt begun.mp goes), initialise_swap]

theorem halted_rule_swap {first second : Status} (begun : second = .running ↔ first = .running)
    (rule : Rule) : Node.haltedRule second rule.swap = (Node.haltedRule first rule).swap := by
  by_cases goes : first = .running
  · rw [Node.haltedRule, Node.haltedRule, if_pos goes, if_pos (begun.mpr goes), terminate_swap]
  · rw [Node.haltedRule, Node.haltedRule, if_neg goes, if_neg (mt begun.mp goes)]

theorem concluded_rule_swap (status : Status) (rule : Rule) :
    Node.concludedRule status.swap rule.swap = (Node.concludedRule status rule).swap := by
  unfold Node.concludedRule
  by_cases goes : status = .running
  · rw [if_pos goes, if_pos (Status.swap_running_iff.mpr goes)]
  · rw [if_neg goes, if_neg (mt Status.swap_running_iff.mp goes), terminate_swap]

end Rule

namespace Node

/-! Which children are halted. -/

/-- The numbers of the children that are running. -/
def runningPlaces (children : List Node) : List Nat :=
  let flags := children.map isRunning
  (List.range flags.length).filter fun index => flags[index]? = some true

theorem mem_running_places {children : List Node} {index : Nat} :
    index ∈ runningPlaces children ↔ children[index]?.map isRunning = some true := by
  dsimp only [runningPlaces]
  rw [List.mem_filter, List.mem_range, decide_eq_true_iff, List.getElem?_map, and_iff_right_iff_imp]
  intro flagged
  obtain ⟨child, own, _⟩ := Option.map_eq_some_iff.mp flagged
  rw [List.length_map]
  exact (List.getElem?_eq_some_iff.mp own).1

/-- Which children a tick halts: those that it stops while they are running, and, once the branch
has answered otherwise, those that are running then. -/
def haltedByTick (surroundings : Surroundings) : Node → List Nat
  | .leaf _ _ => []
  | .branch state rule children =>
      let entry := rule.atEntry state.status
      let decided := decision surroundings entry children
      (runningPlaces children).filter
          (fun index => treatment surroundings entry children index = .stopped) ++
        if decided.status = .running then [] else runningPlaces decided.children

/-- A halt comes to all children, and of a running branch to the running ones first. -/
def haltedByHalt (node : Node) : List Nat :=
  let every := List.range node.children.length
  if node.isRunning then
    runningPlaces node.children ++
      every.filter fun index => !(runningPlaces node.children).contains index
  else every

theorem stilled_is_running (node : Node) : node.stilled.isRunning = false := by
  have still := stilled_not_running node
  rwa [ne_eq, ← is_running_iff, Bool.not_eq_true] at still

theorem halt_is_running (node : Node) : node.halt.node.isRunning = false := by
  rw [isRunning, halt_status]
  rfl

/-- A child is halted by its branch if it is running when it is stopped, or when the branch has
ended. -/
theorem concluded_treated (surroundings : Surroundings) (answer : Status) (treatment : Treatment)
    (child : Node) :
    concluded answer (treated surroundings treatment child) =
      let left := if treatment = .ticked then (Node.tick surroundings child).node else child
      if (treatment = .stopped ∧ child.isRunning = true) ∨
          (answer ≠ .running ∧ (treated surroundings treatment child).isRunning = true) then
        left.halt.node
      else left := by
  have rest : ∀ node : Node, concluded answer node =
      if answer ≠ .running ∧ node.isRunning = true then node.halt.node else node := by
    intro node
    unfold concluded stilled
    by_cases goes : answer = .running
    · simp [goes]
    · simp [goes]
  cases treatment with
  | ticked => simpa [treated] using rest _
  | rested => simpa [treated] using rest child
  | stopped =>
      have still : (treated surroundings .stopped child).isRunning = false :=
        stilled_is_running child
      rw [rest]
      simp only [still, Bool.false_eq_true, and_false, or_false, true_and, if_false]
      rfl

/-- A tick halts these children once they were ticked or passed over, and no other. -/
theorem tick_halts (surroundings : Surroundings) (state : NodeState) (rule : Rule)
    (children : List Node) (index : Nat) :
    (Node.tick surroundings (.branch state rule children)).node.children[index]? =
      children[index]?.map fun child =>
        let left := if treatment surroundings (rule.atEntry state.status) children index = .ticked
          then (Node.tick surroundings child).node else child
        if index ∈ haltedByTick surroundings (.branch state rule children) then left.halt.node
        else left := by
  rw [tick_children, answer_branch]
  cases own : children[index]? with
  | none => rfl
  | some child =>
      have decided := decision_children surroundings (rule.atEntry state.status) children index
      rw [own, Option.map_some] at decided
      have member : index ∈ haltedByTick surroundings (.branch state rule children) ↔
          (treatment surroundings (rule.atEntry state.status) children index = .stopped ∧
            child.isRunning = true) ∨
          ((decision surroundings (rule.atEntry state.status) children).status ≠ .running ∧
            (treated surroundings (treatment surroundings (rule.atEntry state.status) children
              index) child).isRunning = true) := by
        rw [haltedByTick, List.mem_append, List.mem_filter, mem_running_places, own,
          decide_eq_true_iff, and_comm]
        split
        next goes => simp [goes]
        next ended =>
          rw [mem_running_places, decided]
          simp [ended]
      rw [Option.map_some, Option.map_some, concluded_treated]
      simp only [member]

theorem mem_halted_by_halt {node : Node} {index : Nat} :
    index ∈ haltedByHalt node ↔ index < node.children.length := by
  unfold haltedByHalt
  dsimp only
  split
  · rw [List.mem_append, List.mem_filter, List.mem_range, Bool.not_eq_true', List.contains_eq_mem,
      decide_eq_false_iff_not]
    have inside : index ∈ runningPlaces node.children → index < node.children.length := by
      intro running
      obtain ⟨child, own, _⟩ := Option.map_eq_some_iff.mp (mem_running_places.mp running)
      exact (List.getElem?_eq_some_iff.mp own).1
    tauto
  · exact List.mem_range

/-- A halt halts these children, and they are all. -/
theorem halt_halts (node : Node) (index : Nat) :
    node.halt.node.children[index]? = node.children[index]?.map fun child =>
      if index ∈ haltedByHalt node then child.halt.node else child := by
  rw [halt_children, List.getElem?_map]
  by_cases inside : index < node.children.length
  · simp only [if_pos (mem_halted_by_halt.mpr inside)]
  · rw [List.getElem?_eq_none (Nat.le_of_not_lt inside)]
    rfl

/-! Sweeps. -/

section Sweep

variable {first second : Surroundings} {onward : Status}

/-- Two rows go equally far, and opposite answers decide them, if the children that both of them
tick give opposite answers. -/
theorem sweep_mirrored {skip : Nat} {children others : List Node}
    (length : others.length = children.length)
    (opposite : ∀ (index : Nat) child other, children[index]? = some child →
      others[index]? = some other →
      sweepTreatment skip (sweep first onward skip children).passed index = .ticked →
      sweepTreatment skip (sweep second onward.swap skip others).passed index = .ticked →
      answer second other = (answer first child).swap) :
    (sweep second onward.swap skip others).passed = (sweep first onward skip children).passed ∧
      (sweep second onward.swap skip others).verdict =
        (sweep first onward skip children).verdict.map Status.swap := by
  induction children generalizing others skip with
  | nil =>
      obtain rfl := List.length_eq_zero_iff.mp length
      exact ⟨rfl, rfl⟩
  | cons child rest ih =>
      obtain ⟨other, tail, rfl⟩ := List.exists_cons_of_length_eq_add_one length
      have below := Nat.succ.inj length
      cases skip with
      | succ skip =>
          rw [sweep, sweep] at opposite ⊢
          refine ih below fun index child other own opposed left right => ?_
          rw [← sweep_treatment_succ] at left right
          exact opposite (index + 1) child other own opposed left right
      | zero =>
          have own : answer second other = (answer first child).swap :=
            opposite 0 child other rfl rfl (by simp [sweepTreatment]) (by simp [sweepTreatment])
          have onwards : (Node.tick second other).node.status = onward.swap ↔
              (Node.tick first child).node.status = onward := by
            unfold answer at own
            rw [own, Status.swap_inj]
          rw [sweep, sweep] at opposite ⊢
          by_cases answered : (Node.tick first child).node.status = onward
          · rw [if_pos answered, if_pos (onwards.mpr answered)] at opposite ⊢
            obtain ⟨passed, verdict⟩ := ih below fun index child other own opposed left right => by
              rw [← sweep_treatment_passed] at left right
              exact opposite (index + 1) child other own opposed left right
            exact ⟨congrArg (· + 1) passed, verdict⟩
          · rw [if_neg answered, if_neg (mt onwards.mp answered)]
            exact ⟨rfl, congrArg some own⟩

end Sweep

/-! Turns. -/

/-- The children that are ticked in both turns give opposite answers. -/
def Turn.Opposite (left right : Turn) : Prop :=
  ∀ known ∈ left.answers, ∀ other ∈ right.answers, known.1 = other.1 → other.2 = known.2.swap

instance (left right : Turn) : Decidable (left.Opposite right) :=
  inferInstanceAs (Decidable (∀ known ∈ left.answers, ∀ other ∈ right.answers,
    known.1 = other.1 → other.2 = known.2.swap))

theorem mem_answers_below {surroundings : Surroundings} {treatments : Nat → Treatment}
    {children : List Node} {index : Nat} {child : Node} (own : children[index]? = some child)
    (ticked : treatments index = .ticked) :
    (index, answer surroundings child) ∈ answersBelow surroundings treatments 0 children := by
  have below := answers_of_below surroundings treatments 0 index children
  rw [Nat.zero_add, own] at below
  dsimp only at below
  rw [if_pos ticked] at below
  have member : answer surroundings child ∈
      (answersBelow surroundings treatments 0 children).filterMap
        fun known => if known.1 = index then some known.2 else none := by
    rw [below]
    exact List.mem_singleton_self _
  obtain ⟨⟨place, status⟩, known, same⟩ := List.mem_filterMap.mp member
  split at same
  next here =>
    dsimp only at here same
    rwa [here, Option.some.inj same] at known
  next => cases same

/-- Two rows of opposite kinds at the same child, with the same children running. -/
inductive Mirrored (memory : Bool) (flow : Flow) : Node → Node → Prop where
  | rows {first second : NodeState} {rule : Rule} {start : Nat} {children others : List Node}
      (sweeps : rule.Sweeps memory flow start)
      (begun : second.status = .running ↔ first.status = .running)
      (running : others.map isRunning = children.map isRunning) :
      Mirrored memory flow (.branch first rule children) (.branch second rule.swap others)

theorem running_places_congr {children others : List Node}
    (running : others.map isRunning = children.map isRunning) :
    runningPlaces others = runningPlaces children := by
  rw [runningPlaces, runningPlaces, running]

section Tick

variable {first second : Surroundings} {rule : Rule} {memory : Bool} {flow : Flow} {start : Nat}
  (sweeps : rule.Sweeps memory flow start)

include sweeps

theorem ticked_iff_swept (surroundings : Surroundings) (children : List Node) (index : Nat) :
    treatment surroundings rule children index = .ticked ↔
      sweepTreatment start (sweep surroundings flow.onward start children).passed index =
        .ticked := by
  cases sweeps with
  | memory => rfl
  | reactive =>
      unfold treatment reactiveTreatment sweepTreatment
      split <;> split <;> simp_all

theorem decision_of_sweep (surroundings : Surroundings) (children : List Node) :
    (decision surroundings rule children).status =
      (sweep surroundings flow.onward start children).verdict.getD flow.onward := by
  cases sweeps with
  | memory => rfl
  | reactive => exact reactive_status _ _ _

theorem decision_rule_of_sweep (surroundings : Surroundings) (children : List Node) :
    ∃ reached, (decision surroundings rule children).rule.Sweeps memory flow reached := by
  cases sweeps with
  | memory => exact ⟨_, .memory _ _⟩
  | reactive =>
      rw [decision, reactive_rule]
      exact ⟨_, .reactive _⟩

variable {children others : List Node}
  (passed : (sweep second flow.swap.onward start others).passed =
    (sweep first flow.onward start children).passed)

include passed

theorem treatment_mirrored :
    treatment second rule.swap others = treatment first rule children := by
  funext index
  cases sweeps with
  | memory => simp only [Rule.swap, treatment, passed]
  | reactive => simp only [Rule.swap, treatment, passed]

theorem decision_rule_mirrored :
    (decision second rule.swap others).rule = (decision first rule children).rule.swap := by
  cases sweeps with
  | memory => simp only [Rule.swap, decision, decideMemory, passed]
  | reactive => simp only [Rule.swap, decision, reactive_rule]

end Tick

/-- Children that are treated alike are running alike afterwards, if those that are ticked answer
that they are running alike. -/
theorem running_treated {first second : Surroundings} {treatment : Treatment} {child other : Node}
    (running : other.isRunning = child.isRunning)
    (ticked : treatment = .ticked → answer second other = (answer first child).swap) :
    (treated second treatment other).isRunning = (treated first treatment child).isRunning := by
  cases treatment with
  | rested => exact running
  | stopped => exact (stilled_is_running other).trans (stilled_is_running child).symm
  | ticked =>
      have swapped : (Node.tick second other).node.status =
        (Node.tick first child).node.status.swap := ticked rfl
      rw [Bool.eq_iff_iff, is_running_iff, is_running_iff, treated, treated, swapped]
      exact Status.swap_running_iff

theorem running_concluded {status : Status} {child other : Node}
    (running : other.isRunning = child.isRunning) :
    (concluded status.swap other).isRunning = (concluded status child).isRunning := by
  by_cases goes : status = .running
  · rw [concluded_of_running goes, concluded_of_running (Status.swap_running_iff.mpr goes)]
    exact running
  · rw [concluded_of_ended goes, concluded_of_ended (mt Status.swap_running_iff.mp goes)]
    exact (stilled_is_running other).trans (stilled_is_running child).symm

/-- Rows with the same children running have the same, one by one. -/
theorem running_at {children others : List Node}
    (running : others.map isRunning = children.map isRunning) (index : Nat) :
    others[index]?.map isRunning = children[index]?.map isRunning := by
  rw [← List.getElem?_map, ← List.getElem?_map, running]

theorem running_of_lookup {children others results ends : List Node}
    (running : others.map isRunning = children.map isRunning) {change altered : Nat → Node → Node}
    (left : ∀ index : Nat, results[index]? = children[index]?.map (change index))
    (right : ∀ index : Nat, ends[index]? = others[index]?.map (altered index))
    (each : ∀ (index : Nat) child other, children[index]? = some child →
      others[index]? = some other → other.isRunning = child.isRunning →
        (altered index other).isRunning = (change index child).isRunning) :
    ends.map isRunning = results.map isRunning := by
  apply List.ext_getElem?
  intro index
  have same := running_at running index
  rw [List.getElem?_map, List.getElem?_map, left, right, Option.map_map, Option.map_map]
  cases own : children[index]? with
  | none =>
      rw [own, Option.map_none, Option.map_eq_none_iff] at same
      rw [same]
      rfl
  | some child =>
      rw [own, Option.map_some, Option.map_eq_some_iff] at same
      obtain ⟨other, opposed, alike⟩ := same
      rw [opposed]
      exact congrArg some (each index child other own opposed alike)

/-- Decisions of two rows of opposite kinds: alike in what becomes of their children, and opposite
in their answers. -/
structure Contrary (first second : Surroundings) (rule : Rule) (children others : List Node) :
    Prop where
  treats : treatment second rule.swap others = treatment first rule children
  answers : (decision second rule.swap others).status = (decision first rule children).status.swap
  keeps : (decision second rule.swap others).rule = (decision first rule children).rule.swap
  running : (decision second rule.swap others).children.map isRunning =
    (decision first rule children).children.map isRunning

theorem contrary_of_answers {first second : Surroundings} {rule : Rule} {memory : Bool}
    {flow : Flow} {start : Nat} {children others : List Node}
    (sweeps : rule.Sweeps memory flow start)
    (running : others.map isRunning = children.map isRunning)
    (answers : ∀ (index : Nat) child other, children[index]? = some child →
      others[index]? = some other → treatment first rule children index = .ticked →
      treatment second rule.swap others index = .ticked →
      answer second other = (answer first child).swap) :
    Contrary first second rule children others := by
  have counter := sweeps.swap
  have length := length_of_same running
  obtain ⟨passed, verdict⟩ := @sweep_mirrored first second flow.onward start children others length
    fun index child other own opposed left right =>
      answers index child other own opposed
        ((ticked_iff_swept sweeps first children index).mpr left)
        ((ticked_iff_swept counter second others index).mpr (by rwa [Flow.onward_swap]))
  rw [← Flow.onward_swap] at passed verdict
  have treatments := treatment_mirrored sweeps passed
  refine ⟨treatments, ?_, decision_rule_mirrored sweeps passed, ?_⟩
  · rw [decision_of_sweep sweeps, decision_of_sweep counter, verdict, Flow.onward_swap]
    cases (sweep first flow.onward start children).verdict <;> rfl
  · refine running_of_lookup running (decision_children first rule children)
      (decision_children second rule.swap others) fun index child other own opposed alike => ?_
    rw [treatments]
    refine running_treated alike fun ticked => answers index child other own opposed ticked ?_
    rwa [treatments]

/-! Reactions. -/

/-- From which child a row goes on. -/
def index? : Node → Option Nat
  | .branch _ (.memory _ index) _ => some index
  | _ => none

/-- What a tick or a halt does to a branch: which children it ticks and which it halts, what the
branch answers, and from which child it will go on. -/
structure Reaction where
  ticked : List Nat
  halted : List Nat
  status : Status
  index? : Option Nat
  deriving DecidableEq, Repr

def Reaction.swap (reaction : Reaction) : Reaction :=
  { reaction with status := reaction.status.swap }

def reaction? (node : Node) (step : Move) : Option Reaction :=
  match step with
  | .tick surroundings => some
      { ticked := (turn surroundings node).answers.map (·.1)
        halted := haltedByTick surroundings node
        status := (node.move step).status
        index? := (node.move step).index? }
  | .halt => some
      { ticked := []
        halted := haltedByHalt node
        status := (node.move step).status
        index? := (node.move step).index? }
  | _ => none

/-- The reactions of a branch to the ticks and halts of a run. -/
def reactions (node : Node) : List Move → List Reaction
  | [] => []
  | step :: later => (reaction? node step).toList ++ reactions (node.move step) later

variable {memory : Bool} {flow : Flow}

theorem Mirrored.index {left right : Node} (mirrored : Mirrored memory flow left right) :
    right.index? = left.index? := by
  obtain ⟨sweeps, _, _⟩ := mirrored
  cases sweeps <;> rfl

theorem Contrary.places {first second : Surroundings} {rule : Rule} {children others : List Node}
    (contrary : Contrary first second rule children others)
    (running : others.map isRunning = children.map isRunning) :
    (answersBelow second (Node.treatment second rule.swap others) 0 others).map (·.1) =
      (answersBelow first (Node.treatment first rule children) 0 children).map (·.1) := by
  rw [places_below, places_below, contrary.treats, length_of_same running]

theorem Mirrored.tick {left right : Node} (mirrored : Mirrored memory flow left right)
    {first second : Surroundings} (opposite : (turn first left).Opposite (turn second right)) :
    reaction? right (.tick second) = (reaction? left (.tick first)).map Reaction.swap ∧
      Mirrored memory flow (left.move (.tick first)) (right.move (.tick second)) := by
  obtain @⟨here, there, rule, _, children, others, sweeps, begun, running⟩ := mirrored
  have entry := Rule.at_entry_swap begun rule
  obtain ⟨start, entered⟩ := sweeps.at_entry here.status
  rw [turn_branch, turn_branch, entry] at opposite
  have contrary := contrary_of_answers entered running
    fun index child other own opposed left right =>
      opposite _ (mem_answers_below own left) _ (mem_answers_below opposed right) rfl
  have after : Mirrored memory flow ((Node.branch here rule children).move (.tick first))
      ((Node.branch there rule.swap others).move (.tick second)) := by
    obtain ⟨reached, ruled⟩ := decision_rule_of_sweep entered first children
    obtain ⟨_, ruled⟩ := ruled.concluded
      (decision first (rule.atEntry here.status) children).status
    rw [move, move, tick_branch, tick_branch, entry, conclude_node, conclude_node, contrary.answers,
      contrary.keeps, Rule.concluded_rule_swap]
    refine .rows ruled ?_ ?_
    · rw [concludedState, concludedState, contrary.answers]
      exact Status.swap_running_iff
    · exact running_of_lookup contrary.running (fun index => List.getElem?_map)
        (fun index => List.getElem?_map) fun _ _ _ _ _ alike => running_concluded alike
  refine ⟨?_, after⟩
  have ticked := contrary.places running
  have halted : haltedByTick second (.branch there rule.swap others) =
      haltedByTick first (.branch here rule children) := by
    rw [haltedByTick, haltedByTick, entry, contrary.treats, contrary.answers,
      running_places_congr running, running_places_congr contrary.running]
    simp only [Status.swap_running_iff]
  have status : ((Node.branch there rule.swap others).move (.tick second)).status =
      ((Node.branch here rule children).move (.tick first)).status.swap := by
    rw [move, move, tick_branch, tick_branch, entry, conclude_status, conclude_status,
      contrary.answers]
  rw [reaction?, reaction?, Option.map_some, Reaction.swap, turn_branch, turn_branch, entry, ticked,
    halted, status, after.index]

theorem Mirrored.halt {left right : Node} (mirrored : Mirrored memory flow left right) :
    reaction? right .halt = (reaction? left .halt).map Reaction.swap ∧
      Mirrored memory flow (left.move .halt) (right.move .halt) := by
  obtain @⟨here, there, rule, _, children, others, sweeps, begun, running⟩ := mirrored
  have after : Mirrored memory flow ((Node.branch here rule children).move .halt)
      ((Node.branch there rule.swap others).move .halt) := by
    obtain ⟨_, ruled⟩ := sweeps.halted here.status
    rw [move, move, halt_branch, halt_branch, Rule.halted_rule_swap begun]
    refine .rows ruled Iff.rfl ?_
    exact running_of_lookup running (fun index => List.getElem?_map)
      (fun index => List.getElem?_map) fun _ child other _ _ _ =>
        (halt_is_running other).trans (halt_is_running child).symm
  refine ⟨?_, after⟩
  have halted : haltedByHalt (.branch there rule.swap others) =
      haltedByHalt (.branch here rule children) := by
    have own : (Node.branch there rule.swap others).isRunning =
        (Node.branch here rule children).isRunning := by
      rw [Bool.eq_iff_iff, is_running_iff, is_running_iff]
      exact begun
    rw [haltedByHalt, haltedByHalt, own]
    dsimp only [Node.children]
    rw [length_of_same running, running_places_congr running]
  have status : ((Node.branch there rule.swap others).move .halt).status =
      ((Node.branch here rule children).move .halt).status.swap := by
    rw [move, move, halt_status, halt_status]
    rfl
  rw [reaction?, reaction?, Option.map_some, Reaction.swap, halted, status, after.index]

theorem Mirrored.aside {left right after counter : Node}
    (mirrored : Mirrored memory flow left right)
    (same : after.skeleton = left.skeleton) (equal : counter.skeleton = right.skeleton) :
    Mirrored memory flow after counter := by
  obtain @⟨here, there, rule, _, children, others, sweeps, begun, running⟩ := mirrored
  obtain ⟨now, rows, rfl, shown, statuses⟩ := branch_of_skeleton same
  obtain ⟨next, columns, rfl, seen, equals⟩ := branch_of_skeleton equal
  refine .rows sweeps (by rw [seen, shown, begun]) ?_
  have flags := congrArg (List.map (· == .running)) statuses
  have signs := congrArg (List.map (· == .running)) equals
  rw [List.map_map, List.map_map] at flags signs
  exact (signs.trans running).trans flags.symm

/-! Runs. -/

/-- Runs of two rows that are ticked and halted together, where the children that are ticked in
both give opposite answers every time. In between anything else may happen to either of them. -/
inductive Opposed : Node → Node → List Move → List Move → Prop where
  | start (left right : Node) : Opposed left right [] []
  | tick {left right : Node} {moves counter : List Move} (first second : Surroundings)
      (opposite : (turn first left).Opposite (turn second right))
      (later : Opposed (left.move (.tick first)) (right.move (.tick second)) moves counter) :
      Opposed left right (.tick first :: moves) (.tick second :: counter)
  | halt {left right : Node} {moves counter : List Move}
      (later : Opposed (left.move .halt) (right.move .halt) moves counter) :
      Opposed left right (.halt :: moves) (.halt :: counter)
  | left {left right : Node} {moves counter : List Move} (step : Move) (noHalt : step ≠ .halt)
      (noTick : ∀ surroundings, step ≠ .tick surroundings)
      (later : Opposed (left.move step) right moves counter) :
      Opposed left right (step :: moves) counter
  | right {left right : Node} {moves counter : List Move} (step : Move) (noHalt : step ≠ .halt)
      (noTick : ∀ surroundings, step ≠ .tick surroundings)
      (later : Opposed left (right.move step) moves counter) :
      Opposed left right moves (step :: counter)

theorem reactions_aside (node : Node) {step : Move} (noHalt : step ≠ .halt)
    (noTick : ∀ surroundings, step ≠ .tick surroundings) (later : List Move) :
    reactions node (step :: later) = reactions (node.move step) later := by
  cases step with
  | tick surroundings => exact absurd rfl (noTick surroundings)
  | halt => exact absurd rfl noHalt
  | acknowledge | setup | shutdown | outside => rfl

theorem Opposed.mirrored {left right : Node} {moves counter : List Move}
    (opposed : Opposed left right moves counter) (mirrored : Mirrored memory flow left right) :
    reactions right counter = (reactions left moves).map Reaction.swap ∧
      Mirrored memory flow (left.after moves) (right.after counter) := by
  induction opposed with
  | start left right => exact ⟨rfl, mirrored⟩
  | tick first second opposite _ ih =>
      obtain ⟨same, next⟩ := mirrored.tick opposite
      obtain ⟨later, final⟩ := ih next
      refine ⟨?_, final⟩
      rw [reactions, reactions, List.map_append, later, same]
      rfl
  | halt _ ih =>
      obtain ⟨same, next⟩ := mirrored.halt
      obtain ⟨later, final⟩ := ih next
      refine ⟨?_, final⟩
      rw [reactions, reactions, List.map_append, later, same]
      rfl
  | left step noHalt noTick _ ih =>
      rw [reactions_aside _ noHalt noTick]
      exact ih (mirrored.aside (move_skeleton _ step noHalt noTick) rfl)
  | right step noHalt noTick _ ih =>
      rw [reactions_aside _ noHalt noTick]
      exact ih (mirrored.aside rfl (move_skeleton _ step noHalt noTick))

/-- A sequence and a selector that are ticked and halted together, and whose children give opposite
answers whenever both tick them, tick and halt the same children in the same order, give opposite
answers, and go on from the same child; be they both without memory or both with it. -/
theorem selector_mirrors_sequence {first second : NodeState} {memory : Bool}
    {children others : List Node} {moves counter : List Move}
    (begun : second.status = .running ↔ first.status = .running)
    (running : others.map isRunning = children.map isRunning)
    (opposed : Opposed (.row first .sequence memory children) (.row second .selector memory others)
      moves counter) :
    reactions (.row second .selector memory others) counter =
        (reactions (.row first .sequence memory children) moves).map Reaction.swap ∧
      ∃ here there index rows columns,
        (Node.row first .sequence memory children).after moves =
          .branch here (if memory then .memory .sequence index else .reactive .sequence) rows ∧
        (Node.row second .selector memory others).after counter =
          .branch there (if memory then .memory .selector index else .reactive .selector) columns ∧
        columns.map isRunning = rows.map isRunning := by
  have mirrored : Mirrored memory .sequence (.row first .sequence memory children)
      (.row second .selector memory others) := by
    cases memory with
    | false => exact .rows (.reactive .sequence) begun running
    | true => exact .rows (.memory .sequence 0) begun running
  obtain ⟨same, final⟩ := opposed.mirrored mirrored
  refine ⟨same, ?_⟩
  generalize (Node.row first .sequence memory children).after moves = left at final ⊢
  generalize (Node.row second .selector memory others).after counter = right at final ⊢
  obtain @⟨here, there, rule, index, rows, columns, sweeps, _, alike⟩ := final
  refine ⟨here, there, index, rows, columns, ?_, ?_, alike⟩
  · cases sweeps <;> rfl
  · cases sweeps <;> rfl

/-- A sequence whose second child takes a tick and then fails. -/
def failing : Node :=
  .row { name := "failing" } .sequence true
    [.leaf { name := "ready" } (.condition (.signal true)),
      .leaf { name := "load" } (.scripted .action [.running, .failure] none),
      .leaf { name := "leave" } (.condition (.signal true))]

/-- The selector to match. -/
def arriving : Node :=
  .row { name := "arriving" } .selector true
    [.leaf { name := "there" } (.condition (.signal false)),
      .leaf { name := "drive" } (.scripted .action [.running, .success] none),
      .leaf { name := "call" } (.condition (.signal false))]

theorem arriving_mirrors_failing :
    Opposed failing arriving [.tick ⟨0, {}⟩, .tick ⟨1, {}⟩, .halt]
      [.tick ⟨0, {}⟩, .setup, .tick ⟨1, {}⟩, .halt] ∧
    reactions failing [.tick ⟨0, {}⟩, .tick ⟨1, {}⟩, .halt] =
      [⟨[0, 1], [], .running, some 1⟩, ⟨[1], [], .failure, some 0⟩,
        ⟨[], [0, 1, 2], .invalid, some 0⟩] ∧
    reactions arriving [.tick ⟨0, {}⟩, .setup, .tick ⟨1, {}⟩, .halt] =
      [⟨[0, 1], [], .running, some 1⟩, ⟨[1], [], .success, some 0⟩,
        ⟨[], [0, 1, 2], .invalid, some 0⟩] := by
  have opposed : Opposed failing arriving [.tick ⟨0, {}⟩, .tick ⟨1, {}⟩, .halt]
      [.tick ⟨0, {}⟩, .setup, .tick ⟨1, {}⟩, .halt] := by
    refine .tick _ _ (by decide) ?_
    refine .right .setup (by simp) (by simp) ?_
    refine .tick _ _ (by decide) ?_
    exact .halt (.start _ _)
  have known : reactions failing [.tick ⟨0, {}⟩, .tick ⟨1, {}⟩, .halt] =
      [⟨[0, 1], [], .running, some 1⟩, ⟨[1], [], .failure, some 0⟩,
        ⟨[], [0, 1, 2], .invalid, some 0⟩] := by decide
  refine ⟨opposed, known, ?_⟩
  have mirrors := @selector_mirrors_sequence { name := "failing" } { name := "arriving" } true
    _ _ _ _ (by decide) (by decide) opposed
  exact mirrors.1.trans (congrArg (List.map Reaction.swap) known)

end Node

end BehaviorTree
