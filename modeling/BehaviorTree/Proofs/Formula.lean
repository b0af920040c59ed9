import BehaviorTree.Proofs.Counterpart

/-!
Trees that answer at once. A plan without actions stands for a formula over its conditions and
acknowledgements. Its tree remembers nothing that a tick could tell: from whatever state a tick
begins, it answers by the formula and visits what a walk through the plan visits.
-/

namespace BehaviorTree

/-- Who acknowledged which name, the oldest first. -/
abbrev Consents := List (String × String)

namespace NodePlan

/-- Somebody who is permitted to do so acknowledged that name. -/
def isAcknowledged (consents : Consents) (label : Label) (permitted : List String) : Bool :=
  consents.any fun (name, identity) => name == label.name && permitted.contains identity

section Reading

variable (store : Store) (consents : Consents)

mutual

/-- The formula of a plan. Actions have no place in it. -/
def formula : NodePlan → Bool
  | .condition plan =>
      match store.read plan.check.pv with
      | .ok actual => plan.check.operator.holds actual plan.check.value
      | .error _ => false
  | .acknowledge label permitted => isAcknowledged consents label permitted
  | .row _ .sequence _ children => formulaOfAll children
  | .row _ .selector _ children => formulaOfAny children
  | .parallel _ _ _ children => formulaOfAll children
  | .action _ | .checkAndDo _ _ _ => false

def formulaOfAll : List NodePlan → Bool
  | [] => true
  | child :: rest => formula child && formulaOfAll rest

def formulaOfAny : List NodePlan → Bool
  | [] => false
  | child :: rest => formula child || formulaOfAny rest

end

def verdict (plan : NodePlan) : Status := .ofBool (plan.formula store consents)

mutual

/-- The visits of a walk that looks at nothing but the plan. A row leaves out what comes after the
child that decides. -/
def walk : NodePlan → List Visit
  | .row label flow memory children =>
      walkRow flow children ++
        [⟨label.name, verdict store consents (.row label flow memory children)⟩]
  | .parallel label policy synchronise children =>
      walkAll children ++
        [⟨label.name, verdict store consents (.parallel label policy synchronise children)⟩]
  | .condition plan => [⟨plan.label.name, verdict store consents (.condition plan)⟩]
  | .acknowledge label permitted =>
      [⟨label.name, verdict store consents (.acknowledge label permitted)⟩]
  | .action _ | .checkAndDo _ _ _ => []

def walkRow (flow : Flow) : List NodePlan → List Visit
  | [] => []
  | child :: rest =>
      if verdict store consents child = flow.onward then walk child ++ walkRow flow rest
      else walk child

def walkAll : List NodePlan → List Visit
  | [] => []
  | child :: rest => walk child ++ walkAll rest

end

end Reading

mutual

/-- The plan with every row reactive. -/
def withoutMemory : NodePlan → NodePlan
  | .row label flow _ children => .row label flow false (allWithoutMemory children)
  | .parallel label policy synchronise children =>
      .parallel label policy synchronise (allWithoutMemory children)
  | .condition plan => .condition plan
  | .acknowledge label permitted => .acknowledge label permitted
  | .action plan => .action plan
  | .checkAndDo label check act => .checkAndDo label check act

def allWithoutMemory : List NodePlan → List NodePlan
  | [] => []
  | child :: rest => withoutMemory child :: allWithoutMemory rest

end

/-- Nothing in the plan takes its time. -/
def IsPrompt (plan : NodePlan) : Prop :=
  ∀ part ∈ plan.parts, part.kind ≠ .action ∧ part.kind ≠ .checkAndDo

instance (plan : NodePlan) : Decidable plan.IsPrompt :=
  inferInstanceAs (Decidable (∀ part ∈ plan.parts, _))

/-! What the memory flags have no part in. -/

theorem all_without_memory_eq (children : List NodePlan) :
    allWithoutMemory children = children.map withoutMemory := by
  induction children with
  | nil => rfl
  | cons child rest ih => rw [allWithoutMemory, ih, List.map_cons]

section Reading

variable (store : Store) (consents : Consents)

theorem formula_of_all_eq (children : List NodePlan) :
    formulaOfAll store consents children = children.all (formula store consents) := by
  induction children with
  | nil => rfl
  | cons child rest ih => rw [formulaOfAll, ih, List.all_cons]

/-- Plans that cannot be told apart by their formula or their walk. -/
structure SameReading (first second : NodePlan) : Prop where
  formula : first.formula store consents = second.formula store consents
  walk : first.walk store consents = second.walk store consents

theorem same_below {children others : List NodePlan}
    (same : List.Forall₂ (SameReading store consents) children others) :
    formulaOfAll store consents children = formulaOfAll store consents others ∧
      formulaOfAny store consents children = formulaOfAny store consents others ∧
      walkAll store consents children = walkAll store consents others ∧
      ∀ flow, walkRow store consents flow children = walkRow store consents flow others := by
  induction same with
  | nil => exact ⟨rfl, rfl, rfl, fun _ => rfl⟩
  | cons own _ ih =>
      obtain ⟨every, any, all, row⟩ := ih
      refine ⟨?_, ?_, ?_, fun flow => ?_⟩
      · rw [formulaOfAll, formulaOfAll, own.formula, every]
      · rw [formulaOfAny, formulaOfAny, own.formula, any]
      · rw [walkAll, walkAll, own.walk, all]
      · rw [walkRow, walkRow, verdict, verdict, own.formula, own.walk, row]

theorem without_memory_reads (plan : NodePlan) :
    SameReading store consents plan.withoutMemory plan := by
  induction plan using induct with
  | step plan ih =>
      have below : List.Forall₂ (SameReading store consents)
          (plan.children.map withoutMemory) plan.children :=
        List.forall₂_map_left_iff.mpr (List.forall₂_same.mpr ih)
      obtain ⟨every, any, all, row⟩ := same_below store consents below
      cases plan with
      | condition | acknowledge | action | checkAndDo => exact ⟨rfl, rfl⟩
      | row label flow memory children =>
          have formula : (withoutMemory (.row label flow memory children)).formula store consents =
              formula store consents (.row label flow memory children) := by
            rw [withoutMemory, all_without_memory_eq]
            cases flow
            · exact every
            · exact any
          refine ⟨formula, ?_⟩
          rw [withoutMemory, all_without_memory_eq] at formula ⊢
          rw [walk, walk, verdict, verdict, formula]
          exact congrArg (· ++ _) (row flow)
      | parallel label policy synchronise children =>
          have formula : (withoutMemory (.parallel label policy synchronise children)).formula store
              consents = formula store consents (.parallel label policy synchronise children) := by
            rw [withoutMemory, all_without_memory_eq]
            exact every
          refine ⟨formula, ?_⟩
          rw [withoutMemory, all_without_memory_eq] at formula ⊢
          rw [walk, walk, verdict, verdict, formula]
          exact congrArg (· ++ _) all

/-- Plans that differ in their memory flags at most read alike. -/
theorem reads_alike {plan other : NodePlan} (same : other.withoutMemory = plan.withoutMemory) :
    SameReading store consents other plan := by
  have first := without_memory_reads store consents plan
  have second := without_memory_reads store consents other
  rw [same] at second
  exact ⟨second.formula.symm.trans first.formula, second.walk.symm.trans first.walk⟩

end Reading

theorem parts_without_memory (plan : NodePlan) :
    plan.withoutMemory.parts = plan.parts.map withoutMemory := by
  induction plan using induct with
  | step plan ih =>
      have children : plan.withoutMemory.children = plan.children.map withoutMemory := by
        cases plan with
        | condition | acknowledge | action | checkAndDo => rfl
        | row | parallel =>
            rw [withoutMemory, all_without_memory_eq]
            rfl
      rw [parts_eq, parts_eq, children, List.map_cons, List.flatMap_map, List.map_flatMap]
      congr 1
      exact List.flatMap_congr ih

theorem name_without_memory (plan : NodePlan) : plan.withoutMemory.name = plan.name := by
  cases plan <;> rfl

theorem kind_without_memory (plan : NodePlan) : plan.withoutMemory.kind = plan.kind := by
  cases plan <;> rfl

theorem is_whole_without_memory (plan : NodePlan) : plan.withoutMemory.IsWhole ↔ plan.IsWhole := by
  cases plan with
  | condition | acknowledge | action | checkAndDo => exact Iff.rfl
  | row label flow memory children | parallel label policy synchronise children =>
      rw [withoutMemory, all_without_memory_eq, IsWhole, IsWhole, ne_eq, List.map_eq_nil_iff]

theorem sound_without_memory (plan : NodePlan) : plan.withoutMemory.Sound ↔ plan.Sound := by
  rw [sound_iff, sound_iff, parts_without_memory, List.map_map, List.forall_mem_map]
  have names : name ∘ withoutMemory = name := funext name_without_memory
  simp only [names, name_without_memory, is_whole_without_memory]

theorem is_prompt_without_memory (plan : NodePlan) :
    plan.withoutMemory.IsPrompt ↔ plan.IsPrompt := by
  rw [IsPrompt, IsPrompt, parts_without_memory, List.forall_mem_map]
  simp only [kind_without_memory]

section

variable {plan other : NodePlan} (same : other.withoutMemory = plan.withoutMemory)

include same

theorem Sound.reflagged (sound : plan.Sound) : other.Sound := by
  rwa [← sound_without_memory, same, sound_without_memory]

theorem IsPrompt.reflagged (prompt : plan.IsPrompt) : other.IsPrompt := by
  rwa [← is_prompt_without_memory, same, is_prompt_without_memory]

end

/-! The tree of such a plan. -/

open Node

/-- A tree of the plan in which nothing runs. What its rows remember is of no account. -/
inductive Rests (consents : Consents) : NodePlan → Node → Prop
  | condition {plan : ConditionPlan} {state : NodeState} (name : state.name = plan.label.name)
      (rests : state.status ≠ .running) :
      Rests consents (.condition plan) (.leaf state (.condition (.reading plan.check)))
  | acknowledge {label : Label} {permitted : List String} {state : NodeState}
      {acknowledgedBy : Option String}
      (name : state.name = label.name) (rests : state.status ≠ .running)
      (known : acknowledgedBy.isSome = isAcknowledged consents label permitted) :
      Rests consents (.acknowledge label permitted)
        (.leaf state (.acknowledge permitted acknowledgedBy))
  | row {label : Label} {flow : Flow} {memory : Bool} {children : List NodePlan}
      {state : NodeState} {rule : Rule} {nodes : List Node} (name : state.name = label.name)
      (rests : state.status ≠ .running)
      (ruled : rule = .reactive flow ∨ ∃ index, rule = .memory flow index)
      (below : List.Forall₂ (Rests consents) children nodes) :
      Rests consents (.row label flow memory children) (.branch state rule nodes)
  | parallel {label : Label} {policy : ParallelPolicy} {synchronise : Bool}
      {children : List NodePlan} {state : NodeState} {settled : List Bool} {nodes : List Node}
      (name : state.name = label.name) (rests : state.status ≠ .running) (filled : children ≠ [])
      (width : settled.length = nodes.length)
      (below : List.Forall₂ (Rests consents) children nodes) :
      Rests consents (.parallel label policy synchronise children)
        (.branch state (.parallel policy synchronise settled) nodes)

section Resting

variable {consents : Consents} {plan : NodePlan} {node : Node} {children : List NodePlan}
  {nodes : List Node}

theorem Rests.status_ne (rests : Rests consents plan node) : node.status ≠ .running := by
  cases rests <;> assumption

theorem Rests.name_eq (rests : Rests consents plan node) : node.name = plan.name := by
  cases rests <;> assumption

theorem Rests.children_rest (rests : Rests consents plan node) :
    List.Forall₂ (Rests consents) plan.children node.children := by
  cases rests with
  | condition | acknowledge => exact .nil
  | row _ _ _ below | parallel _ _ _ _ below => exact below

theorem resting_of_below (below : List.Forall₂ (Rests consents) children nodes) :
    ∀ node ∈ nodes, node.status ≠ .running := by
  induction below with
  | nil => simp
  | cons own _ ih => exact List.forall_mem_cons.mpr ⟨own.status_ne, ih⟩

theorem partner_of_mem (below : List.Forall₂ (Rests consents) children nodes)
    (inside : node ∈ nodes) :
    ∃ part, Rests consents part node := by
  induction below with
  | nil => cases inside
  | cons own _ ih =>
      rcases List.mem_cons.mp inside with rfl | later
      · exact ⟨_, own⟩
      · exact ih later

/-- Nothing runs anywhere in such a tree. -/
theorem Rests.at_status_ne (rests : Rests consents plan node) {path : Path} {sub : Node}
    (found : node.at? path = some sub) : sub.status ≠ .running := by
  induction path generalizing plan node with
  | nil =>
      cases found
      exact rests.status_ne
  | cons index path ih =>
      rw [Node.at_cons, Option.bind_eq_some_iff] at found
      obtain ⟨child, own, below⟩ := found
      obtain ⟨part, inner⟩ := partner_of_mem rests.children_rest (List.mem_of_getElem? own)
      exact ih inner below

theorem halt_running_of_resting (resting : ∀ node ∈ nodes, node.status ≠ .running) :
    haltRunning nodes = (nodes, []) := by
  induction nodes with
  | nil => rfl
  | cons node rest ih =>
      obtain ⟨own, others⟩ := List.forall_mem_cons.mp resting
      rw [haltRunning, ih others]
      exact if_neg (mt (is_running_iff node).mp own)

/-- A row in which nothing runs has nobody to stop. -/
theorem decide_reactive_of_resting (rule : Rule) (flow : Flow) {swept : Swept}
    (resting : ∀ node ∈ swept.children, node.status ≠ .running) :
    (decideReactive rule flow swept).children = swept.children ∧
      (decideReactive rule flow swept).journal.visits = swept.journal.visits := by
  rw [decideReactive]
  split
  · exact ⟨rfl, rfl⟩
  · rw [halt_running_of_resting fun node inside => resting node (List.mem_of_mem_drop inside)]
    exact ⟨List.take_append_drop _ _, List.append_nil _⟩

theorem conclude_of_resting (state : NodeState) {decided : Decided}
    (ended : decided.status ≠ .running)
    (resting : ∀ node ∈ decided.children, node.status ≠ .running) :
    (conclude state decided).node =
        .branch (concludedState state decided) decided.rule.terminate decided.children ∧
      (conclude state decided).journal.visits =
        decided.journal.visits ++ [⟨state.name, decided.status⟩] := by
  rw [conclude, if_neg ended, halt_running_of_resting resting]
  refine ⟨rfl, ?_⟩
  show decided.journal.visits ++ [] ++ _ = _
  rw [List.append_nil]

end Resting

/-! A tick answers by the formula. -/

section Ticking

variable (surroundings : Surroundings) (consents : Consents)

structure Answers (plan : NodePlan) (node : Node) : Prop where
  status : answer surroundings node = plan.verdict surroundings.store consents
  visits : (node.tick surroundings).journal.visits = plan.walk surroundings.store consents
  rests : Rests consents plan (node.tick surroundings).node

variable {surroundings consents} {children : List NodePlan} {nodes : List Node}

/-- The answer of a row. -/
def rowVerdict (store : Store) (consents : Consents) (flow : Flow) (children : List NodePlan) :
    Status :=
  match flow with
  | .sequence => .ofBool (formulaOfAll store consents children)
  | .selector => .ofBool (formulaOfAny store consents children)

theorem row_verdict_eq (store : Store) (label : Label) (flow : Flow) (memory : Bool) :
    rowVerdict store consents flow children =
      verdict store consents (.row label flow memory children) := by
  cases flow <;> rfl

/-- A child either lets its row go on or decides it. -/
theorem row_verdict_cons (store : Store) (flow : Flow) (child : NodePlan) :
    rowVerdict store consents flow (child :: children) =
      if child.verdict store consents = flow.onward then rowVerdict store consents flow children
      else child.verdict store consents := by
  cases flow <;> cases holds : child.formula store consents <;>
    simp [rowVerdict, formulaOfAll, formulaOfAny, verdict, Flow.onward, Status.ofBool, holds]

theorem sweep_answers (flow : Flow) (below : List.Forall₂ (Rests consents) children nodes)
    (each : List.Forall₂ (Answers surroundings consents) children nodes) :
    (sweep surroundings flow.onward 0 nodes).verdict.getD flow.onward =
        rowVerdict surroundings.store consents flow children ∧
      (sweep surroundings flow.onward 0 nodes).journal.visits =
        walkRow surroundings.store consents flow children ∧
      List.Forall₂ (Rests consents) children (sweep surroundings flow.onward 0 nodes).children := by
  induction each with
  | nil =>
      rw [sweep]
      cases flow <;> exact ⟨rfl, rfl, .nil⟩
  | @cons child node children nodes own _ ih =>
      obtain ⟨-, others⟩ := List.forall₂_cons.mp below
      obtain ⟨verdict, visits, rests⟩ := ih others
      have status : (node.tick surroundings).node.status = _ := own.status
      rw [sweep, row_verdict_cons, walkRow, status]
      split
      · refine ⟨verdict, ?_, .cons own.rests rests⟩
        exact congrArg₂ (· ++ ·) own.visits visits
      · exact ⟨rfl, own.visits, .cons own.rests others⟩

theorem gather_answers (synchronise : Bool)
    (each : List.Forall₂ (Answers surroundings consents) children nodes) :
    let gathered := gather surroundings synchronise (nodes.map fun _ => false) nodes
    gathered.answers = children.map (verdict surroundings.store consents) ∧
      gathered.journal.visits = walkAll surroundings.store consents children ∧
      List.Forall₂ (Rests consents) children gathered.children := by
  induction each with
  | nil => exact ⟨rfl, rfl, .nil⟩
  | cons own _ ih =>
      obtain ⟨answers, visits, rests⟩ := ih
      rw [List.map_cons, gather, Bool.and_false, if_neg Bool.false_ne_true]
      refine ⟨?_, ?_, .cons own.rests rests⟩
      · rw [List.map_cons, ← own.status]
        exact congrArg _ answers
      · exact congrArg₂ (· ++ ·) own.visits visits

/-- Without an unfinished child both policies come to the same. -/
theorem parallel_verdict_eq (store : Store) (policy : ParallelPolicy) (filled : children ≠ []) :
    parallelVerdict policy (children.map (verdict store consents)) =
      .ofBool (formulaOfAll store consents children) := by
  rw [formula_of_all_eq]
  unfold parallelVerdict
  cases every : children.all (formula store consents) with
  | false =>
      obtain ⟨child, inside, fails⟩ := List.all_eq_false.mp every
      have failed : Status.failure ∈ children.map (verdict store consents) := by
        refine List.mem_map.mpr ⟨child, inside, ?_⟩
        rw [verdict, Bool.eq_false_iff.mpr fails]
        rfl
      rw [if_pos (List.contains_iff_mem.mpr failed)]
      rfl
  | true =>
      have succeeded : ∀ status ∈ children.map (verdict store consents), status = .success := by
        intro status inside
        obtain ⟨child, member, rfl⟩ := List.mem_map.mp inside
        rw [verdict, List.all_eq_true.mp every child member]
        rfl
      have none : Status.failure ∉ children.map (verdict store consents) :=
        fun inside => nomatch succeeded _ inside
      obtain ⟨child, inside⟩ := List.exists_mem_of_ne_nil children filled
      have some := List.mem_map_of_mem (f := verdict store consents) inside
      rw [succeeded _ some] at some
      rw [if_neg (mt List.contains_iff_mem.mp none)]
      cases policy with
      | successOnAll =>
          refine if_pos (List.all_eq_true.mpr fun status member => ?_)
          rw [succeeded status member]
          rfl
      | successOnOne => exact if_pos (List.contains_iff_mem.mpr some)

theorem verdict_ne_running (store : Store) (plan : NodePlan) :
    plan.verdict store consents ≠ .running := by
  rw [verdict]
  cases plan.formula store consents <;> decide

/-- A leaf that has nothing to begin. -/
theorem leaf_answers {plan : NodePlan} {state : NodeState} {content : Leaf}
    (name : state.name = plan.name) (begun : content.initialise = content)
    (updated : content.update surroundings = (plan.verdict surroundings.store consents, content))
    (walked : plan.walk surroundings.store consents =
      [⟨plan.name, plan.verdict surroundings.store consents⟩])
    (rests : ∀ after : NodeState, after.name = plan.name → after.status ≠ .running →
      Rests consents plan (.leaf after content)) :
    Answers surroundings consents plan (.leaf state content) := by
  have ticked : (tickLeaf surroundings state content).node.status =
        plan.verdict surroundings.store consents ∧
      (tickLeaf surroundings state content).journal.visits =
        [⟨state.name, plan.verdict surroundings.store consents⟩] ∧
      Rests consents plan (tickLeaf surroundings state content).node := by
    simp only [tickLeaf, begun, ite_self, updated]
    exact ⟨rfl, trivial, rests _ name (verdict_ne_running _ _)⟩
  obtain ⟨status, visits, after⟩ := ticked
  exact ⟨status, by rw [walked, ← name]; exact visits, after⟩

/-- A branch whose children do not run once its rule has decided. -/
theorem branch_answers {plan : NodePlan} {state : NodeState} {rule : Rule}
    (name : state.name = plan.name)
    (status : (decision surroundings (rule.atEntry state.status) nodes).status =
      plan.verdict surroundings.store consents)
    (visits : plan.walk surroundings.store consents =
      (decision surroundings (rule.atEntry state.status) nodes).journal.visits ++
        [⟨plan.name, plan.verdict surroundings.store consents⟩])
    (resting : ∀ node ∈ (decision surroundings (rule.atEntry state.status) nodes).children,
      node.status ≠ .running)
    (rests : ∀ after : NodeState, after.name = plan.name → after.status ≠ .running →
      Rests consents plan
        (.branch after (decision surroundings (rule.atEntry state.status) nodes).rule.terminate
          (decision surroundings (rule.atEntry state.status) nodes).children)) :
    Answers surroundings consents plan (.branch state rule nodes) := by
  have ended : plan.verdict surroundings.store consents ≠ .running := verdict_ne_running _ plan
  have concluded := conclude_of_resting state (status ▸ ended) resting
  refine ⟨(answer_branch surroundings state rule nodes).trans status, ?_, ?_⟩
  · rw [tick_branch, concluded.2, visits, status, name]
  · rw [tick_branch, concluded.1]
    exact rests _ name fun running => ended (status.symm.trans running)

/-- From whatever such a tree remembers, a tick answers by the formula and visits what the walk
visits. -/
theorem Rests.answers {plan : NodePlan} {node : Node} (rests : Rests consents plan node) :
    Answers surroundings consents plan node := by
  induction plan using induct generalizing node with
  | step plan ih =>
      have each : ∀ nodes, List.Forall₂ (Rests consents) plan.children nodes →
          List.Forall₂ (Answers surroundings consents) plan.children nodes := by
        intro nodes below
        generalize plan.children = children at ih below
        induction below with
        | nil => exact .nil
        | cons own _ later =>
            obtain ⟨first, others⟩ := List.forall_mem_cons.mp ih
            exact .cons (first own) (later others)
      cases rests with
      | @condition plan state name _ =>
          have holds : plan.check.holds surroundings.store =
              formula surroundings.store consents (.condition plan) := by
            rw [Check.holds, Check.read, formula]
            cases surroundings.store.read plan.check.pv <;> rfl
          apply leaf_answers name rfl ?_ rfl fun _ => .condition
          rw [Leaf.update, holds]
          rfl
      | acknowledge name _ known =>
          apply leaf_answers name rfl ?_ rfl fun _ called ended => .acknowledge called ended known
          rw [Leaf.update, known]
          rfl
      | @row label flow memory children state rule nodes name rests ruled below =>
          obtain ⟨status, visits, after⟩ := sweep_answers flow below (each nodes below)
          rw [row_verdict_eq surroundings.store label flow memory] at status
          have entered : rule.atEntry state.status = rule.initialise := if_neg rests
          have walked : walk surroundings.store consents (.row label flow memory children) =
              (sweep surroundings flow.onward 0 nodes).journal.visits ++
                [⟨label.name, verdict surroundings.store consents
                  (.row label flow memory children)⟩] := by
            rw [visits]
            rfl
          rcases ruled with rfl | ⟨index, rfl⟩
          · obtain ⟨kept, journal⟩ := decide_reactive_of_resting (.reactive flow) flow
              (resting_of_below after)
            apply branch_answers name
            all_goals rw [entered]
            · exact (reactive_status _ flow _).trans status
            · rw [walked]
              exact congrArg (· ++ _) journal.symm
            · exact kept ▸ resting_of_below after
            · intro next called ended
              refine .row called ended (.inl ?_) (kept ▸ after)
              exact congrArg Rule.terminate (reactive_rule (.reactive flow) flow _)
          · apply branch_answers name
            all_goals rw [entered]
            · exact status
            · exact walked
            · exact resting_of_below after
            · exact fun next called ended => .row called ended (.inr ⟨0, rfl⟩) after
      | @parallel label policy synchronise children state settled nodes name rests filled width
          below =>
          have entered : Rule.atEntry state.status (.parallel policy synchronise settled) =
              .parallel policy synchronise (nodes.map fun _ => false) := by
            refine (if_neg rests).trans ?_
            rw [Rule.initialise, List.map_const', List.map_const', width]
          obtain ⟨answers, visits, after⟩ := gather_answers synchronise (each nodes below)
          apply branch_answers name
          all_goals rw [entered]
          · refine (congrArg (parallelVerdict policy) answers).trans ?_
            exact parallel_verdict_eq surroundings.store policy filled
          · exact congrArg (· ++ [_]) visits.symm
          · exact resting_of_below after
          · intro next called ended
            refine .parallel called ended filled ?_ after
            rw [List.length_map, answers, List.length_map]
            exact after.length_eq

end Ticking

/-! What else may happen to the tree. -/

section Handling

variable {consents : Consents} {plan : NodePlan} {node : Node} {children : List NodePlan}
  {nodes : List Node}

theorem rests_map {later : Consents} {change : Node → Node}
    (each : ∀ part ∈ children, ∀ node, Rests consents part node → Rests later part (change node))
    (below : List.Forall₂ (Rests consents) children nodes) :
    List.Forall₂ (Rests later) children (nodes.map change) := by
  induction below with
  | nil => exact .nil
  | cons own _ ih =>
      obtain ⟨first, others⟩ := List.forall_mem_cons.mp each
      exact .cons (first _ own) (ih others)

theorem Rests.halt (rests : Rests consents plan node) : Rests consents plan node.halt.node := by
  induction plan using induct generalizing node with
  | step plan ih =>
      have each : ∀ part ∈ plan.children, ∀ node, Rests consents part node →
          Rests consents part node.halt.node := fun part member node => ih part member
      have invalid : Status.invalid ≠ .running := by decide
      cases rests with
      | condition name => exact .condition name invalid
      | acknowledge name _ known => exact .acknowledge name invalid known
      | row name rests ruled below =>
          rw [halt_branch, haltedRule, if_neg rests]
          exact .row name invalid ruled (rests_map each below)
      | parallel name rests filled width below =>
          rw [halt_branch, haltedRule, if_neg rests]
          refine .parallel name invalid filled ?_ (rests_map each below)
          rw [List.length_map, width]

/-- There is nothing to set up or to shut down. -/
theorem Rests.life_cycle (rests : Rests consents plan node) :
    node.setup = { node } ∧ node.shutdown = (node, []) := by
  induction plan using induct generalizing node with
  | step plan ih =>
      have below : ∀ nodes, List.Forall₂ (Rests consents) plan.children nodes →
          setupAll nodes = { children := nodes } ∧ shutdownAll nodes = (nodes, []) := by
        intro nodes below
        generalize plan.children = children at ih below
        induction below with
        | nil => exact ⟨rfl, rfl⟩
        | cons own _ later =>
            obtain ⟨first, others⟩ := List.forall_mem_cons.mp ih
            obtain ⟨setUp, shutDown⟩ := first own
            obtain ⟨allSetUp, allShutDown⟩ := later others
            rw [setupAll, setUp, shutdownAll, shutDown, allSetUp, allShutDown]
            exact ⟨rfl, rfl⟩
      cases rests with
      | condition | acknowledge => exact ⟨rfl, rfl⟩
      | row _ _ _ same | parallel _ _ _ _ same =>
          obtain ⟨setUp, shutDown⟩ := below _ same
          rw [setup, setUp, shutdown, shutDown]
          exact ⟨rfl, rfl⟩

/-- Children after one of them was changed, while more may have been consented to. -/
theorem rests_modify {later : Consents} {change : Node → Node} {index : Nat}
    (here : ∀ part, children[index]? = some part → ∀ node, Rests consents part node →
      Rests later part (change node))
    (elsewhere : ∀ place part, children[place]? = some part → place ≠ index →
      ∀ node, Rests consents part node → Rests later part node)
    (below : List.Forall₂ (Rests consents) children nodes) :
    List.Forall₂ (Rests later) children (nodes.modify index change) := by
  induction below generalizing index with
  | nil =>
      rw [List.modify_nil]
      exact .nil
  | @cons part node parts nodes own rest ih =>
      cases index with
      | zero =>
          rw [List.modify_zero_cons]
          refine .cons (here part rfl node own) ?_
          rw [← List.map_id nodes]
          refine rests_map (fun other member node => ?_) rest
          obtain ⟨place, found⟩ := List.mem_iff_getElem?.mp member
          exact elsewhere (place + 1) other found (Nat.succ_ne_zero place) node
      | succ index =>
          rw [List.modify_succ_cons]
          refine .cons (elsewhere 0 part rfl (Nat.succ_ne_zero index).symm node own) ?_
          apply ih here
          intro place other found apart
          exact elsewhere (place + 1) other found (by omega)

/-- What leaves such a tree a tree of its plan may be done to any node of it. -/
theorem Rests.change_at {change : Node → Node}
    (kept : ∀ part node, Rests consents part node → Rests consents part (change node))
    (rests : Rests consents plan node) (path : Path) :
    Rests consents plan (node.changeAt change path) := by
  induction path generalizing plan node with
  | nil => exact kept plan node rests
  | cons index path ih =>
      have below : ∀ nodes, List.Forall₂ (Rests consents) plan.children nodes →
          List.Forall₂ (Rests consents) plan.children (nodes.modify index (changeAt change path)) :=
        fun nodes => rests_modify (fun part _ node own => ih own) fun _ _ _ _ _ own => own
      cases rests with
      | condition name ended => exact .condition name ended
      | acknowledge name ended known => exact .acknowledge name ended known
      | row name ended ruled same => exact .row name ended ruled (below _ same)
      | parallel name ended filled width same =>
          refine .parallel name ended filled ?_ (below _ same)
          rw [List.length_modify, width]

theorem is_acknowledged_append (consents more : Consents) (label : Label)
    (permitted : List String) :
    isAcknowledged (consents ++ more) label permitted =
      (isAcknowledged consents label permitted || isAcknowledged more label permitted) :=
  List.any_append

/-- Nobody consented to anything here. -/
theorem Rests.elsewhere {name : String} (foreign : name ∉ plan.parts.map NodePlan.name)
    (identity : String) (rests : Rests consents plan node) :
    Rests (consents ++ [(name, identity)]) plan node := by
  induction plan using induct generalizing node with
  | step plan ih =>
      rw [parts_eq, List.map_cons, List.mem_cons, not_or, List.map_flatMap, List.mem_flatMap]
        at foreign
      obtain ⟨apart, others⟩ := foreign
      have below : ∀ nodes, List.Forall₂ (Rests consents) plan.children nodes →
          List.Forall₂ (Rests (consents ++ [(name, identity)])) plan.children nodes := by
        intro nodes same
        rw [← List.map_id nodes]
        refine rests_map (fun part member node => ih part member ?_) same
        exact fun inside => others ⟨part, member, inside⟩
      cases rests with
      | condition name ended => exact .condition name ended
      | @acknowledge label permitted _ _ called ended known =>
          refine .acknowledge called ended ?_
          have own : (name == label.name) = false := beq_false_of_ne apart
          rw [is_acknowledged_append, known]
          simp [isAcknowledged, own]
      | row called ended ruled same => exact .row called ended ruled (below _ same)
      | parallel called ended filled width same =>
          exact .parallel called ended filled width (below _ same)

theorem Rests.name_at (rests : Rests consents plan node) (path : Path) :
    (node.at? path).map Node.name = (plan.at? path).map NodePlan.name := by
  induction path generalizing plan node with
  | nil => exact congrArg some rests.name_eq
  | cons index path ih =>
      rw [Node.at_cons, at_cons]
      generalize plan.children = parts, node.children = nodes, rests.children_rest = below
      induction below generalizing index with
      | nil => rfl
      | cons own _ later =>
          cases index with
          | zero => exact ih own
          | succ index => exact later index

/-- Acknowledging a name, where names are distinct, is consenting to it. -/
theorem Rests.acknowledge_at {name : String} (identity : String)
    (distinct : (plan.parts.map NodePlan.name).Nodup) (rests : Rests consents plan node)
    {path : Path} (bears : (plan.at? path).map NodePlan.name = some name) :
    Rests (consents ++ [(name, identity)]) plan
      (node.changeAt (Node.acknowledge identity) path) := by
  induction path generalizing plan node with
  | nil =>
      obtain rfl := Option.some.inj bears
      rw [parts_eq, List.map_cons, List.nodup_cons, List.map_flatMap] at distinct
      have below : ∀ nodes, List.Forall₂ (Rests consents) plan.children nodes →
          List.Forall₂ (Rests (consents ++ [(plan.name, identity)])) plan.children nodes := by
        intro nodes same
        rw [← List.map_id nodes]
        refine rests_map (fun part member node rests => rests.elsewhere ?_ identity) same
        exact fun inside => distinct.1 (List.mem_flatMap.mpr ⟨part, member, inside⟩)
      cases rests with
      | condition called ended => exact .condition called ended
      | @acknowledge label permitted state acknowledgedBy called ended known =>
          have own : isAcknowledged [(label.name, identity)] label permitted =
              permitted.contains identity := by simp [isAcknowledged]
          rw [changeAt, Node.acknowledge]
          split
          next permits =>
            refine .acknowledge called ended ?_
            rw [is_acknowledged_append]
            exact ((Bool.or_eq_true _ _).mpr (.inr (own.trans permits))).symm
          next refuses =>
            refine .acknowledge called ended ?_
            rw [is_acknowledged_append, known]
            exact (Bool.or_eq_left_iff_imp.mpr fun again => absurd (own ▸ again) refuses).symm
      | row called ended ruled same => exact .row called ended ruled (below _ same)
      | parallel called ended filled width same =>
          exact .parallel called ended filled width (below _ same)
  | cons index path ih =>
      obtain ⟨child, own, inside⟩ := name_below bears
      rw [parts_eq, List.map_cons, List.nodup_cons, List.map_flatMap, List.nodup_flatMap]
        at distinct
      obtain ⟨-, each, disjoint⟩ := distinct
      have below : ∀ nodes, List.Forall₂ (Rests consents) plan.children nodes →
          List.Forall₂ (Rests (consents ++ [(name, identity)])) plan.children
            (nodes.modify index (changeAt (Node.acknowledge identity) path)) := by
        intro nodes
        apply rests_modify
        · intro part here node rests
          obtain rfl := Option.some.inj (own.symm.trans here)
          exact ih (each child (List.mem_of_getElem? own)) rests inside
        · intro place part there apart node rests
          refine rests.elsewhere (fun again => apart ?_) identity
          exact index_unique disjoint there own again (name_mem_of_at inside)
      cases rests with
      | condition | acknowledge => cases own
      | row called ended ruled same => exact .row called ended ruled (below _ same)
      | parallel called ended filled width same =>
          refine .parallel called ended filled ?_ (below _ same)
          rw [List.length_modify, width]

end Handling

/-- A tree as it is built has nothing running in it. -/
theorem rests_built (timing : Timing) {plan : NodePlan} (prompt : plan.IsPrompt)
    (filled : ∀ label policy synchronise, .parallel label policy synchronise [] ∉ plan.parts) :
    Rests [] plan (plan.node timing) := by
  have invalid : Status.invalid ≠ .running := by decide
  induction plan using induct with
  | step plan ih =>
      have lower : ∀ {child part : NodePlan}, child ∈ plan.children → part ∈ child.parts →
          part ∈ plan.parts := by
        intro child part member inside
        rw [parts_eq]
        exact List.mem_cons_of_mem _ (List.mem_flatMap.mpr ⟨child, member, inside⟩)
      have own : plan ∈ plan.parts := mem_parts_iff.mpr ⟨[], rfl⟩
      have below : List.Forall₂ (Rests []) plan.children (plan.children.map (node timing)) := by
        refine List.forall₂_map_right_iff.mpr (List.forall₂_same.mpr fun child member => ?_)
        apply ih child member
        · exact fun part inside => prompt part (lower member inside)
        · exact fun label policy synchronise inside =>
            filled label policy synchronise (lower member inside)
      cases plan with
      | condition plan => exact .condition rfl invalid
      | acknowledge label permitted => exact .acknowledge rfl invalid rfl
      | action => exact absurd rfl (prompt _ own).1
      | checkAndDo => exact absurd rfl (prompt _ own).2
      | row label flow memory children =>
          rw [NodePlan.node, nodes_eq_map, Node.row]
          refine .row rfl invalid ?_ below
          cases memory
          · exact .inl rfl
          · exact .inr ⟨0, rfl⟩
      | parallel label policy synchronise children =>
          rw [NodePlan.node, nodes_eq_map, Node.parallel]
          refine .parallel rfl invalid ?_ ?_ below
          · rintro rfl
            exact filled label policy synchronise own
          · rw [List.length_map]

end NodePlan

/-! Everything that may happen to a tree. -/

namespace Node

/-- What may be done to a tree, or to a node in it. -/
inductive Operation where
  | tick (surroundings : Surroundings)
  | halt
  | setup
  | shutdown

def operate (node : Node) : Operation → Node
  | .tick surroundings => (node.tick surroundings).node
  | .halt => node.halt.node
  | .setup => node.setup.node
  | .shutdown => node.shutdown.1

inductive Dealing where
  | whole (operation : Operation)
  | named (name : String) (operation : Operation)
  | acknowledge (name identity : String)

def undergo (node : Node) : Dealing → Node
  | .whole operation => node.operate operation
  | .named name operation => (node.modify? name (·.operate operation)).getD node
  | .acknowledge name identity => (node.modify? name (·.acknowledge identity)).getD node

def afterDealings (node : Node) (dealings : List Dealing) : Node := dealings.foldl undergo node

def Dealing.consent? : Dealing → Option (String × String)
  | .acknowledge name identity => some (name, identity)
  | .whole _ | .named _ _ => none

def consents (dealings : List Dealing) : Consents := dealings.filterMap Dealing.consent?

end Node

namespace NodePlan

open Node

variable {consents : Consents} {plan : NodePlan} {node : Node}

theorem Rests.operate (rests : Rests consents plan node) (operation : Operation) :
    Rests consents plan (node.operate operation) := by
  cases operation with
  | tick surroundings => exact rests.answers.rests
  | halt => exact rests.halt
  | setup =>
      rw [Node.operate, rests.life_cycle.1]
      exact rests
  | shutdown =>
      rw [Node.operate, rests.life_cycle.2]
      exact rests

theorem Rests.undergo (rests : Rests consents plan node)
    (distinct : (plan.parts.map NodePlan.name).Nodup) (dealing : Dealing) :
    Rests (consents ++ dealing.consent?.toList) plan (node.undergo dealing) := by
  cases dealing with
  | whole operation =>
      rw [Dealing.consent?, Option.toList_none, List.append_nil]
      exact rests.operate operation
  | named name operation =>
      rw [Dealing.consent?, Option.toList_none, List.append_nil, Node.undergo]
      rcases finds_or_misses name node with ⟨path, finds⟩ | misses
      · rw [finds.changed, Option.getD_some]
        exact rests.change_at (fun _ _ own => own.operate operation) path
      · rw [misses.changed, Option.getD_none]
        exact rests
  | acknowledge name identity =>
      rw [Dealing.consent?, Option.toList_some, Node.undergo]
      rcases finds_or_misses name node with ⟨path, finds⟩ | misses
      · rw [finds.changed, Option.getD_some]
        exact rests.acknowledge_at identity distinct (rests.name_at path ▸ finds.bears)
      · rw [misses.changed, Option.getD_none]
        refine rests.elsewhere (fun inside => ?_) identity
        obtain ⟨part, member, named⟩ := List.mem_map.mp inside
        obtain ⟨path, found⟩ := mem_parts_iff.mp member
        apply misses.unknown path
        rw [rests.name_at, found, Option.map_some, named]

theorem Rests.after_dealings (rests : Rests consents plan node)
    (distinct : (plan.parts.map NodePlan.name).Nodup) (dealings : List Dealing) :
    Rests (consents ++ Node.consents dealings) plan (node.afterDealings dealings) := by
  induction dealings generalizing consents node with
  | nil =>
      rw [Node.consents, List.filterMap_nil, List.append_nil]
      exact rests
  | cons dealing rest ih =>
      have later := ih (rests.undergo distinct dealing)
      rw [List.append_assoc] at later
      have split : Node.consents (dealing :: rest) =
          dealing.consent?.toList ++ Node.consents rest := by
        rw [Node.consents, List.filterMap_cons]
        cases dealing.consent? <;> rfl
      rw [split]
      exact later

/-- A tree answers by the formula whatever happened to it since it was built. -/
theorem answers_after_dealings (sound : plan.Sound) (prompt : plan.IsPrompt) (timing : Timing)
    (dealings : List Dealing) (surroundings : Surroundings) :
    Answers surroundings (Node.consents dealings) plan
      ((plan.node timing).afterDealings dealings) :=
  ((rests_built timing prompt sound.parallels).after_dealings sound.distinct dealings).answers

end NodePlan

namespace TreePlan

theorem build_of_sound {plan : TreePlan} (sound : plan.root.Sound) (timing : Timing) :
    plan.build timing = .ok (plan.root.node timing) := by
  rw [build_eq, (inspect_eq_ok_iff plan).mpr sound]
  rfl

/-- Whatever happened to the tree of an accepted plan without actions, a tick succeeds if the
formula of the plan is true for the store and the acknowledgements given, and fails otherwise, and
it leaves nothing running. It visits what the walk through the plan visits. Which rows have a memory
makes no difference, whatever happened to either tree besides the acknowledgements. -/
theorem prompt_tree_follows_formula (plan : TreePlan) (timing : Timing)
    (accepted : plan.inspect = .ok ()) (prompt : plan.root.IsPrompt) :
    ∃ root, plan.build timing = .ok root ∧ ∀ dealings surroundings,
      let consents := Node.consents dealings
      let ticked := (root.afterDealings dealings).tick surroundings
      (ticked.node.status = .success ∧ plan.root.formula surroundings.store consents = true ∨
        ticked.node.status = .failure ∧ plan.root.formula surroundings.store consents = false) ∧
      (∀ path sub, ticked.node.at? path = some sub → sub.status ≠ .running) ∧
      ticked.journal.visits = plan.root.walk surroundings.store consents ∧
      ∀ other : TreePlan, other.root.withoutMemory = plan.root.withoutMemory →
        ∃ another, other.build timing = .ok another ∧
          ∀ others, Node.consents others = consents →
            let again := (another.afterDealings others).tick surroundings
            again.node.status = ticked.node.status ∧
              again.journal.visits = ticked.journal.visits := by
  have sound := (inspect_eq_ok_iff plan).mp accepted
  refine ⟨_, build_of_sound sound timing, fun dealings surroundings => ?_⟩
  have answers := NodePlan.answers_after_dealings sound prompt timing dealings surroundings
  refine ⟨?_, fun _ _ found => answers.rests.at_status_ne found, answers.visits, ?_⟩
  · have status := answers.status
    rw [NodePlan.verdict] at status
    cases formula : plan.root.formula surroundings.store (Node.consents dealings) with
    | true => exact .inl ⟨by rw [formula] at status; exact status, rfl⟩
    | false => exact .inr ⟨by rw [formula] at status; exact status, rfl⟩
  · intro other same
    have alsoSound := sound.reflagged same
    refine ⟨_, build_of_sound alsoSound timing, fun others alike => ?_⟩
    have again := NodePlan.answers_after_dealings alsoSound (prompt.reflagged same) timing others
      surroundings
    have reading := NodePlan.reads_alike surroundings.store (Node.consents dealings) same
    rw [alike] at again
    constructor
    · refine again.status.trans (Eq.trans ?_ answers.status.symm)
      rw [NodePlan.verdict, NodePlan.verdict, reading.formula]
    · rw [again.visits, answers.visits, reading.walk]

/-- A gate is released when the water is high enough, somebody has agreed, and either pump works. -/
def release (memory : Bool) : TreePlan where
  label := { name := "gate" }
  root := .row { name := "release" } .sequence memory
    [.condition { label := { name := "high" }, check := ⟨"level", .ge, .int 5⟩ },
      .parallel { name := "cleared" } .successOnOne true
        [.acknowledge { name := "agreed" } ["keeper"],
          .row { name := "pump" } .selector (!memory)
            [.condition { label := { name := "first" }, check := ⟨"pump1", .eq, .bool true⟩ },
              .condition { label := { name := "second" }, check := ⟨"pump2", .eq, .bool true⟩ }]]]

theorem release_follows_formula :
    (release true).inspect = .ok () ∧ (release true).root.IsPrompt ∧
      ∃ root another, (release true).build {} = .ok root ∧ (release false).build {} = .ok another ∧
        let store := Store.ofList [("level", .int 7), ("pump1", .bool false), ("pump2", .bool true)]
        let ticked := (root.afterDealings [.whole (.tick ⟨0, store⟩), .named "cleared" .halt,
          .acknowledge "agreed" "keeper"]).tick ⟨1, store⟩
        ticked.node.status = .success ∧
        ticked.journal.visits = [⟨"high", .success⟩, ⟨"agreed", .success⟩, ⟨"first", .failure⟩,
          ⟨"second", .success⟩, ⟨"pump", .success⟩, ⟨"cleared", .success⟩, ⟨"release", .success⟩] ∧
        ((another.afterDealings [.acknowledge "agreed" "keeper"]).tick ⟨1, store⟩).journal.visits =
          ticked.journal.visits := by
  have accepted : (release true).inspect = .ok () := by decide
  have prompt : (release true).root.IsPrompt := by decide
  obtain ⟨root, built, follows⟩ := (release true).prompt_tree_follows_formula {} accepted prompt
  let store := Store.ofList [("level", .int 7), ("pump1", .bool false), ("pump2", .bool true)]
  obtain ⟨answered, -, visits, flags⟩ := follows
    [.whole (.tick ⟨0, store⟩), .named "cleared" .halt, .acknowledge "agreed" "keeper"] ⟨1, store⟩
  obtain ⟨another, alsoBuilt, same⟩ := flags (release false) rfl
  refine ⟨accepted, prompt, root, another, built, alsoBuilt, ?_, ?_, ?_⟩
  · rcases answered with ⟨success, -⟩ | ⟨-, untrue⟩
    · exact success
    · cases untrue
  · rw [visits]
    decide
  · exact (same [.acknowledge "agreed" "keeper"] rfl).2

end TreePlan

end BehaviorTree
