import BehaviorTree.Proofs.Entering
import BehaviorTree.Proofs.Turns
import BehaviorTree.Proofs.Unseen

/-!
Goals. A check-and-do is a selector without memory over its check and its action, in whose place the
tree goes on as before; but it tells the operator how it stands with its goal. Every tick that comes
to it ticks the check, and the action if the check fails.
-/

namespace BehaviorTree.Node

variable (surroundings : Surroundings)

/-! A check-and-do has no memory. -/

theorem check_and_do_entry (status : Status) : Rule.checkAndDo.atEntry status = .checkAndDo := by
  unfold Rule.atEntry
  split <;> rfl

theorem check_and_do_concluded (answer : Status) :
    concludedRule answer .checkAndDo = .checkAndDo := by
  unfold concludedRule
  split <;> rfl

theorem check_and_do_halted (status : Status) : haltedRule status .checkAndDo = .checkAndDo := by
  unfold haltedRule
  split <;> rfl

theorem check_and_do_decided (children : List Node) :
    (decision surroundings .checkAndDo children).rule = .checkAndDo := reactive_rule ..

/-- A check-and-do stays one, with its two children. -/
theorem check_and_do_after_tick (own : NodeState) (first second : Node) :
    ∃ (after : NodeState) (answer : Status) (one other : Treatment),
      (tick surroundings (.branch own .checkAndDo [first, second])).node =
          .branch after .checkAndDo
            [concluded answer (treated surroundings one first),
              concluded answer (treated surroundings other second)] ∧
        after.name = own.name := by
  have children := decision_children surroundings .checkAndDo [first, second]
  rw [tick_branch, conclude_node, check_and_do_entry]
  refine ⟨concludedState own (decision surroundings .checkAndDo [first, second]),
    (decision surroundings .checkAndDo [first, second]).status,
    treatment surroundings .checkAndDo [first, second] 0,
    treatment surroundings .checkAndDo [first, second] 1, ?_, rfl⟩
  rw [check_and_do_decided, check_and_do_concluded]
  congr 1
  apply List.ext_getElem?
  intro index
  rw [List.getElem?_map, children]
  match index with
  | 0 => rfl
  | 1 => rfl
  | index + 2 => rfl

/-! A selector in its place. -/

/-- A check-and-do becomes a selector that starts from the check in every tick. -/
def asSelector (message : String) : Node → Node
  | .branch state .checkAndDo children =>
      .branch { state with message } (.reactive .selector) children
  | other => other

variable (message : String)

theorem as_selector_leaf (state : NodeState) (content : Leaf) :
    asSelector message (.leaf state content) = .leaf state content := rfl

theorem as_selector_other {rule : Rule} (other : rule ≠ .checkAndDo) (state : NodeState)
    (children : List Node) :
    asSelector message (.branch state rule children) = .branch state rule children := by
  cases rule with
  | checkAndDo => exact absurd rfl other
  | reactive | memory | parallel => rfl

/-! Another rule does not become that of a check-and-do. -/

theorem initialise_eq_iff {rule : Rule} : rule.initialise = .checkAndDo ↔ rule = .checkAndDo := by
  cases rule <;> simp [Rule.initialise]

theorem terminate_eq_iff {rule : Rule} : rule.terminate = .checkAndDo ↔ rule = .checkAndDo := by
  cases rule <;> simp [Rule.terminate]

theorem decided_eq_iff {rule : Rule} {children : List Node} :
    (decision surroundings rule children).rule = .checkAndDo ↔ rule = .checkAndDo := by
  cases rule with
  | reactive flow => rw [decision, reactive_rule]
  | checkAndDo => rw [decision, reactive_rule]
  | memory flow index => simp [decision, decideMemory]
  | parallel policy synchronise settled => simp [decision, decideParallel]

theorem halted_eq_iff {status : Status} {rule : Rule} :
    haltedRule status rule = .checkAndDo ↔ rule = .checkAndDo := by
  unfold haltedRule
  split
  · exact terminate_eq_iff
  · rfl

/-- A tick leaves a check-and-do behind only where there was one. -/
theorem concluded_eq_iff {status : Status} {rule : Rule} {children : List Node} :
    concludedRule (decision surroundings (rule.atEntry status) children).status
        (decision surroundings (rule.atEntry status) children).rule = .checkAndDo ↔
      rule = .checkAndDo := by
  have entry : rule.atEntry status = .checkAndDo ↔ rule = .checkAndDo := by
    unfold Rule.atEntry
    split
    · rfl
    · exact initialise_eq_iff
  rw [← entry, ← @decided_eq_iff surroundings (rule.atEntry status) children]
  unfold concludedRule
  split
  · rfl
  · exact terminate_eq_iff

theorem selector_decision (children : List Node) :
    decision surroundings (.reactive .selector) children =
      { decision surroundings .checkAndDo children with rule := .reactive .selector } := by
  rw [decision, decision, decideReactive, decideReactive]
  split <;> rfl

theorem as_selector_tick (node : Node) :
    (tick surroundings (asSelector message node)).node =
        asSelector message (tick surroundings node).node ∧
      (tick surroundings (asSelector message node)).journal = (tick surroundings node).journal := by
  cases node with
  | leaf state content => exact ⟨rfl, rfl⟩
  | branch state rule children =>
      by_cases own : rule = .checkAndDo
      · subst own
        have entry : (Rule.reactive .selector).atEntry state.status = .reactive .selector := by
          unfold Rule.atEntry
          split <;> rfl
        have kept : concludedRule (decision surroundings .checkAndDo children).status
            (.reactive .selector) = .reactive .selector := by
          unfold concludedRule
          split <;> rfl
        rw [asSelector, tick_branch, tick_branch, check_and_do_entry, entry, selector_decision]
        constructor
        · rw [conclude_node, conclude_node, check_and_do_decided, check_and_do_concluded]
          dsimp only
          rw [kept]
          rfl
        · rw [conclude_journal, conclude_journal]
      · rw [as_selector_other message own]
        refine ⟨?_, rfl⟩
        rw [tick_branch, conclude_node,
          as_selector_other message (mt (concluded_eq_iff surroundings).mp own)]

theorem as_selector_halt (node : Node) :
    (asSelector message node).halt.node = asSelector message node.halt.node ∧
      (asSelector message node).halt.calls = node.halt.calls := by
  cases node with
  | leaf state content => exact ⟨rfl, rfl⟩
  | branch state rule children =>
      by_cases own : rule = .checkAndDo
      · subst own
        have kept : haltedRule state.status (.reactive .selector) = .reactive .selector := by
          unfold haltedRule
          split <;> rfl
        refine ⟨?_, ?_⟩
        · rw [asSelector, halt_branch, halt_branch, check_and_do_halted]
          dsimp only
          rw [kept]
          rfl
        · rw [asSelector, halt, halt]
          split <;> rfl
      · rw [as_selector_other message own]
        refine ⟨?_, rfl⟩
        rw [halt_branch, as_selector_other message (mt halted_eq_iff.mp own)]

/-- The rest of the tree cannot tell the selector from the check-and-do. -/
theorem as_selector_unseen : Unseen (asSelector message) where
  status node := by
    cases node with
    | leaf state content => rfl
    | branch state rule children => cases rule <;> rfl
  tick surroundings node := (as_selector_tick surroundings message node).1
  journal surroundings node := (as_selector_tick surroundings message node).2
  halt node := (as_selector_halt message node).1
  calls node := (as_selector_halt message node).2
  setup node := by
    cases node with
    | branch state rule children => cases rule <;> rfl
    | leaf state content =>
        cases content with
        | action action =>
            rw [as_selector_leaf, setup, setupLeaf]
            cases action.setup state.name <;> rfl
        | condition | acknowledge | scripted => rfl
  fault node := by
    cases node with
    | leaf state content => rfl
    | branch state rule children => cases rule <;> rfl
  shutdown node := by
    cases node with
    | leaf state content => cases content <;> rfl
    | branch state rule children => cases rule <;> rfl
  acknowledge name identity node := by
    cases node with
    | leaf state content =>
        exact (modify_leaf name identity state content (as_selector_leaf message)).symm
    | branch state rule children =>
        by_cases own : rule = .checkAndDo
        · subst own
          rw [asSelector, modify?, modify?]
          split
          · rfl
          · rw [Option.map_map]
            rfl
        · rw [as_selector_other message own, modify?]
          split
          · exact congrArg some (as_selector_other message own state children).symm
          · rw [Option.map_map]
            congr 1
            funext others
            exact (as_selector_other message own state others).symm
  outside content path node := by
    cases node with
    | leaf state other => cases path <;> rfl
    | branch state rule children => cases rule <;> cases path <;> rfl

/-- To change the node at a position is to put another one there. -/
theorem change_at_eq_put {node sub : Node} {path : Path} (found : node.at? path = some sub)
    (change : Node → Node) : node.changeAt change path = node.put path (change sub) := by
  induction path generalizing node with
  | nil =>
      cases found
      cases sub <;> rfl
  | cons index path ih =>
      obtain ⟨state, rule, children, child, rfl, own, below⟩ := branch_of_at_cons found
      rw [change_at_branch, put_branch]
      congr 1
      apply List.ext_getElem?
      intro place
      rw [List.getElem?_modify, List.getElem?_modify]
      by_cases here : index = place
      · subst here
        simp [own, ih below]
      · simp [here]

/-! A turn of a check-and-do. -/

section Turn

variable (state : NodeState) (check act : Node)

/-- The action is ticked if the check has failed, and then the answer is its. -/
theorem sweep_goal :
    (1 ≤ (sweep surroundings Flow.selector.onward 0 [check, act]).passed ↔
        answer surroundings check = .failure) ∧
      (sweep surroundings Flow.selector.onward 0 [check, act]).verdict.getD .failure =
        if answer surroundings check = .failure then answer surroundings act
        else answer surroundings check := by
  have onward : Flow.selector.onward = .failure := rfl
  unfold answer
  rw [onward, sweep, sweep]
  by_cases failed : (tick surroundings check).node.status = .failure
  · rw [if_pos failed, if_pos failed]
    refine ⟨iff_of_true (Nat.succ_le_succ (Nat.zero_le _)) failed, ?_⟩
    by_cases again : (tick surroundings act).node.status = .failure
    · rw [if_pos again, again]
      rfl
    · rw [if_neg again]
      rfl
  · rw [if_neg failed, if_neg failed]
    exact ⟨iff_of_false (Nat.not_succ_le_zero 0) failed, rfl⟩

theorem check_and_do_treats :
    treatment surroundings .checkAndDo [check, act] 0 = .ticked ∧
      (treatment surroundings .checkAndDo [check, act] 1 = .ticked ↔
        answer surroundings check = .failure) := by
  refine ⟨rfl, ?_⟩
  rw [← (sweep_goal surroundings check act).1, treatment, reactiveTreatment]
  split
  next reached => exact iff_of_true rfl reached
  next short => exact iff_of_false (by decide) short

theorem check_and_do_answer :
    answer surroundings (.checkAndDo state check act) =
      if answer surroundings check = .failure then answer surroundings act
      else answer surroundings check := by
  rw [Node.checkAndDo, answer_branch, check_and_do_entry, decision, reactive_status]
  exact (sweep_goal surroundings check act).2

theorem check_and_do_message :
    (tick surroundings (.checkAndDo state check act)).node.state.message =
      goalMessage (some (answer surroundings check))
        (answer surroundings (.checkAndDo state check act)) := by
  have first := decision_children surroundings .checkAndDo [check, act] 0
  rw [(check_and_do_treats surroundings check act).1, ← List.head?_eq_getElem?] at first
  rw [Node.checkAndDo, answer_branch, tick_branch, check_and_do_entry, conclude_node, Node.state,
    concludedState, check_and_do_decided, first]
  rfl

end Turn

/-- The message tells the four ways in which a tick can go. -/
theorem goal_message_tells (check act : Status) :
    let result := if check = .failure then act else check
    (goalMessage (some check) result = "Goal already met" ↔ check = .success) ∧
      (goalMessage (some check) result = "Goal reached by action" ↔
        check = .failure ∧ act = .success) ∧
      (goalMessage (some check) result = "Acting" ↔ result = .running) ∧
      (goalMessage (some check) result = "Goal not reached" ↔ result = .failure) := by
  cases check <;> cases act <;> decide

theorem condition_answers (shown : NodeState) (test : Test) :
    answer surroundings (.leaf shown (.condition test)) = .success ∨
      answer surroundings (.leaf shown (.condition test)) = .failure := by
  have judged : ∀ holds, Status.ofBool holds = .success ∨ Status.ofBool holds = .failure := by
    decide
  have own : answer surroundings (.leaf shown (.condition test)) =
      ((Leaf.condition test).update surroundings).1 := by
    rw [answer, tick, tickLeaf]
    dsimp only
    split <;> rfl
  rw [own]
  cases test with
  | signal on => exact judged on
  | reading check => exact judged _

/-! Runs. -/

/-- In no run does a check-and-do become anything else. -/
theorem check_and_do_kept :
    Kept fun _ node => ∃ state check act, node = .checkAndDo state check act where
  ticked surroundings _ _ shape := by
    obtain ⟨state, check, act, rfl⟩ := shape
    obtain ⟨after, _, _, _, ticked, _⟩ := check_and_do_after_tick surroundings state check act
    exact ⟨after, _, _, ticked⟩
  halted _ _ shape := by
    obtain ⟨state, check, act, rfl⟩ := shape
    refine ⟨{ state with status := .invalid }, check.halt.node, act.halt.node, ?_⟩
    rw [Node.checkAndDo, halt_branch, check_and_do_halted]
    rfl
  aside _ _ other same shape := by
    obtain ⟨state, check, act, rfl⟩ := shape
    obtain ⟨after, rows, rfl, _, statuses⟩ := branch_of_skeleton same
    obtain ⟨first, second, rfl⟩ := List.length_eq_two.mp (length_of_same statuses)
    exact ⟨after, first, second, rfl⟩

/-- What a check-and-do tells after a tick that came to it, even if it was halted in the same
tick. -/
theorem message_after_tick {root : Node} {path : Path} {state : NodeState} {check act : Node}
    (found : root.at? path = some (.checkAndDo state check act))
    (seen : visited surroundings path root = true) :
    ∃ final first second,
      (tick surroundings root).node.at? path = some (.checkAndDo final first second) ∧
      final.message = goalMessage (some (answer surroundings check))
        (answer surroundings (.checkAndDo state check act)) := by
  have message := check_and_do_message surroundings state check act
  obtain ⟨after, result, one, other, ticked, _⟩ :=
    check_and_do_after_tick surroundings state check act
  have carried := at_tick surroundings found
  rw [Node.carried, if_pos seen, Node.checkAndDo, ticked] at carried
  rw [Node.checkAndDo, ticked] at message
  rcases carried with whole | halted
  · exact ⟨after, _, _, whole, message⟩
  · rw [halt_branch, check_and_do_halted] at halted
    exact ⟨_, _, _, halted, message⟩

section Found

variable {root : Node} {path : Path} {state : NodeState} {check act : Node}
  (found : root.at? path = some (.checkAndDo state check act))
  (seen : visited surroundings path root = true)

include found

theorem at_check : root.at? (path ++ [0]) = some check := by
  rw [at_append, found]
  rfl

theorem at_act : root.at? (path ++ [1]) = some act := by
  rw [at_append, found]
  rfl

include seen

theorem visited_check : visited surroundings (path ++ [0]) root = true := by
  have treats := (check_and_do_treats surroundings check act).1
  rw [visited_append surroundings found, seen, Node.checkAndDo,
    visited_branch surroundings state .checkAndDo rfl, check_and_do_entry, treats, visited_root]
  rfl

theorem visited_act_iff :
    visited surroundings (path ++ [1]) root = true ↔ answer surroundings check = .failure := by
  have treats := (check_and_do_treats surroundings check act).2
  rw [visited_append surroundings found, seen, Bool.true_and, Node.checkAndDo,
    visited_branch surroundings state .checkAndDo rfl, check_and_do_entry, visited_root,
    Bool.and_true, decide_eq_true_iff]
  exact treats

theorem recorded_check (status : Status) :
    Recorded (trail surroundings root) (path ++ [0]) status ↔
      answer surroundings check = status := by
  rw [recorded_iff surroundings (at_check found) status,
    and_iff_right (visited_check surroundings found seen)]

/-- What the message tells is what the tick has recorded. -/
theorem goal_told :
    ∃ final later others,
      (tick surroundings root).node.at? path = some (.checkAndDo final later others) ∧
      (final.message = "Goal already met" ↔
        Recorded (trail surroundings root) (path ++ [0]) .success) ∧
      (final.message = "Goal reached by action" ↔
        Recorded (trail surroundings root) (path ++ [0]) .failure ∧
          Recorded (trail surroundings root) (path ++ [1]) .success) ∧
      (final.message = "Acting" ↔ Recorded (trail surroundings root) path .running) ∧
      (final.message = "Goal not reached" ↔ Recorded (trail surroundings root) path .failure) := by
  obtain ⟨final, later, others, known, message⟩ := message_after_tick surroundings found seen
  obtain ⟨met, reached, acting, missed⟩ :=
    goal_message_tells (answer surroundings check) (answer surroundings act)
  rw [← check_and_do_answer surroundings state, ← message] at met reached acting missed
  have checked := recorded_check surroundings found seen
  have acted := recorded_iff surroundings (at_act found)
  have own := recorded_iff surroundings found
  refine ⟨final, later, others, known, ?_, ?_, ?_, ?_⟩
  · rw [met, checked]
  · rw [reached, checked, acted, visited_act_iff surroundings found seen]
    tauto
  · rw [acting, own, and_iff_right seen]
  · rw [missed, own, and_iff_right seen]

end Found

/-- In every run of a tree a check-and-do answers, visits, treats its children and opens attempts
as a selector in its place that has the same name, no memory and the same children; all the rest of
the tree goes on the same. And a tick that comes to it ticks the check once, and the action exactly
if the check fails; afterwards the message tells which of both reached the goal, or that the action
goes on, or that there is no success. -/
theorem check_and_do_is_selector {root : Node} {path : Path} {state : NodeState}
    {check act : Node} (found : root.at? path = some (.checkAndDo state check act))
    (message : String) (moves : List Move) :
    let other := root.put path (.row { state with message } .selector false [check, act])
    other.observe moves = root.observe moves ∧
    ∃ now first second,
      (root.after moves).at? path = some (.checkAndDo now first second) ∧
      other.after moves =
        (root.after moves).put path (.row { now with message } .selector false [first, second]) ∧
      ∀ surroundings, visited surroundings path (root.after moves) = true →
        let steps := trail surroundings (root.after moves)
        stepsAt (path ++ [0]) steps = [footstep surroundings (path ++ [0]) first] ∧
        (visited surroundings (path ++ [1]) (root.after moves) = true ↔
          Recorded steps (path ++ [0]) .failure) ∧
        ((∃ shown test, first = .leaf shown (.condition test)) →
          Recorded steps (path ++ [0]) .success ∨ Recorded steps (path ++ [0]) .failure) ∧
        ∃ final later others,
          (root.after (moves ++ [.tick surroundings])).at? path =
            some (.checkAndDo final later others) ∧
          (final.message = "Goal already met" ↔ Recorded steps (path ++ [0]) .success) ∧
          (final.message = "Goal reached by action" ↔
            Recorded steps (path ++ [0]) .failure ∧ Recorded steps (path ++ [1]) .success) ∧
          (final.message = "Acting" ↔ Recorded steps path .running) ∧
          (final.message = "Goal not reached" ↔ Recorded steps path .failure) := by
  obtain ⟨_, known, now, first, second, rfl⟩ :=
    check_and_do_kept.after found ⟨state, check, act, rfl⟩ moves
  have unseen := (as_selector_unseen message).anywhere path
  have before := change_at_eq_put found (asSelector message)
  have behind := change_at_eq_put known (asSelector message)
  refine ⟨?_, now, first, second, known, ?_, ?_⟩
  · exact (congrArg (observe · moves) before).symm.trans (unseen.observe root moves)
  · exact (congrArg (after · moves) before).symm.trans ((unseen.after root moves).trans behind)
  · intro surroundings seen
    have checked := recorded_check surroundings known seen
    refine ⟨?_, ?_, ?_, ?_⟩
    · exact steps_at_visited surroundings (at_check known) (visited_check surroundings known seen)
    · rw [checked]
      exact visited_act_iff surroundings known seen
    · rintro ⟨shown, test, rfl⟩
      rw [checked, checked]
      exact condition_answers surroundings shown test
    · rw [after_snoc]
      exact goal_told surroundings known seen

/-- An errand to some place, if that is not where one is. -/
def errand : Node :=
  .row { name := "errand" } .sequence false
    [.leaf { name := "ready" } (.condition (.signal true)),
      .checkAndDo { name := "reach" } (.leaf { name := "there" } (.condition (.signal false)))
        (.action { name := "go" } { completion := .external, step := .external })]

/-- One sets out, and is there before the next tick. -/
def settingOut : List Move := [.tick ⟨0, {}⟩, .outside [1, 0] (.condition (.signal true))]

theorem errand_told_of_goal :
    (∃ state check act, errand.at? [1] = some (.checkAndDo state check act)) ∧
    visited ⟨1, {}⟩ [1] (errand.after settingOut) = true ∧
    ∃ now first second final later others,
      (errand.after settingOut).at? [1] = some (.checkAndDo now first second) ∧
      now.message = "Acting" ∧ second.status = .running ∧
      (errand.after (settingOut ++ [.tick ⟨1, {}⟩])).at? [1] =
        some (.checkAndDo final later others) ∧
      final.message = "Goal already met" := by
  have seen : visited ⟨1, {}⟩ [1] (errand.after settingOut) = true := by decide
  refine ⟨⟨_, _, _, rfl⟩, seen, ?_⟩
  obtain ⟨_, now, first, second, known, _, ticks⟩ :=
    @check_and_do_is_selector errand [1] _ _ _ rfl "" settingOut
  obtain ⟨_, _, _, final, later, others, after, met, _⟩ := ticks ⟨1, {}⟩ seen
  refine ⟨now, first, second, final, later, others, known, ?_, ?_, after, met.mpr ?_⟩
  · cases known
    rfl
  · cases known
    rfl
  · exact ⟨⟨⟨"there", .success⟩, [1, 0], true⟩, by decide, rfl, rfl⟩

end BehaviorTree.Node
