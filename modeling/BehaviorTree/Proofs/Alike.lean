import BehaviorTree.Proofs.Moves
import BehaviorTree.Proofs.Ticking
import Mathlib.Data.List.Forall2

/-!
Trees that a tick cannot tell apart. They agree in their names, their leaves' contents, in what is
running, and in the rules their branches go into a tick with; finished statuses, messages and left
over memory may differ. Ticks and halts of such trees record the same and leave such trees.
-/

namespace BehaviorTree.Node

inductive Alike : Node → Node → Prop where
  | leaf {first second : NodeState} (content : Leaf) (name : first.name = second.name)
      (running : first.status = .running ↔ second.status = .running) :
      Alike (.leaf first content) (.leaf second content)
  | branch {first second : NodeState} {rule other : Rule} {children others : List Node}
      (name : first.name = second.name)
      (running : first.status = .running ↔ second.status = .running)
      (memory : rule.atEntry first.status = other.atEntry second.status)
      (length : children.length = others.length)
      (below : ∀ (index : Nat) left right, children[index]? = some left →
        others[index]? = some right → Alike left right) :
      Alike (.branch first rule children) (.branch second other others)

theorem forall₂_iff_each {related : Node → Node → Prop} {children others : List Node} :
    List.Forall₂ related children others ↔
      children.length = others.length ∧
        ∀ (index : Nat) left right, children[index]? = some left →
          others[index]? = some right → related left right := by
  rw [List.forall₂_iff_get]
  constructor
  · rintro ⟨length, each⟩
    refine ⟨length, fun index left right own other => ?_⟩
    obtain ⟨inside, rfl⟩ := List.getElem?_eq_some_iff.mp own
    obtain ⟨within, rfl⟩ := List.getElem?_eq_some_iff.mp other
    exact each index inside within
  · rintro ⟨length, each⟩
    refine ⟨length, fun index inside within => ?_⟩
    exact each index _ _ (List.getElem?_eq_getElem inside) (List.getElem?_eq_getElem within)

/-- Alike branches, with their children side by side. -/
theorem Alike.of_children {first second : NodeState} {rule other : Rule}
    {children others : List Node} (name : first.name = second.name)
    (running : first.status = .running ↔ second.status = .running)
    (memory : rule.atEntry first.status = other.atEntry second.status)
    (below : List.Forall₂ Alike children others) :
    Alike (.branch first rule children) (.branch second other others) := by
  obtain ⟨length, each⟩ := forall₂_iff_each.mp below
  exact .branch name running memory length each

theorem Alike.name {first second : Node} (alike : Alike first second) :
    first.name = second.name := by
  cases alike <;> assumption

theorem Alike.running {first second : Node} (alike : Alike first second) :
    first.isRunning = second.isRunning := by
  rw [Bool.eq_iff_iff, is_running_iff, is_running_iff]
  cases alike <;> assumption

theorem length_of_lookup {children results : List Node} {change : Nat → Node → Node}
    (known : ∀ index : Nat, results[index]? = children[index]?.map (change index)) :
    results.length = children.length := by
  have same : ∀ index, results.length ≤ index ↔ children.length ≤ index := by
    intro index
    rw [← List.getElem?_eq_none_iff, known, Option.map_eq_none_iff, List.getElem?_eq_none_iff]
  exact Nat.le_antisymm ((same _).mpr (Nat.le_refl _)) ((same _).mp (Nat.le_refl _))

/-- Children that are treated alike one by one are alike again. -/
theorem forall₂_of_lookup {children others results ends : List Node}
    (length : children.length = others.length) {change altered : Nat → Node → Node}
    (left : ∀ index : Nat, results[index]? = children[index]?.map (change index))
    (right : ∀ index : Nat, ends[index]? = others[index]?.map (altered index))
    (each : ∀ (index : Nat) child other, children[index]? = some child →
      others[index]? = some other → Alike (change index child) (altered index other)) :
    List.Forall₂ Alike results ends := by
  rw [forall₂_iff_each]
  constructor
  · rw [length_of_lookup left, length_of_lookup right]
    exact length
  · intro index result final known found
    rw [left, Option.map_eq_some_iff] at known
    rw [right, Option.map_eq_some_iff] at found
    obtain ⟨child, own, rfl⟩ := known
    obtain ⟨other, opposite, rfl⟩ := found
    exact each index child other own opposite

/-! Halting. -/

theorem initialise_terminate (rule : Rule) : rule.terminate.initialise = rule.initialise := by
  cases rule <;> rfl

theorem halted_rule_initialise (status : Status) (rule : Rule) :
    (haltedRule status rule).initialise = rule.initialise := by
  unfold haltedRule
  split
  · exact initialise_terminate rule
  · rfl

/-- Whether a branch goes into a tick by going on or by starting anew, its rule is the same once
it was initialised. -/
theorem at_entry_initialise (status : Status) (rule : Rule) :
    (rule.atEntry status).initialise = rule.initialise := by
  unfold Rule.atEntry
  split
  · rfl
  · cases rule with
    | reactive flow | memory flow index | checkAndDo => rfl
    | parallel policy synchronise settled =>
        simp only [Rule.initialise, List.map_map]
        rfl

theorem Alike.halt {first second : Node} (alike : Alike first second) :
    Alike first.halt.node second.halt.node := by
  induction alike with
  | leaf content name running => exact .leaf content name Iff.rfl
  | @branch first second rule other children others name running memory length below induction =>
      rw [halt_branch, halt_branch]
      refine Alike.of_children name Iff.rfl ?_ ?_
      · have same := congrArg Rule.initialise memory
        rw [at_entry_initialise, at_entry_initialise] at same
        simp [Rule.atEntry, halted_rule_initialise, same]
      · apply forall₂_of_lookup length (fun index => List.getElem?_map)
          (fun index => List.getElem?_map)
        exact induction

theorem Alike.stilled {first second : Node} (alike : Alike first second) :
    Alike first.stilled second.stilled := by
  unfold Node.stilled
  rw [alike.running]
  split
  · exact alike.halt
  · exact alike

theorem Alike.concluded {first second : Node} (alike : Alike first second) (answer : Status) :
    Alike (concluded answer first) (concluded answer second) := by
  unfold Node.concluded
  split
  · exact alike
  · exact alike.stilled

theorem map_eq_of_each {Item : Type} {children others : List Node}
    (length : children.length = others.length) {first second : Node → Item}
    (each : ∀ (index : Nat) left right, children[index]? = some left →
      others[index]? = some right → first left = second right) :
    children.map first = others.map second := by
  have rows : List.Forall₂ (fun left right => first left = second right) children others :=
    forall₂_iff_each.mpr ⟨length, each⟩
  clear length each
  induction rows with
  | nil => rfl
  | cons own _ induction => rw [List.map_cons, List.map_cons, own, induction]

theorem Halted.in_order_eq (halted : List Halted) :
    Halted.inOrder halted =
      (halted.map fun each => (each.calls, each.wasRunning)).flatMap (·.1) := by
  rw [Halted.inOrder, List.flatMap_map]

theorem Halted.in_rounds_eq (halted : List Halted) :
    Halted.inRounds halted =
      ((halted.map fun each => (each.calls, each.wasRunning)).filter (·.2)).flatMap (·.1) ++
        ((halted.map fun each => (each.calls, each.wasRunning)).filter (!·.2)).flatMap
          (·.1) := by
  rw [Halted.inRounds, List.filter_map, List.filter_map, List.flatMap_map, List.flatMap_map]
  rfl

/-- Halting such trees calls the same. -/
theorem Alike.halt_calls {first second : Node} (alike : Alike first second) :
    first.halt.calls = second.halt.calls := by
  induction alike with
  | leaf content name running => simp [Node.halt, name, running]
  | @branch first second rule other children others name running memory length below induction =>
      have pairs : (haltAll children).map (fun halted => (halted.calls, halted.wasRunning)) =
          (haltAll others).map fun halted => (halted.calls, halted.wasRunning) := by
        rw [halt_all_eq_map, halt_all_eq_map, List.map_map, List.map_map]
        apply map_eq_of_each length
        intro index left right own opposite
        apply Prod.ext
        · exact induction index left right own opposite
        · dsimp only [Function.comp_apply]
          rw [halt_was_running, halt_was_running]
          exact (below index left right own opposite).running
      rw [Node.halt, Node.halt]
      simp only [running, Halted.in_order_eq, Halted.in_rounds_eq, pairs]
      split <;> rfl

theorem halt_running_calls (children : List Node) :
    (haltRunning children).2 =
      (children.map fun child => if child.isRunning then child.halt.calls else []).flatten := by
  induction children with
  | nil => rfl
  | cons child rest induction =>
      rw [List.map_cons, List.flatten_cons, ← induction, haltRunning]
      cases child.isRunning <;> rfl

theorem halt_running_calls_alike {children others : List Node}
    (alike : List.Forall₂ Alike children others) :
    (haltRunning children).2 = (haltRunning others).2 := by
  obtain ⟨length, each⟩ := forall₂_iff_each.mp alike
  rw [halt_running_calls, halt_running_calls]
  congr 1
  apply map_eq_of_each length
  intro index left right own opposite
  have same := each index left right own opposite
  rw [same.running, same.halt_calls]

/-! Ticking. -/

variable (surroundings : Surroundings)

/-- Ticks of two nodes that record the same and come to the same answer. -/
structure SameTick (first second : Node) : Prop where
  journal : (tick surroundings first).journal = (tick surroundings second).journal
  answer : answer surroundings first = answer surroundings second

theorem sweep_same {onward : Status} {children others : List Node}
    (same : List.Forall₂ (SameTick surroundings) children others) (skip : Nat) :
    (sweep surroundings onward skip children).passed =
        (sweep surroundings onward skip others).passed ∧
      (sweep surroundings onward skip children).verdict =
        (sweep surroundings onward skip others).verdict ∧
      (sweep surroundings onward skip children).journal =
        (sweep surroundings onward skip others).journal := by
  induction same generalizing skip with
  | nil => exact ⟨rfl, rfl, rfl⟩
  | cons own _ induction =>
      cases skip with
      | succ skip =>
          rw [sweep, sweep]
          exact induction skip
      | zero =>
          obtain ⟨passed, verdict, journal⟩ := induction 0
          have answered := own.answer
          unfold answer at answered
          rw [sweep, sweep, answered]
          split
          · exact ⟨congrArg (· + 1) passed, verdict, congrArg₂ (· ++ ·) own.journal journal⟩
          · exact ⟨rfl, rfl, own.journal⟩

theorem gather_same {synchronise : Bool} {children others : List Node}
    (same : List.Forall₂ (SameTick surroundings) children others) (settled : List Bool) :
    (gather surroundings synchronise settled children).answers =
        (gather surroundings synchronise settled others).answers ∧
      (gather surroundings synchronise settled children).journal =
        (gather surroundings synchronise settled others).journal := by
  induction same generalizing settled with
  | nil => exact ⟨by simp [gather], by simp [gather]⟩
  | cons own _ induction =>
      cases settled with
      | nil => exact ⟨rfl, rfl⟩
      | cons done settled =>
          obtain ⟨answers, journal⟩ := induction settled
          rw [gather, gather]
          split
          · exact ⟨congrArg (Status.success :: ·) answers, journal⟩
          · exact ⟨congrArg₂ List.cons own.answer answers,
              congrArg₂ (· ++ ·) own.journal journal⟩

theorem Alike.treated {first second : Node} (alike : Alike first second)
    (ticked : Alike (tick surroundings first).node (tick surroundings second).node)
    (treatment : Treatment) :
    Alike (treated surroundings treatment first) (treated surroundings treatment second) := by
  cases treatment with
  | ticked => exact ticked
  | stopped => exact alike.stilled
  | rested => exact alike

theorem decide_reactive_journal (rule : Rule) (flow : Flow) (swept : Swept) :
    (decideReactive rule flow swept).journal =
      match swept.verdict with
      | none => swept.journal
      | some _ =>
          swept.journal ++
            { calls := (haltRunning (swept.children.drop (swept.passed + 1))).2 } := by
  unfold decideReactive
  cases swept.verdict <;> rfl

section Decisions

variable {children others : List Node}
  (same : List.Forall₂ (SameTick surroundings) children others)
  (alike : List.Forall₂ Alike children others)
  (ticked : ∀ (index : Nat) left right, children[index]? = some left →
    others[index]? = some right →
      Alike (tick surroundings left).node (tick surroundings right).node)

include same

theorem treatment_same (rule : Rule) :
    treatment surroundings rule children = treatment surroundings rule others := by
  funext index
  cases rule with
  | reactive flow => simp only [treatment, (sweep_same surroundings same 0).1]
  | memory flow start => simp only [treatment, (sweep_same surroundings same start).1]
  | parallel policy synchronise settled => rfl
  | checkAndDo => simp only [treatment, (sweep_same surroundings same 0).1]

theorem decision_status_same (rule : Rule) :
    (decision surroundings rule children).status = (decision surroundings rule others).status := by
  cases rule with
  | reactive flow =>
      rw [decision, decision, reactive_status, reactive_status,
        (sweep_same surroundings same 0).2.1]
  | memory flow start =>
      simp only [decision, decideMemory, (sweep_same surroundings same start).2.1]
  | parallel policy synchronise settled =>
      simp only [decision, decideParallel, (gather_same surroundings same settled).1]
  | checkAndDo =>
      rw [decision, decision, reactive_status, reactive_status,
        (sweep_same surroundings same 0).2.1]

theorem decision_rule_same (rule : Rule) :
    (decision surroundings rule children).rule = (decision surroundings rule others).rule := by
  cases rule with
  | reactive flow => rw [decision, decision, reactive_rule, reactive_rule]
  | memory flow start =>
      simp only [decision, decideMemory, (sweep_same surroundings same start).1]
  | parallel policy synchronise settled =>
      simp only [decision, decideParallel, (gather_same surroundings same settled).1]
  | checkAndDo => rw [decision, decision, reactive_rule, reactive_rule]

include alike ticked

theorem decision_children_alike (rule : Rule) :
    List.Forall₂ Alike (decision surroundings rule children).children
      (decision surroundings rule others).children := by
  obtain ⟨length, each⟩ := forall₂_iff_each.mp alike
  apply forall₂_of_lookup length (decision_children surroundings rule children)
    (decision_children surroundings rule others)
  intro index left right own opposite
  rw [treatment_same surroundings same rule]
  exact (each index left right own opposite).treated surroundings
    (ticked index left right own opposite) _

/-- The calls of a row without memory include those to the children behind the deciding one. -/
theorem reactive_journal_same (rule : Rule) (flow : Flow) :
    (decideReactive rule flow (sweep surroundings flow.onward 0 children)).journal =
      (decideReactive rule flow (sweep surroundings flow.onward 0 others)).journal := by
  obtain ⟨length, each⟩ := forall₂_iff_each.mp alike
  obtain ⟨passed, verdict, journal⟩ := sweep_same surroundings same 0
  have swept : List.Forall₂ Alike (sweep surroundings flow.onward 0 children).children
      (sweep surroundings flow.onward 0 others).children := by
    apply forall₂_of_lookup length (sweep_children surroundings flow.onward 0 children)
      (sweep_children surroundings flow.onward 0 others)
    intro index left right own opposite
    rw [passed]
    exact (each index left right own opposite).treated surroundings
      (ticked index left right own opposite) _
  rw [decide_reactive_journal, decide_reactive_journal, passed, verdict, journal,
    halt_running_calls_alike (List.forall₂_drop _ swept)]

theorem decision_journal_same (rule : Rule) :
    (decision surroundings rule children).journal =
      (decision surroundings rule others).journal := by
  cases rule with
  | reactive flow => exact reactive_journal_same surroundings same alike ticked _ flow
  | memory flow start => exact (sweep_same surroundings same start).2.2
  | parallel policy synchronise settled => exact (gather_same surroundings same settled).2
  | checkAndDo => exact reactive_journal_same surroundings same alike ticked _ .selector

end Decisions

theorem conclude_journal (state : NodeState) (decided : Decided) :
    (conclude state decided).journal =
      if decided.status = .running then
        decided.journal ++ { visits := [⟨state.name, decided.status⟩] }
      else
        decided.journal ++ { calls := (haltRunning decided.children).2 } ++
          { visits := [⟨state.name, decided.status⟩] } := by
  unfold conclude
  by_cases running : decided.status = .running
  · rw [if_pos running, if_pos running]
  · rw [if_neg running, if_neg running]

/-- Ticks of such trees record the same, answer the same and leave such trees. -/
theorem Alike.tick {first second : Node} (alike : Alike first second) :
    SameTick surroundings first second ∧
      Alike (tick surroundings first).node (tick surroundings second).node := by
  induction alike with
  | @leaf first second content name running =>
      have entered : (first.status != .running) = (second.status != .running) := by
        rw [Bool.eq_iff_iff, bne_iff_ne, bne_iff_ne, not_iff_not]
        exact running
      refine ⟨⟨?_, ?_⟩, ?_⟩
      · simp only [Node.tick, tickLeaf, name, entered]
      · simp only [answer, Node.tick, tickLeaf, entered]
        rfl
      · simp only [Node.tick, tickLeaf, entered]
        exact .leaf _ name Iff.rfl
  | @branch first second rule other children others name running memory length below induction =>
      have alike := forall₂_iff_each.mpr ⟨length, below⟩
      have same : List.Forall₂ (SameTick surroundings) children others :=
        forall₂_iff_each.mpr ⟨length, fun index left right own opposite =>
          (induction index left right own opposite).1⟩
      have ticked := fun index left right own opposite =>
        (induction index left right own opposite).2
      have status := decision_status_same surroundings same (other.atEntry second.status)
      have ruled := decision_rule_same surroundings same (other.atEntry second.status)
      have journal := decision_journal_same surroundings same alike ticked
        (other.atEntry second.status)
      have left := decision_children_alike surroundings same alike ticked
        (other.atEntry second.status)
      refine ⟨⟨?_, ?_⟩, ?_⟩
      · rw [tick_branch, tick_branch, memory, conclude_journal, conclude_journal, status, journal,
          name, halt_running_calls_alike left]
      · rw [answer_branch, answer_branch, memory, status]
      · rw [tick_branch, tick_branch, memory, conclude_node, conclude_node, status, ruled]
        refine Alike.of_children name ?_ ?_ ?_
        · rw [concludedState, concludedState, status]
        · rw [concludedState, concludedState, status]
        · obtain ⟨count, each⟩ := forall₂_iff_each.mp left
          apply forall₂_of_lookup count (fun index => List.getElem?_map)
            (fun index => List.getElem?_map)
          intro index result final own opposite
          exact (each index result final own opposite).concluded _

end BehaviorTree.Node
