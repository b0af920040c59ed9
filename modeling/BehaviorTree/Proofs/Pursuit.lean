import BehaviorTree.Proofs.Goals
import BehaviorTree.Proofs.Places
import BehaviorTree.Proofs.Ramp
import Mathlib.Logic.Relation

/-!
The pursuit of a target. A ramp stands anywhere in a tree, and the tree, its worker and the store
take their turns in any order. As long as no two cycles of the action are between their check and
the end of their step, the variable rises in steps of the amount and never beyond the step that
reaches the target; from then on it stays, and the check-and-do succeeds without a look at its
action. A worker that is set up while a cycle of the last one goes on can break all of this.
-/

namespace BehaviorTree

open Node

namespace Node

variable (surroundings : Surroundings)

theorem leaf_stilled (state : NodeState) (content : Leaf) :
    ∃ after, (leaf state content).stilled = .leaf after content ∧ after.name = state.name := by
  unfold stilled
  split
  · exact ⟨_, rfl, rfl⟩
  · exact ⟨state, rfl, rfl⟩

theorem leaf_concluded (answer : Status) (state : NodeState) (content : Leaf) :
    ∃ after, concluded answer (.leaf state content) = .leaf after content ∧
      after.name = state.name := by
  unfold concluded
  split
  · exact ⟨state, rfl, rfl⟩
  · exact leaf_stilled state content

theorem leaf_ticked (state : NodeState) (content : Leaf) :
    ∃ after, (tick surroundings (.leaf state content)).node =
        .leaf after (contentAfter surroundings true state.status content) ∧
      after.name = state.name := by
  refine ⟨(tickLeaf surroundings state content).node.state, ?_, rfl⟩
  by_cases running : state.status = .running
  · simp [tick, tickLeaf, contentAfter, running, Node.state]
  · simp [tick, tickLeaf, contentAfter, running, Node.state]

/-- What a tick leaves of a leaf, whatever becomes of it. -/
theorem leaf_after_treatment (answer : Status) (treatment : Treatment) (state : NodeState)
    (content : Leaf) :
    ∃ (after : NodeState) (seen : Bool),
      concluded answer (treated surroundings treatment (.leaf state content)) =
          .leaf after (contentAfter surroundings seen state.status content) ∧
        after.name = state.name := by
  cases treatment with
  | ticked =>
      obtain ⟨own, ticks, named⟩ := leaf_ticked surroundings state content
      obtain ⟨after, concludes, kept⟩ :=
        leaf_concluded answer own (contentAfter surroundings true state.status content)
      exact ⟨after, true, by rw [treated, ticks, concludes], kept.trans named⟩
  | stopped =>
      obtain ⟨own, stills, named⟩ := leaf_stilled state content
      obtain ⟨after, concludes, kept⟩ := leaf_concluded answer own content
      exact ⟨after, false, by rw [treated, stills, concludes]; rfl, kept.trans named⟩
  | rested =>
      obtain ⟨after, concludes, kept⟩ := leaf_concluded answer state content
      exact ⟨after, false, concludes, kept⟩

/-- A check that succeeds is all that a check-and-do ticks. -/
theorem tick_of_goal_met {check : Node} (met : answer surroundings check = .success)
    (own : NodeState) (act : Node) :
    (tick surroundings (.branch own .checkAndDo [check, act])).node.status = .success ∧
      (tick surroundings (.branch own .checkAndDo [check, act])).node.state.message =
        "Goal already met" ∧
      (tick surroundings (.branch own .checkAndDo [check, act])).journal.visits =
        (tick surroundings check).journal.visits ++ [⟨own.name, .success⟩] ∧
      visited surroundings [1] (.branch own .checkAndDo [check, act]) = false := by
  have result : answer surroundings (.checkAndDo own check act) = .success := by
    rw [check_and_do_answer, met]
    rfl
  have message := check_and_do_message surroundings own check act
  obtain ⟨ticks, passes⟩ := check_and_do_treats surroundings check act
  rw [met] at passes
  have untouched : treatment surroundings .checkAndDo [check, act] 1 ≠ .ticked :=
    mt passes.mp (by decide)
  refine ⟨result, ?_, ?_, ?_⟩
  · rw [met, result] at message
    exact message
  · rw [Node.checkAndDo, answer_branch, check_and_do_entry] at result
    rw [tick_branch, check_and_do_entry, conclude_visits, decision_visits, result]
    simp [visitsBelow, ticks, untouched]
  · rw [visited_branch surroundings own .checkAndDo rfl [], check_and_do_entry,
      decide_eq_false untouched]
    rfl

/-- What a node does not visit of its own is not visited in a tick of the whole tree. -/
theorem unvisited_below {node sub : Node} {upper lower : Path} (found : node.at? upper = some sub)
    (unseen : visited surroundings lower sub = false) :
    visited surroundings (upper ++ lower) node = false := by
  rw [visited_append surroundings found, unseen, Bool.and_false]

end Node

namespace Ramp

/-- A check-and-do of the ramp with that action, whatever its nodes show. -/
inductive Shows (ramp : Ramp) (action : Action) : Node → Prop
  | intro (own first second : NodeState) (named : own.name = ramp.label.name)
      (checkNamed : first.name = ramp.checkLabel.name)
      (actNamed : second.name = ramp.actLabel.name) :
      Shows ramp action
        (.branch own .checkAndDo
          [.leaf first (.condition (.reading ramp.check)), .leaf second (.action action)])

variable {ramp : Ramp} {timing : Timing}

theorem shows_plan (ramp : Ramp) (timing : Timing) :
    ramp.Shows { work := ramp.work timing } (ramp.plan.node timing) :=
  .intro _ _ _ rfl rfl rfl

theorem Shows.halt {action : Action} {node : Node} (shows : ramp.Shows action node) :
    ramp.Shows action node.halt.node := by
  obtain ⟨own, first, second, named, checkNamed, actNamed⟩ := shows
  rw [halt_branch, check_and_do_halted]
  exact .intro _ _ _ named checkNamed actNamed

theorem Shows.halt_below {action : Action} {node after : Node} (shows : ramp.Shows action node)
    {name : String} (modified : node.modify? name (·.halt.node) = some after) :
    ramp.Shows action after := by
  have whole := shows.halt
  obtain ⟨own, first, second, named, checkNamed, actNamed⟩ := shows
  rw [modify?] at modified
  split at modified
  · cases modified
    exact whole
  · simp only [modifyIn?, modify?] at modified
    split at modified
    next changed here =>
      split at here
      · cases here
        cases modified
        exact .intro _ _ _ named checkNamed actNamed
      · cases here
    next =>
      split at modified
      next changed here =>
        split at here
        · cases here
          cases modified
          exact .intro _ _ _ named checkNamed actNamed
        · cases here
      next => cases modified

theorem Shows.setup {action : Action} {node : Node} (shows : ramp.Shows action node) :
    ramp.Shows ((action.setup ramp.actLabel.name).toOption.getD action) node.setup.node := by
  obtain ⟨own, first, second, named, checkNamed, actNamed⟩ := shows
  rw [← actNamed]
  simp only [Node.setup, setupAll, setupLeaf]
  cases action.setup second.name with
  | ok started => exact .intro _ _ _ named checkNamed actNamed
  | error fault => exact .intro _ _ _ named checkNamed actNamed

theorem Shows.shutdown {action : Action} {node : Node} (shows : ramp.Shows action node) :
    ramp.Shows (action.shutdown ramp.actLabel.name) node.shutdown.1 := by
  obtain ⟨own, first, second, named, checkNamed, actNamed⟩ := shows
  rw [← actNamed]
  exact .intro _ _ _ named checkNamed actNamed

theorem Shows.with_leaf {action : Action} {node : Node} (shows : ramp.Shows action node)
    (after : Action) : ramp.Shows after (node.withLeaf (.action after) [1]) := by
  obtain ⟨own, first, second, named, checkNamed, actNamed⟩ := shows
  exact .intro _ _ _ named checkNamed actNamed

theorem Shows.tick {action : Action} {node : Node} (shows : ramp.Shows action node)
    (surroundings : Surroundings) :
    ∃ after, ramp.Shows after (node.tick surroundings).node ∧
      (after = action ∨ after = action.initialise) := by
  obtain ⟨own, first, second, named, checkNamed, actNamed⟩ := shows
  obtain ⟨state, answer, one, other, after, stateNamed⟩ := check_and_do_after_tick surroundings own
    (.leaf first (.condition (.reading ramp.check))) (.leaf second (.action action))
  obtain ⟨check, checked, checkAfter, checkKept⟩ := leaf_after_treatment surroundings answer one
    first (.condition (.reading ramp.check))
  obtain ⟨act, seen, actAfter, actKept⟩ := leaf_after_treatment surroundings answer other second
    (.action action)
  have sameCheck : contentAfter surroundings checked first.status
      (.condition (.reading ramp.check)) = .condition (.reading ramp.check) := by
    unfold contentAfter
    split
    · split <;> rfl
    · rfl
  have sameAct : ∃ later, contentAfter surroundings seen second.status (.action action) =
      .action later ∧ (later = action ∨ later = action.initialise) := by
    unfold contentAfter
    split
    · split
      · exact ⟨action, rfl, .inl rfl⟩
      · exact ⟨action.initialise, rfl, .inr rfl⟩
    · exact ⟨action, rfl, .inl rfl⟩
  obtain ⟨later, acts, known⟩ := sameAct
  refine ⟨later, ?_, known⟩
  rw [after, checkAfter, actAfter, sameCheck, acts]
  exact .intro _ _ _ (stateNamed.trans named) (checkKept.trans checkNamed)
    (actKept.trans actNamed)

/-- From the target on a tick succeeds without its action. -/
theorem Shows.tick_reached {action : Action} {node : Node} (shows : ramp.Shows action node)
    (surroundings : Surroundings) (reached : ramp.check.holds surroundings.store = true) :
    (node.tick surroundings).node.status = .success ∧
      (node.tick surroundings).node.state.message = "Goal already met" ∧
      (node.tick surroundings).journal.visits =
        [⟨ramp.checkLabel.name, .success⟩, ⟨ramp.label.name, .success⟩] ∧
      visited surroundings [1] node = false := by
  obtain ⟨own, first, second, named, checkNamed, actNamed⟩ := shows
  have seen : Node.tick surroundings (.leaf first (.condition (.reading ramp.check))) =
      { node := .leaf { first with status := .success } (.condition (.reading ramp.check))
        journal := { visits := [⟨ramp.checkLabel.name, .success⟩] } } := by
    simp [Node.tick, tickLeaf, Leaf.update, reached, Leaf.initialise, Status.ofBool, checkNamed,
      Leaf.calls, Leaf.message]
  have met : answer surroundings (.leaf first (.condition (.reading ramp.check))) = .success := by
    rw [answer, seen]
    rfl
  have goal := tick_of_goal_met surroundings met own (.leaf second (.action action))
  rw [seen, named] at goal
  exact goal

end Ramp

/-- A write of a worker, with what the variable read before. -/
structure Stroke where
  pv : String
  before : Except StoreFault Value
  after : Value

def Ramp.FromBelow (ramp : Ramp) (stroke : Stroke) : Prop :=
  stroke.pv = ramp.pv ∧ ∃ before after : Int64,
    stroke.before = .ok (.int before) ∧ before < ramp.target ∧
      stroke.after = .int after ∧ after.toInt = before.toInt + ramp.amount.toInt

/-- The write of a turn, if there was one. -/
def Stroke.ofWrite (store : Store) (write : Option (String × Value)) : List Stroke :=
  write.toList.map fun (pv, value) => ⟨pv, store.read pv, value⟩

@[simp] theorem Stroke.of_no_write (store : Store) : ofWrite store none = [] := rfl

@[simp] theorem Stroke.of_one_write (store : Store) (pv : String) (value : Value) :
    ofWrite store (some (pv, value)) = [⟨pv, store.read pv, value⟩] := rfl

theorem Stroke.of_write_pairs (store : Store) (write : Option (String × Value)) :
    (ofWrite store write).map (fun stroke => (stroke.pv, stroke.after)) = write.toList := by
  cases write <;> rfl

/-- A tree and the variables, with what the steps of the action at one position mean to write and
what they wrote so far. -/
structure Pursuit where
  root : Node
  store : Store
  intents : List Work.Intent := []
  strokes : List Stroke := []

namespace Pursuit

/-- The action with the variables, where it is about its work. -/
def site (pursuit : Pursuit) (action : Action) : Worksite :=
  { action, store := pursuit.store, intents := pursuit.intents }

/-- After a turn of the worker below `path`. -/
def worked (pursuit : Pursuit) (path : Path) (after : Worksite) (strokes : List Stroke) :
    Pursuit where
  root := pursuit.root.withLeaf (.action after.action) (path ++ [1])
  store := after.store
  intents := after.intents
  strokes := pursuit.strokes ++ strokes

@[simp] theorem worked_strokes (pursuit : Pursuit) (path : Path) (after : Worksite)
    (strokes : List Stroke) :
    (pursuit.worked path after strokes).strokes = pursuit.strokes ++ strokes := rfl

theorem worked_worked (pursuit : Pursuit) (path : Path) (middle after : Worksite)
    (early late : List Stroke) :
    (pursuit.worked path middle early).worked path after late =
      pursuit.worked path after (early ++ late) := by
  simp only [worked, with_leaf_twice, List.append_assoc]

theorem worked_same {pursuit : Pursuit} {path : Path} {state : NodeState} {action : Action}
    (found : pursuit.root.at? (path ++ [1]) = some (.leaf state (.action action))) :
    pursuit.worked path (pursuit.site action) [] = pursuit := by
  simp only [worked, site, with_leaf_same found, List.append_nil]

/-- What can come next while nobody but the action below `path` writes the variable, and it always
answers. -/
inductive Next (pv : String) (path : Path) (pursuit : Pursuit) : Pursuit → Prop
  | tick (number : Nat) :
      Next pv path pursuit
        { pursuit with root := (pursuit.root.tick ⟨number, pursuit.store⟩).node }
  | halt : Next pv path pursuit { pursuit with root := pursuit.root.halt.node }
  | haltNamed (name : String) {root : Node}
      (halted : pursuit.root.modify? name (·.halt.node) = some root) :
      Next pv path pursuit { pursuit with root }
  | setup : Next pv path pursuit { pursuit with root := pursuit.root.setup.node }
  | shutdown : Next pv path pursuit { pursuit with root := pursuit.root.shutdown.1 }
  | works {state : NodeState} {action : Action} {after : Worksite}
      {write : Option (String × Value)}
      (found : pursuit.root.at? (path ++ [1]) = some (.leaf state (.action action)))
      (works : Works state.name (pursuit.site action) after write) :
      Next pv path pursuit (pursuit.worked path after (Stroke.ofWrite pursuit.store write))
  | elsewhere {root : Node} {store : Store} (apart : root.at? path = pursuit.root.at? path)
      (untouched : store.read pv = pursuit.store.read pv) :
      Next pv path pursuit { pursuit with root, store }

def Leads (pv : String) (path : Path) : Pursuit → Pursuit → Prop :=
  Relation.ReflTransGen (Next pv path)

/-- No two cycles of the action below `path` are between their check and the end of their step. -/
def Lone (path : Path) (pursuit : Pursuit) : Prop :=
  ∀ (state : NodeState) (action : Action),
    pursuit.root.at? (path ++ [1]) = some (.leaf state (.action action)) → action.stepping ≤ 1

/-- A run in which this is so whenever something comes next. -/
def LeadsAlone (pv : String) (path : Path) : Pursuit → Pursuit → Prop :=
  Relation.ReflTransGen fun before after => before.Lone path ∧ Next pv path before after

/-! An action whose worker never let go of a cycle is never disturbed. -/

theorem lone_of_alone {pursuit : Pursuit} {path : Path} {state : NodeState} {action : Action}
    (found : pursuit.root.at? (path ++ [1]) = some (.leaf state (.action action)))
    (alone : action.detached = []) : pursuit.Lone path := by
  intro own act here
  cases found.symm.trans here
  exact Action.stepping_of_alone alone

/-- One turn of the worker after others. -/
theorem next_of_works (pv : String) {path : Path} {pursuit : Pursuit} {state : NodeState}
    {own : Action}
    (found : pursuit.root.at? (path ++ [1]) = some (.leaf state (.action own)))
    {site after : Worksite} {write : Option (String × Value)}
    (works : Works state.name site after write) (strokes : List Stroke) :
    Next pv path (pursuit.worked path site strokes)
      (pursuit.worked path after (strokes ++ Stroke.ofWrite site.store write)) := by
  have here := at_with_leaf_self found (.action site.action)
  have next : Next pv path (pursuit.worked path site strokes) _ := .works here works
  rwa [worked_worked] at next

theorem Leads.works {pv : String} {path : Path} {start pursuit : Pursuit} {state : NodeState}
    {own : Action}
    (found : pursuit.root.at? (path ++ [1]) = some (.leaf state (.action own)))
    {site after : Worksite} {strokes : List Stroke} {write : Option (String × Value)}
    (run : Leads pv path start (pursuit.worked path site strokes))
    (works : Works state.name site after write) :
    Leads pv path start
      (pursuit.worked path after (strokes ++ Stroke.ofWrite site.store write)) :=
  run.tail (next_of_works pv found works strokes)

theorem LeadsAlone.works {pv : String} {path : Path} {start pursuit : Pursuit}
    {state : NodeState} {own : Action}
    (found : pursuit.root.at? (path ++ [1]) = some (.leaf state (.action own)))
    {site after : Worksite} {strokes : List Stroke} {write : Option (String × Value)}
    (run : LeadsAlone pv path start (pursuit.worked path site strokes))
    (alone : site.action.detached = []) (works : Works state.name site after write) :
    LeadsAlone pv path start
      (pursuit.worked path after (strokes ++ Stroke.ofWrite site.store write)) := by
  have here := at_with_leaf_self found (.action site.action)
  exact run.tail ⟨lone_of_alone here alone, next_of_works pv found works strokes⟩

/-- Handing an answer of the variables to such an action is a turn of its worker, after the reading
if a step is answered, and before the next cycle if a gate that was set meanwhile starts it. -/
theorem LeadsAlone.resume {pv : String} {path : Path} {start pursuit : Pursuit}
    {state : NodeState} {own action : Action} {store : Store} {strokes : List Stroke}
    (found : pursuit.root.at? (path ++ [1]) = some (.leaf state (.action own)))
    (run : LeadsAlone pv path start (pursuit.worked path { action, store } strokes))
    (alone : action.detached = []) {cycle : Cycle} {outcome : Work.Outcome}
    (current : action.current? = some cycle)
    (answered : action.work.outcome cycle.point store = some outcome) :
    (action.resume state.name outcome.answer).1.detached = [] ∧
      LeadsAlone pv path start
        (pursuit.worked path
          { action := (action.resume state.name outcome.answer).1, store := outcome.store }
          (strokes ++ Stroke.ofWrite store outcome.write)) := by
  have busy : action.engagement = .busy cycle := by
    unfold Action.current? at current
    rw [alone] at current
    split at current
    next own busy =>
      cases current
      exact busy
    next none _ => cases none
    next => cases current
  let held : Action := (Action.advance state.name action cycle.attempt
    (cycle.resume action.work outcome.answer)).held.action
  have still : held.detached = [] := (Action.advance_detached ..).trans alone
  have turned : LeadsAlone pv path start
      (pursuit.worked path { action := held, store := outcome.store }
        (strokes ++ Stroke.ofWrite store outcome.write)) := by
    by_cases steps : cycle.point = .step
    · have one : 0 < action.stepping := by
        rw [Action.stepping_of_busy busy, Cycle.stepping_of_step steps]
        exact Nat.lt_add_right _ Nat.one_pos
      rw [steps] at answered
      have reads : Works state.name { action, store }
          { action, store, intents := [action.work.written store] } none := .read one
      have writes : Works state.name { action, store, intents := [action.work.written store] }
          { action := held, store := outcome.store } outcome.write :=
        .held busy (.write steps (.refl _) answered)
      have read := LeadsAlone.works found run alone reads
      rw [Stroke.of_no_write, List.append_nil] at read
      exact LeadsAlone.works found read alone writes
    · exact LeadsAlone.works found run alone (.held busy (.check steps answered))
  rw [Action.resume_of_busy busy, Action.wake]
  split
  next begun begins =>
    obtain ⟨taken, took, rfl⟩ := Option.map_eq_some_iff.mp begins
    obtain ⟨idle, -, rfl⟩ := Action.take_signal_eq_some took
    have takes := LeadsAlone.works found turned still (.take took)
    have enters := LeadsAlone.works found takes still (.enter held.cell.attempt idle)
    simp only [Stroke.of_no_write, List.append_nil] at enters
    exact ⟨(Action.advance_detached ..).trans still, enters⟩
  next => exact ⟨still, turned⟩

/-- Such an action that is left to settle on the variables takes turns, one cycle after the
other. -/
theorem leads_of_settle {pv : String} {path : Path} {start pursuit : Pursuit}
    {state : NodeState} {own : Action}
    (found : pursuit.root.at? (path ++ [1]) = some (.leaf state (.action own))) (fuel : Nat)
    {settling : Action.Settling} {strokes : List Stroke}
    (run : LeadsAlone pv path start
      (pursuit.worked path { action := settling.action, store := settling.store } strokes))
    (alone : settling.action.detached = []) :
    ∃ more, LeadsAlone pv path start
        (pursuit.worked path
          { action := (Action.settleWithin state.name fuel settling).action
            store := (Action.settleWithin state.name fuel settling).store }
          (strokes ++ more)) ∧
      (Action.settleWithin state.name fuel settling).writes =
        settling.writes ++ more.map fun stroke => (stroke.pv, stroke.after) := by
  induction fuel generalizing settling strokes with
  | zero => exact ⟨[], by rwa [List.append_nil], (List.append_nil _).symm⟩
  | succ fuel ih =>
      rw [Action.settleWithin]
      split
      next => exact ⟨[], by rwa [List.append_nil], (List.append_nil _).symm⟩
      next cycle current =>
        split
        next => exact ⟨[], by rwa [List.append_nil], (List.append_nil _).symm⟩
        next outcome answered =>
          obtain ⟨still, first⟩ := LeadsAlone.resume found run alone current answered
          cases resumed : settling.action.resume state.name outcome.answer with
          | mk after events =>
              rw [resumed] at first still
              obtain ⟨more, onward, writes⟩ := @ih
                { action := after
                  store := outcome.store
                  events := settling.events ++ events
                  writes := settling.writes ++ outcome.write.toList }
                (strokes ++ Stroke.ofWrite settling.store outcome.write) first still
              refine ⟨Stroke.ofWrite settling.store outcome.write ++ more, ?_, ?_⟩
              · rw [← List.append_assoc]
                exact onward
              · rw [writes, List.map_append, Stroke.of_write_pairs, List.append_assoc]

/-- What is kept in a pursuit that began with an initial value. -/
structure Standing (ramp : Ramp) (timing : Timing) (path : Path) (initial : Int64)
    (pursuit : Pursuit) (action : Action) (value : Int64) : Prop where
  shown : ∃ node, pursuit.root.at? path = some node ∧ ramp.Shows action node
  careful : ramp.Careful timing (pursuit.site action) value
  counted : value.toInt = initial.toInt + pursuit.strokes.length * ramp.amount.toInt
  bounded : initial < ramp.target →
    value.toInt ≤ ramp.target.toInt + ramp.amount.toInt - 1
  fromBelow : ∀ stroke ∈ pursuit.strokes, ramp.FromBelow stroke

variable {ramp : Ramp} {timing : Timing} {path : Path} {initial : Int64}

theorem Standing.reads {pursuit : Pursuit} {action : Action} {value : Int64}
    (standing : Standing ramp timing path initial pursuit action value) :
    pursuit.store.read ramp.pv = .ok (.int value) := standing.careful.reads

theorem Standing.act {pursuit : Pursuit} {action : Action} {value : Int64}
    (standing : Standing ramp timing path initial pursuit action value) :
    ∃ state : NodeState, state.name = ramp.actLabel.name ∧
      pursuit.root.at? (path ++ [1]) = some (.leaf state (.action action)) := by
  obtain ⟨node, found, own, first, second, named, checkNamed, actNamed⟩ := standing.shown
  refine ⟨second, actNamed, ?_⟩
  rw [at_append, found]
  rfl

/-- Once the target is reached no cycle is about to take a step. -/
theorem Standing.lone_of_reached {pursuit : Pursuit} {action : Action} {value : Int64}
    (standing : Standing ramp timing path initial pursuit action value)
    (reached : ramp.target ≤ value) : pursuit.Lone path := by
  obtain ⟨state, -, here⟩ := standing.act
  intro own act found
  cases here.symm.trans found
  by_cases steps : 0 < action.stepping
  · exact absurd (standing.careful.below steps) (Int64.not_lt.mpr reached)
  · exact Nat.le_succ_of_le (Nat.not_lt.mp steps)

/-- Turns of the tree that keep the action careful keep everything, for they write nothing. -/
theorem Standing.carry {pursuit : Pursuit} {action after : Action} {value : Int64}
    (standing : Standing ramp timing path initial pursuit action value) {root : Node}
    (shown : ∃ node, root.at? path = some node ∧ ramp.Shows after node)
    (careful : ramp.Careful timing (pursuit.site after) value) :
    Standing ramp timing path initial { pursuit with root } after value where
  shown := shown
  careful := careful
  counted := standing.counted
  bounded := standing.bounded
  fromBelow := standing.fromBelow

theorem Standing.tick {pursuit : Pursuit} {action : Action} {value : Int64}
    (standing : Standing ramp timing path initial pursuit action value) (number : Nat) :
    ∃ after, Standing ramp timing path initial
      { pursuit with root := (pursuit.root.tick ⟨number, pursuit.store⟩).node } after value := by
  obtain ⟨node, found, shows⟩ := standing.shown
  have carries : ∃ after, ramp.Shows after
      (carried ⟨number, pursuit.store⟩ path pursuit.root node) ∧
        (after = action ∨ after = action.initialise) := by
    unfold carried
    split
    · exact shows.tick ⟨number, pursuit.store⟩
    · exact ⟨action, shows, .inl rfl⟩
  obtain ⟨after, shown, known⟩ := carries
  have careful : ramp.Careful timing (pursuit.site after) value := by
    rcases known with rfl | rfl
    · exact standing.careful
    · exact standing.careful.frame rfl rfl
  rcases at_tick ⟨number, pursuit.store⟩ found with whole | halted
  · exact ⟨after, standing.carry ⟨_, whole, shown⟩ careful⟩
  · exact ⟨after, standing.carry ⟨_, halted, shown.halt⟩ careful⟩

theorem Standing.halt_named {pursuit : Pursuit} {action : Action} {value : Int64}
    (standing : Standing ramp timing path initial pursuit action value) {name : String}
    {root : Node} (halted : pursuit.root.modify? name (·.halt.node) = some root) :
    Standing ramp timing path initial { pursuit with root } action value := by
  obtain ⟨node, found, shows⟩ := standing.shown
  apply standing.carry _ standing.careful
  rcases at_modify_halt halted found with same | above | ⟨inner, below, moved⟩
  · exact ⟨node, same, shows⟩
  · exact ⟨node.halt.node, above, shows.halt⟩
  · exact ⟨inner, moved, shows.halt_below below⟩

theorem Standing.setup {pursuit : Pursuit} {action : Action} {value : Int64}
    (standing : Standing ramp timing path initial pursuit action value) :
    ∃ after, Standing ramp timing path initial
      { pursuit with root := pursuit.root.setup.node } after value := by
  obtain ⟨node, found, shows⟩ := standing.shown
  rcases at_setup found with prepared | left
  · exact ⟨_, standing.carry ⟨_, prepared, shows.setup⟩ (standing.careful.setup _)⟩
  · exact ⟨action, standing.carry ⟨node, left, shows⟩ standing.careful⟩

/-- A step that was taken from below the target keeps everything. -/
theorem Standing.rise {pursuit : Pursuit} {action : Action} {value later : Int64}
    {after : Worksite} {write : Option (String × Value)}
    (standing : Standing ramp timing path initial pursuit action value)
    (careful : ramp.Careful timing after later) (rise : ramp.Rise value later write) :
    Standing ramp timing path initial
      (pursuit.worked path after (Stroke.ofWrite pursuit.store write)) after.action later := by
  obtain ⟨node, found, shows⟩ := standing.shown
  have shown : ∃ sub, (pursuit.root.withLeaf (.action after.action) (path ++ [1])).at? path =
      some sub ∧ ramp.Shows after.action sub := by
    refine ⟨_, ?_, shows.with_leaf after.action⟩
    rw [at_with_leaf, found]
    rfl
  cases rise with
  | rest =>
      exact
        { shown
          careful
          counted := by simpa using standing.counted
          bounded := standing.bounded
          fromBelow := by simpa using standing.fromBelow }
  | step below added =>
      exact
        { shown
          careful
          counted := by
            rw [added, standing.counted]
            simp only [worked_strokes, Stroke.of_one_write, List.length_append,
              List.length_singleton, Int.natCast_add, Int.add_mul]
            omega
          bounded := by
            intro _
            rw [Int64.lt_iff_toInt_lt] at below
            omega
          fromBelow := by
            intro stroke member
            rcases List.mem_append.mp member with early | late
            · exact standing.fromBelow stroke early
            · obtain rfl := List.mem_singleton.mp late
              exact ⟨rfl, value, later, standing.reads, below, rfl, added⟩ }

theorem Standing.works {pursuit : Pursuit} {action : Action} {after : Worksite} {value : Int64}
    {write : Option (String × Value)} {name : String}
    (standing : Standing ramp timing path initial pursuit action value)
    (lone : action.stepping ≤ 1) (works : Works name (pursuit.site action) after write) :
    ∃ later, Standing ramp timing path initial
        (pursuit.worked path after (Stroke.ofWrite pursuit.store write)) after.action later ∧
      (ramp.target ≤ value → later = value ∧ write = none) := by
  obtain ⟨later, rise, careful⟩ := standing.careful.turn lone works
  refine ⟨later, standing.rise careful rise, fun reached => ?_⟩
  cases rise with
  | rest => exact ⟨rfl, rfl⟩
  | step below added => exact absurd below (Int64.not_lt.mpr reached)

theorem Standing.next {pursuit next : Pursuit} {action : Action} {value : Int64}
    (standing : Standing ramp timing path initial pursuit action value)
    (lone : pursuit.Lone path) (turn : Next ramp.pv path pursuit next) :
    ∃ after later, Standing ramp timing path initial next after later ∧
      (ramp.target ≤ value → later = value ∧ next.strokes = pursuit.strokes) := by
  obtain ⟨node, found, shows⟩ := standing.shown
  obtain ⟨second, -, own⟩ := standing.act
  cases turn with
  | tick number =>
      obtain ⟨after, stands⟩ := standing.tick number
      exact ⟨after, value, stands, fun _ => ⟨rfl, rfl⟩⟩
  | halt =>
      have halted : pursuit.root.halt.node.at? path = some node.halt.node := by
        rw [at_halt, found]
        rfl
      exact ⟨action, value, standing.carry ⟨_, halted, shows.halt⟩ standing.careful,
        fun _ => ⟨rfl, rfl⟩⟩
  | haltNamed name halted => exact ⟨action, value, standing.halt_named halted, fun _ => ⟨rfl, rfl⟩⟩
  | setup =>
      obtain ⟨after, stands⟩ := standing.setup
      exact ⟨after, value, stands, fun _ => ⟨rfl, rfl⟩⟩
  | shutdown =>
      have stopped : pursuit.root.shutdown.1.at? path = some node.shutdown.1 := by
        rw [at_shutdown, found]
        rfl
      exact ⟨_, value, standing.carry ⟨_, stopped, shows.shutdown⟩ (standing.careful.shutdown _),
        fun _ => ⟨rfl, rfl⟩⟩
  | works act works =>
      rw [own] at act
      cases act
      obtain ⟨later, stands, rests⟩ := standing.works (lone _ _ own) works
      refine ⟨_, later, stands, fun reached => ?_⟩
      obtain ⟨same, silent⟩ := rests reached
      exact ⟨same, by rw [silent]; exact List.append_nil _⟩
  | elsewhere apart untouched =>
      exact ⟨action, value,
        { shown := ⟨node, apart.trans found, shows⟩
          careful := { standing.careful with reads := untouched.trans standing.reads }
          counted := standing.counted
          bounded := standing.bounded
          fromBelow := standing.fromBelow }, fun _ => ⟨rfl, rfl⟩⟩

theorem standing_at_first {root : Node} {store : Store}
    (built : root.at? path = some (ramp.plan.node timing))
    (reads : store.read ramp.pv = .ok (.int initial)) :
    Standing ramp timing path initial { root, store } { work := ramp.work timing } initial where
  shown := ⟨_, built, ramp.shows_plan timing⟩
  careful :=
    { works := rfl
      reads
      below := fun steps => absurd steps (Nat.lt_irrefl 0)
      room := Nat.le_refl 0
      intends := fun _ member => absurd member List.not_mem_nil }
  counted := by simp
  bounded := by
    intro below
    rw [Int64.lt_iff_toInt_lt] at below
    have rises := ramp.rises
    omega
  fromBelow := fun _ member => absurd member List.not_mem_nil

theorem Standing.leads {pursuit later : Pursuit} {action : Action} {value : Int64}
    (standing : Standing ramp timing path initial pursuit action value)
    (run : LeadsAlone ramp.pv path pursuit later) :
    ∃ after last, Standing ramp timing path initial later after last := by
  induction run with
  | refl => exact ⟨action, value, standing⟩
  | tail _ turn ih =>
      obtain ⟨middle, between, stands⟩ := ih
      obtain ⟨after, last, still, -⟩ := stands.next turn.1 turn.2
      exact ⟨after, last, still⟩

/-- From the target on every run is undisturbed, and nothing is written in it. -/
theorem Standing.rests {pursuit later : Pursuit} {action : Action} {value : Int64}
    (standing : Standing ramp timing path initial pursuit action value)
    (reached : ramp.target ≤ value) (run : Leads ramp.pv path pursuit later) :
    later.strokes = pursuit.strokes ∧
      ∃ after, Standing ramp timing path initial later after value := by
  induction run with
  | refl => exact ⟨rfl, action, standing⟩
  | tail _ turn ih =>
      obtain ⟨silent, middle, stands⟩ := ih
      obtain ⟨after, last, still, kept⟩ := stands.next (stands.lone_of_reached reached) turn
      obtain ⟨rfl, quiet⟩ := kept reached
      exact ⟨quiet.trans silent, after, still⟩

/-- From the target on every tick of the check-and-do succeeds without visiting its action. -/
theorem Standing.succeeds {pursuit : Pursuit} {action : Action} {value : Int64}
    (standing : Standing ramp timing path initial pursuit action value)
    (reached : ramp.target ≤ value) :
    ∃ node, pursuit.root.at? path = some node ∧ ∀ number,
      (node.tick ⟨number, pursuit.store⟩).node.status = .success ∧
      (node.tick ⟨number, pursuit.store⟩).node.state.message = "Goal already met" ∧
      (node.tick ⟨number, pursuit.store⟩).journal.visits =
        [⟨ramp.checkLabel.name, .success⟩, ⟨ramp.label.name, .success⟩] ∧
      visited ⟨number, pursuit.store⟩ (path ++ [1]) pursuit.root = false := by
  obtain ⟨node, found, shows⟩ := standing.shown
  refine ⟨node, found, fun number => ?_⟩
  have holds : ramp.check.holds pursuit.store = true := by
    rw [Check.holds, Ramp.check_reads standing.reads]
    exact decide_eq_true reached
  obtain ⟨succeeds, message, visits, unseen⟩ := shows.tick_reached ⟨number, pursuit.store⟩ holds
  exact ⟨succeeds, message, visits, unvisited_below ⟨number, pursuit.store⟩ found unseen⟩

/-- In a run where no two cycles of the action are ever between their check and the end of their
step, the variable is an integer that has risen by the amount in every step; each step was taken
from below the target, so a variable that began there overshoots by less than a step. Once the
target is reached nothing is written any more, in any run, and every tick of the check-and-do
succeeds without visiting its action. -/
theorem target_while_alone {root : Node} {store : Store}
    (built : root.at? path = some (ramp.plan.node timing))
    (reads : store.read ramp.pv = .ok (.int initial)) {pursuit : Pursuit}
    (run : LeadsAlone ramp.pv path { root, store } pursuit) :
    ∃ value : Int64, pursuit.store.read ramp.pv = .ok (.int value) ∧
      value.toInt = initial.toInt + pursuit.strokes.length * ramp.amount.toInt ∧
      (initial < ramp.target →
        value.toInt ≤ ramp.target.toInt + ramp.amount.toInt - 1) ∧
      (∀ stroke ∈ pursuit.strokes, ramp.FromBelow stroke) ∧
      (ramp.target ≤ value → ∀ later, Leads ramp.pv path pursuit later →
        later.strokes = pursuit.strokes ∧ later.store.read ramp.pv = .ok (.int value) ∧
          ∃ node, later.root.at? path = some node ∧ ∀ number,
            (node.tick ⟨number, later.store⟩).node.status = .success ∧
            (node.tick ⟨number, later.store⟩).node.state.message = "Goal already met" ∧
            (node.tick ⟨number, later.store⟩).journal.visits =
              [⟨ramp.checkLabel.name, .success⟩, ⟨ramp.label.name, .success⟩] ∧
            visited ⟨number, later.store⟩ (path ++ [1]) later.root = false) := by
  obtain ⟨action, value, standing⟩ := (standing_at_first built reads).leads run
  refine ⟨value, standing.reads, standing.counted, standing.bounded, standing.fromBelow, ?_⟩
  intro reached later more
  obtain ⟨silent, after, still⟩ := standing.rests reached more
  exact ⟨silent, still.reads, still.succeeds reached⟩

def climb : Ramp where
  label := { name := "climb" }
  checkLabel := { name := "high" }
  actLabel := { name := "step" }
  pv := "height"
  target := 5
  amount := 2
  rises := by decide
  inRange := by decide

def ground : Pursuit := { root := climb.plan.node {}, store := .ofList [("height", .int 0)] }

/-- The climb after it was set up and ticked, with its action at work. -/
def ascent : Pursuit :=
  { ground with root := (ground.root.setup.node.tick ⟨0, ground.store⟩).node }

def climber : Action :=
  Action.initialise { work := climb.work {}, isSetUp := true, engagement := .idle }

/-- The climber in its first cycle. -/
def climbing : Action := (climber.wake "step").1

theorem climb_begins : LeadsAlone climb.pv [] ground
    (ascent.worked [] { action := climbing, store := ascent.store } []) := by
  have resting : ground.root.at? ([] ++ [1]) =
      some (.leaf { name := "step" } (.action { work := climb.work {} })) := rfl
  have ready : ground.root.setup.node.at? ([] ++ [1]) =
      some (.leaf { name := "step" }
        (.action { work := climb.work {}, isSetUp := true, engagement := .idle })) := rfl
  have found : ascent.root.at? ([] ++ [1]) =
      some (.leaf { name := "step", status := .running } (.action climber)) := rfl
  have setUp : LeadsAlone climb.pv [] ground { ground with root := ground.root.setup.node } :=
    Relation.ReflTransGen.single ⟨lone_of_alone resting rfl, .setup⟩
  have ticked : LeadsAlone climb.pv [] ground ascent :=
    setUp.tail ⟨lone_of_alone ready rfl, .tick 0⟩
  rw [← worked_same found] at ticked
  have takes : Works "step" (ascent.site climber)
      { action := { climber with gate := climber.gate.clear }, store := ascent.store } none :=
    .take rfl
  have took := LeadsAlone.works found ticked rfl takes
  exact LeadsAlone.works found took rfl (.enter climber.cell.attempt rfl)

/-- Left to itself the climb takes three steps of two and comes to rest one above its target. -/
theorem climb_rests_above_target :
    ∃ pursuit, LeadsAlone climb.pv [] ground pursuit ∧
      pursuit.store.read climb.pv = .ok (.int 6) ∧ pursuit.strokes.length = 3 ∧
      (∀ stroke ∈ pursuit.strokes, climb.FromBelow stroke) ∧
      ∀ later, Leads climb.pv [] pursuit later → later.store.read climb.pv = .ok (.int 6) := by
  have found : ascent.root.at? ([] ++ [1]) =
      some (.leaf { name := "step", status := .running } (.action climber)) := rfl
  obtain ⟨strokes, run, writes⟩ := @leads_of_settle climb.pv [] ground ascent _ climber found 20
    { action := climbing, store := ascent.store } [] climb_begins rfl
  have built : ground.root.at? [] = some (climb.plan.node {}) := rfl
  have reads : ground.store.read climb.pv = .ok (.int 0) := rfl
  obtain ⟨value, now, -, -, below, rests⟩ := target_while_alone built reads run
  have high : (Action.settleWithin "step" 20
      { action := climbing, store := ascent.store }).store.read climb.pv = .ok (.int 6) := rfl
  have three : (Action.settleWithin "step" 20
      { action := climbing, store := ascent.store }).writes.length = 3 := rfl
  obtain rfl : value = 6 := by
    have same := now.symm.trans high
    simpa using same
  refine ⟨_, run, now, ?_, below, fun later more => (rests (by decide) later more).2.1⟩
  have before : ascent.strokes = [] := rfl
  rw [writes] at three
  simpa [before] using three

def hop : Ramp where
  label := { name := "hop" }
  checkLabel := { name := "up" }
  actLabel := { name := "jump" }
  pv := "height"
  target := 1
  amount := 1
  rises := by decide
  inRange := by decide

def floor : Pursuit := { root := hop.plan.node {}, store := .ofList [("height", .int 0)] }

/-- A cycle of the jumper that has found the floor too low. -/
def crouching (attempt : UInt64) : Cycle := { attempt, point := .step }

def jumper : Action :=
  Action.initialise { work := hop.work {}, isSetUp := true, engagement := .idle }

def firstCrouch : Action :=
  { jumper with gate := {}, engagement := .busy (crouching 1) }

/-- The first jump is about to take its step when the tree is shut down and set up again, and ticked
for another attempt. -/
def afresh : Node :=
  ((floor.root.withLeaf (.action firstCrouch) [1]).shutdown.1.halt.node.setup.node.tick
    ⟨1, floor.store⟩).node

def opened : Pursuit :=
  { floor with root := (floor.root.setup.node.tick ⟨0, floor.store⟩).node }

def overlap : Pursuit := { floor with root := afresh }

/-- Both jumps have found the floor too low. -/
def rivals : Action :=
  { jumper with
    cell := { status := .running, attempt := 2 }
    gate := {}
    engagement := .busy (crouching 2)
    detached := [(crouching 1).toldToStop] }

theorem hop_overlaps :
    Leads hop.pv [] floor (overlap.worked [] { action := rivals, store := floor.store } []) := by
  have first : opened.root.at? ([] ++ [1]) =
      some (.leaf { name := "jump", status := .running } (.action jumper)) := rfl
  have run : Leads hop.pv [] floor opened :=
    (Relation.ReflTransGen.single .setup).tail (.tick 0)
  rw [← worked_same first] at run
  have takes : Works "jump" (opened.site jumper)
      { action := { jumper with gate := {} }, store := floor.store } none := .take rfl
  have enters := Leads.works first (Leads.works first run takes) (.enter 1 rfl)
  have checks := Leads.works first enters (.held rfl (.check Point.noConfusion rfl))
  have crouches : Leads hop.pv [] floor
      (opened.worked [] { action := firstCrouch, store := floor.store } []) := checks
  have again : Leads hop.pv [] floor overlap :=
    (((crouches.tail .shutdown).tail .halt).tail .setup).tail (.tick 1)
  have second : overlap.root.at? ([] ++ [1]) =
      some (.leaf { name := "jump", status := .running } (.action
        { rivals with gate := { isSet := true }, engagement := .idle })) := rfl
  rw [← worked_same second] at again
  have retakes := Leads.works second again (.take rfl)
  have reenters := Leads.works second retakes (.enter 2 rfl)
  exact Leads.works second reenters (.held rfl (.check Point.noConfusion rfl))

/-- The first jump has reached the target, and the second is still to take its step. -/
def landed : Worksite where
  action :=
    { rivals with
      detached :=
        [{ crouching 1 with point := .lastCheck .stopped, stopped := true, elapsed := 100 }] }
  store := floor.store.insert "height" (.int 1)

/-- A jump that goes on after its worker was stopped, and one of the next worker: the second step is
taken from the target, or the sum of one of the two is lost. -/
theorem hop_overshoots :
    floor.root.at? [] = some (hop.plan.node {}) ∧
      floor.store.read hop.pv = .ok (.int 0) ∧ (0 : Int64) < hop.target ∧
      (∃ reached beyond, Leads hop.pv [] floor reached ∧
        reached.store.read hop.pv = .ok (.int hop.target) ∧ Leads hop.pv [] reached beyond ∧
        beyond.strokes.length = reached.strokes.length + 1 ∧
        beyond.store.read hop.pv = .ok (.int 2) ∧
        ¬(2 : Int64).toInt ≤ hop.target.toInt + hop.amount.toInt - 1) ∧
      ∃ lost, Leads hop.pv [] floor lost ∧ lost.strokes.length = 2 ∧
        lost.store.read hop.pv = .ok (.int 1) ∧
        (1 : Int64).toInt ≠ 0 + 2 * hop.amount.toInt := by
  have found : overlap.root.at? ([] ++ [1]) =
      some (.leaf { name := "jump", status := .running } (.action
        { rivals with gate := { isSet := true }, engagement := .idle })) := rfl
  have reads := Leads.works found hop_overlaps (.read (by decide))
  refine ⟨rfl, rfl, by decide, ?_, ?_⟩
  · have jumps : Leads hop.pv [] floor
        (overlap.worked [] landed [⟨"height", .ok (.int 0), .int 1⟩]) :=
      Leads.works found reads (.detached (.refl _) (.write rfl (.refl _) rfl))
    have reached : Leads hop.pv [] (overlap.worked [] landed [⟨"height", .ok (.int 0), .int 1⟩])
        (overlap.worked [] landed [⟨"height", .ok (.int 0), .int 1⟩]) := .refl
    have rereads := Leads.works found reached (.read (by decide))
    have beyond := Leads.works found rereads (.held rfl (.write rfl (.refl _) rfl))
    exact ⟨_, _, jumps, rfl, beyond, rfl, rfl, by decide⟩
  · have both := Leads.works found reads (.read (by decide))
    have first := Leads.works found both (.detached (.refl _) (.write rfl (.refl _) rfl))
    have second := Leads.works found first (.held rfl (.write rfl (.refl _) rfl))
    exact ⟨_, second, rfl, rfl, by decide⟩

end Pursuit

end BehaviorTree
