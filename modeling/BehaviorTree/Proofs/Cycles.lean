import BehaviorTree.Action

/-!
What every cycle abides by, whatever it is answered. A cycle stays bound to its attempt, ends with
success or failure only, and writes what it ended with last; and what it writes reaches the cell of
the action alone, as long as its attempt is the latest.
-/

namespace BehaviorTree

namespace Cycle

/-- A result in the name of an attempt. -/
def Abiding (attempt : UInt64) (result : Progress × List Effect) : Prop :=
  match result.1 with
  | .waiting next => next.attempt = attempt
  | .ended status exit =>
      status.isTerminal = true ∧
        ∃ earlier, result.2 =
          earlier ++ [.write status, .trace "cycle.end" status (some exit.name)]

theorem Abiding.after {attempt : UInt64} {progress : Progress} {effects : List Effect}
    (abiding : Abiding attempt (progress, effects)) (earlier : List Effect) :
    Abiding attempt (progress, earlier ++ effects) := by
  cases progress with
  | waiting next => exact abiding
  | ended status exit =>
      obtain ⟨terminal, before, rfl⟩ := abiding
      exact ⟨terminal, earlier ++ before, (List.append_assoc _ _ _).symm⟩

theorem finish_abiding (attempt : UInt64) {status : Status} (terminal : status.isTerminal = true)
    (exit : Exit) : Abiding attempt (finish status exit) :=
  ⟨terminal, [], rfl⟩

theorem leave_abiding (cycle : Cycle) (work : Work) (exit : Exit) :
    Abiding cycle.attempt (cycle.leave work exit) := by
  unfold leave
  split
  · rfl
  · exact finish_abiding _ rfl exit

theorem after_check_abiding (cycle : Cycle) (work : Work) :
    Abiding cycle.attempt (cycle.afterCheck work) := by
  unfold afterCheck
  split
  · exact leave_abiding cycle work .timedOut
  · rfl

theorem loop_abiding (cycle : Cycle) (work : Work) :
    Abiding cycle.attempt (cycle.loop work) := by
  unfold loop
  split
  · exact leave_abiding cycle work .stopped
  · split
    · rfl
    · exact after_check_abiding cycle work

theorem enter_abiding (work : Work) (attempt : UInt64) (stopped : Bool) :
    Abiding attempt (Cycle.enter work attempt stopped) :=
  (loop_abiding { attempt, point := .completion, stopped } work).after
    [.write .running, .trace "cycle.start" .running none]

theorem begin_abiding (work : Work) (attempt : UInt64) :
    Abiding attempt (Cycle.begin work attempt) := enter_abiding work attempt false

theorem of_bool_terminal (holds : Bool) : (Status.ofBool holds).isTerminal = true := by
  cases holds <;> rfl

theorem resume_abiding (cycle : Cycle) (work : Work) (answer : Answer) :
    Abiding cycle.attempt (cycle.resume work answer) := by
  unfold resume
  split
  · exact leave_abiding cycle work .completed
  · exact after_check_abiding cycle work
  next fault _ =>
    exact (leave_abiding cycle work .stepFailed).after
      [.trace "cycle.step_failed" .failure (some fault.message), .write .failure]
  next status _ => exact (loop_abiding (cycle.after work.loopPeriod) work).after [.write status]
  · rfl
  next exit holds _ => exact finish_abiding _ (of_bool_terminal holds) exit
  next => exact finish_abiding _ rfl _

/-- How many failures it takes at most to end a cycle. -/
def remaining (cycle : Cycle) : Nat :=
  match cycle.point with
  | .completion => 3
  | .step => 2
  | .lastCheck _ => 1

theorem leave_remaining (cycle : Cycle) (work : Work) (exit : Exit) {next : Cycle}
    (waiting : (cycle.leave work exit).1 = .waiting next) : next.remaining = 1 := by
  unfold leave at waiting
  split at waiting
  · cases waiting
    rfl
  · cases waiting

/-- Failure upon failure ends every cycle. -/
theorem failed_remaining (cycle : Cycle) (work : Work) (fault : WorkFault) {next : Cycle}
    (waiting : (cycle.resume work (.failed fault)).1 = .waiting next) :
    next.remaining < cycle.remaining := by
  unfold resume at waiting
  cases known : cycle.point with
  | completion =>
      rw [known] at waiting
      dsimp only at waiting
      unfold afterCheck at waiting
      split at waiting
      · rw [leave_remaining cycle work .timedOut waiting, remaining, known]
        decide
      · cases waiting
        rw [remaining, remaining, known]
        exact Nat.lt_succ_self 2
  | step =>
      rw [known] at waiting
      rw [leave_remaining cycle work .stepFailed waiting, remaining, known]
      decide
  | lastCheck exit =>
      rw [known] at waiting
      cases waiting

end Cycle

namespace Action

/-- The cell after some effects in the name of an attempt. -/
def written (attempt : UInt64) (cell : Cell) : List Effect → Cell
  | [] => cell
  | .write status :: rest => written attempt (cell.setIfCurrent attempt status) rest
  | .trace _ _ _ :: rest => written attempt cell rest

theorem perform_action (name : String) (attempt : UInt64) (action : Action)
    (effects : List Effect) :
    (perform name attempt action effects).1 =
      { action with cell := written attempt action.cell effects } := by
  induction effects generalizing action with
  | nil => rfl
  | cons effect rest induction =>
      cases effect with
      | write status => exact induction _
      | trace tag status detail => exact induction action

theorem advance_action (name : String) (action : Action) (attempt : UInt64)
    (result : Progress × List Effect) :
    (advance name action attempt result).action =
      { action with cell := written attempt action.cell result.2 } :=
  perform_action name attempt action result.2

@[simp] theorem advance_work (name : String) (action : Action) (attempt : UInt64)
    (result : Progress × List Effect) :
    (advance name action attempt result).action.work = action.work := by
  rw [advance_action]

@[simp] theorem advance_cell (name : String) (action : Action) (attempt : UInt64)
    (result : Progress × List Effect) :
    (advance name action attempt result).action.cell = written attempt action.cell result.2 := by
  rw [advance_action]

@[simp] theorem advance_gate (name : String) (action : Action) (attempt : UInt64)
    (result : Progress × List Effect) :
    (advance name action attempt result).action.gate = action.gate := by
  rw [advance_action]

@[simp] theorem advance_engagement (name : String) (action : Action) (attempt : UInt64)
    (result : Progress × List Effect) :
    (advance name action attempt result).action.engagement = action.engagement := by
  rw [advance_action]

@[simp] theorem advance_detached (name : String) (action : Action) (attempt : UInt64)
    (result : Progress × List Effect) :
    (advance name action attempt result).action.detached = action.detached := by
  rw [advance_action]

theorem written_append (attempt : UInt64) (cell : Cell) (earlier later : List Effect) :
    written attempt cell (earlier ++ later) =
      written attempt (written attempt cell earlier) later := by
  induction earlier generalizing cell with
  | nil => rfl
  | cons effect rest induction =>
      cases effect with
      | write status => exact induction _
      | trace tag status detail => exact induction cell

@[simp] theorem written_attempt (attempt : UInt64) (cell : Cell) (effects : List Effect) :
    (written attempt cell effects).attempt = cell.attempt := by
  induction effects generalizing cell with
  | nil => rfl
  | cons effect rest induction =>
      cases effect with
      | trace tag status detail => exact induction cell
      | write status =>
          rw [written, induction, Cell.setIfCurrent]
          split <;> rfl

/-- What is written for a superseded attempt is lost. -/
theorem written_superseded {attempt : UInt64} {cell : Cell} (superseded : attempt ≠ cell.attempt)
    (effects : List Effect) : written attempt cell effects = cell := by
  have lost : cell.isCurrent attempt = false := beq_false_of_ne superseded.symm
  induction effects with
  | nil => rfl
  | cons effect rest induction =>
      cases effect with
      | trace tag status detail => exact induction
      | write status =>
          rw [written, Cell.setIfCurrent, lost]
          exact induction

/-- A cycle of the latest attempt leaves what it ended with in the cell. -/
theorem written_end {cell : Cell} {status : Status} {exit : Exit} {effects : List Effect}
    (abiding : Cycle.Abiding cell.attempt (.ended status exit, effects)) :
    (written cell.attempt cell effects).status = status := by
  obtain ⟨_, earlier, rfl⟩ := abiding
  have current : (written cell.attempt cell earlier).isCurrent cell.attempt = true := by
    rw [Cell.isCurrent, written_attempt]
    exact beq_self_eq_true _
  rw [written_append, written, written, written, Cell.setIfCurrent, if_pos current]
  rfl

/-! What the worker does. -/

/-- The cycles in progress. -/
def cycles (action : Action) : List Cycle :=
  match action.engagement with
  | .busy cycle => cycle :: action.detached
  | .off | .idle => action.detached

theorem take_signal_eq_some {action taken : Action} (found : action.takeSignal? = some taken) :
    action.engagement = .idle ∧ action.gate.isSet = true ∧
      taken = { action with gate := action.gate.clear } := by
  unfold takeSignal? at found
  split at found
  next idle consumed =>
    rw [Gate.consume, Prod.mk.injEq] at consumed
    obtain ⟨isSet, rfl⟩ := consumed
    cases found
    exact ⟨idle, isSet, rfl⟩
  · cases found

theorem take_signal_of_idle {action : Action} (idle : action.engagement = .idle)
    (isSet : action.gate.isSet = true) :
    action.takeSignal? = some { action with gate := action.gate.clear } := by
  rw [takeSignal?, idle, Gate.consume, isSet]

theorem begin_eq_some {name : String} {action : Action} {begun : Advance}
    (found : action.begin? name = some begun) :
    action.engagement = .idle ∧ action.gate.isSet = true ∧
      begun = (advance name { action with gate := action.gate.clear } action.cell.attempt
        (Cycle.begin action.work action.cell.attempt)).held := by
  obtain ⟨taken, took, rfl⟩ := Option.map_eq_some_iff.mp found
  obtain ⟨idle, isSet, rfl⟩ := take_signal_eq_some took
  exact ⟨idle, isSet, rfl⟩

theorem advance_held_eq_some {name : String} {action : Action} {answer : Answer} {held : Advance}
    (found : action.advanceHeld? name answer = some held) :
    ∃ cycle, action.engagement = .busy cycle ∧
      held = (advance name action cycle.attempt (cycle.resume action.work answer)).held := by
  unfold advanceHeld? at found
  split at found
  next cycle busy =>
    cases found
    exact ⟨cycle, busy, rfl⟩
  · cases found
  · cases found

theorem advance_detached_eq_some {name : String} {action : Action} {answer : Answer}
    {detached : Advance} (found : action.advanceDetached? name answer = some detached) :
    ∃ cycle others, action.detached = cycle :: others ∧
      detached =
        (advance name action cycle.attempt (cycle.resume action.work answer)).detached others := by
  unfold advanceDetached? at found
  split at found
  next cycle others known =>
    cases found
    exact ⟨cycle, others, known, rfl⟩
  · cases found

end Action

/-- The cycle that goes on, if one does. -/
def Progress.cycles : Progress → List Cycle
  | .waiting cycle => [cycle]
  | .ended _ _ => []

namespace Action

theorem held_cycles {advance : Advance} (alone : advance.action.detached = []) :
    advance.held.action.cycles = advance.progress.cycles := by
  obtain ⟨attempt, progress, action, events⟩ := advance
  dsimp only at alone
  unfold cycles Advance.held
  cases progress <;> simp [Progress.cycles, alone]

theorem detached_cycles {advance : Advance} (off : advance.action.engagement = .off) :
    (advance.detached []).action.cycles = advance.progress.cycles := by
  obtain ⟨attempt, progress, action, events⟩ := advance
  dsimp only at off
  unfold cycles Advance.detached
  cases progress <;> simp [Progress.cycles, off]

theorem begin_of_idle {action : Action} (idle : action.engagement = .idle)
    (isSet : action.gate.isSet = true) (name : String) :
    ∃ begun, action.begin? name = some begun ∧ begun.action.gate.isSet = false := by
  have found : action.begin? name =
      some (advance name { action with gate := action.gate.clear } action.cell.attempt
        (Cycle.begin action.work action.cell.attempt)).held := by
    rw [begin?, take_signal_of_idle idle isSet]
    rfl
  exact ⟨_, found, congrArg Gate.isSet (advance_gate _ _ _ _)⟩

/-- A live worker without a cycle is idle. -/
theorem idle_of_quiet {action : Action} (live : action.isLive = true)
    (quiet : action.cycles = []) : action.engagement = .idle := by
  unfold isLive at live
  unfold cycles at quiet
  cases engaged : action.engagement with
  | idle => rfl
  | off =>
      rw [engaged] at live
      cases live
  | busy cycle =>
      rw [engaged] at quiet
      cases quiet

theorem advance_held_of_busy {action : Action} {cycle : Cycle}
    (busy : action.engagement = .busy cycle) (free : action.detached = []) (name : String)
    (answer : Answer) :
    ∃ held, action.advanceHeld? name answer = some held ∧ held.action.gate = action.gate ∧
      held.action.isLive = true ∧
      held.action.cycles = (cycle.resume action.work answer).1.cycles := by
  have found : action.advanceHeld? name answer =
      some (advance name action cycle.attempt (cycle.resume action.work answer)).held := by
    rw [advanceHeld?, busy]
  have carried := advance_detached name action cycle.attempt (cycle.resume action.work answer)
  refine ⟨_, found, advance_gate _ _ _ _, ?_, ?_⟩
  · unfold isLive Advance.held
    cases (advance name action cycle.attempt (cycle.resume action.work answer)).progress <;> rfl
  · exact held_cycles (carried.trans free)

theorem advance_detached_of_off {action : Action} {cycle : Cycle}
    (off : action.engagement = .off) (last : action.detached = [cycle]) (name : String)
    (answer : Answer) :
    ∃ detached, action.advanceDetached? name answer = some detached ∧
      detached.action.gate = action.gate ∧ detached.action.isLive = false ∧
      detached.action.cycles = (cycle.resume action.work answer).1.cycles := by
  have found : action.advanceDetached? name answer =
      some ((advance name action cycle.attempt (cycle.resume action.work answer)).detached []) := by
    rw [advanceDetached?, last]
  have still := (advance_engagement name action cycle.attempt
    (cycle.resume action.work answer)).trans off
  refine ⟨_, found, advance_gate _ _ _ _, ?_, detached_cycles still⟩
  exact congrArg (fun engagement => isLive { action with engagement }) still

/-- Starting a worker brings no cycle with it. -/
theorem setup_getD (name : String) (action : Action) :
    ∃ engagement isSetUp,
      (action.setup name).toOption.getD action = { action with engagement, isSetUp } ∧
        (engagement = action.engagement ∨ action.engagement = .off ∧ engagement = .idle) := by
  unfold setup start
  split
  · exact ⟨_, _, rfl, Or.inl rfl⟩
  · split
    next off => exact ⟨_, _, rfl, Or.inr ⟨off, rfl⟩⟩
    next idle => exact ⟨_, _, rfl, Or.inl rfl⟩
    next cycle busy => exact ⟨_, _, rfl, Or.inl rfl⟩

/-- Stopping a worker detaches its cycle and changes nothing else. -/
theorem shutdown_cases (name : String) (action : Action) :
    ∃ isSetUp,
      action.shutdown name = { action with isSetUp } ∨
      action.shutdown name = { action with engagement := .off, isSetUp } ∧
        action.engagement = .idle ∨
      ∃ cycle, action.engagement = .busy cycle ∧
        action.shutdown name = { action with
          engagement := .off, detached := action.detached ++ [cycle.toldToStop], isSetUp } := by
  unfold shutdown stop
  split
  · split
    next stopped known =>
      split at known
      · cases known
      next idle =>
        cases known
        exact ⟨false, Or.inr (Or.inl ⟨rfl, idle⟩)⟩
      next cycle busy =>
        cases known
        exact ⟨false, Or.inr (Or.inr ⟨cycle, busy, rfl⟩)⟩
    next => exact ⟨false, Or.inl rfl⟩
  · exact ⟨_, Or.inl rfl⟩

theorem after_cycles (action : Action) (milliseconds : Nat) :
    (action.after milliseconds).cycles = action.cycles.map (·.after milliseconds) := by
  unfold cycles after
  cases action.engagement <;> rfl

end Action

end BehaviorTree
