import BehaviorTree.Plan.Build
import BehaviorTree.Proofs.Cycles

/-!
Ramps. The action of a check-and-do adds the same amount in every step, and stops as soon as its
variable has reached the target of the check. A step reads the variable and writes it later, and
other cycles of the action may come between its check, its reading and its writing. As long as no
two of them stand there at once, a step is only ever taken from below the target.
-/

namespace BehaviorTree

namespace Cycle

/-- How many of these cycles stand between their check and the end of their step. -/
def stepping (cycles : List Cycle) : Nat := cycles.countP fun cycle => cycle.point = .step

theorem stepping_cons (cycle : Cycle) (cycles : List Cycle) :
    stepping (cycle :: cycles) = stepping [cycle] + stepping cycles := by
  rw [stepping, stepping, stepping, ← List.countP_append, List.singleton_append]

@[simp] theorem stepping_nil : stepping [] = 0 := rfl

theorem stepping_of_step {cycle : Cycle} (steps : cycle.point = .step) : stepping [cycle] = 1 := by
  simp [stepping, steps]

theorem stepping_of_check {cycle : Cycle} (checks : cycle.point ≠ .step) :
    stepping [cycle] = 0 := by
  simp [stepping, checks]

theorem stepping_of_waiting {progress : Progress} {next : Cycle}
    (waiting : progress = .waiting next) :
    stepping progress.cycles = stepping [next] := by
  rw [waiting]
  rfl

theorem checks_of_waiting {progress : Progress} (none : stepping progress.cycles = 0)
    {next : Cycle} (waiting : progress = .waiting next) : next.point ≠ .step := by
  intro steps
  rw [stepping_of_waiting waiting, stepping_of_step steps] at none
  cases none

/-! A cycle takes a step only right after a check that did not find its goal reached. -/

theorem leave_takes_no_step (cycle : Cycle) (work : Work) (exit : Exit) :
    stepping (cycle.leave work exit).1.cycles = 0 := by
  unfold leave
  split <;> rfl

theorem loop_checks_first (cycle : Cycle) {work : Work} (checked : work.isChecked = true) :
    stepping (cycle.loop work).1.cycles = 0 := by
  unfold loop
  split
  · exact leave_takes_no_step cycle work .stopped
  · rfl

theorem enter_checks_first {work : Work} (checked : work.isChecked = true) (attempt : UInt64)
    (stopped : Bool) : stepping (Cycle.enter work attempt stopped).1.cycles = 0 :=
  loop_checks_first { attempt, point := .completion, stopped } checked

theorem resume_after_step {cycle : Cycle} {work : Work} (checked : work.isChecked = true)
    (steps : cycle.point = .step) (status : Status) :
    stepping (cycle.resume work (.stepped status)).1.cycles = 0 := by
  unfold resume
  rw [steps]
  exact loop_checks_first _ checked

theorem resume_after_check {cycle : Cycle} {work : Work} (checks : cycle.point ≠ .step)
    {holds : Bool} (steps : 0 < stepping (cycle.resume work (.complete holds)).1.cycles) :
    holds = false := by
  unfold resume at steps
  cases known : cycle.point with
  | step => exact absurd known checks
  | lastCheck exit =>
      rw [known] at steps
      cases steps
  | completion =>
      cases holds with
      | false => rfl
      | true =>
          rw [known] at steps
          have none := leave_takes_no_step cycle work .completed
          dsimp only at steps
          omega

end Cycle

/-- A check-and-do that adds an amount to an integer variable until it has reached a target. The
sums it makes are in range. -/
structure Ramp where
  label : Label
  checkLabel : Label
  actLabel : Label
  pv : String
  target : Int64
  amount : Int64
  loopPeriod : Option Nat := none
  timeout : Option Nat := none
  rises : 0 < amount.toInt
  inRange : target.toInt + amount.toInt - 1 ≤ Int64.maxValue.toInt

theorem Store.read_eq_ok {store : Store} {pv : String} {value : Value}
    (reads : store.read pv = .ok value) : store.answers pv = true := by
  unfold Store.read at reads
  split at reads
  next answers => exact answers
  next => cases reads

theorem Store.read_insert {store : Store} {pv : String} (answers : store.answers pv = true)
    (value : Value) : (store.insert pv value).read pv = .ok value := by
  simp [Store.read, answers]

namespace Ramp

def check (ramp : Ramp) : Check := { pv := ramp.pv, operator := .ge, value := .int ramp.target }

def actPlan (ramp : Ramp) : ActionPlan :=
  { label := ramp.actLabel
    pv := ramp.pv
    task := .increment (.int ramp.amount)
    loopPeriod := ramp.loopPeriod
    timeout := ramp.timeout }

def plan (ramp : Ramp) : NodePlan :=
  .checkAndDo ramp.label { label := ramp.checkLabel, check := ramp.check } ramp.actPlan

def work (ramp : Ramp) (timing : Timing) : Work := ramp.actPlan.work timing (some ramp.check)

variable {ramp : Ramp} {timing : Timing}

theorem work_checked : (ramp.work timing).isChecked = true := rfl

theorem check_reads {store : Store} {value : Int64}
    (reads : store.read ramp.pv = .ok (.int value)) :
    ramp.check.read store = .ok (decide (ramp.target ≤ value)) := by
  have compared : Comparator.ge.holds (.int value) (.int ramp.target) =
      decide (ramp.target ≤ value) := by
    simp only [Comparator.holds, Value.order?, Value.intOrder, Int64.lt_iff_toInt_lt,
      Int64.le_iff_toInt_le]
    split
    next below => simp [Comparator.admits, Int.not_le.mpr below]
    next above =>
      have reached : ramp.target.toInt ≤ value.toInt := Int.not_lt.mp above
      split <;> simp [Comparator.admits, reached]
  unfold Check.read
  rw [show ramp.check.pv = ramp.pv from rfl, reads]
  exact congrArg Except.ok compared

/-- Every check but the last is about the goal, and so is the last. -/
theorem outcome_of_check (timing : Timing) {store : Store} {value : Int64}
    (reads : store.read ramp.pv = .ok (.int value)) {point : Point} (checking : point ≠ .step) :
    (ramp.work timing).outcome point store =
      some { answer := .complete (decide (ramp.target ≤ value)), store } := by
  have answered : (ramp.work timing).checkAnswer store =
      some (.complete (decide (ramp.target ≤ value))) := by
    unfold Work.checkAnswer
    rw [show (ramp.work timing).completion = .reading ramp.check from rfl]
    simp only [check_reads reads]
  cases point with
  | step => exact absurd rfl checking
  | completion => rw [Work.outcome, answered, Option.map_some]
  | lastCheck exit => rw [Work.outcome, answered, Option.map_some]

theorem sum_in_range {value : Int64} (below : value < ramp.target) :
    ∃ sum : Int64, sumInRange? value ramp.amount = some sum ∧
      sum.toInt = value.toInt + ramp.amount.toInt := by
  rw [Int64.lt_iff_toInt_lt] at below
  have rises := ramp.rises
  have lower := Int64.minValue_le_toInt value
  have upper := ramp.inRange
  have fits : Int64.minValue.toInt ≤ value.toInt + ramp.amount.toInt ∧
      value.toInt + ramp.amount.toInt ≤ Int64.maxValue.toInt := by omega
  refine ⟨.ofInt (value.toInt + ramp.amount.toInt), if_pos fits, ?_⟩
  apply Int64.toInt_ofInt_of_le
  · exact fits.1
  · exact Int.lt_of_le_of_lt fits.2 (by decide)

/-- A step that reads the variable below the target means to add the amount. -/
theorem written_below (timing : Timing) {store : Store} {value : Int64}
    (reads : store.read ramp.pv = .ok (.int value)) (below : value < ramp.target) :
    ∃ sum : Int64, sum.toInt = value.toInt + ramp.amount.toInt ∧
      (ramp.work timing).written store = .ok (some (ramp.pv, .int sum)) := by
  obtain ⟨sum, summed, same⟩ := sum_in_range below
  refine ⟨sum, same, ?_⟩
  unfold Work.written
  rw [show (ramp.work timing).step = .increment ramp.pv (.int ramp.amount) from rfl]
  simp only [reads, Value.sum?, summed, Option.map_some]

theorem carried_out {store : Store} {value : Value} (reads : store.read ramp.pv = .ok value)
    (sum : Int64) :
    Work.Intent.carriedOut (.ok (some (ramp.pv, .int sum))) store =
      some
        { answer := .stepped .running
          store := store.insert ramp.pv (.int sum)
          write := some (ramp.pv, .int sum) } := by
  simp only [Work.Intent.carriedOut, Store.write, Store.read_eq_ok reads, if_true]

end Ramp

/-- An action and the variables, with what its steps that have read mean to write. -/
structure Worksite where
  action : Action
  store : Store
  intents : List Work.Intent := []

/-- What a cycle is answered: a check by the variables as they are, a step by what it meant to
write. Which intent is whose does not matter. -/
inductive Worksite.Answers (site : Worksite) (cycle : Cycle) :
    Work.Outcome → List Work.Intent → Prop
  | check {outcome : Work.Outcome} (checks : cycle.point ≠ .step)
      (answered : site.action.work.outcome cycle.point site.store = some outcome) :
      Answers site cycle outcome site.intents
  | write {outcome : Work.Outcome} {intent : Work.Intent} {others : List Work.Intent}
      (steps : cycle.point = .step) (among : site.intents.Perm (intent :: others))
      (answered : intent.carriedOut site.store = some outcome) :
      Answers site cycle outcome others

namespace Action

/-- How many cycles of the action stand between their check and the end of their step. -/
def stepping (action : Action) : Nat := Cycle.stepping action.cycles

end Action

/-- A turn of a worker, or of a cycle that it let go, where the work is answered by the process
variables. A worker takes a signal and enters a cycle later; neither which signal nor which attempt
matters to the variables, so it may enter at any time. A step reads first and writes later. -/
inductive Works (name : String) (site : Worksite) :
    Worksite → Option (String × Value) → Prop
  | take {taken : Action} (took : site.action.takeSignal? = some taken) :
      Works name site { site with action := taken } none
  | enter (attempt : UInt64) (idle : site.action.engagement = .idle) :
      Works name site { site with action := (site.action.enterHeld name attempt).action } none
  | enterLate (attempt : UInt64) :
      Works name site { site with action := (site.action.enterDetached name attempt).action } none
  | read (room : site.intents.length < site.action.stepping) :
      Works name site
        { site with intents := site.action.work.written site.store :: site.intents } none
  | held {cycle : Cycle} {outcome : Work.Outcome} {intents : List Work.Intent}
      (busy : site.action.engagement = .busy cycle)
      (answers : site.Answers cycle outcome intents) :
      Works name site
        { action := (Action.advance name site.action cycle.attempt
            (cycle.resume site.action.work outcome.answer)).held.action
          store := outcome.store
          intents }
        outcome.write
  | detached {cycle : Cycle} {others : List Cycle} {outcome : Work.Outcome}
      {intents : List Work.Intent} (among : site.action.detached.Perm (cycle :: others))
      (answers : site.Answers cycle outcome intents) :
      Works name site
        { action := ((Action.advance name site.action cycle.attempt
            (cycle.resume site.action.work outcome.answer)).detached others).action
          store := outcome.store
          intents }
        outcome.write
  /-- A cycle that was told to stop during its pause leaves without another check. -/
  | leave {cycle : Cycle} {others : List Cycle}
      (among : site.action.detached.Perm (cycle :: others)) (told : cycle.stopped = true)
      (pauses : cycle.point = .completion) :
      Works name site
        { site with
          action := ((Action.advance name site.action cycle.attempt
            (cycle.leave site.action.work .stopped)).detached others).action }
        none
  | wait (milliseconds : Nat) :
      Works name site { site with action := site.action.after milliseconds } none

namespace Action

theorem stepping_of_busy {action : Action} {cycle : Cycle}
    (busy : action.engagement = .busy cycle) :
    action.stepping = Cycle.stepping [cycle] + Cycle.stepping action.detached := by
  rw [stepping, cycles, busy]
  exact Cycle.stepping_cons cycle action.detached

theorem stepping_of_free {action : Action} (free : ∀ cycle, action.engagement ≠ .busy cycle) :
    action.stepping = Cycle.stepping action.detached := by
  unfold stepping cycles
  split
  next busy => exact absurd busy (free _)
  next => rfl
  next => rfl

theorem resume_of_busy {action : Action} {cycle : Cycle} (busy : action.engagement = .busy cycle)
    (name : String) (answer : Answer) :
    (action.resume name answer).1 =
      ((advance name action cycle.attempt (cycle.resume action.work answer)).held.action.wake
        name).1 := by
  rw [resume, advanceHeld?, busy]

/-- The cycles that were let go add up with the one that was not. -/
theorem stepping_let_go (action : Action) (detached : List Cycle) :
    { action with detached }.stepping =
      { action with detached := [] }.stepping + Cycle.stepping detached := by
  unfold stepping cycles
  dsimp only
  split
  next cycle busy => exact Cycle.stepping_cons cycle detached
  next => exact (Nat.zero_add _).symm
  next => exact (Nat.zero_add _).symm

theorem stepping_among {action : Action} {cycle : Cycle} {others : List Cycle}
    (among : action.detached.Perm (cycle :: others)) :
    action.stepping = Cycle.stepping [cycle] + { action with detached := others }.stepping := by
  have counted : Cycle.stepping action.detached =
      Cycle.stepping [cycle] + Cycle.stepping others := by
    rw [← Cycle.stepping_cons]
    exact among.countP_eq _
  have whole : action.stepping =
      { action with detached := [] }.stepping + Cycle.stepping action.detached :=
    action.stepping_let_go action.detached
  have rest := action.stepping_let_go others
  omega

/-- Without a cycle that was let go there is one at most. -/
theorem stepping_of_alone {action : Action} (alone : action.detached = []) :
    action.stepping ≤ 1 := by
  have counted : action.stepping ≤ action.cycles.length := List.countP_le_length
  unfold cycles at counted
  rw [alone] at counted
  split at counted
  · exact counted
  · exact Nat.le_succ_of_le counted
  · exact Nat.le_succ_of_le counted

theorem stepping_held (name : String) (action : Action) (attempt : UInt64)
    (result : Progress × List Effect) :
    (advance name action attempt result).held.action.stepping =
      Cycle.stepping result.1.cycles + Cycle.stepping action.detached := by
  obtain ⟨progress, effects⟩ := result
  have kept := advance_detached name action attempt (progress, effects)
  cases progress with
  | waiting next =>
      rw [@stepping_of_busy (advance name action attempt (.waiting next, effects)).held.action next
        rfl]
      exact congrArg (Cycle.stepping [next] + Cycle.stepping ·) kept
  | ended status exit =>
      rw [@stepping_of_free (advance name action attempt (.ended status exit, effects)).held.action
        (fun cycle busy => Engagement.noConfusion busy)]
      exact (congrArg Cycle.stepping kept).trans (Nat.zero_add _).symm

theorem stepping_detached (name : String) (action : Action) (attempt : UInt64)
    (result : Progress × List Effect) (others : List Cycle) :
    ((advance name action attempt result).detached others).action.stepping =
      Cycle.stepping result.1.cycles + { action with detached := others }.stepping := by
  obtain ⟨progress, effects⟩ := result
  have kept : ∀ detached, { (advance name action attempt (progress, effects)).action with
      detached }.stepping = { action with detached }.stepping := by
    intro detached
    rw [advance_action]
    rfl
  cases progress with
  | waiting next =>
      have among : (next :: others).Perm (next :: others) := .refl _
      exact (kept (next :: others)).trans
        (@stepping_among { action with detached := next :: others } next others among)
  | ended status exit => exact (kept others).trans (Nat.zero_add _).symm

end Action

namespace Ramp

variable {ramp : Ramp} {timing : Timing}

/-- What is kept about the action of a ramp while its variable has a value. A cycle that is about to
take a step has found the variable below the target, and what it means to write is one step on. -/
structure Careful (ramp : Ramp) (timing : Timing) (site : Worksite) (value : Int64) : Prop where
  works : site.action.work = ramp.work timing
  reads : site.store.read ramp.pv = .ok (.int value)
  below : 0 < site.action.stepping → value < ramp.target
  room : site.intents.length ≤ site.action.stepping
  intends : ∀ intent ∈ site.intents, ∃ sum : Int64,
    intent = .ok (some (ramp.pv, .int sum)) ∧ sum.toInt = value.toInt + ramp.amount.toInt

/-- What a turn does to the variable: nothing, or one step from below the target. -/
inductive Rise (ramp : Ramp) (value : Int64) : Int64 → Option (String × Value) → Prop
  | rest : Rise ramp value value none
  | step {sum : Int64} (below : value < ramp.target)
      (added : sum.toInt = value.toInt + ramp.amount.toInt) :
      Rise ramp value sum (some (ramp.pv, .int sum))

/-- A careful action stays so while none of its cycles comes to a step or ends one. -/
theorem Careful.frame {site : Worksite} {value : Int64} (careful : ramp.Careful timing site value)
    {after : Action} (work : after.work = site.action.work)
    (stepping : after.stepping = site.action.stepping) :
    ramp.Careful timing { site with action := after } value where
  works := work.trans careful.works
  reads := careful.reads
  below := stepping ▸ careful.below
  room := stepping ▸ careful.room
  intends := careful.intends

theorem Careful.setup {site : Worksite} {value : Int64}
    (careful : ramp.Careful timing site value) (name : String) :
    ramp.Careful timing { site with action := (site.action.setup name).toOption.getD site.action }
      value := by
  obtain ⟨engagement, isSetUp, started, rfl | ⟨off, rfl⟩⟩ := site.action.setup_getD name
  · rw [started]
    exact careful.frame rfl rfl
  · rw [started]
    refine careful.frame rfl ?_
    simp [Action.stepping, Action.cycles, off]

theorem Careful.shutdown {site : Worksite} {value : Int64}
    (careful : ramp.Careful timing site value) (name : String) :
    ramp.Careful timing { site with action := site.action.shutdown name } value := by
  obtain ⟨isSetUp, stays | ⟨stopped, idle⟩ | ⟨cycle, busy, stopped⟩⟩ :=
    site.action.shutdown_cases name
  · rw [stays]
    exact careful.frame rfl rfl
  · rw [stopped]
    refine careful.frame rfl ?_
    simp [Action.stepping, Action.cycles, idle]
  · rw [stopped]
    refine careful.frame rfl ?_
    rw [Action.stepping_of_busy busy, Nat.add_comm]
    exact List.countP_append

/-- Entering a cycle is not yet a step. -/
theorem Careful.enter {site : Worksite} {value : Int64}
    (careful : ramp.Careful timing site value) (attempt : UInt64) (stopped : Bool) :
    Cycle.stepping (Cycle.enter site.action.work attempt stopped).1.cycles = 0 := by
  rw [careful.works]
  exact Cycle.enter_checks_first work_checked attempt stopped

/-- A reading takes nothing from the variable. -/
theorem Careful.read {site : Worksite} {value : Int64}
    (careful : ramp.Careful timing site value)
    (room : site.intents.length < site.action.stepping) :
    ramp.Careful timing
      { site with intents := site.action.work.written site.store :: site.intents } value where
  works := careful.works
  reads := careful.reads
  below := careful.below
  room := room
  intends := by
    have below := careful.below (Nat.zero_lt_of_lt room)
    obtain ⟨sum, added, writes⟩ := written_below timing careful.reads below
    intro intent member
    rcases List.mem_cons.mp member with rfl | other
    · exact ⟨sum, careful.works ▸ writes, added⟩
    · exact careful.intends intent other

/-- A cycle that is answered by the variable rises at most once, and is then about to check. If it
was alone between its check and the end of its step, nobody is left there. -/
theorem Careful.answered {site : Worksite} {value : Int64}
    (careful : ramp.Careful timing site value) (lone : site.action.stepping ≤ 1) {cycle : Cycle}
    {outcome : Work.Outcome} {intents : List Work.Intent}
    (answers : site.Answers cycle outcome intents) {after : Action}
    (work : after.work = site.action.work)
    (moved : after.stepping + Cycle.stepping [cycle] =
      Cycle.stepping (cycle.resume site.action.work outcome.answer).1.cycles +
        site.action.stepping) :
    ∃ later, ramp.Rise value later outcome.write ∧
      ramp.Careful timing { action := after, store := outcome.store, intents } later := by
  have sameWork := work.trans careful.works
  have careless := careful.below
  have room := careful.room
  rw [careful.works] at moved
  cases answers with
  | check checks answered =>
      rw [careful.works, outcome_of_check timing careful.reads checks] at answered
      cases answered
      rw [Cycle.stepping_of_check checks, Nat.add_zero] at moved
      refine ⟨value, .rest, sameWork, careful.reads, ?_, ?_, careful.intends⟩
      rotate_left
      · exact Nat.le_trans room (moved ▸ Nat.le_add_left ..)
      intro steps
      rw [moved] at steps
      dsimp only at steps
      by_cases before : 0 < site.action.stepping
      · exact careless before
      · have refused := @Cycle.resume_after_check cycle (ramp.work timing) checks
          (decide (ramp.target ≤ value)) (by omega)
        rw [decide_eq_false_iff_not, Int64.not_le] at refused
        exact refused
  | @write intent _ steps among answered =>
      have member : intent ∈ site.intents := among.mem_iff.mpr (List.mem_cons_self ..)
      obtain ⟨sum, rfl, added⟩ := careful.intends intent member
      rw [carried_out careful.reads] at answered
      cases answered
      have checksNext := Cycle.resume_after_step (@work_checked ramp timing) steps .running
      rw [Cycle.stepping_of_step steps] at moved
      have counted : site.intents.length = intents.length + 1 := among.length_eq
      obtain rfl : intents = [] := List.eq_nil_of_length_eq_zero (by omega)
      have none : after.stepping = 0 := by
        dsimp only at moved
        omega
      refine ⟨sum, .step (careless (by omega)) added, sameWork,
        Store.read_insert (Store.read_eq_ok careful.reads) _, ?_, Nat.zero_le _, ?_⟩
      · intro steps
        dsimp only at steps
        omega
      · intro intent member
        cases member

/-- While no two cycles are between their check and the end of their step, no turn lets the variable
rise from the target on. -/
theorem Careful.turn {name : String} {site after : Worksite} {write : Option (String × Value)}
    {value : Int64} (careful : ramp.Careful timing site value)
    (lone : site.action.stepping ≤ 1) (works : Works name site after write) :
    ∃ later, ramp.Rise value later write ∧ ramp.Careful timing after later := by
  cases works with
  | take took =>
      obtain ⟨-, -, rfl⟩ := Action.take_signal_eq_some took
      exact ⟨value, .rest, careful.frame rfl rfl⟩
  | enter attempt idle =>
      refine ⟨value, .rest, careful.frame (Action.advance_work ..) ?_⟩
      have counted := Action.stepping_held name site.action attempt
        (Cycle.begin site.action.work attempt)
      have free : site.action.stepping = Cycle.stepping site.action.detached :=
        Action.stepping_of_free (fun cycle busy => by rw [idle] at busy; cases busy)
      have checks := careful.enter attempt false
      unfold Cycle.begin at counted
      exact counted.trans (by omega)
  | enterLate attempt =>
      refine ⟨value, .rest, careful.frame (Action.advance_work ..) ?_⟩
      have counted := Action.stepping_detached name site.action attempt
        (Cycle.enter site.action.work attempt true) site.action.detached
      have checks := careful.enter attempt true
      exact counted.trans (by rw [checks]; exact Nat.zero_add _)
  | read room => exact ⟨value, .rest, careful.read room⟩
  | @held cycle outcome intents busy answers =>
      have before := Action.stepping_of_busy busy
      have counted := Action.stepping_held name site.action cycle.attempt
        (cycle.resume site.action.work outcome.answer)
      exact careful.answered lone answers (Action.advance_work ..) (by omega)
  | @detached cycle others outcome intents among answers =>
      have before := Action.stepping_among among
      have counted := Action.stepping_detached name site.action cycle.attempt
        (cycle.resume site.action.work outcome.answer) others
      exact careful.answered lone answers (Action.advance_work ..) (by omega)
  | @leave cycle others among told pauses =>
      refine ⟨value, .rest, careful.frame (Action.advance_work ..) ?_⟩
      have before := Action.stepping_among among
      have counted := Action.stepping_detached name site.action cycle.attempt
        (cycle.leave site.action.work .stopped) others
      have gone := Cycle.leave_takes_no_step cycle site.action.work .stopped
      have checks : Cycle.stepping [cycle] = 0 :=
        Cycle.stepping_of_check (by rw [pauses]; decide)
      omega
  | wait milliseconds =>
      refine ⟨value, .rest, careful.frame rfl ?_⟩
      rw [Action.stepping, Action.after_cycles, Cycle.stepping, List.countP_map]
      rfl

end Ramp

end BehaviorTree
