import BehaviorTree.Proofs.Solitude

/-!
What the work of an action leaves behind. A cycle that has the variables to itself touches no
variable but its own, writes nothing where its check already holds, and ends as that check is
answered in the store that it leaves; setting a value takes one write at most.
-/

namespace BehaviorTree

/-- Whether the value that is set is there. -/
def ActionPlan.valueCheck? (plan : ActionPlan) : Option Check :=
  match plan.task with
  | .set value => some { pv := plan.pv, operator := .eq, value }
  | .increment _ => none

/-- What tells that the work is complete: the check of the plan itself, else the goal that it
serves, else whether the value that it sets is there, else nothing. -/
def ActionPlan.check? (plan : ActionPlan) (goal : Option Check) : Option Check :=
  (plan.termination.map (·.check)).or (goal.or plan.valueCheck?)

namespace ActionPlan

variable {plan : ActionPlan} {goal : Option Check}

theorem completion_eq (plan : ActionPlan) (goal : Option Check) :
    plan.completion goal = ((plan.check? goal).map Completion.reading).getD .never := by
  have first : plan.check? goal =
      ((plan.termination.map (·.check)).or goal).or plan.valueCheck? := by
    rw [check?, Option.or_assoc]
  rw [completion, first]
  cases (plan.termination.map (·.check)).or goal with
  | some check => rfl
  | none =>
      rw [valueCheck?]
      cases plan.task <;> rfl

/-- What the work of a plan looks at to tell whether it is complete. -/
theorem completion_of_check {check : Check} (checks : plan.check? goal = some check)
    (timing : Timing) : (plan.work timing goal).completion = .reading check := by
  have known := plan.completion_eq goal
  rw [checks] at known
  exact known

theorem work_met_iff (plan : ActionPlan) (goal : Option Check) (timing : Timing) (store : Store) :
    (plan.work timing goal).IsMet store ↔
      ∃ check, plan.check? goal = some check ∧ check.read store = .ok true := by
  cases found : plan.check? goal with
  | some check =>
      rw [Work.is_met_iff (completion_of_check found timing)]
      simp
  | none =>
      have completes : (plan.work timing goal).completion = .never := by
        have known := plan.completion_eq goal
        rw [found] at known
        exact known
      unfold Work.IsMet Work.checkAnswer
      rw [completes]
      simp

theorem step_of_set {value : Value} (sets : plan.task = .set value) (goal : Option Check)
    (timing : Timing) : (plan.work timing goal).step = .set plan.pv value := by
  rw [work, step, sets]

theorem step_of_increment {amount : Value} (adds : plan.task = .increment amount)
    (goal : Option Check) (timing : Timing) :
    (plan.work timing goal).step = .increment plan.pv amount := by
  rw [work, step, adds]

/-- Only the variable of the plan is written, and a value that is to be set is written as it is. -/
theorem written_eq_some {timing : Timing} {store : Store} {pv : String} {value : Value}
    (written : (plan.work timing goal).written store = .ok (some (pv, value))) :
    pv = plan.pv ∧ ∀ given, plan.task = .set given → value = given := by
  unfold Work.written at written
  cases task : plan.task with
  | set given =>
      rw [step_of_set task] at written
      cases written
      refine ⟨rfl, ?_⟩
      rintro other ⟨⟩
      rfl
  | increment amount =>
      rw [step_of_increment task] at written
      dsimp only at written
      split at written
      · cases written
      · split at written
        · cases written
          exact ⟨rfl, nofun⟩
        · cases written

theorem written_ne_nothing (plan : ActionPlan) (goal : Option Check) (timing : Timing)
    (store : Store) : (plan.work timing goal).written store ≠ .ok none := by
  unfold Work.written
  cases task : plan.task with
  | set value => simp [step_of_set task]
  | increment amount =>
      rw [step_of_increment task]
      dsimp only
      split
      · simp
      · split <;> simp

/-- The work of a plan waits for nobody outside. -/
theorem independent {check : Check} (checks : plan.check? goal = some check) (timing : Timing) :
    (plan.work timing goal).Independent := by
  have completes := completion_of_check checks timing
  refine ⟨?_, ?_, ?_⟩
  · intro store
    unfold Work.checkAnswer
    rw [completes]
    dsimp only
    cases check.read store with
    | ok holds => exact ⟨_, rfl⟩
    | error fault => exact ⟨_, rfl⟩
  · intro store
    unfold Work.stepOutcome Work.Intent.carriedOut
    cases written : (plan.work timing goal).written store with
    | error fault => exact ⟨_, rfl⟩
    | ok write =>
        cases write with
        | none => exact absurd written (plan.written_ne_nothing goal timing store)
        | some write =>
            dsimp only
            cases store.write write.1 write.2 with
            | ok store => exact ⟨_, rfl⟩
            | error fault => exact ⟨_, rfl⟩
  · unfold Work.isChecked
    rw [completes]

end ActionPlan

/-- A store after some values were written. -/
def Store.overwritten (store : Store) (writes : List (String × Value)) : Store :=
  writes.foldl (fun store write => store.insert write.1 write.2) store

namespace Store

theorem overwritten_concat (store : Store) (writes : List (String × Value)) (pv : String)
    (value : Value) :
    store.overwritten (writes ++ [(pv, value)]) = (store.overwritten writes).insert pv value := by
  rw [overwritten, List.foldl_append]
  rfl

@[simp] theorem answers_overwritten (store : Store) (writes : List (String × Value))
    (pv : String) : (store.overwritten writes).answers pv = store.answers pv := by
  induction writes using List.reverseRecOn with
  | nil => rfl
  | append_singleton writes write ih =>
      rw [overwritten_concat, answers_insert, ih]

theorem get?_overwritten (store : Store) {writes : List (String × Value)} {pv : String}
    (apart : ∀ write ∈ writes, write.1 ≠ pv) :
    (store.overwritten writes).get? pv = store.get? pv := by
  induction writes using List.reverseRecOn with
  | nil => rfl
  | append_singleton writes write ih =>
      have own : pv ≠ write.1 := (apart write (by simp)).symm
      rw [overwritten_concat, get?_insert_of_ne own]
      exact ih fun other inside => apart other (List.mem_append_left _ inside)

end Store

namespace Solo

variable {plan : ActionPlan} {goal : Option Check} {timing : Timing} {first : Store}
  {solo next : Solo}

/-- All that a cycle changed is what it wrote, and it wrote its own variable only. -/
structure Footprint (plan : ActionPlan) (first : Store) (solo : Solo) : Prop where
  store : solo.store = first.overwritten solo.writes
  own : ∀ write ∈ solo.writes, write.1 = plan.pv
  given : ∀ value, plan.task = .set value → ∀ write ∈ solo.writes, write.2 = value
  reached : solo.writes ≠ [] → first.answers plan.pv = true

theorem Footprint.goes (footprint : Footprint plan first solo)
    (goes : solo.Goes (plan.work timing goal) next) : Footprint plan first next := by
  rcases goes.writes with ⟨same, silent⟩ | ⟨_, pv, value, -, -, written, answers, after, more, -⟩
  · refine ⟨?_, ?_, ?_, ?_⟩
    · rw [same, silent]
      exact footprint.store
    · rw [silent]
      exact footprint.own
    · rw [silent]
      exact footprint.given
    · rw [silent]
      exact footprint.reached
  · obtain ⟨rfl, exactly⟩ := ActionPlan.written_eq_some written
    refine ⟨?_, ?_, ?_, ?_⟩
    · rw [after, more, Store.overwritten_concat, footprint.store]
    · rw [more]
      intro write inside
      rcases List.mem_append.mp inside with old | new
      · exact footprint.own write old
      · rw [List.mem_singleton.mp new]
    · rw [more]
      intro given set write inside
      rcases List.mem_append.mp inside with old | new
      · exact footprint.given given set write old
      · rw [List.mem_singleton.mp new]
        exact exactly given set
    · intro _
      rw [footprint.store, Store.answers_overwritten] at answers
      exact answers

theorem after_footprint (plan : ActionPlan) (goal : Option Check) (timing : Timing)
    (attempt : UInt64) (told : Bool) (store : Store) (beats : List Beat) :
    Footprint plan store (after (plan.work timing goal) attempt told store beats) := by
  apply after_invariant (fun footprint goes => Footprint.goes footprint goes)
  exact ⟨rfl, by simp [start], by simp [start], by simp [start]⟩

/-! Setting a value. -/

/-- Any value but a double that is not a number equals itself. -/
theorem eq_holds_self {value : Value}
    (number : ∀ double, value = .float double → Comparator.eq.holds value value = true) :
    Comparator.eq.holds value value = true := by
  cases value with
  | float double => exact number double rfl
  | bool holds => simp [Comparator.holds, Value.order?, Value.boolOrder, Comparator.admits]
  | int whole => simp [Comparator.holds, Value.order?, Value.intOrder, Comparator.admits]
  | text chars => simp [Comparator.holds, Value.order?, Value.textOrder, Comparator.admits]

/-- A value that equals itself is there once it was written. -/
theorem met_after_set {value : Value} (sets : plan.task = .set value)
    (checks : plan.check? goal = plan.valueCheck?)
    (equal : Comparator.eq.holds value value = true) {store : Store}
    (answers : store.answers plan.pv = true) :
    (plan.work timing goal).IsMet (store.insert plan.pv value) := by
  rw [ActionPlan.work_met_iff, checks, ActionPlan.valueCheck?, sets]
  refine ⟨_, rfl, ?_⟩
  rw [Check.read, Store.read_insert answers]
  exact congrArg Except.ok equal

/-- Nothing was written yet, or the value was written and is there. -/
inductive AtMostOnce (work : Work) (solo : Solo) : Prop
  | unwritten (silent : solo.writes = [])
  | written (once : solo.writes.length = 1) (content : Content work solo)

theorem AtMostOnce.goes {value : Value} (sets : plan.task = .set value)
    (checks : plan.check? goal = plan.valueCheck?)
    (equal : Comparator.eq.holds value value = true)
    (before : AtMostOnce (plan.work timing goal) solo)
    (goes : solo.Goes (plan.work timing goal) next) :
    AtMostOnce (plan.work timing goal) next := by
  cases before with
  | written once content =>
      obtain ⟨still, -, same⟩ := content.goes goes
      exact .written (by rw [same, once]) still
  | unwritten silent =>
      rcases goes.writes with
        ⟨-, same⟩ | ⟨cycle, pv, given, -, stepping, written, answers, after, more, onward⟩
      · exact .unwritten (same.trans silent)
      · obtain ⟨rfl, exactly⟩ := ActionPlan.written_eq_some written
        obtain rfl := exactly value sets
        have met : (plan.work timing goal).IsMet next.store := by
          rw [after]
          exact met_after_set sets checks equal answers
        refine .written (by rw [more, silent]; rfl) ⟨met, ?_⟩
        intro own waiting
        rw [onward] at waiting
        have none := Cycle.resume_after_step (Work.checked_of_met met) stepping .running
        exact Cycle.checks_of_waiting none waiting

theorem after_at_most_once {value : Value} (sets : plan.task = .set value)
    (checks : plan.check? goal = plan.valueCheck?)
    (equal : Comparator.eq.holds value value = true) (timing : Timing) (attempt : UInt64)
    (told : Bool) (store : Store) (beats : List Beat) :
    (after (plan.work timing goal) attempt told store beats).writes.length ≤ 1 := by
  have kept : AtMostOnce (plan.work timing goal)
      (after (plan.work timing goal) attempt told store beats) := by
    apply after_invariant (fun before goes => AtMostOnce.goes sets checks equal before goes)
    exact .unwritten rfl
  cases kept with
  | unwritten silent => simp [silent]
  | written once => exact Nat.le_of_eq once

/-- Setting a value never gets stuck where the variable answers. -/
theorem not_stuck_of_set {value : Value} (sets : plan.task = .set value) {store : Store}
    (answers : store.answers plan.pv = true) : ¬(plan.work timing goal).Stuck store := by
  have written : (plan.work timing goal).written store = .ok (some (plan.pv, value)) := by
    rw [Work.written, ActionPlan.step_of_set sets]
  exact Work.not_stuck_of_written written answers

/-- Where the check is about the value that is set, a cycle that is not hindered succeeds after two
answers, or after four. -/
theorem set_succeeds {value : Value} (sets : plan.task = .set value)
    (checks : plan.check? goal = plan.valueCheck?)
    (equal : Comparator.eq.holds value value = true) (timing : Timing) (attempt : UInt64)
    {store : Store} (answers : store.answers plan.pv = true) {beats : List Beat}
    (unstopped : .stop ∉ beats)
    (timely : .timedOut ∉
      (after (plan.work timing goal) attempt false store beats).conduct.record)
    (enough : 4 ≤ beats.count .answer) :
    (after (plan.work timing goal) attempt false store beats).conduct.progress =
      .ended .success .completed := by
  have independent : (plan.work timing goal).Independent := by
    have known := checks
    rw [ActionPlan.valueCheck?, sets] at known
    exact ActionPlan.independent known timing
  obtain ⟨count, strides, reaches⟩ := reaches_unhindered independent attempt store unstopped timely
  have footprint := after_footprint plan goal timing attempt false store beats
  have few := after_at_most_once sets checks equal timing attempt false store beats
  have taken : count = (after (plan.work timing goal) attempt false store beats).writes.length :=
    strides.length_writes.symm
  have still : (after (plan.work timing goal) attempt false store beats).store.answers plan.pv =
      true := by
    rw [footprint.store, Store.answers_overwritten]
    exact answers
  generalize (after (plan.work timing goal) attempt false store beats).conduct.progress = progress
    at reaches ⊢
  generalize many : beats.count .answer = given at reaches enough
  -- Anywhere but at the end, or stuck, there would have been a second write.
  cases reaches with
  | succeeded => rfl
  | failing _ _ stuck => exact absurd stuck (not_stuck_of_set sets still)
  | failed _ stuck => exact absurd stuck (not_stuck_of_set sets still)
  | checking | stepping | completed => omega

/-- A cycle that has the variables to itself changes no variable but its own, and not even that one
if it does not answer or if the check holds from the start. What it sets it sets as it is given. It
succeeds exactly if its check reads and holds in the store that it leaves. Setting a value that
equals itself takes one write at most, and succeeds if the cycle is left alone. -/
theorem effect_of_cycle (plan : ActionPlan) (goal : Option Check) (timing : Timing)
    (attempt : UInt64) (told : Bool) (store : Store) (beats : List Beat) (solo : Solo)
    (ran : solo = .after (plan.work timing goal) attempt told store beats) :
    solo.store = store.overwritten solo.writes ∧
      (∀ pv, pv ≠ plan.pv → solo.store.get? pv = store.get? pv) ∧
      (∀ pv, solo.store.answers pv = store.answers pv) ∧
      (store.answers plan.pv = false → solo.store = store ∧ solo.writes = []) ∧
      ((∃ check, plan.check? goal = some check ∧ check.read store = .ok true) →
        solo.store = store ∧ solo.writes = []) ∧
      (∀ write ∈ solo.writes,
        write.1 = plan.pv ∧ ∀ value, plan.task = .set value → write.2 = value) ∧
      (∀ status exit, solo.conduct.progress = .ended status exit →
        (status = .success ↔
          ∃ check, plan.check? goal = some check ∧ check.read solo.store = .ok true) ∧
        (status = .failure ↔
          ¬∃ check, plan.check? goal = some check ∧ check.read solo.store = .ok true)) ∧
      ∀ value, plan.task = .set value → plan.termination = none → goal = none →
        store.answers plan.pv = true →
        (∀ double, value = .float double → Comparator.eq.holds value value = true) →
        solo.writes.length ≤ 1 ∧
          (told = false → .stop ∉ beats → .timedOut ∉ solo.conduct.record →
            4 ≤ beats.count .answer → solo.conduct.progress = .ended .success .completed) := by
  have footprint : Footprint plan store solo := by
    rw [ran]
    exact after_footprint plan goal timing attempt told store beats
  have judged : Judged (plan.work timing goal) solo := by
    rw [ran]
    exact after_judged _ attempt told store beats
  refine ⟨footprint.store, ?_, ?_, ?_, ?_, ?_, ?_, ?_⟩
  · intro pv apart
    rw [footprint.store]
    apply Store.get?_overwritten
    intro write inside own
    exact apart (own.symm.trans (footprint.own write inside))
  · intro pv
    rw [footprint.store, Store.answers_overwritten]
  · intro silent
    have idle : solo.writes = [] := by
      by_contra wrote
      rw [footprint.reached wrote] at silent
      cases silent
    refine ⟨?_, idle⟩
    rw [footprint.store, idle]
    rfl
  · intro met
    rw [ran]
    exact after_content ((plan.work_met_iff goal timing store).mpr met) attempt told beats
  · intro write inside
    exact ⟨footprint.own write inside, fun value sets => footprint.given value sets write inside⟩
  · intro status exit ended
    rw [← plan.work_met_iff goal timing]
    exact ⟨judged.success status exit ended, judged.failure status exit ended⟩
  · intro value sets bare alone answers number
    have equal : Comparator.eq.holds value value = true := eq_holds_self number
    have checks : plan.check? goal = plan.valueCheck? := by
      rw [ActionPlan.check?, bare, alone]
      rfl
    subst ran
    refine ⟨after_at_most_once sets checks equal timing attempt told store beats, ?_⟩
    intro untold unstopped timely enough
    subst untold
    exact set_succeeds sets checks equal timing attempt answers unstopped timely enough

/-- A lamp is switched on while a level is left as it is; where the lamp does not answer, or where
it is lit already, nothing is written. -/
theorem effect_of_switching :
    ∃ (plan : ActionPlan) (store silent lit : Store) (beats : List Beat),
      plan.task = .set (.bool true) ∧ plan.termination = none ∧ store.answers plan.pv = true ∧
        .stop ∉ beats ∧ 4 ≤ beats.count .answer ∧ "level" ≠ plan.pv ∧
        silent.answers plan.pv = false ∧
        (∃ check, plan.check? none = some check ∧ check.read lit = .ok true) ∧
        (∃ solo : Solo, solo = .after (plan.work {} none) 1 false store beats ∧
          .timedOut ∉ solo.conduct.record ∧ solo.store.get? "level" = store.get? "level" ∧
          solo.writes.length ≤ 1 ∧ solo.conduct.progress = .ended .success .completed ∧
          (Status.success = .success ↔
            ∃ check, plan.check? none = some check ∧ check.read solo.store = .ok true)) ∧
        (∃ solo : Solo, solo = .after (plan.work {} none) 1 false silent beats ∧
          solo.store = silent ∧ solo.writes = []) ∧
        ∃ solo : Solo, solo = .after (plan.work {} none) 1 false lit beats ∧
          solo.store = lit ∧ solo.writes = [] := by
  let plan : ActionPlan :=
    { label := { name := "switch" }, pv := "lamp", task := .set (.bool true) }
  let store : Store := .ofList [("lamp", .bool false), ("level", .int 3)]
  let silent : Store := store.setUnreachable "lamp" true
  let lit : Store := .ofList [("lamp", .bool true)]
  let beats : List Beat := [.answer, .pass 5, .answer, .answer, .answer]
  have dark : silent.answers plan.pv = false := by decide
  have holds : ∃ check, plan.check? none = some check ∧ check.read lit = .ok true :=
    ⟨{ pv := "lamp", operator := .eq, value := .bool true }, rfl, rfl⟩
  refine ⟨plan, store, silent, lit, beats, rfl, rfl, by decide, by decide, by decide, by decide,
    dark, holds, ?_, ?_, ?_⟩
  · let solo : Solo := .after (plan.work {} none) 1 false store beats
    have timely : .timedOut ∉ solo.conduct.record := by decide +kernel
    obtain ⟨-, apart, -, -, -, -, judged, setting⟩ :=
      effect_of_cycle plan none {} 1 false store beats solo rfl
    obtain ⟨few, succeeds⟩ := setting (.bool true) rfl rfl rfl (by decide) nofun
    have ended := succeeds rfl (by decide) timely (by decide)
    exact ⟨solo, rfl, timely, apart "level" (by decide), few, ended, (judged _ _ ended).1⟩
  · obtain ⟨-, -, -, unreached, -⟩ := effect_of_cycle plan none {} 1 false silent beats _ rfl
    exact ⟨_, rfl, unreached dark⟩
  · obtain ⟨-, -, -, -, met, -⟩ := effect_of_cycle plan none {} 1 false lit beats _ rfl
    exact ⟨_, rfl, met holds⟩

end Solo

end BehaviorTree
