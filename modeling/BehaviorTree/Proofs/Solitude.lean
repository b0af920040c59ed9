import BehaviorTree.Proofs.Conduct
import BehaviorTree.Proofs.Ramp
import Mathlib.Data.List.Induction

/-!
Cycles that have the process variables to themselves. Nothing but the work of such a cycle writes,
while time passes and its worker is told to stop in any way. So what its checks are answered
follows from its own steps: it goes from step to step as long as the check does not hold, and
leaves at the first store in which it does.
-/

namespace BehaviorTree

/-- What comes to a cycle that has the variables to itself: they answer what it waits for, time
passes, or it is told to stop. -/
inductive Beat where
  | answer
  | pass (milliseconds : Nat)
  | stop
  deriving DecidableEq

/-- Such a cycle, with its variables and everything that it wrote. -/
structure Solo where
  conduct : Conduct
  store : Store
  writes : List (String × Value) := []

namespace Work

/-- The completion check reads and holds. -/
def IsMet (work : Work) (store : Store) : Prop := work.checkAnswer store = some (.complete true)

instance (work : Work) (store : Store) : Decidable (work.IsMet store) :=
  inferInstanceAs (Decidable (_ = _))

theorem is_met_iff {work : Work} {check : Check} (reading : work.completion = .reading check)
    (store : Store) : work.IsMet store ↔ check.read store = .ok true := by
  unfold IsMet checkAnswer
  rw [reading]
  cases read : check.read store with
  | ok holds => simp [read]
  | error fault => simp [read]

theorem checked_of_met {work : Work} {store : Store} (met : work.IsMet store) :
    work.isChecked = true := by
  unfold IsMet checkAnswer at met
  unfold isChecked
  cases completes : work.completion with
  | never => simp [completes] at met
  | external | reading => rfl

theorem outcome_of_checking (work : Work) {point : Point} (checking : point ≠ .step)
    (store : Store) :
    work.outcome point store = (work.checkAnswer store).map fun answer => { answer, store } := by
  cases point with
  | step => exact absurd rfl checking
  | completion => rfl
  | lastCheck exit => rfl

theorem check_answer_cases {work : Work} {store : Store} {answer : Answer}
    (found : work.checkAnswer store = some answer) :
    (∃ holds, answer = .complete holds) ∨ ∃ fault, answer = .failed fault := by
  unfold checkAnswer at found
  split at found
  · exact .inl ⟨false, (Option.some.inj found).symm⟩
  · cases found
  · split at found
    next holds _ => exact .inl ⟨holds, (Option.some.inj found).symm⟩
    next fault _ => exact .inr ⟨.store fault, (Option.some.inj found).symm⟩

/-- A step fails and leaves everything as it is, or it writes what it is to write. -/
theorem step_outcome_cases {work : Work} {store : Store} {outcome : Outcome}
    (found : work.stepOutcome store = some outcome) :
    (∃ fault, outcome = { answer := .failed fault, store }) ∨
      ∃ pv value, work.written store = .ok (some (pv, value)) ∧ store.answers pv = true ∧
        outcome =
          { answer := .stepped .running, store := store.insert pv value
            write := some (pv, value) } := by
  unfold stepOutcome Intent.carriedOut at found
  split at found
  next fault _ => exact .inl ⟨fault, (Option.some.inj found).symm⟩
  next => cases found
  next pv value written =>
    unfold Store.write at found
    by_cases answers : store.answers pv = true
    · rw [if_pos answers] at found
      exact .inr ⟨pv, value, written, answers, (Option.some.inj found).symm⟩
    · rw [if_neg answers] at found
      exact .inl ⟨_, (Option.some.inj found).symm⟩

/-- The variables only give answers that are waited for. -/
theorem fits_of_outcome {work : Work} {store : Store} {cycle : Cycle} {outcome : Outcome}
    (found : work.outcome cycle.point store = some outcome) :
    cycle.fits outcome.answer = true := by
  by_cases here : cycle.point = .step
  · rw [here] at found
    rcases step_outcome_cases found with ⟨fault, rfl⟩ | ⟨pv, value, -, -, rfl⟩
    · rfl
    · simp [Cycle.fits, here]
  · rw [work.outcome_of_checking here] at found
    obtain ⟨answer, given, rfl⟩ := Option.map_eq_some_iff.mp found
    rcases check_answer_cases given with ⟨holds, rfl⟩ | ⟨fault, rfl⟩
    · simp [Cycle.fits, here]
    · rfl

/-- The next step fails. -/
def Stuck (work : Work) (store : Store) : Prop :=
  ∃ fault, work.stepOutcome store = some { answer := .failed fault, store }

theorem stuck_of_fault {work : Work} {store : Store} {fault : WorkFault}
    (fails : work.written store = .error fault) : work.Stuck store := by
  refine ⟨fault, ?_⟩
  rw [stepOutcome, fails, Intent.carriedOut]

theorem not_stuck_of_written {work : Work} {store : Store} {pv : String} {value : Value}
    (written : work.written store = .ok (some (pv, value))) (answers : store.answers pv = true) :
    ¬work.Stuck store := by
  rintro ⟨fault, stuck⟩
  rw [stepOutcome, written] at stuck
  simp [Intent.carriedOut, Store.write, answers] at stuck

/-- Everything that such a cycle waits for is answered by the variables. -/
structure Independent (work : Work) : Prop where
  checks : ∀ store, ∃ answer, work.checkAnswer store = some answer
  steps : ∀ store, ∃ outcome, work.stepOutcome store = some outcome
  checked : work.isChecked = true

/-- Where neither the check holds nor a step can be taken, no answer changes anything. -/
theorem Independent.outcome_of_stuck {work : Work} (independent : work.Independent) {store : Store}
    (unmet : ¬work.IsMet store) (stuck : work.Stuck store) (point : Point) :
    ∃ answer, work.outcome point store = some { answer, store } ∧ answer ≠ .complete true ∧
      ∀ status, answer ≠ .stepped status := by
  by_cases here : point = .step
  · obtain ⟨fault, fails⟩ := stuck
    rw [here]
    exact ⟨_, fails, nofun, nofun⟩
  · obtain ⟨answer, given⟩ := independent.checks store
    rw [work.outcome_of_checking here, given]
    refine ⟨answer, rfl, ?_, ?_⟩
    · rintro rfl
      exact unmet given
    · rintro status rfl
      rcases check_answer_cases given with ⟨holds, other⟩ | ⟨fault, other⟩
      · cases other
      · cases other

end Work

namespace Cycle

/-- Only the last check ends a cycle, unless its work is never complete. -/
theorem ended_of_leave {cycle : Cycle} {work : Work} {left exit : Exit} {status : Status}
    (ended : (cycle.leave work left).1 = .ended status exit) :
    work.isChecked = false ∧ status = .failure := by
  unfold leave at ended
  split at ended
  · cases ended
  next unchecked =>
    cases ended
    exact ⟨Bool.eq_false_iff.mpr unchecked, rfl⟩

theorem ended_of_after_check {cycle : Cycle} {work : Work} {exit : Exit} {status : Status}
    (ended : (cycle.afterCheck work).1 = .ended status exit) :
    work.isChecked = false ∧ status = .failure := by
  unfold afterCheck at ended
  split at ended
  · exact ended_of_leave ended
  · cases ended

theorem ended_of_loop {cycle : Cycle} {work : Work} {exit : Exit} {status : Status}
    (ended : (cycle.loop work).1 = .ended status exit) :
    work.isChecked = false ∧ status = .failure := by
  unfold loop at ended
  split at ended
  · exact ended_of_leave ended
  · split at ended
    · cases ended
    · exact ended_of_after_check ended

theorem ended_of_resume {cycle : Cycle} {work : Work} {answer : Answer} {exit : Exit}
    {status : Status} (fits : cycle.fits answer = true)
    (ended : (cycle.resume work answer).1 = .ended status exit) :
    cycle.point ≠ .step ∧ status = answer.outcome ∨
      work.isChecked = false ∧ status = .failure := by
  cases here : cycle.point with
  | lastCheck left =>
      rw [(resume_last here work fits).1] at ended
      cases ended
      exact .inl ⟨by simp, rfl⟩
  | completion =>
      right
      by_cases reached : answer = .complete true
      · subst reached
        unfold resume at ended
        rw [here] at ended
        exact ended_of_leave ended
      · rw [(resume_refused here work reached).1] at ended
        exact ended_of_after_check ended
  | step =>
      right
      unfold resume at ended
      rw [here] at ended
      rcases fits_step here fits with ⟨status, rfl⟩ | ⟨fault, rfl⟩
      · exact ended_of_loop ended
      · exact ended_of_leave ended

/-- A check that found the goal reached is followed by the last check. -/
theorem resume_reached {cycle : Cycle} {work : Work} (here : cycle.point = .completion)
    (checked : work.isChecked = true) :
    (cycle.resume work (.complete true)).1 =
      .waiting { cycle with point := .lastCheck .completed } := by
  unfold resume leave
  rw [here]
  simp [checked]

theorem resume_failed {cycle : Cycle} {work : Work} (here : cycle.point = .step)
    (checked : work.isChecked = true) (fault : WorkFault) :
    (cycle.resume work (.failed fault)).1 =
      .waiting { cycle with point := .lastCheck .stepFailed } := by
  unfold resume leave
  rw [here]
  simp [checked]

theorem resume_stepped {cycle : Cycle} {work : Work} (here : cycle.point = .step)
    (checked : work.isChecked = true) (free : cycle.stopped = false) (status : Status) :
    (cycle.resume work (.stepped status)).1 =
      .waiting { cycle.after work.loopPeriod with point := .completion } := by
  have still : (cycle.after work.loopPeriod).stopped = false := free
  unfold resume loop
  rw [here]
  simp [checked, still]

/-- A check that did not find the goal reached is followed by a step, unless the time is up. -/
theorem resume_unmet {cycle : Cycle} (here : cycle.point = .completion) (work : Work)
    {answer : Answer} (refused : answer ≠ .complete true) :
    .timedOut ∈ cycle.deedsOfResuming work answer ∨
      (cycle.resume work answer).1 = .waiting { cycle with point := .step } := by
  rw [(resume_refused here work refused).1, (resume_refused here work refused).2]
  unfold afterCheck deedsAfterCheck
  split
  · exact .inl (by simp)
  · exact .inr rfl

theorem remaining_bounds (cycle : Cycle) : 0 < cycle.remaining ∧ cycle.remaining ≤ 3 := by
  unfold remaining
  split <;> decide

/-- Neither a failure nor a check that did not find the goal reached keeps a cycle up for long. -/
theorem remaining_of_resume {cycle next : Cycle} {work : Work} {answer : Answer}
    (fits : cycle.fits answer = true) (refused : answer ≠ .complete true)
    (unmoved : ∀ status, answer ≠ .stepped status)
    (waiting : (cycle.resume work answer).1 = .waiting next) :
    next.remaining < cycle.remaining := by
  cases here : cycle.point with
  | completion =>
      let fault : WorkFault := .panicked none
      have unlike : Answer.failed fault ≠ .complete true := nofun
      rw [(resume_refused here work refused).1, ← (resume_refused here work unlike).1] at waiting
      exact cycle.failed_remaining work fault waiting
  | step =>
      rcases fits_step here fits with ⟨status, rfl⟩ | ⟨fault, rfl⟩
      · exact absurd rfl (unmoved status)
      · exact cycle.failed_remaining work fault waiting
  | lastCheck exit =>
      rw [(resume_last here work fits).1] at waiting
      cases waiting

end Cycle

namespace Solo

def start (work : Work) (attempt : UInt64) (told : Bool) (store : Store) : Solo :=
  { conduct := .start work attempt told, store }

/-- What the variables answer, unless the cycle is over or waits for somebody outside. -/
def outcome? (solo : Solo) (work : Work) : Option Work.Outcome :=
  match solo.conduct.progress with
  | .waiting cycle => work.outcome cycle.point solo.store
  | .ended _ _ => none

def answered (solo : Solo) (work : Work) (outcome : Work.Outcome) : Solo :=
  { conduct := solo.conduct.meet work (.answer outcome.answer)
    store := outcome.store
    writes := solo.writes ++ outcome.write.toList }

def meet (work : Work) (solo : Solo) : Beat → Solo
  | .answer =>
      match solo.outcome? work with
      | some outcome => solo.answered work outcome
      | none => solo
  | .pass milliseconds => { solo with conduct := solo.conduct.meet work (.pass milliseconds) }
  | .stop => { solo with conduct := solo.conduct.meet work .stop }

def after (work : Work) (attempt : UInt64) (told : Bool) (store : Store) (beats : List Beat) :
    Solo :=
  beats.foldl (meet work) (start work attempt told store)

theorem after_concat (work : Work) (attempt : UInt64) (told : Bool) (store : Store)
    (beats : List Beat) (beat : Beat) :
    after work attempt told store (beats ++ [beat]) =
      (after work attempt told store beats).meet work beat := by
  rw [after, List.foldl_append]
  rfl

/-- What a beat does: nothing, or it moves the clock or the flag of the cycle, or the cycle goes on
by what the variables answer. -/
inductive Goes (work : Work) (solo : Solo) : Solo → Prop
  | rests : Goes work solo solo
  | moves {cycle moved : Cycle} {conduct : Conduct}
      (waiting : solo.conduct.progress = .waiting cycle)
      (still : conduct.progress = .waiting moved) (same : moved.point = cycle.point) :
      Goes work solo { solo with conduct }
  | answered {cycle : Cycle} {outcome : Work.Outcome}
      (waiting : solo.conduct.progress = .waiting cycle)
      (found : work.outcome cycle.point solo.store = some outcome) :
      Goes work solo
        { conduct := solo.conduct.continued (cycle.resume work outcome.answer)
            (cycle.deedsOfResuming work outcome.answer)
          store := outcome.store
          writes := solo.writes ++ outcome.write.toList }

section

variable {work : Work} {solo next : Solo}

theorem meet_answer_of_waiting {cycle : Cycle} (waiting : solo.conduct.progress = .waiting cycle)
    {outcome : Work.Outcome} (found : work.outcome cycle.point solo.store = some outcome) :
    solo.meet work .answer =
      { conduct := solo.conduct.continued (cycle.resume work outcome.answer)
          (cycle.deedsOfResuming work outcome.answer)
        store := outcome.store
        writes := solo.writes ++ outcome.write.toList } := by
  have given : solo.outcome? work = some outcome := by
    rw [outcome?, waiting]
    exact found
  rw [meet, given]
  dsimp only
  rw [answered, Conduct.meet_answer waiting (Work.fits_of_outcome found)]

theorem meet_pass_of_waiting {cycle : Cycle} (waiting : solo.conduct.progress = .waiting cycle)
    (milliseconds : Nat) :
    solo.meet work (.pass milliseconds) =
      { solo with
        conduct := { solo.conduct with progress := .waiting (cycle.after milliseconds) } } := by
  unfold meet Conduct.meet
  rw [waiting]

theorem meet_stop_of_waiting {cycle : Cycle} (waiting : solo.conduct.progress = .waiting cycle) :
    solo.meet work .stop =
      { solo with
        conduct :=
          { solo.conduct with
            progress := .waiting cycle.toldToStop
            toldAt := solo.conduct.toldAt.or (some solo.conduct.record.length) } } := by
  unfold meet Conduct.meet
  rw [waiting]

theorem meet_of_ended {status : Status} {exit : Exit}
    (ended : solo.conduct.progress = .ended status exit) (beat : Beat) :
    solo.meet work beat = solo := by
  cases beat with
  | answer =>
      have none : solo.outcome? work = none := by rw [outcome?, ended]
      rw [meet, none]
  | pass milliseconds =>
      unfold meet Conduct.meet
      rw [ended]
  | stop =>
      unfold meet Conduct.meet
      rw [ended]

theorem goes_of_meet (work : Work) (solo : Solo) (beat : Beat) :
    solo.Goes work (solo.meet work beat) := by
  cases known : solo.conduct.progress with
  | ended status exit =>
      rw [meet_of_ended known]
      exact .rests
  | waiting cycle =>
      cases beat with
      | pass milliseconds =>
          rw [meet_pass_of_waiting known]
          exact .moves known rfl rfl
      | stop =>
          rw [meet_stop_of_waiting known]
          exact .moves known rfl rfl
      | answer =>
          cases found : work.outcome cycle.point solo.store with
          | some outcome =>
              rw [meet_answer_of_waiting known found]
              exact .answered known found
          | none =>
              have silent : solo.outcome? work = none := by
                rw [outcome?, known]
                exact found
              rw [meet, silent]
              exact .rests

/-- What every beat keeps holds at all times. -/
theorem after_invariant {invariant : Solo → Prop}
    (kept : ∀ {solo next : Solo}, invariant solo → solo.Goes work next → invariant next)
    {attempt : UInt64} {told : Bool} {store : Store}
    (holds : invariant (start work attempt told store)) (beats : List Beat) :
    invariant (after work attempt told store beats) := by
  induction beats using List.reverseRecOn with
  | nil => exact holds
  | append_singleton beats beat ih =>
      rw [after_concat]
      exact kept ih (goes_of_meet work _ beat)

/-- A beat changes nothing in the store, or a step writes. -/
theorem Goes.writes (goes : solo.Goes work next) :
    next.store = solo.store ∧ next.writes = solo.writes ∨
      ∃ cycle pv value, solo.conduct.progress = .waiting cycle ∧ cycle.point = .step ∧
        work.written solo.store = .ok (some (pv, value)) ∧ solo.store.answers pv = true ∧
        next.store = solo.store.insert pv value ∧
        next.writes = solo.writes ++ [(pv, value)] ∧
        next.conduct.progress = (cycle.resume work (.stepped .running)).1 := by
  cases goes with
  | rests => exact .inl ⟨rfl, rfl⟩
  | moves => exact .inl ⟨rfl, rfl⟩
  | @answered cycle outcome waiting found =>
      by_cases here : cycle.point = .step
      · rw [here] at found
        rcases Work.step_outcome_cases found with ⟨fault, rfl⟩ | ⟨pv, value, written, answers, rfl⟩
        · exact .inl ⟨rfl, List.append_nil _⟩
        · exact .inr ⟨cycle, pv, value, waiting, here, written, answers, rfl, rfl, rfl⟩
      · rw [work.outcome_of_checking here] at found
        obtain ⟨answer, -, rfl⟩ := Option.map_eq_some_iff.mp found
        exact .inl ⟨rfl, List.append_nil _⟩

/-! The end of a cycle. -/

/-- A cycle that is over ended as its check is answered in the store that it left. -/
structure Judged (work : Work) (solo : Solo) : Prop where
  success : ∀ status exit, solo.conduct.progress = .ended status exit →
    (status = .success ↔ work.IsMet solo.store)
  failure : ∀ status exit, solo.conduct.progress = .ended status exit →
    (status = .failure ↔ ¬work.IsMet solo.store)

theorem judged_of_unchecked {store : Store} {status : Status}
    (unchecked : work.isChecked = false ∧ status = .failure) :
    (status = .success ↔ work.IsMet store) ∧ (status = .failure ↔ ¬work.IsMet store) := by
  obtain ⟨none, rfl⟩ := unchecked
  have unmet : ¬work.IsMet store := by
    intro met
    rw [Work.checked_of_met met] at none
    cases none
  simp [unmet]

theorem Judged.goes (judged : Judged work solo) (goes : solo.Goes work next) :
    Judged work next := by
  cases goes with
  | rests => exact judged
  | @moves cycle moved conduct waiting still same =>
      constructor
      · intro status exit ended
        cases still.symm.trans ended
      · intro status exit ended
        cases still.symm.trans ended
  | @answered cycle outcome waiting found =>
      have both : ∀ status exit, (cycle.resume work outcome.answer).1 = .ended status exit →
          (status = .success ↔ work.IsMet outcome.store) ∧
            (status = .failure ↔ ¬work.IsMet outcome.store) := by
        intro status exit ended
        rcases Cycle.ended_of_resume (Work.fits_of_outcome found) ended with
          ⟨checking, rfl⟩ | unchecked
        · rw [work.outcome_of_checking checking] at found
          obtain ⟨answer, given, rfl⟩ := Option.map_eq_some_iff.mp found
          have met : work.IsMet solo.store ↔ answer = .complete true := by
            rw [Work.IsMet, given, Option.some_inj]
          rw [met]
          exact ⟨answer.outcome_success_iff, answer.outcome_failure_iff⟩
        · exact judged_of_unchecked unchecked
      exact ⟨fun status exit ended => (both status exit ended).1,
        fun status exit ended => (both status exit ended).2⟩

theorem after_judged (work : Work) (attempt : UInt64) (told : Bool) (store : Store)
    (beats : List Beat) : Judged work (after work attempt told store beats) := by
  apply after_invariant (fun judged goes => Judged.goes judged goes)
  have both : ∀ status exit, (start work attempt told store).conduct.progress =
      .ended status exit → (status = .success ↔ work.IsMet store) ∧
        (status = .failure ↔ ¬work.IsMet store) := by
    intro status exit ended
    exact judged_of_unchecked (Cycle.ended_of_loop ended)
  exact ⟨fun status exit ended => (both status exit ended).1,
    fun status exit ended => (both status exit ended).2⟩

/-! Once the check holds. -/

/-- The check holds, and no step is under way. -/
structure Content (work : Work) (solo : Solo) : Prop where
  met : work.IsMet solo.store
  resting : ∀ cycle, solo.conduct.progress = .waiting cycle → cycle.point ≠ .step

/-- Nothing more is written once the check holds. -/
theorem Content.goes (content : Content work solo) (goes : solo.Goes work next) :
    Content work next ∧ next.store = solo.store ∧ next.writes = solo.writes := by
  have checked := Work.checked_of_met content.met
  cases goes with
  | rests => exact ⟨content, rfl, rfl⟩
  | @moves cycle moved conduct waiting still same =>
      refine ⟨⟨content.met, ?_⟩, rfl, rfl⟩
      intro own known
      cases still.symm.trans known
      rw [same]
      exact content.resting cycle waiting
  | @answered cycle outcome waiting found =>
      have checking := content.resting cycle waiting
      -- With no step under way the answer is that of the check, which holds.
      rw [work.outcome_of_checking checking, content.met] at found
      cases found
      refine ⟨⟨content.met, ?_⟩, rfl, List.append_nil _⟩
      intro own known
      have onward : (cycle.resume work (.complete true)).1 = .waiting own := known
      intro steps
      have stepping := (Cycle.stepping_of_waiting onward).trans (Cycle.stepping_of_step steps)
      have refused := Cycle.resume_after_check checking (by rw [stepping]; exact Nat.one_pos)
      cases refused

theorem content_at_start {store : Store} (met : work.IsMet store) (attempt : UInt64)
    (told : Bool) : Content work (start work attempt told store) where
  met := met
  resting := fun _ waiting =>
    Cycle.checks_of_waiting (Cycle.loop_checks_first _ (Work.checked_of_met met)) waiting

theorem after_content {store : Store} (met : work.IsMet store) (attempt : UInt64) (told : Bool)
    (beats : List Beat) :
    (after work attempt told store beats).store = store ∧
      (after work attempt told store beats).writes = [] := by
  have kept : Content work (after work attempt told store beats) ∧
      (after work attempt told store beats).store = store ∧
      (after work attempt told store beats).writes = [] := by
    apply @after_invariant work fun solo =>
      Content work solo ∧ solo.store = store ∧ solo.writes = []
    · rintro solo next ⟨content, same, silent⟩ goes
      obtain ⟨still, unmoved, quiet⟩ := content.goes goes
      exact ⟨still, unmoved.trans same, quiet.trans silent⟩
    · exact ⟨content_at_start met attempt told, rfl, rfl⟩
  exact kept.2

end

/-! Where neither the check holds nor a step can be taken. -/

theorem Goes.of_stuck {work : Work} {solo next : Solo} (goes : solo.Goes work next)
    (stuck : work.Stuck solo.store) : next.store = solo.store ∧ next.writes = solo.writes := by
  rcases goes.writes with same | ⟨cycle, pv, value, -, -, written, answers, -⟩
  · exact same
  · exact absurd stuck (Work.not_stuck_of_written written answers)

/-- The cycle is over, or will be soon. -/
inductive Doomed (answers : Nat) : Progress → Prop
  | soon {cycle : Cycle} (left : cycle.remaining + answers ≤ 3) : Doomed answers (.waiting cycle)
  | ended (status : Status) (exit : Exit) : Doomed answers (.ended status exit)

section

variable {work : Work} {solo : Solo} {answers : Nat}

theorem Doomed.meet (independent : work.Independent) (unmet : ¬work.IsMet solo.store)
    (stuck : work.Stuck solo.store) (doomed : Doomed answers solo.conduct.progress) (beat : Beat) :
    Doomed (answers + [beat].count .answer) (solo.meet work beat).conduct.progress := by
  generalize known : solo.conduct.progress = progress at doomed
  cases doomed with
  | ended status exit =>
      rw [meet_of_ended known, known]
      exact .ended status exit
  | @soon cycle left =>
      cases beat with
      | pass milliseconds =>
          rw [meet_pass_of_waiting known]
          exact .soon left
      | stop =>
          rw [meet_stop_of_waiting known]
          exact .soon left
      | answer =>
          obtain ⟨answer, found, refused, unmoved⟩ :=
            independent.outcome_of_stuck unmet stuck cycle.point
          rw [meet_answer_of_waiting known found, Conduct.continued]
          dsimp only
          cases onward : (cycle.resume work answer).1 with
          | ended status exit => exact .ended status exit
          | waiting next =>
              have fewer := Cycle.remaining_of_resume (Work.fits_of_outcome found) refused unmoved
                onward
              apply Doomed.soon
              simp only [List.count_singleton_self]
              omega

/-- Such a cycle leaves everything as it is, and three answers end it. -/
theorem after_stuck (independent : work.Independent) {store : Store} (unmet : ¬work.IsMet store)
    (stuck : work.Stuck store) (attempt : UInt64) (told : Bool) (beats : List Beat) :
    ((after work attempt told store beats).store = store ∧
        (after work attempt told store beats).writes = []) ∧
      Doomed (beats.count .answer) (after work attempt told store beats).conduct.progress := by
  induction beats using List.reverseRecOn with
  | nil =>
      refine ⟨⟨rfl, rfl⟩, ?_⟩
      change Doomed 0 (Cycle.loop _ work).1
      cases begun : (Cycle.loop _ work).1 with
      | ended status exit => exact .ended status exit
      | waiting cycle => exact .soon cycle.remaining_bounds.2
  | append_singleton beats beat ih =>
      obtain ⟨⟨same, silent⟩, doomed⟩ := ih
      rw [after_concat, List.count_append]
      generalize after work attempt told store beats = solo at same silent doomed ⊢
      subst same
      have still := (goes_of_meet work solo beat).of_stuck stuck
      exact ⟨⟨still.1, still.2.trans silent⟩, doomed.meet independent unmet stuck beat⟩

end

/-! Step by step. -/

/-- What some steps leave and write, each of which was taken from a store in which the check does
not hold. -/
inductive Strides (work : Work) (first : Store) : Nat → Store → List (String × Value) → Prop
  | none : Strides work first 0 first []
  | more {count : Nat} {store : Store} {writes : List (String × Value)} {pv : String}
      {value : Value} (before : Strides work first count store writes)
      (unmet : ¬work.IsMet store) (written : work.written store = .ok (some (pv, value)))
      (answers : store.answers pv = true) :
      Strides work first (count + 1) (store.insert pv value) (writes ++ [(pv, value)])

theorem Strides.length_writes {work : Work} {first store : Store} {count : Nat}
    {writes : List (String × Value)} (strides : Strides work first count store writes) :
    writes.length = count := by
  induction strides with
  | none => rfl
  | more before unmet written answers ih => rw [List.length_append, ih, List.length_singleton]

/-- Where a cycle is after some steps and some answers, as long as it is not told to stop and its
time is not up. Every step takes two answers, one to the check before it and one of its own. -/
inductive Reaches (work : Work) (store : Store) (count : Nat) : Progress → Nat → Prop
  | checking {cycle : Cycle} (here : cycle.point = .completion) (free : cycle.stopped = false) :
      Reaches work store count (.waiting cycle) (2 * count)
  | stepping {cycle : Cycle} (here : cycle.point = .step) (free : cycle.stopped = false)
      (unmet : ¬work.IsMet store) : Reaches work store count (.waiting cycle) (2 * count + 1)
  | completed {cycle : Cycle} (here : cycle.point = .lastCheck .completed)
      (met : work.IsMet store) : Reaches work store count (.waiting cycle) (2 * count + 1)
  | failing {cycle : Cycle} (here : cycle.point = .lastCheck .stepFailed)
      (unmet : ¬work.IsMet store) (stuck : work.Stuck store) :
      Reaches work store count (.waiting cycle) (2 * count + 2)
  | succeeded {answers : Nat} (met : work.IsMet store) (enough : 2 * count + 2 ≤ answers) :
      Reaches work store count (.ended .success .completed) answers
  | failed {answers : Nat} (unmet : ¬work.IsMet store) (stuck : work.Stuck store)
      (enough : 2 * count + 3 ≤ answers) :
      Reaches work store count (.ended .failure .stepFailed) answers

theorem record_grows (work : Work) (solo : Solo) (beat : Beat) :
    solo.conduct.record <+: (solo.meet work beat).conduct.record := by
  have conducts : ∀ occurrence,
      solo.conduct.record <+: (solo.conduct.meet work occurrence).record := by
    intro occurrence
    unfold Conduct.meet
    split
    · exact List.prefix_rfl
    · split
      · exact List.prefix_append _ _
      · exact List.prefix_rfl
    · exact List.prefix_rfl
    · exact List.prefix_rfl
  cases beat with
  | pass milliseconds => exact conducts _
  | stop => exact conducts _
  | answer =>
      rw [meet]
      split
      · exact conducts _
      · exact List.prefix_rfl

section

variable {work : Work} {solo : Solo} {first : Store} {count answers : Nat}

/-- What the variables answer brings a cycle on by one, or it finds its time up. -/
theorem Reaches.answer (independent : work.Independent)
    (strides : Strides work first count solo.store solo.writes)
    (reaches : Reaches work solo.store count solo.conduct.progress answers) :
    .timedOut ∈ (solo.meet work .answer).conduct.record ∨
      ∃ more, Strides work first more (solo.meet work .answer).store
          (solo.meet work .answer).writes ∧
        Reaches work (solo.meet work .answer).store more
          (solo.meet work .answer).conduct.progress (answers + 1) := by
  obtain ⟨answer, given⟩ := independent.checks solo.store
  have met_iff : work.IsMet solo.store ↔ answer = .complete true := by
    rw [Work.IsMet, given, Option.some_inj]
  have unwritten : Strides work first count solo.store (solo.writes ++ []) := by
    rw [List.append_nil]
    exact strides
  generalize known : solo.conduct.progress = progress at reaches
  have looks : ∀ cycle : Cycle, cycle.point ≠ .step →
      work.outcome cycle.point solo.store = some { answer, store := solo.store } := by
    intro cycle checking
    rw [work.outcome_of_checking checking, given]
    rfl
  cases reaches with
  | @checking cycle here free =>
      rw [meet_answer_of_waiting known (looks cycle (by simp [here]))]
      by_cases met : work.IsMet solo.store
      · obtain rfl := met_iff.mp met
        refine .inr ⟨count, unwritten, ?_⟩
        rw [Conduct.continued, Cycle.resume_reached here independent.checked]
        exact .completed rfl met
      · rcases Cycle.resume_unmet here work (mt met_iff.mpr met) with late | onward
        · exact .inl (List.mem_append_right _ late)
        · refine .inr ⟨count, unwritten, ?_⟩
          rw [Conduct.continued, onward]
          exact .stepping rfl free met
  | @stepping cycle here free unmet =>
      obtain ⟨outcome, found⟩ := independent.steps solo.store
      have does : work.outcome cycle.point solo.store = some outcome := by
        rw [here]
        exact found
      rw [meet_answer_of_waiting known does]
      right
      rcases Work.step_outcome_cases found with ⟨fault, rfl⟩ | ⟨pv, value, written, reached, rfl⟩
      · refine ⟨count, unwritten, ?_⟩
        rw [Conduct.continued, Cycle.resume_failed here independent.checked]
        exact .failing rfl unmet ⟨fault, found⟩
      · refine ⟨count + 1, .more strides unmet written reached, ?_⟩
        rw [Conduct.continued, Cycle.resume_stepped here independent.checked free]
        exact .checking rfl free
  | @completed cycle here met =>
      have seen := looks cycle (by simp [here])
      rw [meet_answer_of_waiting known seen]
      obtain rfl := met_iff.mp met
      refine .inr ⟨count, unwritten, ?_⟩
      rw [Conduct.continued, (Cycle.resume_last here work (Work.fits_of_outcome seen)).1]
      exact .succeeded met (Nat.le_refl _)
  | @failing cycle here unmet stuck =>
      have seen := looks cycle (by simp [here])
      rw [meet_answer_of_waiting known seen]
      refine .inr ⟨count, unwritten, ?_⟩
      have lost : answer.outcome = .failure :=
        answer.outcome_failure_iff.mpr (mt met_iff.mpr unmet)
      rw [Conduct.continued, (Cycle.resume_last here work (Work.fits_of_outcome seen)).1, lost]
      exact .failed unmet stuck (Nat.le_refl _)
  | succeeded met enough =>
      rw [meet_of_ended known, known]
      exact .inr ⟨count, strides, .succeeded met (Nat.le_succ_of_le enough)⟩
  | failed unmet stuck enough =>
      rw [meet_of_ended known, known]
      exact .inr ⟨count, strides, .failed unmet stuck (Nat.le_succ_of_le enough)⟩

theorem Reaches.pass (reaches : Reaches work solo.store count solo.conduct.progress answers)
    (milliseconds : Nat) :
    Reaches work solo.store count (solo.meet work (.pass milliseconds)).conduct.progress
      answers := by
  generalize known : solo.conduct.progress = progress at reaches
  cases reaches with
  | succeeded met enough =>
      rw [meet_of_ended known, known]
      exact .succeeded met enough
  | failed unmet stuck enough =>
      rw [meet_of_ended known, known]
      exact .failed unmet stuck enough
  | checking here free =>
      rw [meet_pass_of_waiting known]
      exact .checking here free
  | stepping here free unmet =>
      rw [meet_pass_of_waiting known]
      exact .stepping here free unmet
  | completed here met =>
      rw [meet_pass_of_waiting known]
      exact .completed here met
  | failing here unmet stuck =>
      rw [meet_pass_of_waiting known]
      exact .failing here unmet stuck

/-- A cycle that is not told to stop goes step by step as long as its check does not hold, unless it
finds its time up. -/
theorem reaches_unhindered (independent : work.Independent) (attempt : UInt64) (store : Store)
    {beats : List Beat} (unstopped : .stop ∉ beats)
    (timely : .timedOut ∉ (after work attempt false store beats).conduct.record) :
    ∃ count, Strides work store count (after work attempt false store beats).store
        (after work attempt false store beats).writes ∧
      Reaches work (after work attempt false store beats).store count
        (after work attempt false store beats).conduct.progress (beats.count .answer) := by
  induction beats using List.reverseRecOn with
  | nil =>
      refine ⟨0, .none, ?_⟩
      have waits : (start work attempt false store).conduct.progress =
          .waiting { attempt, point := .completion } := by
        simp [start, Conduct.start, Cycle.enter, Cycle.loop, independent.checked]
      change Reaches work store 0 (start work attempt false store).conduct.progress _
      rw [waits]
      exact .checking rfl rfl
  | append_singleton beats beat ih =>
      rw [after_concat] at timely ⊢
      have before : .timedOut ∉ (after work attempt false store beats).conduct.record :=
        fun late => timely ((record_grows work _ beat).subset late)
      obtain ⟨count, strides, reaches⟩ :=
        ih (fun told => unstopped (List.mem_append_left _ told)) before
      rw [List.count_append]
      cases beat with
      | stop => exact absurd (List.mem_append_right beats (List.mem_singleton_self _)) unstopped
      | pass milliseconds => exact ⟨count, strides, reaches.pass milliseconds⟩
      | answer => exact (reaches.answer independent strides).resolve_left timely

end

/-- Where neither the check holds nor a step can be taken, a cycle fails after three answers. -/
theorem fails_when_stuck {work : Work} (independent : work.Independent) {store : Store}
    (unmet : ¬work.IsMet store) (stuck : work.Stuck store) (attempt : UInt64) (told : Bool)
    {beats : List Beat} (enough : 3 ≤ beats.count .answer) :
    ∃ exit, (after work attempt told store beats).conduct.progress = .ended .failure exit ∧
      (told = false → .stop ∉ beats →
        .timedOut ∉ (after work attempt told store beats).conduct.record → exit = .stepFailed) := by
  obtain ⟨⟨still, -⟩, doomed⟩ := after_stuck independent unmet stuck attempt told beats
  have judged := after_judged work attempt told store beats
  generalize known : (after work attempt told store beats).conduct.progress = progress
    at doomed ⊢
  cases doomed with
  | @soon cycle left =>
      have positive := cycle.remaining_bounds.1
      omega
  | ended status exit =>
      have lost : status = .failure := by
        rw [judged.failure status exit known, still]
        exact unmet
      subst lost
      refine ⟨exit, rfl, ?_⟩
      intro untold unstopped timely
      subst untold
      obtain ⟨count, -, reaches⟩ := reaches_unhindered independent attempt store unstopped timely
      rw [known] at reaches
      cases reaches
      rfl

theorem answers_in_vain {work : Work} {solo : Solo} (idle : solo.meet work .answer = solo)
    (count : Nat) : (List.replicate count Beat.answer).foldl (meet work) solo = solo := by
  induction count with
  | zero => rfl
  | succ count ih => rw [List.replicate_succ, List.foldl_cons, idle, ih]

end Solo

/-! Actions whose worker has the variables to itself. -/

/-- What a worker is about that was at a cycle. -/
def Progress.engagement : Progress → Engagement
  | .waiting cycle => .busy cycle
  | .ended _ _ => .idle

namespace Action

/-- The worker is about this cycle, and about no other before or after it. -/
structure Pursues (action : Action) (solo : Solo) : Prop where
  engaged : action.engagement = solo.conduct.progress.engagement
  alone : action.detached = []
  closed : action.gate.isSet = false

theorem wake_of_closed {action : Action} (closed : action.gate.isSet = false) (name : String) :
    (action.wake name).1 = action := by
  unfold wake
  split
  next begun begins =>
    obtain ⟨-, isSet, -⟩ := begin_eq_some begins
    rw [closed] at isSet
    cases isSet
  next => rfl

/-- What a worker holds on to after it carried its cycle on. -/
theorem held_action (name : String) (action : Action) (attempt : UInt64)
    (result : Progress × List Effect) :
    (advance name action attempt result).held.action =
      { action with
        cell := written attempt action.cell result.2, engagement := result.1.engagement } := by
  have same := advance_action name action attempt result
  have onward : (advance name action attempt result).progress = result.1 := rfl
  unfold Advance.held
  rw [same, onward]
  cases result.1 <;> rfl

variable {action : Action} {solo : Solo}

theorem Pursues.resume (pursues : action.Pursues solo) {cycle : Cycle}
    (waiting : solo.conduct.progress = .waiting cycle) {outcome : Work.Outcome}
    (found : action.work.outcome cycle.point solo.store = some outcome) (name : String) :
    (action.resume name outcome.answer).1.Pursues (solo.meet action.work .answer) ∧
      (action.resume name outcome.answer).1.work = action.work := by
  have busy : action.engagement = .busy cycle := by
    rw [pursues.engaged, waiting]
    rfl
  rw [resume_of_busy busy, Solo.meet_answer_of_waiting waiting found, held_action, wake_of_closed]
  · exact ⟨⟨rfl, pursues.alone, pursues.closed⟩, rfl⟩
  · exact pursues.closed

theorem Pursues.settle (pursues : action.Pursues solo) (name : String) (count : Nat)
    (events : List TraceEvent) :
    let settled := settleWithin name count
      { action, store := solo.store, events, writes := solo.writes }
    let gone := (List.replicate count Beat.answer).foldl (Solo.meet action.work) solo
    settled.action.Pursues gone ∧ settled.store = gone.store ∧ settled.writes = gone.writes := by
  induction count generalizing action solo events with
  | zero => exact ⟨pursues, rfl, rfl⟩
  | succ count ih =>
      rw [settleWithin, List.replicate_succ, List.foldl_cons]
      have engaged := pursues.engaged
      cases known : solo.conduct.progress with
      | ended status exit =>
          have none : action.current? = none := by
            rw [known] at engaged
            rw [current?, engaged, pursues.alone]
            rfl
          have idle : solo.meet action.work .answer = solo := Solo.meet_of_ended known .answer
          rw [none, idle, Solo.answers_in_vain idle]
          exact ⟨pursues, rfl, rfl⟩
      | waiting cycle =>
          have current : action.current? = some cycle := by
            rw [known] at engaged
            rw [current?, engaged]
            rfl
          rw [current]
          dsimp only
          cases found : action.work.outcome cycle.point solo.store with
          | none =>
              have idle : solo.meet action.work .answer = solo := by
                have silent : solo.outcome? action.work = none := by
                  rw [Solo.outcome?, known]
                  exact found
                rw [Solo.meet, silent]
              rw [idle, Solo.answers_in_vain idle]
              exact ⟨pursues, rfl, rfl⟩
          | some outcome =>
              obtain ⟨onward, same⟩ := pursues.resume known found name
              have later := ih onward (events ++ (action.resume name outcome.answer).2)
              rw [same] at later
              rw [Solo.meet_answer_of_waiting known found] at later ⊢
              exact later

/-- An action that begins a cycle with nothing else going on settles as this cycle does by itself,
answer by answer. -/
theorem settles_alone {name : String} {begun : Advance} (begins : action.begin? name = some begun)
    (alone : action.detached = []) (store : Store) (count : Nat) :
    let settled := settleWithin name count { action := begun.action, store }
    let solo := Solo.after action.work action.cell.attempt false store
      (List.replicate count .answer)
    settled.action.engagement = solo.conduct.progress.engagement ∧ settled.store = solo.store ∧
      settled.writes = solo.writes := by
  obtain ⟨-, -, rfl⟩ := begin_eq_some begins
  rw [held_action]
  have first : Pursues
      { action with
        gate := action.gate.clear
        cell := written action.cell.attempt action.cell
          (Cycle.begin action.work action.cell.attempt).2
        engagement := (Cycle.begin action.work action.cell.attempt).1.engagement }
      (Solo.start action.work action.cell.attempt false store) := ⟨rfl, alone, rfl⟩
  obtain ⟨pursues, same⟩ := first.settle name count []
  exact ⟨pursues.engaged, same⟩

end Action

end BehaviorTree
