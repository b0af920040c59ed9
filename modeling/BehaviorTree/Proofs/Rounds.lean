import BehaviorTree.Proofs.Cycles

/-!
The rounds of a cycle. Whatever it is answered, however time passes and whenever it is told to stop,
a cycle goes through rounds of a check that does not find the goal reached and a step that goes
well, then through what makes it leave, and then through a last check, whose answer is the outcome.
-/

namespace BehaviorTree

/-- What comes to a cycle from outside. -/
inductive Occurrence where
  | answer (answer : Answer)
  | pass (milliseconds : Nat)
  | stop

/-- What a cycle does. -/
inductive Deed where
  /-- A completion check, and what it was answered. -/
  | checked (answer : Answer)
  /-- The timer was looked at and had run out. -/
  | timedOut
  /-- A step begins. -/
  | began
  /-- A step is over. -/
  | stepped (answer : Answer)
  deriving DecidableEq

namespace Cycle

/-! The deeds on the way from one point to the next. The checks of work that is never complete are
not waited for: they are deeds like others, and their answer is no. -/

def deedsOfLeaving (work : Work) : List Deed :=
  if work.isChecked then [] else [.checked (.complete false)]

def deedsAfterCheck (cycle : Cycle) (work : Work) : List Deed :=
  if cycle.timedOut work then .timedOut :: deedsOfLeaving work else [.began]

def deedsOfLoop (cycle : Cycle) (work : Work) : List Deed :=
  if cycle.stopped then deedsOfLeaving work
  else if work.isChecked then []
  else .checked (.complete false) :: cycle.deedsAfterCheck work

def deedsOfResuming (cycle : Cycle) (work : Work) (answer : Answer) : List Deed :=
  match cycle.point, answer with
  | .completion, .complete true => .checked (.complete true) :: deedsOfLeaving work
  | .completion, _ => .checked answer :: cycle.deedsAfterCheck work
  | .step, .failed _ => .stepped answer :: deedsOfLeaving work
  | .step, .stepped _ => .stepped answer :: (cycle.after work.loopPeriod).deedsOfLoop work
  | .step, .complete _ => []
  | .lastCheck _, _ => [.checked answer]

end Cycle

/-- A cycle with everything it did so far, and how much of that it had done when it was first told
to stop. -/
structure Conduct where
  progress : Progress
  effects : List Effect
  record : List Deed
  toldAt : Option Nat := none

namespace Conduct

/-- The beginning of a cycle. Its worker may have been told to stop right before. -/
def start (work : Work) (attempt : UInt64) (told : Bool) : Conduct :=
  { progress := (Cycle.enter work attempt told).1
    effects := (Cycle.enter work attempt told).2
    record := Cycle.deedsOfLoop { attempt, point := .completion, stopped := told } work
    toldAt := if told then some 0 else none }

def answered (conduct : Conduct) (work : Work) (cycle : Cycle) (answer : Answer) : Conduct :=
  { conduct with
    progress := (cycle.resume work answer).1
    effects := conduct.effects ++ (cycle.resume work answer).2
    record := conduct.record ++ cycle.deedsOfResuming work answer }

/-- An answer that the cycle does not wait for is not handed to it, and nothing reaches a cycle that
has ended. -/
def meet (work : Work) (conduct : Conduct) (occurrence : Occurrence) : Conduct :=
  match conduct.progress, occurrence with
  | .ended _ _, _ => conduct
  | .waiting cycle, .answer answer =>
      if cycle.fits answer then conduct.answered work cycle answer else conduct
  | .waiting cycle, .pass milliseconds =>
      { conduct with progress := .waiting (cycle.after milliseconds) }
  | .waiting cycle, .stop =>
      { conduct with
        progress := .waiting cycle.toldToStop
        toldAt := conduct.toldAt.or (some conduct.record.length) }

def after (work : Work) (attempt : UInt64) (told : Bool) (occurrences : List Occurrence) :
    Conduct :=
  occurrences.foldl (meet work) (start work attempt told)

end Conduct

/-! What can be seen of a cycle whose checks are waited for: where it is answered, and where it
waits then. -/

/-- What an answer tells of. -/
def Point.deed (answer : Answer) : Point → Deed
  | .completion | .lastCheck _ => .checked answer
  | .step => .stepped answer

/-- Where a cycle comes to wait tells whether it begins a step, or leaves because its time is up. -/
def Progress.arrival : Progress → List Deed
  | .waiting cycle =>
      match cycle.point with
      | .step => [.began]
      | .lastCheck .timedOut => [.timedOut]
      | .completion | .lastCheck _ => []
  | .ended _ _ => []

structure Observed where
  progress : Progress
  effects : List Effect
  deeds : List Deed

namespace Observed

def first (entry : Progress × List Effect) : Observed :=
  { progress := entry.1, effects := entry.2, deeds := entry.1.arrival }

def meet (work : Work) (observed : Observed) (occurrence : Occurrence) : Observed :=
  match observed.progress, occurrence with
  | .ended _ _, _ => observed
  | .waiting cycle, .answer answer =>
      if cycle.fits answer then
        { progress := (cycle.resume work answer).1
          effects := observed.effects ++ (cycle.resume work answer).2
          deeds := observed.deeds ++
            cycle.point.deed answer :: (cycle.resume work answer).1.arrival }
      else observed
  | .waiting cycle, .pass milliseconds =>
      { observed with progress := .waiting (cycle.after milliseconds) }
  | .waiting cycle, .stop => { observed with progress := .waiting cycle.toldToStop }

/-- What is seen of a cycle after its entry. -/
def after (work : Work) (entry : Progress × List Effect) (occurrences : List Occurrence) :
    Observed :=
  occurrences.foldl (meet work) (first entry)

end Observed

/-- A conduct tells what is seen. -/
structure Conduct.Agrees (conduct : Conduct) (work : Work) (observed : Observed) : Prop where
  progress : conduct.progress = observed.progress
  effects : conduct.effects = observed.effects
  record : work.isChecked = true → conduct.record = observed.deeds

namespace Cycle

variable {work : Work} (checked : work.isChecked = true)
include checked

theorem leaving_seen (cycle : Cycle) (exit : Exit) :
    (cycle.leave work exit).1 = .waiting { cycle with point := .lastCheck exit } ∧
      deedsOfLeaving work = [] := by
  rw [leave, deedsOfLeaving, if_pos checked, if_pos checked]
  exact ⟨rfl, rfl⟩

theorem after_check_seen (cycle : Cycle) :
    cycle.deedsAfterCheck work = (cycle.afterCheck work).1.arrival := by
  unfold deedsAfterCheck afterCheck
  split
  · obtain ⟨waits, none⟩ := leaving_seen checked cycle .timedOut
    rw [waits, none]
    rfl
  · rfl

theorem loop_seen (cycle : Cycle) :
    cycle.deedsOfLoop work = (cycle.loop work).1.arrival := by
  unfold deedsOfLoop loop
  split
  · obtain ⟨waits, none⟩ := leaving_seen checked cycle .stopped
    rw [waits, none]
    rfl
  · rfl

theorem resuming_seen {cycle : Cycle} {answer : Answer} (fits : cycle.fits answer = true) :
    cycle.deedsOfResuming work answer =
      cycle.point.deed answer :: (cycle.resume work answer).1.arrival := by
  unfold deedsOfResuming resume
  cases here : cycle.point with
  | completion =>
      have onward := congrArg (Deed.checked answer :: ·) (after_check_seen checked cycle)
      cases answer with
      | stepped status => exact onward
      | failed fault => exact onward
      | complete holds =>
          cases holds with
          | false => exact onward
          | true =>
              obtain ⟨waits, none⟩ := leaving_seen checked cycle .completed
              dsimp only
              rw [waits, none]
              rfl
  | step =>
      cases answer with
      | complete holds => simp [Cycle.fits, here] at fits
      | stepped status =>
          exact congrArg (Deed.stepped (.stepped status) :: ·)
            (loop_seen checked (cycle.after work.loopPeriod))
      | failed fault =>
          obtain ⟨waits, none⟩ := leaving_seen checked cycle .stepFailed
          dsimp only
          rw [waits, none]
          rfl
  | lastCheck exit => cases answer <;> rfl

end Cycle

namespace Conduct

theorem Agrees.meet {conduct : Conduct} {work : Work} {observed : Observed}
    (agrees : conduct.Agrees work observed) (occurrence : Occurrence) :
    (conduct.meet work occurrence).Agrees work (observed.meet work occurrence) := by
  obtain ⟨progress, effects, record⟩ := agrees
  unfold Conduct.meet Observed.meet
  rw [← progress]
  split
  · exact ⟨progress, effects, record⟩
  next cycle answer waiting =>
    by_cases fits : cycle.fits answer = true
    · rw [if_pos fits, if_pos fits]
      refine ⟨rfl, congrArg (· ++ _) effects, fun checked => ?_⟩
      change conduct.record ++ _ = _
      rw [record checked, Cycle.resuming_seen checked fits]
    · rw [if_neg fits, if_neg fits]
      exact ⟨progress, effects, record⟩
  · exact ⟨rfl, effects, record⟩
  · exact ⟨rfl, effects, record⟩

end Conduct

/-! The shape of a record. -/

/-- A check that did not find the goal reached, and a step that went well. -/
structure Round where
  check : Answer
  result : Status
  refused : check ≠ .complete true

def Round.deeds (round : Round) : List Deed :=
  [.checked round.check, .began, .stepped (.stepped round.result)]

/-- What a cycle does, and traces, between its last round and its last check. -/
inductive Leaves : Exit → List Deed → List Effect → Prop
  | completed : Leaves .completed [.checked (.complete true)] []
  | timedOut (check : Answer) (refused : check ≠ .complete true) :
      Leaves .timedOut [.checked check, .timedOut] []
  | stepFailed (check : Answer) (refused : check ≠ .complete true) (fault : WorkFault) :
      Leaves .stepFailed [.checked check, .began, .stepped (.failed fault)]
        [.trace "cycle.step_failed" .failure (some fault.message)]
  | stopped : Leaves .stopped [] []

/-- What the answer of the last check makes of a cycle. -/
def Answer.outcome (answer : Answer) : Status :=
  if answer = .complete true then .success else .failure

/-- What a cycle did and traced since its last round, by where it is now. -/
inductive Stands : Progress → List Deed → List Effect → Prop
  | checking {cycle : Cycle} (here : cycle.point = .completion) : Stands (.waiting cycle) [] []
  | stepping {cycle : Cycle} (here : cycle.point = .step) (check : Answer)
      (refused : check ≠ .complete true) : Stands (.waiting cycle) [.checked check, .began] []
  | leaving {cycle : Cycle} {exit : Exit} {deeds : List Deed} {traced : List Effect}
      (here : cycle.point = .lastCheck exit) (leaves : Leaves exit deeds traced) :
      Stands (.waiting cycle) deeds traced
  | ended {exit : Exit} {deeds : List Deed} {traced : List Effect}
      (leaves : Leaves exit deeds traced) (last : Answer) :
      Stands (.ended last.outcome exit) (deeds ++ [.checked last])
        (traced ++ [.trace "cycle.end" last.outcome (some exit.name)])

def Effect.isTrace : Effect → Bool
  | .write _ => false
  | .trace _ _ _ => true

def Effect.traces (effects : List Effect) : List Effect := effects.filter isTrace

namespace Cycle

/-- Leaving the loop, whether or not the last check is waited for. -/
theorem leave_stands (cycle : Cycle) (work : Work) {exit : Exit} {deeds : List Deed}
    {traced : List Effect} (leaves : Leaves exit deeds traced) :
    Stands (cycle.leave work exit).1 (deeds ++ deedsOfLeaving work)
      (traced ++ Effect.traces (cycle.leave work exit).2) := by
  unfold leave deedsOfLeaving
  split
  · rw [List.append_nil]
    exact (List.append_nil traced).symm ▸ .leaving rfl leaves
  · exact .ended leaves (.complete false)

theorem after_check_stands (cycle : Cycle) (work : Work) {check : Answer}
    (refused : check ≠ .complete true) :
    Stands (cycle.afterCheck work).1 (.checked check :: cycle.deedsAfterCheck work)
      (Effect.traces (cycle.afterCheck work).2) := by
  unfold afterCheck deedsAfterCheck
  split
  · exact cycle.leave_stands work (.timedOut check refused)
  · exact .stepping rfl check refused

theorem loop_stands (cycle : Cycle) (work : Work) :
    Stands (cycle.loop work).1 (cycle.deedsOfLoop work) (Effect.traces (cycle.loop work).2) := by
  unfold loop deedsOfLoop
  split
  · exact cycle.leave_stands work .stopped
  · split
    · exact .checking rfl
    · exact cycle.after_check_stands work (by decide)

/-- A check that does not find the goal reached, for whatever reason, is followed by a look at the
timer. -/
theorem resume_refused {cycle : Cycle} (here : cycle.point = .completion) (work : Work)
    {answer : Answer} (refused : answer ≠ .complete true) :
    cycle.resume work answer = cycle.afterCheck work ∧
      cycle.deedsOfResuming work answer = .checked answer :: cycle.deedsAfterCheck work := by
  unfold resume deedsOfResuming
  rw [here]
  cases answer with
  | complete holds =>
      cases holds with
      | false => exact ⟨rfl, rfl⟩
      | true => exact absurd rfl refused
  | stepped status => exact ⟨rfl, rfl⟩
  | failed fault => exact ⟨rfl, rfl⟩

theorem fits_step {cycle : Cycle} (here : cycle.point = .step) {answer : Answer}
    (fits : cycle.fits answer = true) :
    (∃ status, answer = .stepped status) ∨ ∃ fault, answer = .failed fault := by
  cases answer with
  | complete holds => simp [Cycle.fits, here] at fits
  | stepped status => exact Or.inl ⟨status, rfl⟩
  | failed fault => exact Or.inr ⟨fault, rfl⟩

theorem resume_last {cycle : Cycle} {exit : Exit} (here : cycle.point = .lastCheck exit)
    (work : Work) {answer : Answer} (fits : cycle.fits answer = true) :
    cycle.resume work answer = finish answer.outcome exit ∧
      cycle.deedsOfResuming work answer = [.checked answer] := by
  unfold resume deedsOfResuming
  rw [here]
  cases answer with
  | complete holds => cases holds <;> exact ⟨rfl, rfl⟩
  | stepped status => simp [Cycle.fits, here] at fits
  | failed fault => exact ⟨rfl, rfl⟩

end Cycle

/-- An answer brings at most the end of a round, and then the cycle stands somewhere again. -/
theorem Stands.resume {cycle : Cycle} {since : List Deed} {traced : List Effect}
    (stands : Stands (.waiting cycle) since traced) (work : Work) {answer : Answer}
    (fits : cycle.fits answer = true) :
    ∃ (rounds : List Round) (next : List Deed) (shown : List Effect),
      since ++ cycle.deedsOfResuming work answer = rounds.flatMap Round.deeds ++ next ∧
      traced ++ Effect.traces (cycle.resume work answer).2 = shown ∧
      Stands (cycle.resume work answer).1 next shown := by
  cases stands with
  | checking here =>
      by_cases reached : answer = .complete true
      · subst reached
        refine ⟨[], _, _, rfl, rfl, ?_⟩
        unfold Cycle.resume Cycle.deedsOfResuming
        rw [here]
        exact cycle.leave_stands work .completed
      · obtain ⟨result, deeds⟩ := Cycle.resume_refused here work reached
        refine ⟨[], _, _, rfl, rfl, ?_⟩
        rw [result, deeds]
        exact cycle.after_check_stands work reached
  | stepping here check refused =>
      rcases Cycle.fits_step here fits with ⟨status, rfl⟩ | ⟨fault, rfl⟩
      · refine ⟨[⟨check, status, refused⟩], (cycle.after work.loopPeriod).deedsOfLoop work, _, ?_,
          rfl, ?_⟩
        · unfold Cycle.deedsOfResuming
          rw [here]
          rfl
        · unfold Cycle.resume
          rw [here]
          exact (cycle.after work.loopPeriod).loop_stands work
      · refine ⟨[], _, _, rfl, rfl, ?_⟩
        unfold Cycle.resume Cycle.deedsOfResuming
        rw [here]
        exact cycle.leave_stands work (.stepFailed check refused fault)
  | leaving here leaves =>
      obtain ⟨result, deeds⟩ := Cycle.resume_last here work fits
      refine ⟨[], _, _, rfl, rfl, ?_⟩
      rw [result, deeds]
      exact .ended leaves answer

/-- Time and being told to stop leave a cycle where it is. -/
theorem Stands.moved {cycle other : Cycle} {since : List Deed} {traced : List Effect}
    (stands : Stands (.waiting cycle) since traced) (same : other.point = cycle.point) :
    Stands (.waiting other) since traced := by
  cases stands with
  | checking here => exact .checking (same.trans here)
  | stepping here check refused => exact .stepping (same.trans here) check refused
  | leaving here leaves => exact .leaving (same.trans here) leaves

namespace Conduct

/-- A record is a number of rounds and what was done since, and what was traced is the beginning
and what was traced since the last round. -/
structure Shaped (conduct : Conduct) (rounds : List Round) (since : List Deed)
    (traced : List Effect) : Prop where
  stands : Stands conduct.progress since traced
  record : conduct.record = rounds.flatMap Round.deeds ++ since
  traces : Effect.traces conduct.effects = .trace "cycle.start" .running none :: traced

theorem Shaped.answered {conduct : Conduct} {rounds : List Round} {since : List Deed}
    {traced : List Effect} (shaped : conduct.Shaped rounds since traced) {cycle : Cycle}
    (waiting : conduct.progress = .waiting cycle) (work : Work) {answer : Answer}
    (fits : cycle.fits answer = true) :
    ∃ more next shown, (conduct.answered work cycle answer).Shaped (rounds ++ more) next shown := by
  have stands := shaped.stands
  rw [waiting] at stands
  obtain ⟨more, next, shown, deeds, traces, standing⟩ := stands.resume work fits
  refine ⟨more, next, shown, standing, ?_, ?_⟩
  · change conduct.record ++ _ = _
    rw [shaped.record, List.append_assoc, deeds, List.flatMap_append, List.append_assoc]
  · change Effect.traces (conduct.effects ++ _) = _
    have split : Effect.traces (conduct.effects ++ (cycle.resume work answer).2) =
        Effect.traces conduct.effects ++ Effect.traces (cycle.resume work answer).2 :=
      List.filter_append _ _
    rw [split, shaped.traces, List.cons_append, traces]

theorem Shaped.meet {conduct : Conduct} {rounds : List Round} {since : List Deed}
    {traced : List Effect} (shaped : conduct.Shaped rounds since traced) (work : Work)
    (occurrence : Occurrence) :
    ∃ more next shown, (conduct.meet work occurrence).Shaped more next shown := by
  unfold Conduct.meet
  split
  · exact ⟨_, _, _, shaped⟩
  next cycle answer waiting =>
    split
    next fits =>
      obtain ⟨more, next, shown, still⟩ := shaped.answered waiting work fits
      exact ⟨_, _, _, still⟩
    · exact ⟨_, _, _, shaped⟩
  next cycle milliseconds waiting =>
    have stands := shaped.stands
    rw [waiting] at stands
    exact ⟨_, _, _, Stands.moved stands rfl, shaped.record, shaped.traces⟩
  next cycle waiting =>
    have stands := shaped.stands
    rw [waiting] at stands
    exact ⟨_, _, _, Stands.moved stands rfl, shaped.record, shaped.traces⟩

/-- What every occurrence keeps holds of every conduct. -/
theorem after_invariant {work : Work} {invariant : Conduct → Prop}
    (kept : ∀ conduct occurrence, invariant conduct → invariant (conduct.meet work occurrence))
    {attempt : UInt64} {told : Bool} (holds : invariant (start work attempt told))
    (occurrences : List Occurrence) : invariant (after work attempt told occurrences) := by
  unfold after
  generalize start work attempt told = conduct at holds ⊢
  induction occurrences generalizing conduct with
  | nil => exact holds
  | cons occurrence later induction => exact induction _ (kept conduct occurrence holds)

end Conduct

end BehaviorTree
