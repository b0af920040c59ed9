import BehaviorTree.Proofs.Rounds

/-!
The conduct of a cycle: which of its checks a step follows, how many of them it makes, how soon it
heeds being told to stop, what it writes and what it traces. All this is read off the rounds that it
went through, and off how far it had come when it was told to stop.
-/

namespace BehaviorTree

/-! What the shape says about steps and checks. -/

namespace Deed

def isCheck : Deed → Bool
  | .checked _ => true
  | _ => false

/-- The goal was found reached, or the time up, or a step failed. -/
def isDecisive : Deed → Bool
  | .checked answer => answer = .complete true
  | .timedOut => true
  | .stepped (.failed _) => true
  | .began | .stepped _ => false

end Deed

/-- Every step directly follows a check that did not find the goal reached. -/
def Warranted (record : List Deed) : Prop :=
  ∀ before after, record = before ++ .began :: after →
    ∃ earlier check, before = earlier ++ [.checked check] ∧ check ≠ .complete true

theorem Warranted.append {first second : List Deed} (early : Warranted first)
    (late : Warranted second) : Warranted (first ++ second) := by
  intro before after same
  rcases List.append_eq_append_iff.mp same with ⟨middle, rfl, rest⟩ | ⟨middle, rfl, rest⟩
  · obtain ⟨earlier, check, rfl, refused⟩ := late middle after rest
    exact ⟨first ++ earlier, check, (List.append_assoc _ _ _).symm, refused⟩
  · cases middle with
    | nil =>
        obtain ⟨earlier, check, none, _⟩ := late [] after rest.symm
        simp at none
    | cons deed middle =>
        obtain ⟨rfl, rfl⟩ := List.cons.inj rest
        exact early before middle rfl

/-- No step begins once the matter is decided. -/
def Settled (record : List Deed) : Prop :=
  record.Pairwise fun earlier later => earlier.isDecisive = true → later ≠ .began

theorem Leaves.settled {exit : Exit} {deeds : List Deed} {traced : List Effect}
    (leaves : Leaves exit deeds traced) : Settled deeds := by
  cases leaves with
  | completed | timedOut | stopped => simp [Settled]
  | stepFailed check refused fault => simp [Settled, Deed.isDecisive, refused]

theorem Stands.settled {progress : Progress} {since : List Deed} {traced : List Effect}
    (stands : Stands progress since traced) : Settled since := by
  cases stands with
  | checking => exact .nil
  | stepping here check refused => simp [Settled, Deed.isDecisive, refused]
  | leaving here leaves => exact leaves.settled
  | ended leaves last =>
      refine List.pairwise_append.mpr ⟨leaves.settled, List.pairwise_singleton _ _, ?_⟩
      simp

/-- How many more checks than steps there are when a cycle is over. -/
def Exit.surplus : Exit → Nat
  | .completed | .timedOut => 2
  | .stepFailed | .stopped => 1

theorem rounds_balanced (rounds : List Round) :
    (rounds.flatMap Round.deeds).countP Deed.isCheck =
      (rounds.flatMap Round.deeds).count .began := by
  induction rounds with
  | nil => rfl
  | cons round rounds induction =>
      rw [List.flatMap_cons, List.countP_append, List.count_append, induction]
      rfl

theorem Leaves.balanced {exit : Exit} {deeds : List Deed} {traced : List Effect}
    (leaves : Leaves exit deeds traced) :
    deeds.countP Deed.isCheck + 1 = deeds.count .began + exit.surplus := by
  cases leaves <;> rfl

/-! Being told to stop. -/

namespace Cycle

theorem idle_leaving (work : Work) : .began ∉ deedsOfLeaving work := by
  unfold deedsOfLeaving
  split <;> simp

theorem few_after_check (cycle : Cycle) (work : Work) :
    (cycle.deedsAfterCheck work).count .began ≤ 1 := by
  unfold deedsAfterCheck
  split
  · rw [List.count_cons_of_ne (by simp), List.count_eq_zero_of_not_mem (idle_leaving work)]
    exact Nat.zero_le 1
  · exact Nat.le_refl 1

/-- A check lets at most one step begin, and a cycle that was told to stop begins none without a
check that it had already been waiting for. -/
theorem few_of_resuming (cycle : Cycle) (work : Work) {answer : Answer}
    (fits : cycle.fits answer = true) (stopped : cycle.stopped = true) :
    (cycle.deedsOfResuming work answer).count .began ≤
      if cycle.point = .completion then 1 else 0 := by
  cases here : cycle.point with
  | completion =>
      rw [if_pos rfl]
      by_cases reached : answer = .complete true
      · subst reached
        unfold deedsOfResuming
        rw [here]
        dsimp only
        rw [List.count_cons_of_ne (by simp), List.count_eq_zero_of_not_mem (idle_leaving work)]
        exact Nat.zero_le 1
      · rw [(resume_refused here work reached).2, List.count_cons_of_ne (by simp)]
        exact few_after_check cycle work
  | step =>
      have idle : .began ∉ cycle.deedsOfResuming work answer := by
        have told : (cycle.after work.loopPeriod).stopped = true := stopped
        unfold deedsOfResuming
        rw [here]
        rcases fits_step here fits with ⟨status, rfl⟩ | ⟨fault, rfl⟩
        · simp [deedsOfLoop, told, idle_leaving work]
        · simp [idle_leaving work]
      rw [List.count_eq_zero_of_not_mem idle]
      exact Nat.zero_le _
  | lastCheck exit =>
      rw [(resume_last here work fits).2]
      exact Nat.zero_le _

theorem leave_stopped {cycle next : Cycle} {work : Work} {exit : Exit}
    (waiting : (cycle.leave work exit).1 = .waiting next) :
    next.stopped = cycle.stopped ∧ next.point ≠ .completion := by
  unfold leave at waiting
  split at waiting
  · cases waiting
    exact ⟨rfl, by simp⟩
  · cases waiting

theorem after_check_stopped {cycle next : Cycle} {work : Work}
    (waiting : (cycle.afterCheck work).1 = .waiting next) :
    next.stopped = cycle.stopped ∧ next.point ≠ .completion := by
  unfold afterCheck at waiting
  split at waiting
  · exact leave_stopped waiting
  · cases waiting
    exact ⟨rfl, by simp⟩

theorem loop_stopped {cycle next : Cycle} {work : Work}
    (waiting : (cycle.loop work).1 = .waiting next) :
    next.stopped = cycle.stopped ∧ (cycle.stopped = true → next.point ≠ .completion) := by
  unfold loop at waiting
  split at waiting
  · exact (leave_stopped waiting).imp_right fun elsewhere _ => elsewhere
  next untold =>
    split at waiting
    · cases waiting
      exact ⟨rfl, fun told => absurd told untold⟩
    · exact (after_check_stopped waiting).imp_right fun elsewhere _ => elsewhere

/-- A cycle that was told to stop does not come to another check of the loop. -/
theorem resume_stopped {cycle next : Cycle} {work : Work} {answer : Answer}
    (fits : cycle.fits answer = true)
    (waiting : (cycle.resume work answer).1 = .waiting next) :
    next.stopped = cycle.stopped ∧ (cycle.stopped = true → next.point ≠ .completion) := by
  cases here : cycle.point with
  | completion =>
      by_cases reached : answer = .complete true
      · subst reached
        unfold resume at waiting
        rw [here] at waiting
        exact (leave_stopped waiting).imp_right fun elsewhere _ => elsewhere
      · rw [(resume_refused here work reached).1] at waiting
        exact (after_check_stopped waiting).imp_right fun elsewhere _ => elsewhere
  | step =>
      unfold resume at waiting
      rw [here] at waiting
      rcases fits_step here fits with ⟨status, rfl⟩ | ⟨fault, rfl⟩
      · exact @loop_stopped (cycle.after work.loopPeriod) next work waiting
      · exact (leave_stopped waiting).imp_right fun elsewhere _ => elsewhere
  | lastCheck exit =>
      rw [(resume_last here work fits).1] at waiting
      cases waiting

end Cycle

namespace Conduct

/-- How often a step began after the cycle was told to stop: not at all as long as it waits for a
check of the loop, and at most once in all. -/
structure Heeds (conduct : Conduct) : Prop where
  flagged : ∀ cycle, conduct.progress = .waiting cycle →
    cycle.stopped = conduct.toldAt.isSome
  within : ∀ count, conduct.toldAt = some count → count ≤ conduct.record.length
  few : ∀ count, conduct.toldAt = some count → (conduct.record.drop count).count .began ≤ 1
  none : ∀ count cycle, conduct.toldAt = some count → conduct.progress = .waiting cycle →
    cycle.point = .completion → (conduct.record.drop count).count .began = 0

theorem Heeds.answered {conduct : Conduct} (heeds : conduct.Heeds) {cycle : Cycle}
    (waiting : conduct.progress = .waiting cycle) (work : Work) {answer : Answer}
    (fits : cycle.fits answer = true) : (conduct.answered work cycle answer).Heeds := by
  have flagged := heeds.flagged cycle waiting
  have later : ∀ count, conduct.toldAt = some count →
      (((conduct.answered work cycle answer).record).drop count).count .began ≤ 1 := by
    intro count known
    have stopped : cycle.stopped = true := by rw [flagged, known]; rfl
    have more := Cycle.few_of_resuming cycle work fits stopped
    change ((conduct.record ++ _).drop count).count .began ≤ 1
    rw [List.drop_append_of_le_length (heeds.within count known), List.count_append]
    by_cases here : cycle.point = .completion
    · rw [if_pos here] at more
      rw [heeds.none count cycle known waiting here]
      omega
    · rw [if_neg here] at more
      have few := heeds.few count known
      omega
  refine ⟨?_, ?_, later, ?_⟩
  · intro next going
    exact (Cycle.resume_stopped fits going).1.trans flagged
  · intro count known
    change count ≤ (conduct.record ++ _).length
    rw [List.length_append]
    exact Nat.le_add_right_of_le (heeds.within count known)
  · intro count next known going here
    have stopped : cycle.stopped = true := by rw [flagged]; exact known ▸ rfl
    exact absurd here ((Cycle.resume_stopped fits going).2 stopped)

theorem Heeds.told {conduct : Conduct} (heeds : conduct.Heeds) {cycle : Cycle}
    (waiting : conduct.progress = .waiting cycle) :
    ({ conduct with
      progress := .waiting cycle.toldToStop
      toldAt := conduct.toldAt.or (some conduct.record.length) } : Conduct).Heeds := by
  cases known : conduct.toldAt with
  | some count =>
      refine ⟨?_, ?_, ?_, ?_⟩
      · rintro _ ⟨⟩
        rfl
      · rintro _ ⟨⟩
        exact heeds.within count known
      · rintro _ ⟨⟩
        exact heeds.few count known
      · rintro _ _ ⟨⟩ ⟨⟩ here
        exact heeds.none count cycle known waiting here
  | none =>
      refine ⟨?_, ?_, ?_, ?_⟩
      · rintro _ ⟨⟩
        rfl
      · rintro _ ⟨⟩
        exact Nat.le_refl _
      · rintro _ ⟨⟩
        simp
      · rintro _ _ ⟨⟩ _ _
        simp

theorem Heeds.meet {conduct : Conduct} (heeds : conduct.Heeds) (work : Work)
    (occurrence : Occurrence) : (conduct.meet work occurrence).Heeds := by
  unfold Conduct.meet
  split
  · exact heeds
  next cycle answer waiting =>
    split
    next fits => exact heeds.answered waiting work fits
    · exact heeds
  next cycle milliseconds waiting =>
    refine ⟨?_, heeds.within, heeds.few, ?_⟩
    · rintro _ ⟨⟩
      exact heeds.flagged cycle waiting
    · rintro count _ known ⟨⟩ here
      exact heeds.none count cycle known waiting here
  next cycle waiting => exact heeds.told waiting

end Conduct

/-! What an action shows of a cycle. -/

def Effect.event? (name : String) : Effect → Option TraceEvent
  | .write _ => none
  | .trace tag status detail => some { node := name, tag, status := some status, detail }

namespace Action

theorem perform_events (name : String) (attempt : UInt64) (action : Action)
    (effects : List Effect) :
    (perform name attempt action effects).2 = effects.filterMap (Effect.event? name) := by
  induction effects generalizing action with
  | nil => rfl
  | cons effect rest induction =>
      cases effect with
      | write status => exact induction _
      | trace tag status detail => exact congrArg (_ :: ·) (induction action)

end Action

theorem events_of_traces (name : String) (effects : List Effect) :
    effects.filterMap (Effect.event? name) =
      (Effect.traces effects).filterMap (Effect.event? name) := by
  induction effects with
  | nil => rfl
  | cons effect rest induction =>
      cases effect with
      | write status => exact induction
      | trace tag status detail => exact congrArg (_ :: ·) induction

/-- The event of a failed step, if it was that which made the cycle leave. -/
theorem Leaves.failure {exit : Exit} {deeds : List Deed} {traced : List Effect}
    (leaves : Leaves exit deeds traced) (name : String) :
    (exit = .stepFailed → ∃ fault, .stepped (.failed fault) ∈ deeds ∧
      traced.filterMap (Effect.event? name) =
        [{ node := name, tag := "cycle.step_failed", status := some .failure
           detail := some fault.message }]) ∧
    (exit ≠ .stepFailed → traced.filterMap (Effect.event? name) = []) := by
  cases leaves with
  | completed | timedOut | stopped => exact ⟨nofun, fun _ => rfl⟩
  | stepFailed check refused fault =>
      exact ⟨fun _ => ⟨fault, by simp, rfl⟩, fun other => absurd rfl other⟩

theorem Answer.outcome_success_iff (answer : Answer) :
    answer.outcome = .success ↔ answer = .complete true := by
  unfold outcome
  split <;> simp_all

theorem Answer.outcome_failure_iff (answer : Answer) :
    answer.outcome = .failure ↔ answer ≠ .complete true := by
  unfold outcome
  split <;> simp_all

/-! Work that is never complete goes on like work whose checks are all answered no. -/

def Work.asked (work : Work) : Work := { work with completion := .external }

namespace Conduct

/-- A conduct after a part of the loop was gone through. -/
def continued (conduct : Conduct) (result : Progress × List Effect) (deeds : List Deed) :
    Conduct :=
  { conduct with
    progress := result.1
    effects := conduct.effects ++ result.2
    record := conduct.record ++ deeds }

theorem meet_answer {work : Work} {conduct : Conduct} {cycle : Cycle} {answer : Answer}
    (waiting : conduct.progress = .waiting cycle) (fits : cycle.fits answer = true) :
    conduct.meet work (.answer answer) =
      conduct.continued (cycle.resume work answer) (cycle.deedsOfResuming work answer) := by
  unfold meet
  rw [waiting]
  exact if_pos fits

/-- One conduct leads to another by checks that are answered no. -/
def LeadsTo (work : Work) (first second : Conduct) : Prop :=
  ∃ checks : Nat,
    (List.replicate checks (.answer (.complete false))).foldl (meet work) first = second

theorem LeadsTo.refl (work : Work) (conduct : Conduct) : LeadsTo work conduct conduct := ⟨0, rfl⟩

theorem LeadsTo.after {work : Work} {first second third : Conduct}
    (met : first.meet work (.answer (.complete false)) = second)
    (leads : LeadsTo work second third) : LeadsTo work first third := by
  obtain ⟨checks, same⟩ := leads
  refine ⟨checks + 1, ?_⟩
  rw [List.replicate_succ, List.foldl_cons, met, same]

variable {work : Work} (never : work.isChecked = false)
include never

end Conduct

namespace Conduct

/-- A cycle that is over went through its rounds, left, and made its last check. -/
theorem Shaped.ended {conduct : Conduct} {rounds : List Round} {since : List Deed}
    {traced : List Effect} (shaped : conduct.Shaped rounds since traced) {status : Status}
    {exit : Exit} (ended : conduct.progress = .ended status exit) :
    ∃ deeds shown last, Leaves exit deeds shown ∧ status = last.outcome ∧
      conduct.record = rounds.flatMap Round.deeds ++ deeds ++ [.checked last] ∧
      Effect.traces conduct.effects = .trace "cycle.start" .running none ::
        (shown ++ [.trace "cycle.end" status (some exit.name)]) := by
  have stands := shaped.stands
  have record := shaped.record
  have traces := shaped.traces
  rw [ended] at stands
  cases stands with
  | ended leaves last =>
      exact ⟨_, _, last, leaves, rfl, by rw [record, List.append_assoc], traces⟩

theorem Shaped.balanced {conduct : Conduct} {rounds : List Round} {since : List Deed}
    {traced : List Effect} (shaped : conduct.Shaped rounds since traced) {status : Status}
    {exit : Exit} (ended : conduct.progress = .ended status exit) :
    conduct.record.countP Deed.isCheck = conduct.record.count .began + exit.surplus := by
  obtain ⟨deeds, shown, last, leaves, _, record, _⟩ := shaped.ended ended
  have balanced := leaves.balanced
  have checks : [Deed.checked last].countP Deed.isCheck = 1 := rfl
  have steps : [Deed.checked last].count .began = 0 := rfl
  rw [record, List.countP_append, List.countP_append, List.count_append, List.count_append,
    rounds_balanced, checks, steps]
  omega

theorem Shaped.events {conduct : Conduct} {rounds : List Round} {since : List Deed}
    {traced : List Effect} (shaped : conduct.Shaped rounds since traced) {status : Status}
    {exit : Exit} (ended : conduct.progress = .ended status exit) (name : String) :
    ∃ failed : List TraceEvent,
      conduct.effects.filterMap (Effect.event? name) =
        { node := name, tag := "cycle.start", status := some .running } :: failed ++
          [{ node := name, tag := "cycle.end", status := some status
             detail := some exit.name }] ∧
      (exit = .stepFailed → ∃ fault, .stepped (.failed fault) ∈ conduct.record ∧
        failed = [{ node := name, tag := "cycle.step_failed", status := some .failure
                    detail := some fault.message }]) ∧
      (exit ≠ .stepFailed → failed = []) := by
  obtain ⟨deeds, shown, last, leaves, _, record, traces⟩ := shaped.ended ended
  obtain ⟨failure, none⟩ := leaves.failure name
  refine ⟨shown.filterMap (Effect.event? name), ?_, ?_, none⟩
  · rw [events_of_traces, traces, List.filterMap_cons, List.filterMap_append]
    rfl
  · intro failed
    obtain ⟨fault, member, event⟩ := failure failed
    refine ⟨fault, ?_, event⟩
    rw [record]
    simp [member]

end Conduct

/-! What a cycle writes. -/

namespace Conduct

/-- A cycle writes that it runs when it is entered, and what it ends with last. -/
structure Writes (conduct : Conduct) : Prop where
  first : ∃ later, conduct.effects =
    .write .running :: .trace "cycle.start" .running none :: later
  last : ∀ status exit, conduct.progress = .ended status exit → ∃ earlier,
    conduct.effects = earlier ++ [.write status, .trace "cycle.end" status (some exit.name)]

theorem Writes.meet {conduct : Conduct} (writes : conduct.Writes) (work : Work)
    (occurrence : Occurrence) : (conduct.meet work occurrence).Writes := by
  unfold Conduct.meet
  split
  · exact writes
  next cycle answer waiting =>
    split
    · refine ⟨?_, ?_⟩
      · obtain ⟨later, same⟩ := writes.first
        change ∃ later, conduct.effects ++ _ = _
        rw [same]
        exact ⟨_, rfl⟩
      · intro status exit ended
        have abiding := cycle.resume_abiding work answer
        change (cycle.resume work answer).1 = _ at ended
        rw [Cycle.Abiding, ended] at abiding
        obtain ⟨-, earlier, same⟩ := abiding
        change ∃ earlier, conduct.effects ++ _ = _
        rw [same, ← List.append_assoc]
        exact ⟨_, rfl⟩
    · exact writes
  · exact ⟨writes.first, nofun⟩
  · exact ⟨writes.first, nofun⟩

end Conduct

end BehaviorTree
