import BehaviorTree.Proofs.Preemption

/-!
What an action comes to. The last check of a cycle decides what the cycle ends with; but a step that
failed is written to the cell before that check, and a tick may read it meanwhile. As long as steps
answer nothing but that they are running, this is the only way in which what a tick reads and what
cycles of that attempt end with can differ.
-/

namespace BehaviorTree

/-- What a last check decides by its answer. -/
def Answer.verdict : Answer → Status
  | .complete holds => .ofBool holds
  | .stepped _ | .failed _ => .failure

/-- Nothing is written but that the action runs. -/
def Effect.Calm (effects : List Effect) : Prop :=
  ∀ status, .write status ∈ effects → status = .running

theorem Action.written_calm {attempt : UInt64} {cell : Cell} {effects : List Effect}
    (calm : Effect.Calm effects) :
    (written attempt cell effects).status = cell.status ∨
      (written attempt cell effects).status = .running := by
  induction effects generalizing cell with
  | nil => exact .inl rfl
  | cons effect rest ih =>
      have later : Effect.Calm rest := fun status inside => calm status (.tail _ inside)
      cases effect with
      | trace tag status detail => exact ih later
      | write status =>
          cases calm status List.mem_cons_self
          have set : (cell.setIfCurrent attempt .running).status = cell.status ∨
              (cell.setIfCurrent attempt .running).status = .running := by
            rw [Cell.setIfCurrent]
            split
            · exact .inr rfl
            · exact .inl rfl
          rw [written]
          rcases @ih (cell.setIfCurrent attempt .running) later with same | running
          · rw [same]
            exact set
          · exact .inr running

namespace Cycle

/-- A cycle that goes on with its loop writes only that it runs. One that leaves it waits for the
last check, unless nobody ever checks. -/
inductive Passes (work : Work) : Progress × List Effect → Prop
  | waits {next : Cycle} {effects : List Effect} (going : next.point ≠ .lastCheck .stepFailed)
      (calm : Effect.Calm effects) : Passes work (.waiting next, effects)
  | fails {exit : Exit} {effects : List Effect} (unchecked : work.isChecked = false) :
      Passes work (.ended .failure exit, effects)

theorem Passes.after {work : Work} {progress : Progress} {earlier effects : List Effect}
    (passes : Passes work (progress, effects)) (calm : Effect.Calm earlier) :
    Passes work (progress, earlier ++ effects) := by
  cases passes with
  | fails unchecked => exact .fails unchecked
  | waits going later =>
      refine .waits going fun status inside => ?_
      rcases List.mem_append.mp inside with before | now
      · exact calm status before
      · exact later status now

theorem leave_passes (cycle : Cycle) (work : Work) {exit : Exit} (soundly : exit ≠ .stepFailed) :
    Passes work (cycle.leave work exit) := by
  unfold leave
  split
  · exact .waits (by simpa using soundly) nofun
  next unchecked => exact .fails (by simpa using unchecked)

theorem after_check_passes (cycle : Cycle) (work : Work) :
    Passes work (cycle.afterCheck work) := by
  unfold afterCheck
  split
  · exact leave_passes cycle work (by decide)
  · exact .waits nofun nofun

theorem loop_passes (cycle : Cycle) (work : Work) : Passes work (cycle.loop work) := by
  unfold loop
  split
  · exact leave_passes cycle work (by decide)
  · split
    · exact .waits nofun nofun
    · exact after_check_passes cycle work

theorem enter_passes (work : Work) (attempt : UInt64) (stopped : Bool) :
    Passes work (Cycle.enter work attempt stopped) := by
  have calm : Effect.Calm [.write .running, .trace "cycle.start" .running none] := by
    simp [Effect.Calm]
  exact (loop_passes { attempt, point := .completion, stopped } work).after calm

/-- All that an answer can do which a cycle waits for. -/
inductive Resumes (work : Work) (cycle : Cycle) (answer : Answer) : Progress × List Effect → Prop
  | passes {result : Progress × List Effect} (looping : ∀ exit, cycle.point ≠ .lastCheck exit)
      (sound : ∀ fault, cycle.point = .step → answer ≠ .failed fault)
      (passes : Passes work result) : Resumes work cycle answer result
  | breaks {fault : WorkFault} (stepping : cycle.point = .step) (failed : answer = .failed fault)
      (checked : work.isChecked = true) :
      Resumes work cycle answer
        (.waiting { cycle with point := .lastCheck .stepFailed },
          [.trace "cycle.step_failed" .failure (some fault.message), .write .failure])
  | fails {effects : List Effect} (stepping : cycle.point = .step)
      (unchecked : work.isChecked = false) :
      Resumes work cycle answer (.ended .failure .stepFailed, effects)
  | decided {exit : Exit} {effects : List Effect} (last : cycle.point = .lastCheck exit) :
      Resumes work cycle answer (.ended answer.verdict exit, effects)

theorem resume_resumes {work : Work} {cycle : Cycle} {answer : Answer}
    (fits : cycle.fits answer = true)
    (mild : ∀ status, cycle.point = .step → answer = .stepped status → status = .running) :
    Resumes work cycle answer (cycle.resume work answer) := by
  unfold resume
  cases point : cycle.point with
  | completion =>
      have passed := after_check_passes cycle work
      have looping : ∀ exit, cycle.point ≠ .lastCheck exit := by simp [point]
      have sound : ∀ fault, cycle.point = .step → answer ≠ .failed fault := by simp [point]
      cases answer with
      | complete holds =>
          cases holds with
          | false => exact .passes looping sound passed
          | true => exact .passes looping sound (leave_passes cycle work (by decide))
      | stepped status => exact .passes looping sound passed
      | failed fault => exact .passes looping sound passed
  | step =>
      cases answer with
      | complete holds =>
          have misfit : cycle.fits (.complete holds) = false := by simp [Cycle.fits, point]
          rw [misfit] at fits
          cases fits
      | stepped status =>
          cases mild status point rfl
          have calm : Effect.Calm [.write .running] := by simp [Effect.Calm]
          refine .passes (by simp [point]) (by simp) ?_
          exact (loop_passes (cycle.after work.loopPeriod) work).after calm
      | failed fault =>
          dsimp only
          unfold leave
          split
          next checked => exact .breaks point rfl checked
          next unchecked => exact .fails point (by simpa using unchecked)
  | lastCheck exit =>
      cases answer with
      | complete holds => exact .decided point
      | stepped status => exact .decided point
      | failed fault => exact .decided point

end Cycle

namespace Incident

/-- Steps answer nothing but that they are running, or they fail. -/
def Mild (log : List Incident) : Prop :=
  ∀ attempt status, .answered attempt .step (.stepped status) ∈ log → status = .running

theorem Mild.append {log more : List Incident} (mild : Mild (log ++ more)) : Mild log :=
  fun attempt status inside => mild attempt status (List.mem_append_left _ inside)

def isBreakOf (attempt : UInt64) : Incident → Bool
  | .answered other .step (.failed _) => other = attempt
  | _ => false

def isMendOf (attempt : UInt64) : Incident → Bool
  | .ended other .stepFailed _ => other = attempt
  | _ => false

/-- How many steps failed in cycles of an attempt. -/
def breakages (attempt : UInt64) (log : List Incident) : Nat := log.countP (isBreakOf attempt)

/-- How many of these cycles have made their last check. -/
def mendings (attempt : UInt64) (log : List Incident) : Nat := log.countP (isMendOf attempt)

@[simp] theorem breakages_append (attempt : UInt64) (early late : List Incident) :
    breakages attempt (early ++ late) = breakages attempt early + breakages attempt late :=
  List.countP_append

@[simp] theorem mendings_append (attempt : UInt64) (early late : List Incident) :
    mendings attempt (early ++ late) = mendings attempt early + mendings attempt late :=
  List.countP_append

/-- What a tick may have read: what a cycle of the attempt had ended with, or that a step had failed
in one whose last check was still to come. -/
def Readable (work : Work) (log : List Incident) (attempt : UInt64) (status : Status) : Prop :=
  (∃ exit, .ended attempt exit status ∈ log) ∨
    status = .failure ∧ work.isChecked = true ∧ mendings attempt log < breakages attempt log

/-- A tick reads what could be read, and a cycle ends right after its last check and as that
decides, or with failure if nobody ever checks. -/
def Fair (work : Work) (early : List Incident) : Incident → Prop
  | .read attempt status => status.isTerminal = true → Readable work early attempt status
  | .ended attempt exit status =>
      (∃ before answer, early = before ++ [.answered attempt (.lastCheck exit) answer] ∧
        status = answer.verdict) ∨
      status = .failure ∧ work.isChecked = false
  | .opened | .signalled | .halted | .shutDown | .took | .looked _ | .began _ _
  | .answered _ _ _ => True

theorem Throughout.progress {holds : List Incident → Incident → Prop} {log : List Incident}
    (through : Throughout holds log) {attempt : UInt64} {progress : Progress}
    (ends : ∀ status exit, progress = .ended status exit → holds log (.ended attempt exit status)) :
    Throughout holds (log ++ progress.incidents attempt) := by
  cases progress with
  | waiting cycle =>
      rw [Progress.incidents, List.append_nil]
      exact through
  | ended status exit => exact through.snoc (ends status exit rfl)

end Incident

namespace Cycle

open Incident

/-- Where a cycle stands in which a step failed. -/
def broken (attempt : UInt64) : UInt64 × Point := (attempt, .lastCheck .stepFailed)

variable {work : Work} {result : Progress × List Effect}

theorem Passes.balanced (passes : Passes work result) (checked : work.isChecked = true)
    (attempt other : UInt64) :
    result.1.stands.count (broken other) + mendings other (result.1.incidents attempt) = 0 := by
  cases passes with
  | fails unchecked => exact absurd checked (by simp [unchecked])
  | @waits next effects going calm =>
      have apart : next.stand ≠ broken other := fun same => going (Prod.mk.inj same).2
      have absent : [next.stand].count (broken other) = 0 :=
        List.count_eq_zero.mpr fun inside => apart (List.mem_singleton.mp inside).symm
      exact absent

/-- A step that fails breaks its cycle, and the last check mends it. -/
theorem Resumes.balanced {cycle : Cycle} {answer : Answer}
    (resumes : Resumes work cycle answer result) (checked : work.isChecked = true)
    (other : UInt64) :
    result.1.stands.count (broken other) + mendings other (result.1.incidents cycle.attempt) =
      [cycle.stand].count (broken other) +
        breakages other [.answered cycle.attempt cycle.point answer] := by
  cases resumes with
  | passes looping sound passes =>
      rw [passes.balanced checked]
      have whole : [cycle.stand].count (broken other) = 0 := by
        apply List.count_eq_zero.mpr
        intro inside
        exact looping .stepFailed (Prod.mk.inj (List.mem_singleton.mp inside)).2.symm
      have unbroken : breakages other [.answered cycle.attempt cycle.point answer] = 0 := by
        rw [breakages, List.countP_singleton, if_neg]
        intro fails
        unfold isBreakOf at fails
        split at fails
        next same =>
          obtain ⟨-, stepping, failed⟩ := Incident.answered.inj same
          exact sound _ stepping failed
        next => cases fails
      rw [whole, unbroken]
  | breaks stepping failed checked =>
      subst failed
      simp [stepping, Progress.stands, Progress.cycles, Cycle.stand, broken, Progress.incidents,
        mendings, breakages, isBreakOf, List.count_singleton]
  | fails stepping unchecked => exact absurd checked (by simp [unchecked])
  | @decided exit effects last =>
      cases exit <;>
        simp [last, Progress.stands, Progress.cycles, Cycle.stand, broken, Progress.incidents,
          mendings, breakages, isBreakOf, isMendOf, List.count_singleton]

end Cycle

namespace Action

open Incident BehaviorTree.Cycle

/-- What the cell and the cycles show of the log, as long as steps are mild. -/
structure Candid (action : Action) (log : List Incident) : Prop where
  shown : action.cell.status.isTerminal = true →
    (∃ exit, .ended action.cell.attempt exit action.cell.status ∈ log) ∨
      action.cell.status = .failure ∧ action.work.isChecked = true ∧
        broken action.cell.attempt ∈ action.stands
  balanced : action.work.isChecked = true → ∀ attempt,
    action.stands.count (broken attempt) + mendings attempt log = breakages attempt log

theorem Candid.fresh (work : Work) : Candid { work } [] where
  shown := nofun
  balanced := fun _ _ => rfl

variable {action after : Action} {log : List Incident}

/-- A tick reads what some cycle of the latest attempt has come to. -/
theorem Candid.readable (candid : action.Candid log)
    (terminal : action.cell.status.isTerminal = true) :
    Readable action.work log action.cell.attempt action.cell.status := by
  rcases candid.shown terminal with ended | ⟨failed, checked, pending⟩
  · exact .inl ended
  · have counted := candid.balanced checked action.cell.attempt
    have some := List.count_pos_iff.mpr pending
    exact .inr ⟨failed, checked, by omega⟩

/-- What tells of no cycle keeps what is known of cycles. -/
theorem Candid.frame (candid : action.Candid log) (work : after.work = action.work)
    (cell : after.cell = action.cell) (stands : after.stands.Perm action.stands)
    {more : List Incident} (unbroken : ∀ attempt, breakages attempt more = 0)
    (unmended : ∀ attempt, mendings attempt more = 0) : after.Candid (log ++ more) where
  shown := by
    rw [cell, work]
    intro terminal
    rcases candid.shown terminal with ⟨exit, ended⟩ | ⟨failed, checked, pending⟩
    · exact .inl ⟨exit, List.mem_append_left _ ended⟩
    · exact .inr ⟨failed, checked, stands.mem_iff.mpr pending⟩
  balanced := by
    rw [work]
    intro checked attempt
    rw [stands.count_eq, mendings_append, breakages_append, unbroken, unmended]
    exact candid.balanced checked attempt

section Carrying

variable {attempt : UInt64} {result : Progress × List Effect} {others : List (UInt64 × Point)}
  {first : Incident}

theorem told_now {status : Status} {exit : Exit} (ended : result.1 = .ended status exit) :
    .ended attempt exit status ∈ log ++ first :: result.1.incidents attempt := by
  rw [ended]
  simp [Progress.incidents]

/-- A cycle that is entered or resumed beside others. It ends, or waits again and has written at
most that it runs, or a step of it failed and its last check is still to come. -/
theorem Candid.carry (candid : action.Candid log) (abiding : Cycle.Abiding attempt result)
    (carried : Carried action after attempt result others)
    (outcome : (∃ status exit, result.1 = .ended status exit) ∨
      (∃ next, result.1 = .waiting next ∧ Effect.Calm result.2) ∨
      action.work.isChecked = true ∧ broken attempt ∈ result.1.stands ∧
        (attempt = action.cell.attempt →
          (written attempt action.cell result.2).status = .failure))
    (rest : broken action.cell.attempt ∈ action.stands →
      broken action.cell.attempt ∈ others ∨
        attempt = action.cell.attempt ∧ ∃ status exit, result.1 = .ended status exit)
    (balanced : action.work.isChecked = true → ∀ other,
      result.1.stands.count (broken other) + others.count (broken other) +
          mendings other (first :: result.1.incidents attempt) =
        action.stands.count (broken other) +
          breakages other (first :: result.1.incidents attempt)) :
    after.Candid (log ++ first :: result.1.incidents attempt) where
  balanced := by
    rw [carried.work]
    intro checked other
    have before := candid.balanced checked other
    have now := balanced checked other
    rw [carried.stands.count_eq, List.count_append, mendings_append, breakages_append]
    omega
  shown := by
    have beside : ∀ stand ∈ others, stand ∈ after.stands :=
      fun stand inside => carried.stands.mem_iff.mpr (List.mem_append_right _ inside)
    rw [carried.cell, carried.work, written_attempt]
    intro terminal
    -- What the cell said before is still so, unless the cycle that it was about has ended.
    have still : (∀ status exit, attempt = action.cell.attempt → result.1 ≠ .ended status exit) →
        (written attempt action.cell result.2).status = action.cell.status →
        (∃ exit, .ended action.cell.attempt exit (written attempt action.cell result.2).status ∈
          log ++ first :: result.1.incidents attempt) ∨
        (written attempt action.cell result.2).status = .failure ∧ action.work.isChecked = true ∧
          broken action.cell.attempt ∈ after.stands := by
      intro onward same
      rw [same] at terminal ⊢
      rcases candid.shown terminal with ⟨exit, ended⟩ | ⟨failed, checked, pending⟩
      · exact .inl ⟨exit, List.mem_append_left _ ended⟩
      · refine .inr ⟨failed, checked, ?_⟩
        rcases rest pending with other | ⟨current, status, exit, ended⟩
        · exact beside _ other
        · exact absurd ended (onward status exit current)
    by_cases current : attempt = action.cell.attempt
    · rcases outcome with ⟨status, exit, ended⟩ | ⟨next, waiting, calm⟩ |
        ⟨checked, pending, failed⟩
      · have told : .ended attempt exit status ∈ log ++ first :: result.1.incidents attempt :=
          told_now ended
        obtain ⟨progress, effects⟩ := result
        dsimp only at ended
        subst current
        rw [ended] at abiding
        rw [written_end abiding]
        exact .inl ⟨exit, told⟩
      · rcases written_calm calm with same | running
        · exact still (fun status exit _ ended => by simp [waiting] at ended) same
        · rw [running] at terminal
          cases terminal
      · refine .inr ⟨failed current, checked, ?_⟩
        rw [← current]
        exact carried.stands.mem_iff.mpr (List.mem_append_left _ pending)
    · apply still (fun _ _ same => absurd same current)
      rw [written_superseded current]

end Carrying

theorem Candid.enters (candid : action.Candid log) {attempt : UInt64} {stopped : Bool}
    {shown : Status}
    (carried : Carried action after attempt (Cycle.enter action.work attempt stopped)
      action.stands) :
    after.Candid (log ++ .began attempt shown ::
      (Cycle.enter action.work attempt stopped).1.incidents attempt) := by
  have passes := Cycle.enter_passes action.work attempt stopped
  have abiding := Cycle.enter_abiding action.work attempt stopped
  generalize Cycle.enter action.work attempt stopped = result at carried passes abiding
  apply candid.carry abiding carried
  · cases passes with
    | waits going calm => exact .inr (.inl ⟨_, rfl, calm⟩)
    | fails unchecked => exact .inl ⟨_, _, rfl⟩
  · exact .inl
  · intro checked other
    have none := passes.balanced checked attempt other
    have quiet : ∀ more, mendings other (.began attempt shown :: more) = mendings other more :=
      fun more => List.countP_cons_of_neg (by simp [isMendOf])
    have calm : breakages other (.began attempt shown :: result.1.incidents attempt) = 0 := by
      rw [breakages, List.countP_cons_of_neg (by simp [isBreakOf])]
      exact result.1.count_incidents attempt fun _ _ => rfl
    rw [quiet, calm]
    omega

theorem Candid.resumes (candid : action.Candid log) {cycle : Cycle} {answer : Answer}
    {others : List (UInt64 × Point)} (own : action.stands.Perm (cycle.stand :: others))
    (fits : cycle.fits answer = true)
    (carried : Carried action after cycle.attempt (cycle.resume action.work answer) others)
    (mild : ∀ status, cycle.point = .step → answer = .stepped status → status = .running) :
    after.Candid (log ++ .answered cycle.attempt cycle.point answer ::
      (cycle.resume action.work answer).1.incidents cycle.attempt) := by
  have resumes := @Cycle.resume_resumes action.work _ _ fits mild
  have abiding := cycle.resume_abiding action.work answer
  generalize cycle.resume action.work answer = result at carried resumes abiding
  apply candid.carry abiding carried
  · cases resumes with
    | passes looping sound passes =>
        cases passes with
        | waits going calm => exact .inr (.inl ⟨_, rfl, calm⟩)
        | fails unchecked => exact .inl ⟨_, _, rfl⟩
    | breaks stepping failed checked =>
        refine .inr (.inr ⟨checked, List.mem_singleton_self _, fun current => ?_⟩)
        have latest : action.cell.isCurrent cycle.attempt = true := beq_iff_eq.mpr current.symm
        rw [written, written, written, Cell.setIfCurrent, if_pos latest]
        rfl
    | fails => exact .inl ⟨_, _, rfl⟩
    | decided => exact .inl ⟨_, _, rfl⟩
  · intro pending
    rcases List.mem_cons.mp (own.mem_iff.mp pending) with here | beside
    · obtain ⟨current, last⟩ := Prod.mk.inj here
      refine .inr ⟨current.symm, ?_⟩
      cases resumes with
      | passes looping => exact absurd last.symm (looping _)
      | breaks stepping | fails stepping => cases last.trans stepping
      | decided => exact ⟨_, _, rfl⟩
    · exact .inl beside
  · intro checked other
    have balanced := resumes.balanced checked other
    have quiet : mendings other (.answered cycle.attempt cycle.point answer ::
        result.1.incidents cycle.attempt) = mendings other (result.1.incidents cycle.attempt) :=
      List.countP_cons_of_neg (by simp [isMendOf])
    have told : breakages other (.answered cycle.attempt cycle.point answer ::
        result.1.incidents cycle.attempt) =
          breakages other [.answered cycle.attempt cycle.point answer] := by
      rw [breakages, List.countP_cons, result.1.count_incidents cycle.attempt fun _ _ => rfl,
        breakages, List.countP_singleton, Nat.zero_add]
    rw [quiet, told, own.count_eq, List.count_cons, ← List.count_singleton]
    omega

end Action

namespace Lives

open Incident

variable {name : String} {work : Work} {life : Life}

theorem candid (lives : Lives name work life) (mild : Mild life.log) :
    life.post.action.Candid life.log := by
  induction lives with
  | fresh status => exact .fresh work
  | opens before outside resting ih =>
      have framed := ih mild.append
      refine ⟨nofun, fun checked attempt => ?_⟩
      rw [mendings_append, breakages_append]
      exact framed.balanced checked attempt
  | @signals life before opened ih =>
      exact @Action.Candid.frame life.post.action life.post.action.signal life.log
        (ih mild.append) rfl rfl (.refl _) [.signalled] (fun _ => rfl) (fun _ => rfl)
  | read before visited ih =>
      exact (ih mild.append).frame rfl rfl (.refl _) (fun _ => rfl) (fun _ => rfl)
  | halt before outside ih =>
      exact (ih mild.append).frame rfl rfl (.refl _) (fun _ => rfl) (fun _ => rfl)
  | @toil life before toil ih =>
      have done := Post.toil_toils name life.status life.post toil
      dsimp only at mild ⊢
      generalize life.post.toil name life.status toil = result at done mild
      obtain ⟨after, incidents⟩ := result
      have candid := ih mild.append
      cases done with
      | quiet work cell gate stands =>
          exact candid.frame work cell (.of_eq stands) (fun _ => rfl) (fun _ => rfl)
      | take isSet awake =>
          exact @Action.Candid.frame life.post.action
            { life.post.action with gate := life.post.action.gate.clear } life.log candid rfl rfl
            (.refl _) [.took] (fun _ => rfl) (fun _ => rfl)
      | look own awake => exact candid.frame rfl rfl (.refl _) (fun _ => rfl) (fun _ => rfl)
      | enter own gate carried => exact candid.enters carried
      | @resume _ cycle answer others own fits gate carried =>
          apply candid.resumes own fits carried
          rintro status stepping rfl
          apply mild cycle.attempt status
          rw [stepping]
          simp
  | @setup life before outside ih =>
      obtain ⟨work, cell, -, stands⟩ := life.post.action.setup_frame name
      have framed : Action.Candid _ (life.log ++ []) :=
        (ih mild).frame work cell (.of_eq stands) (fun _ => rfl) (fun _ => rfl)
      rwa [List.append_nil] at framed
  | @shutdown life before outside ih =>
      obtain ⟨work, cell, -, stands⟩ := life.post.action.shutdown_frame name
      exact (ih mild.append).frame work cell stands (fun _ => rfl) (fun _ => rfl)

theorem fair (lives : Lives name work life) (mild : Mild life.log) :
    Throughout (Fair work) life.log := by
  induction lives with
  | fresh status => exact throughout_nil
  | opens before outside resting ih => exact (ih mild.append).snoc trivial
  | signals before opened ih => exact (ih mild.append).snoc trivial
  | read before visited ih =>
      apply (ih mild.append).snoc
      intro terminal
      have readable := (before.candid mild.append).readable terminal
      rw [before.has_work] at readable
      exact readable
  | halt before outside ih => exact (ih mild.append).snoc trivial
  | @toil life before toil ih =>
      have done := Post.toil_toils name life.status life.post toil
      have same := before.has_work
      dsimp only at mild ⊢
      generalize life.post.toil name life.status toil = result at done mild
      obtain ⟨after, incidents⟩ := result
      have through := ih mild.append
      cases done with
      | quiet => exact through.append_each nofun
      | take => exact through.snoc trivial
      | look => exact through.snoc trivial
      | @enter _ attempt stopped own gate carried =>
          have began : Fair work life.log (.began attempt life.status) := trivial
          rw [List.append_cons]
          apply (through.snoc began).progress
          intro status exit ended
          have passes := Cycle.enter_passes life.post.action.work attempt stopped
          rw [same] at passes ended
          generalize Cycle.enter work attempt stopped = result at passes ended
          cases passes with
          | waits => cases ended
          | fails unchecked =>
              cases ended
              exact .inr ⟨rfl, unchecked⟩
      | @resume _ cycle answer others own fits gate carried =>
          have answered : Fair work life.log (.answered cycle.attempt cycle.point answer) := trivial
          rw [List.append_cons]
          apply (through.snoc answered).progress
          intro status exit ended
          have resumes : Cycle.Resumes life.post.action.work cycle answer _ :=
            Cycle.resume_resumes fits (by
              rintro status stepping rfl
              apply mild cycle.attempt status
              rw [stepping]
              simp)
          rw [same] at resumes ended
          generalize cycle.resume work answer = result at resumes ended
          cases resumes with
          | passes looping sound passes =>
              cases passes with
              | waits => cases ended
              | fails unchecked =>
                  cases ended
                  exact .inr ⟨rfl, unchecked⟩
          | breaks => cases ended
          | fails stepping unchecked =>
              cases ended
              exact .inr ⟨rfl, unchecked⟩
          | decided last =>
              cases ended
              exact .inl ⟨life.log, answer, by rw [last], rfl⟩
  | setup before outside ih => exact ih mild
  | shutdown before outside ih => exact (ih mild.append).snoc trivial

end Lives

namespace Stand

open Node Incident

variable {path : Path} {work : Work}

/-- As long as steps are mild, a tick that reads a result reads what a cycle of that attempt has
ended with, or the failure of a step in one whose last check is still to come. A cycle ends right
after its last check and as that decides, whatever was read. -/
theorem result_read_or_pending {root : Node} {state : NodeState}
    (found : root.at? path = some (.leaf state (.action { work }))) (occasions : List Occasion)
    (mild : Mild (after path { root } occasions).log) :
    ∃ last action,
      (after path { root } occasions).root.at? path = some (.leaf last (.action action)) ∧
      (∀ attempt, endingsOf attempt (after path { root } occasions).log ≤
        beginningsOf attempt (after path { root } occasions).log) ∧
      (∀ early attempt exit status late,
        (after path { root } occasions).log = early ++ .ended attempt exit status :: late →
          (∃ before answer, early = before ++ [.answered attempt (.lastCheck exit) answer] ∧
            status = answer.verdict) ∨
          status = .failure ∧ work.isChecked = false) ∧
      ∀ early attempt status late,
        (after path { root } occasions).log = early ++ .read attempt status :: late →
        status.isTerminal = true →
          (∃ exit, .ended attempt exit status ∈ early) ∨
          status = .failure ∧ mendings attempt early < breakages attempt early ∧
            ((attempt, .lastCheck .stepFailed) ∈ action.stands ∨
              ∃ answer, [.answered attempt (.lastCheck .stepFailed) answer,
                .ended attempt .stepFailed answer.verdict] <:+: late) := by
  obtain ⟨last, action, left, -, lives⟩ := (follows_after found occasions).lives
  generalize (after path { root } occasions).log = log at mild lives
  have candid := lives.candid mild
  have fair := lives.fair mild
  have cycles := lives.told.accounted.cycles
  have same : action.work = work := lives.has_work
  dsimp only at candid fair cycles
  refine ⟨last, action, left, fun attempt => by have counted := cycles attempt; omega,
    fun early attempt exit status late split => fair early (.ended attempt exit status) late split,
    ?_⟩
  intro early attempt status late split terminal
  rcases (fair early (.read attempt status) late split : Fair _ _ _) terminal with
    ended | ⟨failed, checked, pending⟩
  · exact .inl ended
  · refine .inr ⟨failed, pending, ?_⟩
    have balanced := candid.balanced (same ▸ checked) attempt
    by_cases going : Cycle.broken attempt ∈ action.stands
    · exact .inl going
    right
    have mended : 0 < mendings attempt late := by
      have gone := List.count_eq_zero.mpr going
      have plain : mendings attempt (.read attempt status :: late) = mendings attempt late := rfl
      have whole : breakages attempt (.read attempt status :: late) = breakages attempt late := rfl
      rw [split, mendings_append, breakages_append, plain, whole, gone] at balanced
      omega
    obtain ⟨incident, inside, mends⟩ := List.countP_pos_iff.mp mended
    obtain ⟨final, rfl⟩ : ∃ final, incident = .ended attempt .stepFailed final := by
      cases incident with
      | ended other exit final =>
          cases exit <;> simp [isMendOf] at mends
          exact ⟨final, by rw [mends]⟩
      | opened | signalled | read | halted | shutDown | took | looked | began | answered =>
          simp [isMendOf] at mends
    obtain ⟨first, rest, rfl⟩ := List.append_of_mem inside
    have concluded : Fair work (early ++ .read attempt status :: first)
        (.ended attempt .stepFailed final) := fair _ _ rest (by simp [split])
    rcases concluded with ⟨before, answer, follows, rfl⟩ | ⟨-, unchecked⟩
    · rcases List.eq_nil_or_concat first with rfl | ⟨middle, answered, rfl⟩
      · cases (List.append_inj' follows rfl).2
      · have ends : early ++ .read attempt status :: (middle ++ [answered]) =
            (early ++ .read attempt status :: middle) ++ [answered] := by simp
        rw [List.concat_eq_append, ends] at follows
        cases (List.append_inj' follows rfl).2
        exact ⟨answer, middle, rest, by simp⟩
    · rw [checked] at unchecked
      cases unchecked

def drive : Node := .action { name := "drive" } { completion := .external, step := .external }

/-- The device of the drive fails once, and the drive is found to have arrived all the same. -/
def lucky : List Occasion :=
  [.setup, .tick ⟨0, {}⟩ [] [] [], .toil (.take .own), .toil (.look .own), .toil (.enter .own),
    .toil (.held (.complete false)), .toil (.held (.failed (.failed "device down"))),
    .tick ⟨1, {}⟩ [] [] [], .toil (.held (.complete true))]

def misfortune : List Incident :=
  [.opened, .signalled, .read 1 .running, .took, .looked 1, .began 1 .running,
    .answered 1 .completion (.complete false),
    .answered 1 .step (.failed (.failed "device down"))]

theorem lucky_log : (after [] { root := drive } lucky).log =
    misfortune ++ .read 1 .failure ::
      [.answered 1 (.lastCheck .stepFailed) (.complete true), .ended 1 .stepFailed .success] := by
  decide +kernel

theorem lucky_mild : Mild (after [] { root := drive } lucky).log := by
  rw [lucky_log]
  simp [Mild, misfortune]

theorem lucky_drive_pending :
    Mild (after [] { root := drive } lucky).log ∧
    mendings 1 misfortune < breakages 1 misfortune ∧
    ∃ answer, misfortune ++ [.read 1 .failure,
        .answered 1 (.lastCheck .stepFailed) (.complete true)] =
          misfortune ++ [.read 1 .failure] ++ [.answered 1 (.lastCheck .stepFailed) answer] ∧
      .success = answer.verdict := by
  have found : drive.at? [] = some (.leaf { name := "drive" }
      (.action { work := { completion := .external, step := .external } })) := rfl
  obtain ⟨_, _, -, -, concluded, reads⟩ := result_read_or_pending found lucky lucky_mild
  refine ⟨lucky_mild, ?_, ?_⟩
  · rcases reads misfortune 1 .failure _ lucky_log rfl with ⟨exit, gone⟩ | ⟨-, pending, -⟩
    · simp [misfortune] at gone
    · exact pending
  · rcases concluded (misfortune ++ [.read 1 .failure,
        .answered 1 (.lastCheck .stepFailed) (.complete true)]) 1 .stepFailed .success []
        (lucky_log.trans (by simp)) with ⟨before, answer, split, decided⟩ | ⟨unlike, -⟩
    · have ends : misfortune ++ [.read 1 .failure,
          .answered 1 (.lastCheck .stepFailed) (.complete true)] =
            misfortune ++ [.read 1 .failure] ++
              [.answered 1 (.lastCheck .stepFailed) (.complete true)] := by simp
      cases (List.append_inj' (ends.symm.trans split) rfl).2
      exact ⟨_, ends, decided⟩
    · cases unlike

/-- The tick reads a failure, and the cycle ends with success. -/
theorem lucky_drive_misread : ∃ late,
    (after [] { root := drive } lucky).log =
      misfortune ++ .read 1 .failure :: (late ++ [.ended 1 .stepFailed .success]) ∧
    Mild (after [] { root := drive } lucky).log :=
  ⟨[_], lucky_log, lucky_mild⟩

end Stand

end BehaviorTree
