import BehaviorTree.Proofs.Cycles
import BehaviorTree.Proofs.Entering
import Mathlib.Data.List.Perm.Basic

/-!
What befalls an action, one thing after the other. A tick opens an attempt, sets the gate and reads
the cell, with work in between; the node is halted; workers take the signal, look up the attempt and
enter a cycle, each at its own time; and cycles go on by themselves in any order, also those that
outlived their worker. The log tells of all this, and the cell, the gate, the workers and the cycles
in progress agree with it.
-/

namespace BehaviorTree

/-- What the work of an action does by itself. -/
inductive Labour where
  | begin
  | held (answer : Answer)
  | detached (place : Nat) (answer : Answer)
  | wait (milliseconds : Nat)

/-- How far a worker without a cycle has come: it listens at the gate, it has taken the signal, or
it has looked up the attempt that it enters a cycle for. -/
inductive Threshold where
  | listening
  | woken
  | bound (attempt : UInt64)
  deriving DecidableEq, Repr

/-- The worker of an action as long as it has no cycle, and the workers that were told to stop while
they had none. Those may be past the last test of their flag, and then enter one cycle each. -/
structure Crew where
  own : Threshold := .listening
  strays : List Threshold := []

inductive Who where
  | own
  | stray (place : Nat)

/-- What workers and cycles do by themselves, step by step. -/
inductive Toil where
  | take (who : Who)
  | look (who : Who)
  | enter (who : Who)
  | held (answer : Answer)
  | detached (place : Nat) (answer : Answer)
  | wait (milliseconds : Nat)

inductive Incident where
  | opened
  | signalled
  | read (attempt : UInt64) (status : Status)
  | halted
  /-- The worker was told to stop. -/
  | shutDown
  /-- A worker took the signal. -/
  | took
  /-- A worker looked up the attempt. -/
  | looked (attempt : UInt64)
  /-- A worker entered a cycle while the node showed that status. -/
  | began (attempt : UInt64) (shown : Status)
  | answered (attempt : UInt64) (point : Point) (answer : Answer)
  | ended (attempt : UInt64) (exit : Exit) (status : Status)
  deriving DecidableEq, Repr

namespace Incident

def isBeginning : Incident → Bool
  | .began _ _ => true
  | _ => false

def isBeginningOf (attempt : UInt64) : Incident → Bool
  | .began other _ => other = attempt
  | _ => false

def isEndingOf (attempt : UInt64) : Incident → Bool
  | .ended other _ _ => other = attempt
  | _ => false

/-- How many cycles began. -/
def beginnings (log : List Incident) : Nat := log.countP isBeginning

def beginningsOf (attempt : UInt64) (log : List Incident) : Nat :=
  log.countP (isBeginningOf attempt)

def endingsOf (attempt : UInt64) (log : List Incident) : Nat := log.countP (isEndingOf attempt)

@[simp] theorem beginnings_append (early late : List Incident) :
    beginnings (early ++ late) = beginnings early + beginnings late := List.countP_append

@[simp] theorem beginnings_of_append (attempt : UInt64) (early late : List Incident) :
    beginningsOf attempt (early ++ late) =
      beginningsOf attempt early + beginningsOf attempt late := List.countP_append

@[simp] theorem endings_of_append (attempt : UInt64) (early late : List Incident) :
    endingsOf attempt (early ++ late) = endingsOf attempt early + endingsOf attempt late :=
  List.countP_append

/-- What holds of every incident and what was told before it. -/
def Throughout (holds : List Incident → Incident → Prop) (log : List Incident) : Prop :=
  ∀ early incident late, log = early ++ incident :: late → holds early incident

variable {holds : List Incident → Incident → Prop}

theorem throughout_nil : Throughout holds [] := by
  intro early incident late same
  simp at same

theorem Throughout.append {log more : List Incident} (through : Throughout holds log)
    (next : ∀ early incident late, more = early ++ incident :: late →
      holds (log ++ early) incident) : Throughout holds (log ++ more) := by
  intro early incident late same
  rcases List.append_eq_append_iff.mp same with ⟨middle, rfl, rest⟩ | ⟨middle, rfl, rest⟩
  · exact next middle incident late rest
  · cases middle with
    | nil =>
        have own := next [] incident late rest.symm
        simpa using own
    | cons first middle =>
        obtain ⟨rfl, rfl⟩ := List.cons.inj rest
        exact through early incident middle rfl

theorem Throughout.append_each {log more : List Incident} (through : Throughout holds log)
    (each : ∀ incident ∈ more, ∀ early, holds early incident) : Throughout holds (log ++ more) := by
  apply through.append
  rintro early incident late rfl
  exact each incident (by simp) _

/-- A single incident more. -/
theorem Throughout.snoc {log : List Incident} (through : Throughout holds log)
    {incident : Incident} (last : holds log incident) : Throughout holds (log ++ [incident]) := by
  apply through.append
  intro early other late same
  cases early with
  | nil =>
      cases same
      simpa using last
  | cons first early => simp at same

end Incident

def Progress.incidents (attempt : UInt64) : Progress → List Incident
  | .waiting _ => []
  | .ended status exit => [.ended attempt exit status]

/-- The attempt of a cycle, and what the cycle waits for. -/
def Cycle.stand (cycle : Cycle) : UInt64 × Point := (cycle.attempt, cycle.point)

def Progress.stands (progress : Progress) : List (UInt64 × Point) :=
  progress.cycles.map Cycle.stand

namespace Action

/-- Where the cycles in progress stand. -/
def stands (action : Action) : List (UInt64 × Point) := action.cycles.map Cycle.stand

/-- Hands an answer to a cycle that waits for such a one. -/
def carryOn (name : String) (action : Action) (cycle : Cycle) (answer : Answer)
    (keep : Advance → Advance) : Action × List Incident :=
  if cycle.fits answer then
    let carried := advance name action cycle.attempt (cycle.resume action.work answer)
    ((keep carried).action,
      .answered cycle.attempt cycle.point answer :: carried.progress.incidents cycle.attempt)
  else (action, [])

def labour (name : String) (shown : Status) (action : Action) : Labour → Action × List Incident
  | .begin =>
      match action.begin? name with
      | some begun =>
          (begun.action, .began begun.attempt shown :: begun.progress.incidents begun.attempt)
      | none => (action, [])
  | .held answer =>
      match action.engagement with
      | .busy cycle => action.carryOn name cycle answer Advance.held
      | .off | .idle => (action, [])
  | .detached place answer =>
      match action.detached[place]? with
      | some cycle =>
          action.carryOn name cycle answer (Advance.detached (action.detached.eraseIdx place))
      | none => (action, [])
  | .wait milliseconds => (action.after milliseconds, [])

def toil (name : String) (shown : Status) : Action → List Labour → Action × List Incident
  | action, [] => (action, [])
  | action, labour :: rest =>
      let (after, incidents) := action.labour name shown labour
      let (last, more) := after.toil name shown rest
      (last, incidents ++ more)

/-- The signal, as a worker takes it. The one that the action holds on to takes it while it is
idle. -/
def taken? (action : Action) : Who → Option Action
  | .own => action.takeSignal?
  | .stray _ =>
      match action.gate.consume with
      | (true, gate) => some { action with gate }
      | (false, _) => none

/-- The cycle that a worker enters. -/
def entered? (name : String) (action : Action) (attempt : UInt64) : Who → Option Advance
  | .own =>
      match action.engagement with
      | .idle => some (action.enterHeld name attempt)
      | .off | .busy _ => none
  | .stray _ => some (action.enterDetached name attempt)

end Action

namespace Crew

def at? (crew : Crew) : Who → Option Threshold
  | .own => some crew.own
  | .stray place => crew.strays[place]?

def put (crew : Crew) (threshold : Threshold) : Who → Crew
  | .own => { crew with own := threshold }
  | .stray place => { crew with strays := crew.strays.set place threshold }

/-- A worker that has a cycle now. The one that was not told to stop comes back to the gate. -/
def release (crew : Crew) : Who → Crew
  | .own => { crew with own := .listening }
  | .stray place => { crew with strays := crew.strays.eraseIdx place }

/-- The worker is told to stop while it has no cycle. -/
def dismiss (crew : Crew) : Crew := { strays := crew.own :: crew.strays }

/-- How far those have come that have taken a signal. -/
def awake (crew : Crew) : List Threshold := (crew.own :: crew.strays).filter (· ≠ .listening)

theorem awake_at {crew : Crew} {who : Who} {threshold : Threshold}
    (found : crew.at? who = some threshold) :
    ∃ others, crew.awake.Perm ([threshold].filter (· ≠ .listening) ++ others) ∧
      (crew.release who).awake.Perm others ∧
      ∀ other, (crew.put other who).awake.Perm ([other].filter (· ≠ .listening) ++ others) := by
  have beside : ∀ (first : Threshold) (rest : List Threshold),
      (first :: rest).filter (· ≠ .listening) =
        [first].filter (· ≠ .listening) ++ rest.filter (· ≠ .listening) :=
    fun first rest => List.filter_append [first] rest
  cases who with
  | own =>
      cases found
      exact ⟨crew.strays.filter (· ≠ .listening), .of_eq (beside _ _), .refl _,
        fun other => .of_eq (beside _ _)⟩
  | stray place =>
      obtain ⟨inside, same⟩ := List.getElem?_eq_some_iff.mp found
      refine ⟨(crew.own :: crew.strays.eraseIdx place).filter (· ≠ .listening), ?_, .refl _, ?_⟩
      · rw [← beside]
        apply List.Perm.filter
        have own := (List.getElem_cons_eraseIdx_perm inside).symm
        rw [same] at own
        exact (own.cons crew.own).trans (.swap _ _ _)
      · intro other
        rw [← beside]
        apply List.Perm.filter
        exact ((List.set_perm_cons_eraseIdx inside other).cons crew.own).trans (.swap _ _ _)

theorem put_strays (crew : Crew) (threshold : Threshold) (who : Who) :
    (crew.put threshold who).strays.length = crew.strays.length := by
  cases who with
  | own => rfl
  | stray place => exact List.length_set

theorem release_strays (crew : Crew) (who : Who) :
    (crew.release who).strays.length ≤ crew.strays.length := by
  cases who with
  | own => exact Nat.le_refl _
  | stray place => exact (List.eraseIdx_sublist _ _).length_le

theorem awake_length (crew : Crew) : crew.awake.length ≤ crew.strays.length + 1 :=
  List.length_filter_le _ _

end Crew

/-- An action with the workers that have no cycle. -/
structure Post where
  action : Action
  crew : Crew := {}

namespace Post

def toil (name : String) (shown : Status) (post : Post) : Toil → Post × List Incident
  | .take who =>
      match post.crew.at? who, post.action.taken? who with
      | some .listening, some taken =>
          ({ action := taken, crew := post.crew.put .woken who }, [.took])
      | _, _ => (post, [])
  | .look who =>
      match post.crew.at? who with
      | some .woken =>
          ({ post with crew := post.crew.put (.bound post.action.cell.attempt) who },
            [.looked post.action.cell.attempt])
      | _ => (post, [])
  | .enter who =>
      match post.crew.at? who with
      | some (.bound attempt) =>
          match post.action.entered? name attempt who with
          | some entered =>
              ({ action := entered.action, crew := post.crew.release who },
                .began attempt shown :: entered.progress.incidents attempt)
          | none => (post, [])
      | _ => (post, [])
  | .held answer =>
      let (action, incidents) := post.action.labour name shown (.held answer)
      ({ post with action }, incidents)
  | .detached place answer =>
      let (action, incidents) := post.action.labour name shown (.detached place answer)
      ({ post with action }, incidents)
  | .wait milliseconds => ({ post with action := post.action.after milliseconds }, [])

/-- Some steps one after the other. -/
def toils (name : String) (shown : Status) : Post → List Toil → Post × List Incident
  | post, [] => (post, [])
  | post, toil :: rest =>
      let (next, incidents) := post.toil name shown toil
      let (last, more) := next.toils name shown rest
      (last, incidents ++ more)

/-- The worker is told to stop. -/
def shutdown (name : String) (post : Post) : Post :=
  { action := post.action.shutdown name
    crew := match post.action.engagement with
      | .idle => post.crew.dismiss
      | .off | .busy _ => post.crew }

/-- A worker that takes the signal, looks up the attempt and enters a cycle with nothing in between
begins a cycle. -/
theorem toils_begin {name : String} {action : Action} {begun : Action.Advance}
    (found : action.begin? name = some begun) (shown : Status) (strays : List Threshold) :
    ({ action, crew := { strays } } : Post).toils name shown
        [.take .own, .look .own, .enter .own] =
      ({ action := begun.action, crew := { strays } },
        .took :: .looked begun.attempt :: .began begun.attempt shown ::
          begun.progress.incidents begun.attempt) := by
  obtain ⟨idle, isSet, rfl⟩ := Action.begin_eq_some found
  simp only [toils, toil, Crew.at?, Action.taken?, Action.take_signal_of_idle idle isSet, Crew.put,
    Action.entered?, idle]
  simp [Action.enterHeld, Crew.release, Action.Advance.held, Action.advance]

end Post

namespace Action

/-- A cycle that was entered or resumed, beside others. -/
structure Carried (before after : Action) (attempt : UInt64) (result : Progress × List Effect)
    (others : List (UInt64 × Point)) : Prop where
  work : after.work = before.work
  cell : after.cell = written attempt before.cell result.2
  stands : after.stands.Perm (result.1.stands ++ others)

theorem stands_held (advance : Advance) :
    advance.held.action.stands =
      advance.progress.stands ++ advance.action.detached.map Cycle.stand := by
  obtain ⟨attempt, progress, action, events⟩ := advance
  cases progress <;> rfl

theorem stands_detached (advance : Advance) (others : List Cycle) :
    (advance.detached others).action.stands.Perm
      (advance.progress.stands ++
        { advance.action with detached := others }.stands) := by
  obtain ⟨attempt, progress, action, events⟩ := advance
  cases progress with
  | ended status exit => exact .refl _
  | waiting cycle =>
      unfold stands cycles Advance.detached
      cases action.engagement with
      | off | idle => exact .refl _
      | busy own => exact .swap _ _ _

theorem stands_of_detached {action : Action} {cycle : Cycle} {others : List Cycle}
    (own : action.detached.Perm (cycle :: others)) :
    action.stands.Perm (cycle.stand :: { action with detached := others }.stands) := by
  have rest := own.map Cycle.stand
  unfold stands cycles
  cases action.engagement with
  | off | idle => exact rest
  | busy held => exact (rest.cons held.stand).trans (.swap _ _ _)

theorem taken_eq_some {action taken : Action} {who : Who} (found : action.taken? who = some taken) :
    action.gate.isSet = true ∧ taken = { action with gate := action.gate.clear } := by
  cases who with
  | own => exact (take_signal_eq_some found).2
  | stray place =>
      rw [taken?] at found
      split at found
      next gate consumed =>
        rw [Gate.consume, Prod.mk.injEq] at consumed
        obtain ⟨isSet, rfl⟩ := consumed
        cases found
        exact ⟨isSet, rfl⟩
      next => cases found

theorem entered_carried {name : String} {action : Action} {attempt : UInt64} {who : Who}
    {entered : Advance} (found : action.entered? name attempt who = some entered) :
    ∃ stopped, entered.progress = (Cycle.enter action.work attempt stopped).1 ∧
      entered.action.gate = action.gate ∧
      Carried action entered.action attempt (Cycle.enter action.work attempt stopped)
        action.stands := by
  cases who with
  | own =>
      rw [entered?] at found
      split at found
      next idle =>
        cases found
        have others : action.stands = action.detached.map Cycle.stand := by
          rw [stands, cycles, idle]
        refine ⟨false, rfl, advance_gate _ _ _ _, advance_work _ _ _ _, advance_cell _ _ _ _, ?_⟩
        rw [enterHeld, stands_held, advance_detached, others]
        exact .refl _
      all_goals cases found
  | stray place =>
      cases found
      refine ⟨true, rfl, advance_gate _ _ _ _, advance_work _ _ _ _, advance_cell _ _ _ _, ?_⟩
      refine (stands_detached _ _).trans ?_
      rw [advance_action]
      exact .refl _

theorem setup_frame (name : String) (action : Action) :
    ((action.setup name).toOption.getD action).work = action.work ∧
      ((action.setup name).toOption.getD action).cell = action.cell ∧
      ((action.setup name).toOption.getD action).gate = action.gate ∧
      ((action.setup name).toOption.getD action).stands = action.stands := by
  obtain ⟨engagement, isSetUp, started, same | ⟨off, idle⟩⟩ := action.setup_getD name
  · rw [started, same]
    exact ⟨rfl, rfl, rfl, rfl⟩
  · rw [started, idle]
    refine ⟨rfl, rfl, rfl, ?_⟩
    rw [stands, stands, cycles, cycles, off]

theorem shutdown_frame (name : String) (action : Action) :
    (action.shutdown name).work = action.work ∧ (action.shutdown name).cell = action.cell ∧
      (action.shutdown name).gate = action.gate ∧
      (action.shutdown name).stands.Perm action.stands := by
  obtain ⟨isSetUp, stays | ⟨stopped, idle⟩ | ⟨cycle, busy, stopped⟩⟩ :=
    action.shutdown_cases name
  · rw [stays]
    exact ⟨rfl, rfl, rfl, .refl _⟩
  · rw [stopped]
    refine ⟨rfl, rfl, rfl, .of_eq ?_⟩
    rw [stands, stands, cycles, cycles, idle]
  · rw [stopped]
    refine ⟨rfl, rfl, rfl, ?_⟩
    rw [stands, stands, cycles, cycles, busy]
    dsimp only
    rw [List.map_append, List.map_singleton, List.map_cons]
    exact List.perm_append_singleton _ _

end Action

namespace Post

open BehaviorTree.Action

/-- All that workers and cycles can do by themselves. -/
inductive Toils (shown : Status) (before : Post) : Post → List Incident → Prop
  | quiet {action : Action} (work : action.work = before.action.work)
      (cell : action.cell = before.action.cell) (gate : action.gate = before.action.gate)
      (stands : action.stands = before.action.stands) : Toils shown before { before with action } []
  | take {crew : Crew} (isSet : before.action.gate.isSet = true)
      (awake : crew.awake.Perm (.woken :: before.crew.awake)) :
      Toils shown before
        { action := { before.action with gate := before.action.gate.clear }, crew } [.took]
  | look {crew : Crew} {others : List Threshold} (own : before.crew.awake.Perm (.woken :: others))
      (awake : crew.awake.Perm (.bound before.action.cell.attempt :: others)) :
      Toils shown before { before with crew } [.looked before.action.cell.attempt]
  | enter {after : Post} {attempt : UInt64} {stopped : Bool}
      (own : before.crew.awake.Perm (.bound attempt :: after.crew.awake))
      (gate : after.action.gate = before.action.gate)
      (carried : Carried before.action after.action attempt
        (Cycle.enter before.action.work attempt stopped) before.action.stands) :
      Toils shown before after
        (.began attempt shown ::
          (Cycle.enter before.action.work attempt stopped).1.incidents attempt)
  | resume {action : Action} {cycle : Cycle} {answer : Answer} {others : List (UInt64 × Point)}
      (own : before.action.stands.Perm (cycle.stand :: others)) (fits : cycle.fits answer = true)
      (gate : action.gate = before.action.gate)
      (carried : Carried before.action action cycle.attempt
        (cycle.resume before.action.work answer) others) :
      Toils shown before { before with action }
        (.answered cycle.attempt cycle.point answer ::
          (cycle.resume before.action.work answer).1.incidents cycle.attempt)

theorem carry_on_toils {name : String} {shown : Status} {post : Post} {cycle : Cycle}
    {others : List (UInt64 × Point)} (own : post.action.stands.Perm (cycle.stand :: others))
    (answer : Answer) {keep : Advance → Advance}
    (kept : ∀ advance : Advance, (keep advance).action.work = advance.action.work ∧
      (keep advance).action.cell = advance.action.cell ∧
      (keep advance).action.gate = advance.action.gate)
    (stands : (keep (advance name post.action cycle.attempt
      (cycle.resume post.action.work answer))).action.stands.Perm
        ((cycle.resume post.action.work answer).1.stands ++ others)) :
    Toils shown post { post with action := (post.action.carryOn name cycle answer keep).1 }
      (post.action.carryOn name cycle answer keep).2 := by
  unfold carryOn
  split
  next fits =>
    obtain ⟨work, cell, gate⟩ := kept (advance name post.action cycle.attempt
      (cycle.resume post.action.work answer))
    refine .resume own fits (gate.trans (advance_gate _ _ _ _)) ⟨?_, ?_, stands⟩
    · exact work.trans (advance_work _ _ _ _)
    · exact cell.trans (advance_cell _ _ _ _)
  next => exact .quiet rfl rfl rfl rfl

theorem toil_toils (name : String) (shown : Status) (post : Post) (toil : Toil) :
    Toils shown post (post.toil name shown toil).1 (post.toil name shown toil).2 := by
  have idle : Toils shown post post [] := .quiet rfl rfl rfl rfl
  cases toil with
  | take who =>
      rw [Post.toil]
      split
      next taken listening found =>
        obtain ⟨isSet, rfl⟩ := taken_eq_some found
        obtain ⟨others, awake, -, after⟩ := Crew.awake_at listening
        exact .take isSet ((after .woken).trans (awake.symm.cons _))
      next => exact idle
  | look who =>
      rw [Post.toil]
      split
      next woken =>
        obtain ⟨others, awake, -, after⟩ := Crew.awake_at woken
        exact .look awake (after _)
      next => exact idle
  | enter who =>
      rw [Post.toil]
      split
      next attempt bound =>
        split
        next entered found =>
          obtain ⟨others, awake, released, -⟩ := Crew.awake_at bound
          obtain ⟨stopped, progress, gate, carried⟩ := entered_carried found
          rw [progress]
          exact .enter (awake.trans (released.symm.cons _)) gate carried
        next => exact idle
      next => exact idle
  | held answer =>
      rw [Post.toil, Action.labour]
      cases engaged : post.action.engagement with
      | off | idle => exact idle
      | busy cycle =>
          have own : post.action.stands.Perm
              (cycle.stand :: post.action.detached.map Cycle.stand) := by
            rw [stands, cycles, engaged]
            exact .refl _
          refine carry_on_toils own answer (fun _ => ⟨rfl, rfl, rfl⟩) ?_
          rw [stands_held, advance_detached]
          exact .refl _
  | detached place answer =>
      rw [Post.toil, Action.labour]
      cases found : post.action.detached[place]? with
      | none => exact idle
      | some cycle =>
          obtain ⟨inside, rfl⟩ := List.getElem?_eq_some_iff.mp found
          have own := stands_of_detached (List.getElem_cons_eraseIdx_perm inside).symm
          refine carry_on_toils own answer (fun _ => ⟨rfl, rfl, rfl⟩) ?_
          refine (stands_detached _ _).trans ?_
          rw [advance_action]
          exact .refl _
  | wait milliseconds =>
      refine .quiet rfl rfl rfl ?_
      rw [stands, after_cycles, List.map_map]
      rfl

theorem toil_strays (name : String) (shown : Status) (post : Post) (toil : Toil) :
    (post.toil name shown toil).1.crew.strays.length ≤ post.crew.strays.length := by
  have same := Nat.le_refl post.crew.strays.length
  cases toil with
  | take who =>
      rw [Post.toil]
      split
      · exact Nat.le_of_eq (Crew.put_strays _ _ _)
      · exact same
  | look who =>
      rw [Post.toil]
      split
      · exact Nat.le_of_eq (Crew.put_strays _ _ _)
      · exact same
  | enter who =>
      rw [Post.toil]
      split
      · split
        · exact Crew.release_strays _ _
        · exact same
      · exact same
  | held answer => exact same
  | detached place answer => exact same
  | wait milliseconds => exact same

end Post

end BehaviorTree
