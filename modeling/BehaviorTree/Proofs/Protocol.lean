import BehaviorTree.Proofs.Course

/-!
The protocol between an action and its worker. Several signals may be one, and cycles may outlive
their attempt and their worker; still no attempt has two cycles, none is lost, what a superseded
cycle writes is never seen, and the worker can bring the latest attempt to its end.
-/

namespace BehaviorTree

/-- The turns that are the worker's own. -/
def Turn.isWorkers : Turn → Bool
  | .begin | .advanceHeld _ | .advanceDetached _ => true
  | _ => false

namespace Course

/-! What is seen while cycles are in progress, and that they can be brought to their end. -/

theorem Kept.heard {course : Course} {pending : List UInt64} (kept : course.Kept pending)
    (opened : course.opened ≠ 0) (isClear : course.action.gate.isSet = false) :
    course.action.cell.attempt ∈ course.begun := by
  apply Decidable.byContradiction
  intro unheard
  have isSet := kept.signalled.mpr ⟨opened, unheard⟩
  rw [isClear] at isSet
  cases isSet

theorem Kept.shown {course : Course} {pending : List UInt64} (kept : course.Kept pending)
    (ended : course.action.cell.attempt ∈ course.ended.map (·.1)) :
    (course.action.cell.attempt, course.action.cell.status) ∈ course.ended := by
  obtain ⟨⟨attempt, status⟩, member, same⟩ := List.mem_map.mp ended
  dsimp only at same
  subst same
  rw [kept.final status member]
  exact member

theorem Sound.settled {course : Course} (sound : course.Sound) (opened : course.opened ≠ 0)
    (isClear : course.action.gate.isSet = false) (quiet : course.action.cycles = []) :
    (course.action.cell.attempt, course.action.cell.status) ∈ course.ended := by
  have kept := sound.kept
  have heard := kept.heard opened isClear
  rw [kept.accounted, quiet, List.map_nil, List.append_nil] at heard
  exact kept.shown heard

theorem Kept.opened_of_running {course : Course} {pending : List UInt64}
    (kept : course.Kept pending) (running : course.action.cell.status = .running) :
    course.opened ≠ 0 := by
  intro none
  have untouched := (kept.untouched none).2
  rw [running] at untouched
  cases untouched

theorem Sound.pursued {course : Course} (sound : course.Sound)
    (running : course.action.cell.status = .running) :
    course.action.gate.isSet = true ∨
      ∃ cycle ∈ course.action.cycles, cycle.attempt = course.action.cell.attempt := by
  have kept := sound.kept
  have opened := kept.opened_of_running running
  cases isClear : course.action.gate.isSet with
  | true => exact Or.inl rfl
  | false =>
      right
      have heard := kept.heard opened isClear
      rw [kept.accounted] at heard
      rcases List.mem_append.mp heard with ended | pending
      · have terminal := kept.terminal _ _ (kept.shown ended)
        rw [running] at terminal
        cases terminal
      · exact List.mem_map.mp pending

/-- Failures bring the cycle in progress closer to its end. -/
theorem Sound.shortened {course : Course} (sound : course.Sound) {cycle : Cycle}
    (pending : course.action.cycles = [cycle]) :
    ∃ turn next, turn.isWorkers = true ∧ course.turn? turn = some next ∧
      next.opened = course.opened ∧ next.action.gate = course.action.gate ∧
      next.action.isLive = course.action.isLive ∧
      (next.action.cycles = [] ∨
        ∃ later, next.action.cycles = [later] ∧ later.remaining < cycle.remaining) := by
  have shorter : ∀ progress, (cycle.resume course.action.work (.failed (.failed ""))).1 = progress →
      progress.cycles = [] ∨
        ∃ later, progress.cycles = [later] ∧ later.remaining < cycle.remaining := by
    intro progress known
    cases progress with
    | ended status exit => exact Or.inl rfl
    | waiting later => exact Or.inr ⟨later, rfl, cycle.failed_remaining _ _ known⟩
  unfold Action.cycles at pending
  cases engaged : course.action.engagement with
  | busy own =>
      rw [engaged] at pending
      obtain ⟨rfl, free⟩ := List.cons_eq_cons.mp pending
      obtain ⟨held, found, gate, live, cycles⟩ := Action.advance_held_of_busy engaged free
        course.state.name (.failed (.failed ""))
      refine ⟨.advanceHeld (.failed (.failed "")), course.follow held, rfl, ?_, rfl, gate, ?_, ?_⟩
      · rw [turn?, found, Option.map_some]
      · rw [Course.follow, live, Action.isLive, engaged]
      · rw [Course.follow, cycles]
        exact shorter _ rfl
  | off =>
      rw [engaged] at pending
      obtain ⟨detached, found, gate, dead, cycles⟩ := Action.advance_detached_of_off engaged pending
        course.state.name (.failed (.failed ""))
      refine ⟨.advanceDetached (.failed (.failed "")), course.follow detached, rfl, ?_, rfl, gate,
        ?_, ?_⟩
      · rw [turn?, found, Option.map_some]
      · rw [Course.follow, dead, Action.isLive, engaged]
      · rw [Course.follow, cycles]
        exact shorter _ rfl
  | idle =>
      have free := sound.alone (by simp [engaged])
      rw [engaged] at pending
      dsimp only at pending
      rw [free] at pending
      cases pending

theorem Sound.cycles_cases {course : Course} (sound : course.Sound) :
    course.action.cycles = [] ∨ ∃ cycle, course.action.cycles = [cycle] := by
  unfold Action.cycles
  cases engaged : course.action.engagement with
  | busy cycle => exact Or.inr ⟨cycle, congrArg _ (sound.alone (by simp [engaged]))⟩
  | idle => exact Or.inl (sound.alone (by simp [engaged]))
  | off =>
      have single := sound.single
      cases known : course.action.detached with
      | nil => exact Or.inl rfl
      | cons cycle others =>
          rw [known, List.length_cons] at single
          exact Or.inr ⟨cycle, congrArg _ (List.length_eq_zero_iff.mp (by omega))⟩

/-- The worker can end what it has begun. The induction is on how far the cycle is from its end. -/
theorem Sound.quieted_within (bound : Nat) {course : Course} (sound : course.Sound)
    (few : course.opened < UInt64.size)
    (within : ∀ cycle, course.action.cycles = [cycle] → cycle.remaining < bound) :
    ∃ turns later, turns.all Turn.isWorkers = true ∧ course.run? turns = some later ∧
      later.Sound ∧ later.opened = course.opened ∧ later.action.gate = course.action.gate ∧
      later.action.isLive = course.action.isLive ∧ later.action.cycles = [] := by
  induction bound generalizing course with
  | zero =>
      rcases sound.cycles_cases with quiet | ⟨cycle, pending⟩
      · exact ⟨[], course, rfl, rfl, sound, rfl, rfl, rfl, quiet⟩
      · exact absurd (within cycle pending) (Nat.not_lt_zero _)
  | succ bound induction =>
      rcases sound.cycles_cases with quiet | ⟨cycle, pending⟩
      · exact ⟨[], course, rfl, rfl, sound, rfl, rfl, rfl, quiet⟩
      · obtain ⟨turn, next, own, turned, opened, gate, live, closer⟩ := sound.shortened pending
        rw [← opened] at few
        have left : ∀ later, next.action.cycles = [later] → later.remaining < bound := by
          intro later known
          have less := within cycle pending
          rcases closer with quiet | ⟨other, same, closer⟩
          · rw [quiet] at known
            cases known
          · rw [same] at known
            cases known
            omega
        obtain ⟨turns, later, workers, run, still, count, signal, alive, quiet⟩ :=
          induction (sound.turn turned few) few left
        refine ⟨turn :: turns, later, ?_, run_cons.mpr ⟨next, turned, run⟩, still,
          count.trans opened, signal.trans gate, alive.trans live, quiet⟩
        rw [List.all_cons, own, workers]
        rfl

theorem Sound.quieted {course : Course} (sound : course.Sound) (few : course.opened < UInt64.size) :
    ∃ turns later, turns.all Turn.isWorkers = true ∧ course.run? turns = some later ∧
      later.Sound ∧ later.opened = course.opened ∧ later.action.gate = course.action.gate ∧
      later.action.isLive = course.action.isLive ∧ later.action.cycles = [] := by
  apply sound.quieted_within 4 few
  intro cycle _
  unfold Cycle.remaining
  split <;> decide

theorem run_append {course middle final : Course} {earlier later : List Turn}
    (first : course.run? earlier = some middle) (second : middle.run? later = some final) :
    course.run? (earlier ++ later) = some final := by
  rw [run?, List.foldlM_append, Option.bind_eq_bind, Option.bind_eq_some_iff]
  exact ⟨middle, first, second⟩

/-- As long as the worker is live, or no start is pending, the worker alone can bring the latest
attempt to its end. -/
theorem Sound.resolved {course : Course} (sound : course.Sound) (few : course.opened < UInt64.size)
    (opened : course.opened ≠ 0)
    (served : course.action.gate.isSet = true → course.action.isLive = true) :
    ∃ turns later, turns.all Turn.isWorkers = true ∧ course.run? turns = some later ∧
      later.action.cell.attempt = course.action.cell.attempt ∧
      later.action.cell.status.isTerminal = true := by
  obtain ⟨turns, rest, workers, run, still, count, gate, live, quiet⟩ := sound.quieted few
  have shown : ∀ final : Course, final.Sound → final.opened = course.opened →
      final.action.gate.isSet = false → final.action.cycles = [] →
        final.action.cell.attempt = course.action.cell.attempt ∧
          final.action.cell.status.isTerminal = true := by
    intro final settled same isClear quiet
    refine ⟨?_, ?_⟩
    · apply UInt64.toNat_inj.mp
      rw [settled.kept.counted, sound.kept.counted, same]
    · rw [← same] at opened
      exact settled.kept.terminal _ _ (settled.settled opened isClear quiet)
  cases isSet : course.action.gate.isSet with
  | false =>
      rw [← gate] at isSet
      exact ⟨turns, rest, workers, run, shown rest still count isSet quiet⟩
  | true =>
      have idle := Action.idle_of_quiet (live.trans (served isSet)) quiet
      rw [← gate] at isSet
      obtain ⟨begun, found, isClear⟩ := Action.begin_of_idle idle isSet rest.state.name
      have turned : rest.turn? .begin =
          some ({ rest with begun := rest.begun ++ [begun.attempt] }.follow begun) := by
        rw [turn?, found, Option.map_some]
      rw [← count] at few
      have going := still.turn turned few
      obtain ⟨more, final, own, ran, settled, same, signal, _, silent⟩ := going.quieted few
      refine ⟨turns ++ .begin :: more, final, ?_,
        run_append run (run_cons.mpr ⟨_, turned, ran⟩), shown final settled (same.trans count) ?_
          silent⟩
      · rw [List.all_append, List.all_cons, workers, own]
        rfl
      · rw [signal]
        exact isClear

/-- What a superseded cycle writes is lost. -/
theorem superseded_turn {course next : Course} {turn : Turn} {attempt : UInt64}
    (turned : course.turn? turn = some next) (acting : course.acting? turn = some attempt)
    (superseded : attempt ≠ course.action.cell.attempt) :
    next.action.cell = course.action.cell := by
  obtain ⟨_, effects, cell⟩ := acting_turn acting turned
  rw [Action.written_superseded superseded] at cell
  exact cell

theorem cell_after_turn {course next : Course} {turn : Turn}
    (turned : course.turn? turn = some next) :
    next.action.cell = course.action.cell ∨
      (course.acting? turn = none ∧ next.opened = course.opened + 1 ∧
        next.action.cell = course.action.cell.beginAttempt) ∨
      course.acting? turn = some course.action.cell.attempt := by
  cases acting : course.acting? turn with
  | none =>
      rcases resting_turn acting turned with ⟨_, same⟩ | ⟨more, opened⟩
      · exact Or.inl same
      · exact Or.inr (Or.inl ⟨rfl, more, opened⟩)
  | some attempt =>
      by_cases current : attempt = course.action.cell.attempt
      · exact Or.inr (Or.inr (congrArg some current))
      · exact Or.inl (superseded_turn turned acting current)

theorem Sound.idle_quiet {course : Course} (sound : course.Sound)
    (idle : course.action.engagement = .idle) : course.action.cycles = [] := by
  rw [Action.cycles, idle]
  exact sound.alone (by simp [idle])

/-- In every run with fewer attempts than there are numbers for them: no attempt has two cycles,
and later cycles have greater attempts; the cell changes only by a new attempt or by the cycle of
the latest one, so nothing else changes what a tick reads; an action that runs has its cycle or the
signal for it, and the worker can bring it to its end; and an idle worker that nothing waits for
has left what the latest cycle ended with. -/
theorem protocol_in_every_run {state : NodeState} {work : Work} {turns : List Turn}
    {course : Course} (run : (fresh state work).run? turns = some course)
    (few : course.opened < UInt64.size) :
    course.begun.Pairwise (· < ·) ∧
    (∀ turn next, course.turn? turn = some next →
      next.action.cell = course.action.cell ∨
      (course.acting? turn = none ∧ next.opened = course.opened + 1 ∧
        next.action.cell = course.action.cell.beginAttempt) ∨
      course.acting? turn = some course.action.cell.attempt) ∧
    (∀ turn next attempt, course.turn? turn = some next → course.acting? turn = some attempt →
      attempt ≠ course.action.cell.attempt → ∀ surroundings,
        ((Leaf.action next.action).update surroundings).1 =
          ((Leaf.action course.action).update surroundings).1) ∧
    (course.action.cell.status = .running →
      course.action.gate.isSet = true ∨
        ∃ cycle ∈ course.action.cycles, cycle.attempt = course.action.cell.attempt) ∧
    (course.action.cell.status = .running →
      (course.action.gate.isSet = true → course.action.isLive = true) →
        ∃ more later, more.all Turn.isWorkers = true ∧ course.run? more = some later ∧
          later.action.cell.attempt = course.action.cell.attempt ∧
          later.action.cell.status.isTerminal = true) ∧
    (course.action.engagement = .idle → course.action.gate.isSet = false → course.opened ≠ 0 →
      ∀ status, (course.action.cell.attempt, status) ∈ course.ended ↔
        status = course.action.cell.status) := by
  have sound := (fresh_sound state work).run run few
  refine ⟨sound.kept.increasing, fun turn next => cell_after_turn, ?_, sound.pursued, ?_, ?_⟩
  · intro turn next attempt turned acting superseded surroundings
    exact congrArg Cell.status (superseded_turn turned acting superseded)
  · intro running served
    exact sound.resolved few (sound.kept.opened_of_running running) served
  · intro idle isClear opened status
    constructor
    · intro member
      exact (sound.kept.final status member).symm
    · rintro rfl
      exact sound.settled opened isClear (sound.idle_quiet idle)

def drive : Course := fresh { name := "drive" } { completion := .external, step := .external }

/-- The drive is started anew while its first cycle is in progress. -/
def overtaken : List Turn :=
  [.setup, .tick ⟨0, {}⟩, .begin, .initialise, .advanceHeld (.complete true),
    .advanceHeld (.complete true), .begin]

theorem overtaken_drive :
    ∃ course, drive.run? overtaken = some course ∧ course.opened < UInt64.size ∧
      course.ended = [(1, .success)] ∧ course.begun = [1, 2] ∧ course.begun.Pairwise (· < ·) ∧
      course.action.cell.status = .running ∧
      (course.action.gate.isSet = true ∨
        ∃ cycle ∈ course.action.cycles, cycle.attempt = course.action.cell.attempt) := by
  obtain ⟨course, run, opened, ended, begun, running⟩ : ∃ course,
      drive.run? overtaken = some course ∧ course.opened = 2 ∧
        course.ended = [(1, .success)] ∧ course.begun = [1, 2] ∧
        course.action.cell.status = .running := ⟨_, rfl, rfl, rfl, rfl, rfl⟩
  have few : course.opened < UInt64.size := by
    rw [opened]
    decide
  have protocol := protocol_in_every_run run few
  exact ⟨course, run, few, ended, begun, protocol.1, running, protocol.2.2.2.1 running⟩

end Course

end BehaviorTree
