import BehaviorTree.Node.LifeCycle
import BehaviorTree.Node.Tick
import BehaviorTree.Proofs.Cycles

/-!
The course of an action and its worker. Ticks open attempts and read the cell, the worker begins
cycles and is answered, and it is started and stopped, in any order. What is known of the attempts
is kept by every turn: which of them had their cycle, how these cycles ended, and that the gate is
set exactly as long as the latest attempt waits for its own.
-/

namespace BehaviorTree

/-- An action with what happened to it so far: how many attempts were opened, for which of them
cycles were begun, and with what which of these ended. -/
structure Course where
  state : NodeState
  action : Action
  opened : Nat := 0
  begun : List UInt64 := []
  ended : List (UInt64 × Status) := []

inductive Turn where
  | tick (surroundings : Surroundings)
  | initialise
  | halt
  | begin
  | advanceHeld (answer : Answer)
  | advanceDetached (answer : Answer)
  | wait (milliseconds : Nat)
  | setup
  | shutdown

namespace Course

def node (course : Course) : Node := .leaf course.state (.action course.action)

def withNode? (course : Course) : Node → Option Course
  | .leaf state (.action action) => some { course with state, action }
  | _ => none

/-- What is known after a cycle was carried on. -/
def follow (course : Course) (advance : Action.Advance) : Course :=
  { course with
    action := advance.action
    ended := match advance.progress with
      | .waiting _ => course.ended
      | .ended status _ => course.ended ++ [(advance.attempt, status)] }

/-- One turn, if it can be taken. No worker is started anew while a detached cycle goes on. -/
def turn? (course : Course) : Turn → Option Course
  | .tick surroundings =>
      { course with
        opened := course.opened + if course.node.isRunning then 0 else 1 }.withNode?
          (course.node.tick surroundings).node
  | .initialise =>
      some { course with action := course.action.initialise, opened := course.opened + 1 }
  | .halt => course.withNode? course.node.halt.node
  | .begin =>
      (course.action.begin? course.state.name).map fun begun =>
        { course with begun := course.begun ++ [begun.attempt] }.follow begun
  | .advanceHeld answer =>
      (course.action.advanceHeld? course.state.name answer).map course.follow
  | .advanceDetached answer =>
      (course.action.advanceDetached? course.state.name answer).map course.follow
  | .wait milliseconds => some { course with action := course.action.after milliseconds }
  | .setup =>
      if course.action.detached.isEmpty then course.withNode? course.node.setup.node else none
  | .shutdown => course.withNode? course.node.shutdown.1

def run? (course : Course) (turns : List Turn) : Option Course := turns.foldlM turn? course

/-- The attempt in whose name a cycle acts in a turn. -/
def acting? (course : Course) : Turn → Option UInt64
  | .begin => (course.action.begin? course.state.name).map (·.attempt)
  | .advanceHeld answer =>
      (course.action.advanceHeld? course.state.name answer).map (·.attempt)
  | .advanceDetached answer =>
      (course.action.advanceDetached? course.state.name answer).map (·.attempt)
  | _ => none

/-- A node that was never ticked, with work that was never begun. -/
def fresh (state : NodeState) (work : Work) : Course := { state, action := { work } }

/-! What single turns do. -/

theorem tick_turn (course : Course) (surroundings : Surroundings) :
    ∃ state, course.turn? (.tick surroundings) =
      some (if course.node.isRunning then { course with state }
        else { course with
          state, action := course.action.initialise, opened := course.opened + 1 }) := by
  obtain ⟨⟨name, description, status, message⟩, action, opened, begun, ended⟩ := course
  cases status <;> exact ⟨_, rfl⟩

theorem setup_turn {course : Course} (free : course.action.detached = []) :
    course.turn? .setup = some { course with
      action := (course.action.setup course.state.name).toOption.getD course.action } := by
  rw [turn?, if_pos (List.isEmpty_iff.mpr free), node, Node.setup, Node.setupLeaf]
  cases course.action.setup course.state.name <;> rfl

/-! What holds of every course. -/

/-- What is known of the attempts while `pending` are the attempts of the cycles in progress. -/
structure Kept (course : Course) (pending : List UInt64) : Prop where
  counted : course.action.cell.attempt.toNat = course.opened
  untouched : course.opened = 0 → course.begun = [] ∧ course.action.cell.status = .invalid
  increasing : course.begun.Pairwise (· < ·)
  bounded : ∀ attempt ∈ course.begun, attempt ≤ course.action.cell.attempt
  /-- The gate is set exactly as long as the latest attempt waits for its cycle. -/
  signalled : course.action.gate.isSet = true ↔
    course.opened ≠ 0 ∧ course.action.cell.attempt ∉ course.begun
  accounted : course.begun = course.ended.map (·.1) ++ pending
  final : ∀ status, (course.action.cell.attempt, status) ∈ course.ended →
    course.action.cell.status = status
  terminal : ∀ attempt status, (attempt, status) ∈ course.ended → status.isTerminal = true

structure Sound (course : Course) : Prop where
  kept : course.Kept (course.action.cycles.map (·.attempt))
  /-- A live worker never shares its action with a detached cycle. -/
  alone : course.action.engagement ≠ .off → course.action.detached = []
  single : course.action.detached.length ≤ 1

theorem fresh_sound (state : NodeState) (work : Work) : (fresh state work).Sound where
  kept :=
    { counted := rfl
      untouched := fun _ => ⟨rfl, rfl⟩
      increasing := .nil
      bounded := by simp [fresh]
      signalled := by simp [fresh]
      accounted := rfl
      final := by simp [fresh]
      terminal := by simp [fresh] }
  alone := fun _ => rfl
  single := by simp [fresh]

/-- Turns that leave cell and gate as they are keep what is known of the attempts. -/
theorem Kept.frame {course : Course} {pending : List UInt64} (kept : course.Kept pending)
    (state : NodeState) {action : Action} (cell : action.cell = course.action.cell)
    (gate : action.gate = course.action.gate) :
    ({ course with state, action } : Course).Kept pending where
  counted := by rw [cell]; exact kept.counted
  untouched := by rw [cell]; exact kept.untouched
  increasing := kept.increasing
  bounded := by rw [cell]; exact kept.bounded
  signalled := by rw [cell, gate]; exact kept.signalled
  accounted := kept.accounted
  final := by rw [cell]; exact kept.final
  terminal := kept.terminal

/-- A new attempt is greater than every attempt that has a cycle. -/
theorem Kept.opening {course : Course} {pending : List UInt64} (kept : course.Kept pending)
    (few : course.opened + 1 < UInt64.size) (state : NodeState) :
    ({ course with
        state, action := course.action.initialise, opened := course.opened + 1 } : Course).Kept
      pending := by
  have counted : (course.action.cell.attempt + 1).toNat = course.opened + 1 := by
    rw [UInt64.toNat_add, kept.counted]
    exact Nat.mod_eq_of_lt few
  have ahead : ∀ attempt ∈ course.begun, attempt < course.action.cell.attempt + 1 := by
    intro attempt member
    have bounded := kept.bounded attempt member
    rw [UInt64.le_iff_toNat_le, kept.counted] at bounded
    rw [UInt64.lt_iff_toNat_lt, counted]
    omega
  have unheard : course.action.cell.attempt + 1 ∉ course.begun :=
    fun member => UInt64.lt_irrefl _ (ahead _ member)
  exact
    { counted
      untouched := fun none => absurd none (Nat.succ_ne_zero _)
      increasing := kept.increasing
      bounded := fun attempt member => UInt64.le_of_lt (ahead attempt member)
      signalled := iff_of_true rfl ⟨Nat.succ_ne_zero _, unheard⟩
      accounted := kept.accounted
      final := by
        intro status member
        apply absurd _ unheard
        rw [kept.accounted]
        exact List.mem_append_left _ (List.mem_map_of_mem member)
      terminal := kept.terminal }

/-- Consuming the gate gives the latest attempt its cycle. -/
theorem Kept.beginning {course : Course} (kept : course.Kept [])
    (isSet : course.action.gate.isSet = true) :
    ({ course with
        action.gate := course.action.gate.clear
        begun := course.begun ++ [course.action.cell.attempt] } : Course).Kept
      [course.action.cell.attempt] := by
  obtain ⟨opened, unheard⟩ := kept.signalled.mp isSet
  exact
    { counted := kept.counted
      untouched := fun none => absurd none opened
      increasing := by
        rw [List.pairwise_append]
        refine ⟨kept.increasing, List.pairwise_singleton _ _, ?_⟩
        intro attempt member last same
        rw [List.mem_singleton.mp same]
        apply UInt64.lt_of_le_of_ne (kept.bounded attempt member)
        intro equal
        exact unheard (equal ▸ member)
      bounded := by
        intro attempt member
        rcases List.mem_append.mp member with earlier | last
        · exact kept.bounded attempt earlier
        · exact UInt64.le_of_eq (List.mem_singleton.mp last)
      signalled := by simp [Gate.clear]
      accounted := by
        have accounted := kept.accounted
        rw [List.append_nil] at accounted
        exact congrArg (· ++ _) accounted
      final := kept.final
      terminal := kept.terminal }

/-- A cycle in progress has not ended yet. -/
theorem Kept.not_ended {course : Course} {attempt : UInt64} (kept : course.Kept [attempt])
    (status : Status) : (attempt, status) ∉ course.ended := by
  intro member
  have increasing := kept.increasing
  rw [kept.accounted, List.pairwise_append] at increasing
  have below := increasing.2.2 attempt (List.mem_map_of_mem member) attempt
    (List.mem_singleton_self attempt)
  exact UInt64.lt_irrefl _ below

/-- What another cycle ended with stays in the cell, as only the latest attempt writes there. -/
theorem Kept.still_shown {course : Course} {attempt : UInt64} (kept : course.Kept [attempt])
    {status : Status} (member : (course.action.cell.attempt, status) ∈ course.ended)
    (effects : List Effect) :
    (Action.written attempt course.action.cell effects).status = status := by
  have superseded : attempt ≠ course.action.cell.attempt := by
    intro same
    exact kept.not_ended status (same ▸ member)
  rw [Action.written_superseded superseded]
  exact kept.final status member

theorem mem_ended_follow {course : Course} {advance : Action.Advance} {attempt : UInt64}
    {status : Status} (member : (attempt, status) ∈ (course.follow advance).ended) :
    (attempt, status) ∈ course.ended ∨
      attempt = advance.attempt ∧ ∃ exit, advance.progress = .ended status exit := by
  unfold follow at member
  cases progress : advance.progress with
  | waiting next =>
      rw [progress] at member
      exact Or.inl member
  | ended last exit =>
      rw [progress] at member
      rcases List.mem_append.mp member with before | now
      · exact Or.inl before
      · obtain ⟨same, rfl⟩ := Prod.mk.inj (List.mem_singleton.mp now)
        exact Or.inr ⟨same, exit, rfl⟩

theorem accounted_follow {course : Course} {advance : Action.Advance} {effects : List Effect}
    (abiding : Cycle.Abiding advance.attempt (advance.progress, effects)) :
    (course.follow advance).ended.map (·.1) ++ advance.progress.cycles.map (·.attempt) =
      course.ended.map (·.1) ++ [advance.attempt] := by
  unfold follow
  cases progress : advance.progress with
  | waiting next =>
      rw [progress] at abiding
      have same : next.attempt = advance.attempt := abiding
      rw [Progress.cycles, List.map_singleton, same]
  | ended status exit =>
      rw [Progress.cycles, List.map_nil, List.append_nil, List.map_append]
      rfl

/-- Carrying a cycle on, whether it waits again or ends. -/
theorem Kept.follow {course : Course} {advance : Action.Advance} {effects : List Effect}
    (kept : course.Kept [advance.attempt])
    (abiding : Cycle.Abiding advance.attempt (advance.progress, effects))
    (cell : advance.action.cell =
      Action.written advance.attempt course.action.cell effects)
    (gate : advance.action.gate = course.action.gate) :
    (course.follow advance).Kept (advance.progress.cycles.map (·.attempt)) := by
  have attempt : advance.action.cell.attempt = course.action.cell.attempt := by
    rw [cell, Action.written_attempt]
  have opened : course.opened ≠ 0 := by
    intro none
    have accounted := kept.accounted
    rw [(kept.untouched none).1] at accounted
    simp at accounted
  refine
    { counted := (congrArg UInt64.toNat attempt).trans kept.counted
      untouched := fun none => absurd none opened
      increasing := kept.increasing
      bounded := ?_
      signalled := ?_
      accounted := kept.accounted.trans (accounted_follow abiding).symm
      final := ?_
      terminal := ?_ }
  · intro other member
    exact UInt64.le_trans (kept.bounded other member) (UInt64.le_of_eq attempt.symm)
  · have signalled := kept.signalled
    rw [← gate, ← attempt] at signalled
    exact signalled
  · intro status member
    change advance.action.cell.status = status
    rw [cell]
    rcases mem_ended_follow member with before | ⟨current, exit, last⟩
    · exact kept.still_shown (attempt ▸ before) effects
    · have latest : course.action.cell.attempt = advance.attempt := attempt.symm.trans current
      rw [last, ← latest] at abiding
      rw [← latest]
      exact Action.written_end abiding
  · intro other status member
    rcases mem_ended_follow member with before | ⟨_, exit, last⟩
    · exact kept.terminal other status before
    · rw [last] at abiding
      exact abiding.1

theorem Kept.held {course : Course} {attempt : UInt64} (kept : course.Kept [attempt])
    (free : course.action.detached = []) {result : Progress × List Effect}
    (abiding : Cycle.Abiding attempt result) :
    (course.follow (Action.advance course.state.name course.action attempt result).held).Sound := by
  have alone := (Action.advance_detached course.state.name course.action attempt result).trans free
  have followed := @Kept.follow course
    (Action.advance course.state.name course.action attempt result).held result.2 kept abiding
    (Action.advance_cell course.state.name course.action attempt result)
    (Action.advance_gate course.state.name course.action attempt result)
  have held := Action.held_cycles alone
  exact ⟨held ▸ followed, fun _ => alone, alone ▸ Nat.zero_le 1⟩

theorem Kept.detached {course : Course} {attempt : UInt64} (kept : course.Kept [attempt])
    (off : course.action.engagement = .off) {result : Progress × List Effect}
    (abiding : Cycle.Abiding attempt result) :
    (course.follow
      ((Action.advance course.state.name course.action attempt result).detached [])).Sound := by
  have still := (Action.advance_engagement course.state.name course.action attempt result).trans off
  have followed := @Kept.follow course
    ((Action.advance course.state.name course.action attempt result).detached []) result.2 kept
    abiding (Action.advance_cell course.state.name course.action attempt result)
    (Action.advance_gate course.state.name course.action attempt result)
  have detached := Action.detached_cycles still
  refine ⟨detached ▸ followed, fun live => absurd still live, ?_⟩
  rw [Course.follow, Action.Advance.detached]
  dsimp only
  split <;> simp

theorem Sound.begin {course : Course} (sound : course.Sound) {begun : Action.Advance}
    (found : course.action.begin? course.state.name = some begun) :
    ({ course with begun := course.begun ++ [begun.attempt] }.follow begun).Sound := by
  obtain ⟨idle, isSet, rfl⟩ := Action.begin_eq_some found
  have free : course.action.detached = [] := sound.alone (by simp [idle])
  have kept := sound.kept
  rw [Action.cycles, idle, free] at kept
  have abiding := Cycle.begin_abiding course.action.work course.action.cell.attempt
  exact (Kept.beginning kept isSet).held free abiding

theorem Sound.advance_held {course : Course} (sound : course.Sound) {answer : Answer}
    {held : Action.Advance}
    (found : course.action.advanceHeld? course.state.name answer = some held) :
    (course.follow held).Sound := by
  obtain ⟨cycle, busy, rfl⟩ := Action.advance_held_eq_some found
  have free : course.action.detached = [] := sound.alone (by simp [busy])
  have kept := sound.kept
  rw [Action.cycles, busy, free] at kept
  have abiding := Cycle.resume_abiding cycle course.action.work answer
  exact Kept.held kept free abiding

theorem Sound.advance_detached {course : Course} (sound : course.Sound) {answer : Answer}
    {detached : Action.Advance}
    (found : course.action.advanceDetached? course.state.name answer = some detached) :
    (course.follow detached).Sound := by
  obtain ⟨cycle, others, known, rfl⟩ := Action.advance_detached_eq_some found
  have off : course.action.engagement = .off := by
    apply Decidable.byContradiction
    intro live
    have free := sound.alone live
    rw [known] at free
    cases free
  have last : others = [] := by
    have single := sound.single
    rw [known, List.length_cons] at single
    exact List.length_eq_zero_iff.mp (by omega)
  subst last
  have kept := sound.kept
  rw [Action.cycles, off, known] at kept
  have abiding := Cycle.resume_abiding cycle course.action.work answer
  exact Kept.detached kept off abiding

theorem Sound.setup {course next : Course} (sound : course.Sound)
    (turned : course.turn? .setup = some next) : next.Sound := by
  have free : course.action.detached = [] := by
    apply Decidable.byContradiction
    intro busy
    rw [turn?, if_neg (mt List.isEmpty_iff.mp busy)] at turned
    cases turned
  rw [setup_turn free] at turned
  cases turned
  obtain ⟨engagement, isSetUp, started, begun⟩ :=
    course.action.setup_getD course.state.name
  rw [started]
  refine ⟨?_, fun _ => free, sound.single⟩
  have kept := sound.kept.frame course.state
    (show ({ course.action with engagement, isSetUp } : Action).cell = _ from rfl) rfl
  rcases begun with rfl | ⟨off, rfl⟩
  · exact kept
  · rw [Action.cycles, off] at kept
    exact kept

theorem Sound.shutdown {course : Course} (sound : course.Sound) :
    ({ course with action := course.action.shutdown course.state.name } : Course).Sound := by
  obtain ⟨isSetUp, stays | ⟨stopped, idle⟩ | ⟨cycle, busy, stopped⟩⟩ :=
    course.action.shutdown_cases course.state.name
  · rw [stays]
    exact ⟨sound.kept.frame course.state rfl rfl, sound.alone, sound.single⟩
  · rw [stopped]
    refine ⟨?_, fun live => absurd rfl live, sound.single⟩
    have kept := sound.kept.frame course.state
      (show ({ course.action with engagement := .off, isSetUp } : Action).cell = _ from rfl) rfl
    rw [Action.cycles, idle] at kept
    exact kept
  · have free : course.action.detached = [] := sound.alone (by simp [busy])
    rw [stopped, free]
    refine ⟨?_, fun live => absurd rfl live, Nat.le_refl 1⟩
    have kept := sound.kept.frame course.state
      (show ({ course.action with
        engagement := .off, detached := [cycle.toldToStop], isSetUp } : Action).cell = _
        from rfl) rfl
    rw [Action.cycles, busy, free] at kept
    exact kept

theorem Sound.wait {course : Course} (sound : course.Sound) (milliseconds : Nat) :
    ({ course with action := course.action.after milliseconds } : Course).Sound := by
  refine ⟨?_, ?_, ?_⟩
  · rw [Action.after_cycles, List.map_map]
    exact sound.kept.frame course.state rfl rfl
  · intro live
    have free : course.action.detached = [] := by
      apply sound.alone
      intro off
      simp [Action.after, off] at live
    simp [Action.after, free]
  · rw [Action.after, List.length_map]
    exact sound.single

theorem Sound.turn {course next : Course} {turn : Turn} (sound : course.Sound)
    (turned : course.turn? turn = some next) (few : next.opened < UInt64.size) : next.Sound := by
  cases turn with
  | tick surroundings =>
      obtain ⟨state, known⟩ := course.tick_turn surroundings
      rw [known] at turned
      split at turned
      · cases turned
        exact ⟨sound.kept.frame state rfl rfl, sound.alone, sound.single⟩
      · cases turned
        exact ⟨sound.kept.opening few state, sound.alone, sound.single⟩
  | initialise =>
      cases turned
      exact ⟨sound.kept.opening few course.state, sound.alone, sound.single⟩
  | halt =>
      cases turned
      exact ⟨sound.kept.frame _ rfl rfl, sound.alone, sound.single⟩
  | begin =>
      obtain ⟨begun, found, rfl⟩ := Option.map_eq_some_iff.mp turned
      exact sound.begin found
  | advanceHeld answer =>
      obtain ⟨held, found, rfl⟩ := Option.map_eq_some_iff.mp turned
      exact sound.advance_held found
  | advanceDetached answer =>
      obtain ⟨detached, found, rfl⟩ := Option.map_eq_some_iff.mp turned
      exact sound.advance_detached found
  | wait milliseconds =>
      cases turned
      exact sound.wait milliseconds
  | setup => exact sound.setup turned
  | shutdown =>
      cases turned
      exact sound.shutdown

/-- A turn in which a cycle acts writes to the cell in the name of its attempt only. -/
theorem acting_turn {course next : Course} {turn : Turn} {attempt : UInt64}
    (acting : course.acting? turn = some attempt) (turned : course.turn? turn = some next) :
    next.opened = course.opened ∧
      ∃ effects, next.action.cell = Action.written attempt course.action.cell effects := by
  cases turn with
  | tick | initialise | halt | wait | setup | shutdown => cases acting
  | begin =>
      obtain ⟨begun, found, rfl⟩ := Option.map_eq_some_iff.mp turned
      rw [acting?, found] at acting
      cases acting
      obtain ⟨_, _, rfl⟩ := Action.begin_eq_some found
      exact ⟨rfl, _, Action.advance_cell _ _ _ _⟩
  | advanceHeld answer =>
      obtain ⟨held, found, rfl⟩ := Option.map_eq_some_iff.mp turned
      rw [acting?, found] at acting
      cases acting
      obtain ⟨cycle, _, rfl⟩ := Action.advance_held_eq_some found
      exact ⟨rfl, _, Action.advance_cell _ _ _ _⟩
  | advanceDetached answer =>
      obtain ⟨detached, found, rfl⟩ := Option.map_eq_some_iff.mp turned
      rw [acting?, found] at acting
      cases acting
      obtain ⟨cycle, others, _, rfl⟩ := Action.advance_detached_eq_some found
      exact ⟨rfl, _, Action.advance_cell _ _ _ _⟩

/-- Any other turn opens an attempt or leaves the cell alone. -/
theorem resting_turn {course next : Course} {turn : Turn}
    (resting : course.acting? turn = none) (turned : course.turn? turn = some next) :
    (next.opened = course.opened ∧ next.action.cell = course.action.cell) ∨
      (next.opened = course.opened + 1 ∧
        next.action.cell = course.action.cell.beginAttempt) := by
  cases turn with
  | tick surroundings =>
      obtain ⟨state, known⟩ := course.tick_turn surroundings
      rw [known] at turned
      split at turned
      · cases turned
        exact Or.inl ⟨rfl, rfl⟩
      · cases turned
        exact Or.inr ⟨rfl, rfl⟩
  | initialise =>
      cases turned
      exact Or.inr ⟨rfl, rfl⟩
  | halt | wait =>
      cases turned
      exact Or.inl ⟨rfl, rfl⟩
  | begin | advanceHeld | advanceDetached =>
      rw [acting?, Option.map_eq_none_iff] at resting
      rw [turn?, resting] at turned
      cases turned
  | setup =>
      by_cases free : course.action.detached = []
      · rw [setup_turn free] at turned
        cases turned
        obtain ⟨_, _, started, _⟩ := course.action.setup_getD course.state.name
        rw [started]
        exact Or.inl ⟨rfl, rfl⟩
      · rw [turn?, if_neg (mt List.isEmpty_iff.mp free)] at turned
        cases turned
  | shutdown =>
      cases turned
      left
      obtain ⟨_, stays | ⟨stopped, _⟩ | ⟨_, _, stopped⟩⟩ :=
        course.action.shutdown_cases course.state.name
      · rw [stays]
        exact ⟨rfl, rfl⟩
      · rw [stopped]
        exact ⟨rfl, rfl⟩
      · rw [stopped]
        exact ⟨rfl, rfl⟩

theorem opened_after_turn {course next : Course} {turn : Turn}
    (turned : course.turn? turn = some next) : course.opened ≤ next.opened := by
  cases acting : course.acting? turn with
  | some attempt => exact Nat.le_of_eq (acting_turn acting turned).1.symm
  | none =>
      rcases resting_turn acting turned with ⟨same, _⟩ | ⟨more, _⟩
      · exact Nat.le_of_eq same.symm
      · omega

theorem run_cons {course final : Course} {turn : Turn} {turns : List Turn} :
    course.run? (turn :: turns) = some final ↔
      ∃ next, course.turn? turn = some next ∧ next.run? turns = some final := by
  rw [run?, List.foldlM_cons, Option.bind_eq_bind, Option.bind_eq_some_iff]
  rfl

theorem opened_after_run {course final : Course} {turns : List Turn}
    (run : course.run? turns = some final) : course.opened ≤ final.opened := by
  induction turns generalizing course with
  | nil =>
      cases run
      exact Nat.le_refl _
  | cons turn turns induction =>
      obtain ⟨next, turned, later⟩ := run_cons.mp run
      exact Nat.le_trans (opened_after_turn turned) (induction later)

theorem Sound.run {course final : Course} {turns : List Turn} (sound : course.Sound)
    (run : course.run? turns = some final) (few : final.opened < UInt64.size) : final.Sound := by
  induction turns generalizing course with
  | nil =>
      cases run
      exact sound
  | cons turn turns induction =>
      obtain ⟨next, turned, later⟩ := run_cons.mp run
      have bound := opened_after_run later
      exact induction (sound.turn turned (by omega)) later

end Course

end BehaviorTree
