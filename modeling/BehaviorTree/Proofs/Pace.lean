import BehaviorTree.Proofs.Waiting

/-!
The pace that a driver keeps over a run. Every tick has one cause, the paused flag is the last word
on it, no command is skipped or met twice, and a run ends with a stop, with the sender or with the
count.
-/

namespace BehaviorTree

/-- What may happen to a driver. -/
inductive Stimulus where
  | send (command : Command)
  | hangUp
  | wait (expires : Bool)
  deriving DecidableEq, Repr

def Stimulus.isWait : Stimulus → Bool
  | .wait _ => true
  | .send _ | .hangUp => false

/-- A driver on its way, with the commands sent to it and the waits it was asked for. -/
structure Pacing where
  driver : Driver
  sent : List Command := []
  waits : List Wait := []

namespace Pacing

open Reaction Driver

def reactions (pacing : Pacing) : List Reaction := pacing.waits.flatMap Wait.reactions

def consumed (pacing : Pacing) : List Command := commands pacing.reactions

def isOver (pacing : Pacing) : Bool := pacing.waits.any (·.verdict = .over)

def question (pacing : Pacing) (expires : Bool) : Wait := ⟨pacing.driver, expires⟩

@[simp] theorem question_driver (pacing : Pacing) (expires : Bool) :
    (pacing.question expires).driver = pacing.driver := rfl

/-- Asks for the next tick, and records it if it is due. -/
def ask (pacing : Pacing) (expires : Bool) : Pacing :=
  let wait := pacing.question expires
  { pacing with
    driver := if wait.verdict = .due then wait.next.recordTick else wait.next
    waits := pacing.waits ++ [wait] }

/-- Nothing is sent after the sender has hung up, and nothing is asked of a driver that is over. A
wait that is blocked goes on with the next question. -/
def meet (pacing : Pacing) : Stimulus → Pacing
  | .send command =>
      if pacing.driver.isOpen then
        { pacing with driver := pacing.driver.send command, sent := pacing.sent ++ [command] }
      else pacing
  | .hangUp => { pacing with driver := pacing.driver.hangUp }
  | .wait expires => if pacing.isOver then pacing else pacing.ask expires

def after (driver : Driver) (stimuli : List Stimulus) : Pacing := stimuli.foldl meet { driver }

/-- Why a driver is over: stopped by the last command it met, left alone with none to meet, or done
with its count. -/
def Finished (pacing : Pacing) : Prop :=
  (∃ front, pacing.consumed = front ++ [.stop] ∧ .stop ∉ front) ∨
    .stop ∉ pacing.consumed ∧
      (pacing.driver.isOpen = false ∧ pacing.driver.queue = [] ∨ pacing.driver.isExhausted = true)

/-- What every stimulus keeps. -/
structure Kept (policy : Policy) (pacing : Pacing) : Prop where
  follows : pacing.driver.policy = policy
  reached : ∃ channel, pacing.driver.channel = some channel
  asked : ∀ wait ∈ pacing.waits,
    wait.driver.policy = policy ∧ ∃ channel, wait.driver.channel = some channel
  in_order : pacing.consumed ++ pacing.driver.queue = pacing.sent
  thread : Thread false pacing.reactions pacing.driver.paused
  ticked : pacing.driver.ticks = pacing.waits.countP (·.verdict = .due)
  counted : ∀ count period, policy = .count count period → pacing.driver.ticks ≤ count
  going : pacing.isOver = false → .stop ∉ pacing.consumed
  finished : pacing.isOver = true → pacing.Finished

theorem kept_at_first (policy : Policy) : Kept policy { driver := { policy } } where
  follows := rfl
  reached := ⟨{}, rfl⟩
  asked := by simp
  in_order := rfl
  thread := rfl
  ticked := rfl
  counted := by simp
  going := by simp [consumed, commands, reactions]
  finished := by simp [isOver]

theorem Kept.send {policy : Policy} {pacing : Pacing} (kept : Kept policy pacing)
    (command : Command) : Kept policy (pacing.meet (.send command)) := by
  obtain ⟨channel, reached⟩ := kept.reached
  simp only [meet]
  split
  next opened =>
    exact
      { follows := kept.follows
        reached := ⟨{ channel with queue := channel.queue ++ [command] }, by
          simp [Driver.send, reached]⟩
        asked := kept.asked
        in_order := by
          have before := kept.in_order
          simp only [queue, reached] at before
          simp [← before, Driver.send, queue, reached, consumed, reactions]
        thread := kept.thread
        ticked := kept.ticked
        counted := kept.counted
        going := kept.going
        finished := by
          intro final
          rcases kept.finished final with stopped | ⟨unstopped, ⟨closed, -⟩ | exhausted⟩
          · exact .inl stopped
          · rw [opened] at closed
            contradiction
          · exact .inr ⟨unstopped, .inr exhausted⟩ }
  next => exact kept

theorem Kept.hangUp {policy : Policy} {pacing : Pacing} (kept : Kept policy pacing) :
    Kept policy (pacing.meet .hangUp) := by
  obtain ⟨channel, reached⟩ := kept.reached
  have queued : pacing.driver.hangUp.queue = pacing.driver.queue := by
    simp [Driver.hangUp, queue, reached]
  exact
    { follows := kept.follows
      reached := ⟨{ channel with hungUp := true }, by simp [meet, Driver.hangUp, reached]⟩
      asked := kept.asked
      in_order := queued.symm ▸ kept.in_order
      thread := kept.thread
      ticked := kept.ticked
      counted := kept.counted
      going := kept.going
      finished := by
        intro final
        rcases kept.finished final with stopped | ⟨unstopped, ⟨-, drained⟩ | exhausted⟩
        · exact .inl stopped
        · refine .inr ⟨unstopped, .inl ⟨?_, queued.trans drained⟩⟩
          simp [meet, Driver.hangUp, isOpen, reached]
        · exact .inr ⟨unstopped, .inr exhausted⟩ }

theorem ask_reactions (pacing : Pacing) (expires : Bool) :
    (pacing.ask expires).reactions = pacing.reactions ++ (pacing.question expires).reactions := by
  simp [ask, reactions]

theorem ask_consumed (pacing : Pacing) (expires : Bool) :
    (pacing.ask expires).consumed =
      pacing.consumed ++ commands (pacing.question expires).reactions := by
  simp [consumed, ask_reactions]

theorem ask_isOver {pacing : Pacing} (going : pacing.isOver = false) (expires : Bool) :
    (pacing.ask expires).isOver = decide ((pacing.question expires).verdict = .over) := by
  simp only [isOver] at going
  simp [ask, isOver, going]

/-- Recording a tick changes nothing but the count. -/
theorem ask_driver (pacing : Pacing) (expires : Bool) :
    (pacing.ask expires).driver =
      { (pacing.question expires).next with
        ticks := (pacing.question expires).next.ticks +
          if (pacing.question expires).verdict = .due then 1 else 0 } := by
  simp only [ask]
  split <;> simp [recordTick]

theorem ask_queue (pacing : Pacing) (expires : Bool) :
    (pacing.ask expires).driver.queue = (pacing.question expires).next.queue := by
  rw [ask_driver]
  rfl

/-- A tick is only recorded while there are some left. -/
theorem Kept.ask_counted {policy : Policy} {pacing : Pacing} (kept : Kept policy pacing)
    (expires : Bool) {count period : Nat} (counts : policy = .count count period) :
    (pacing.ask expires).driver.ticks ≤ count := by
  obtain ⟨channel, reached⟩ := kept.reached
  have sameTicks := ((pacing.question expires).next_frame reached).2.1
  rw [ask_driver, sameTicks, question_driver]
  by_cases due : (pacing.question expires).verdict = .due
  · have left := (pacing.question expires).left_of_ne_over reached (by simp [due])
    have remaining : ¬pacing.driver.isExhausted = true := Bool.not_eq_true _ ▸ left
    rw [isExhausted_iff] at remaining
    rw [if_pos due, Nat.succ_le_iff, ← Nat.not_le]
    intro beyond
    exact remaining ⟨count, period, kept.follows.trans counts, beyond⟩
  · rw [if_neg due]
    exact kept.counted count period counts

theorem Kept.ask_finished {policy : Policy} {pacing : Pacing} (kept : Kept policy pacing)
    (going : pacing.isOver = false) (expires : Bool)
    (final : (pacing.question expires).verdict = .over) : (pacing.ask expires).Finished := by
  obtain ⟨channel, reached⟩ := kept.reached
  obtain ⟨samePolicy, sameTicks, onward⟩ := (pacing.question expires).next_frame reached
  have unmet := kept.going going
  unfold Finished
  rw [ask_consumed, ask_queue]
  rcases (pacing.question expires).finished reached final with ⟨front, met, first⟩ | ⟨unseen, why⟩
  · refine .inl ⟨pacing.consumed ++ front, by rw [met, List.append_assoc], ?_⟩
    rw [List.mem_append, not_or]
    exact ⟨unmet, first⟩
  · refine .inr ⟨by rw [List.mem_append, not_or]; exact ⟨unmet, unseen⟩, ?_⟩
    rcases why with ⟨gone, drained⟩ | done
    · refine .inl ⟨?_, drained⟩
      rw [ask_driver]
      simp [isOpen, onward, gone]
    · obtain ⟨count, period, counts, beyond⟩ := (isExhausted_iff _).mp done
      refine .inr ((isExhausted_iff _).mpr ⟨count, period, ?_, ?_⟩)
      · rw [ask_driver, samePolicy, counts]
      · rw [ask_driver, sameTicks]
        exact Nat.le_add_right_of_le beyond

theorem Kept.ask {policy : Policy} {pacing : Pacing} (kept : Kept policy pacing)
    (going : pacing.isOver = false) (expires : Bool) : Kept policy (pacing.ask expires) := by
  obtain ⟨channel, reached⟩ := kept.reached
  obtain ⟨samePolicy, sameTicks, onward⟩ := (pacing.question expires).next_frame reached
  exact
    { follows := by rw [ask_driver, samePolicy]; exact kept.follows
      reached := ⟨_, by rw [ask_driver, onward]⟩
      asked := by
        intro wait inside
        rcases List.mem_append.mp inside with early | late
        · exact kept.asked wait early
        · rw [List.mem_singleton.mp late]
          exact ⟨kept.follows, channel, reached⟩
      in_order := by
        have taken := (pacing.question expires).takes reached
        have before := kept.in_order
        simp only [queue, reached] at before
        rw [ask_consumed, ask_queue, List.append_assoc, taken, before]
        rfl
      thread := by
        rw [ask_reactions, ask_driver]
        exact kept.thread.append ((pacing.question expires).thread reached)
      ticked := by
        rw [ask_driver, sameTicks, question_driver, kept.ticked]
        simp only [Pacing.ask, List.countP_append, List.countP_singleton, decide_eq_true_eq]
      counted := fun _ _ counts => kept.ask_counted expires counts
      going := by
        intro goesOn
        rw [ask_isOver going, decide_eq_false_iff_not] at goesOn
        rw [ask_consumed, List.mem_append, not_or]
        exact ⟨kept.going going, (pacing.question expires).unstopped reached goesOn⟩
      finished := by
        intro final
        rw [ask_isOver going, decide_eq_true_iff] at final
        exact kept.ask_finished going expires final }

theorem Kept.meet {policy : Policy} {pacing : Pacing} (kept : Kept policy pacing)
    (stimulus : Stimulus) : Kept policy (pacing.meet stimulus) := by
  cases stimulus with
  | send command => exact kept.send command
  | hangUp => exact kept.hangUp
  | wait expires =>
      simp only [Pacing.meet]
      split
      next => exact kept
      next going => exact kept.ask (Bool.eq_false_iff.mpr going) expires

theorem Kept.meets {policy : Policy} {pacing : Pacing} (kept : Kept policy pacing)
    (stimuli : List Stimulus) : Kept policy (stimuli.foldl Pacing.meet pacing) := by
  induction stimuli generalizing pacing with
  | nil => exact kept
  | cons stimulus rest ih => exact ih (kept.meet stimulus)

/-- There is one releasing reaction to every tick that is due. -/
theorem countP_releases_eq {policy : Policy} {waits : List Wait}
    (accounted : ∀ wait ∈ waits, wait.Accounted policy) :
    (waits.flatMap Wait.reactions).countP (Reaction.releases policy) =
      waits.countP (·.verdict = .due) := by
  induction waits with
  | nil => rfl
  | cons wait rest ih =>
      obtain ⟨first, others⟩ := List.forall_mem_cons.mp accounted
      have one : wait.reactions.countP (Reaction.releases policy) =
          if wait.verdict = .due then 1 else 0 := by
        split
        next due =>
          obtain ⟨idle, last, met, releases, idles⟩ := first.released due
          have none : idle.countP (Reaction.releases policy) = 0 := by
            simpa [List.countP_eq_zero] using idles
          simp [met, none, releases]
        next withheld => simpa [List.countP_eq_zero] using first.withheld withheld
      rw [List.flatMap_cons, List.countP_append, one, ih others, List.countP_cons, Nat.add_comm]
      simp

/-- The pace of a driver with what was sent to it so far. -/
structure Paced (policy : Policy) (pacing : Pacing) : Prop where
  in_order : pacing.consumed ++ pacing.driver.queue = pacing.sent
  stopped : .stop ∈ pacing.consumed →
    pacing.isOver = true ∧ pacing.consumed = pacing.sent.takeWhile (· ≠ .stop) ++ [.stop]
  ending : pacing.isOver = true →
    .stop ∈ pacing.consumed ∨ pacing.driver.isOpen = false ∧ pacing.consumed = pacing.sent ∨
      ∃ count period, policy = .count count period ∧ count ≤ pacing.driver.ticks
  accounted : ∀ wait ∈ pacing.waits, wait.Accounted policy
  released : pacing.driver.ticks = pacing.waits.countP (·.verdict = .due)
  flags : ∀ front reaction rest, pacing.reactions = front ++ reaction :: rest →
    reaction.before = pausedBy (commands front) ∧
      reaction.after = pausedBy (commands (front ++ [reaction]))
  paused : pacing.driver.paused = pausedBy pacing.consumed
  step_keeps : ∀ reaction ∈ pacing.reactions, reaction.isStep = true →
    reaction.after = reaction.before
  interactive : policy = .interactive → pacing.driver.ticks = pacing.consumed.count .step
  timed : policy ≠ .interactive →
    pacing.driver.ticks =
      pacing.consumed.count .step + pacing.reactions.countP Reaction.isResumption +
        pacing.reactions.countP Reaction.isTimely
  counted : ∀ count period, policy = .count count period →
    pacing.driver.ticks ≤ count ∧
      (pacing.driver.ticks = count →
        ∀ expires, pacing.driver.waitNext expires = (.over, pacing.driver))

theorem Kept.paced {policy : Policy} {pacing : Pacing} (kept : Kept policy pacing) :
    Paced policy pacing := by
  have accounted : ∀ wait ∈ pacing.waits, wait.Accounted policy := by
    intro wait inside
    obtain ⟨follows, channel, reached⟩ := kept.asked wait inside
    exact follows ▸ wait.accounted reached
  have released : pacing.reactions.countP (Reaction.releases policy) = pacing.driver.ticks :=
    (countP_releases_eq accounted).trans kept.ticked.symm
  exact
    { in_order := kept.in_order
      stopped := by
        intro met
        have final : pacing.isOver = true := by
          rw [← Bool.not_eq_false]
          intro going
          exact kept.going going met
        rcases kept.finished final with ⟨front, ends, first⟩ | ⟨unmet, -⟩
        · have before : ∀ command ∈ front, decide (command ≠ Command.stop) = true := by
            intro command inside
            exact decide_eq_true fun same => first (same ▸ inside)
          refine ⟨final, ?_⟩
          rw [← kept.in_order, ends, List.append_assoc, List.takeWhile_append_of_pos before]
          simp
        · exact absurd met unmet
      ending := by
        intro final
        rcases kept.finished final with ⟨front, ends, -⟩ | ⟨-, ⟨closed, drained⟩ | exhausted⟩
        · exact .inl (by simp [ends])
        · refine .inr (.inl ⟨closed, ?_⟩)
          rw [← kept.in_order, drained, List.append_nil]
        · rw [isExhausted_iff, kept.follows] at exhausted
          exact .inr (.inr exhausted)
      accounted := accounted
      released := kept.ticked
      flags := by
        intro front reaction rest split
        have thread := kept.thread
        rw [split] at thread
        exact thread.flags []
      paused := kept.thread.paused []
      step_keeps := by
        intro reaction inside steps
        obtain ⟨paused, rfl | ⟨command, rfl⟩⟩ := kept.thread.mem inside
        · rfl
        · obtain rfl : command = .step := by simpa [isStep] using steps
          rfl
      interactive := by
        intro interactive
        rw [← released, interactive, releases_interactive, countP_isStep]
        rfl
      timed := by
        intro timed
        rw [← released, countP_releases timed, countP_isStep]
        rfl
      counted := by
        intro count period counts
        refine ⟨kept.counted count period counts, fun reached expires => ?_⟩
        have exhausted : pacing.driver.isExhausted = true := by
          rw [isExhausted_iff]
          exact ⟨count, period, kept.follows.trans counts, Nat.le_of_eq reached.symm⟩
        simp [waitNext, exhausted] }

theorem isOver_meets {pacing : Pacing} (final : pacing.isOver = true) (expiries : List Bool) :
    ((expiries.map Stimulus.wait).foldl meet pacing).isOver = true := by
  induction expiries generalizing pacing with
  | nil => exact final
  | cons expires rest ih => exact ih (by simp [meet, final])

/-- A driver without a sender runs out of commands. -/
theorem Kept.ends {policy : Policy} {pacing : Pacing} (kept : Kept policy pacing)
    (closed : pacing.driver.isOpen = false) (expiries : List Bool)
    (enough : pacing.driver.queue.length < expiries.length) :
    ((expiries.map Stimulus.wait).foldl Pacing.meet pacing).isOver = true := by
  induction expiries generalizing pacing with
  | nil => simp at enough
  | cons expires rest ih =>
      obtain ⟨channel, reached⟩ := kept.reached
      cases final : pacing.isOver with
      | true => exact isOver_meets final _
      | false =>
          have asks : pacing.meet (.wait expires) = pacing.ask expires := by
            simp [Pacing.meet, final]
          rw [List.map_cons, List.foldl_cons, asks]
          by_cases last : (pacing.question expires).verdict = .over
          · exact isOver_meets (by simp [ask_isOver final, last]) rest
          · have gone : channel.hungUp = true := by simpa [isOpen, reached] using closed
            have fewer := (pacing.question expires).takes_when_alone reached gone last
            have onward := ((pacing.question expires).next_frame reached).2.2
            apply ih (kept.ask final expires)
            · rw [ask_driver]
              simp [isOpen, onward, gone]
            · rw [ask_queue]
              simp only [queue, reached, List.length_cons] at enough
              omega

/-- A driver that nobody commands, with what it was asked so far. -/
structure Alone (count period asked : Nat) (pacing : Pacing) : Prop where
  driver : pacing.driver =
    { uncontrolled (.count count period) with ticks := min asked count }
  isOver : pacing.isOver = decide (count < asked)

/-- A driver that nobody commands is answered at once. -/
theorem Alone.question {count period asked : Nat} {pacing : Pacing}
    (alone : Alone count period asked pacing) (expires : Bool) :
    (pacing.question expires).verdict = (if asked < count then .due else .over) ∧
      (pacing.question expires).next = pacing.driver := by
  by_cases left : asked < count
  · have few : ¬count ≤ min asked count := by omega
    simp [Wait.verdict, Wait.next, Pacing.question, alone.driver, uncontrolled, waitNext,
      isExhausted, waitAlone, left, few]
  · have enough : count ≤ min asked count := by omega
    simp [Wait.verdict, Wait.next, Pacing.question, alone.driver, uncontrolled, waitNext,
      isExhausted, enough, left]

theorem Alone.meet {count period asked : Nat} {pacing : Pacing}
    (alone : Alone count period asked pacing) (stimulus : Stimulus) :
    Alone count period (asked + if stimulus.isWait then 1 else 0) (pacing.meet stimulus) := by
  cases stimulus with
  | send command =>
      have closed : pacing.driver.isOpen = false := by rw [alone.driver]; rfl
      simpa [Pacing.meet, closed, Stimulus.isWait] using alone
  | hangUp =>
      have same : pacing.driver.hangUp = pacing.driver := by rw [alone.driver]; rfl
      simpa [Pacing.meet, same, Stimulus.isWait] using alone
  | wait expires =>
      obtain ⟨answer, same⟩ := alone.question expires
      simp only [Stimulus.isWait, if_true]
      by_cases final : count < asked
      · have stays : pacing.meet (.wait expires) = pacing := by
          simp [Pacing.meet, alone.isOver, final]
        rw [stays]
        refine ⟨?_, ?_⟩
        · rw [alone.driver, Nat.min_eq_right (by omega), Nat.min_eq_right (by omega)]
        · rw [alone.isOver, decide_eq_true final, decide_eq_true (by omega)]
      · have going : pacing.isOver = false := by rw [alone.isOver, decide_eq_false final]
        have asks : pacing.meet (.wait expires) = pacing.ask expires := by
          simp [Pacing.meet, going]
        rw [asks]
        refine ⟨?_, ?_⟩
        · rw [ask_driver, same, answer, alone.driver]
          by_cases left : asked < count
          · rw [if_pos left, if_pos rfl, Nat.min_eq_left (by omega), Nat.min_eq_left (by omega)]
          · rw [if_neg left, Nat.min_eq_right (by omega), Nat.min_eq_right (by omega)]
            rfl
        · rw [ask_isOver going, answer]
          by_cases left : asked < count
          · rw [if_pos left, decide_eq_false (by simp), decide_eq_false (by omega)]
          · rw [if_neg left, decide_eq_true rfl, decide_eq_true (by omega)]

theorem Alone.meets {count period asked : Nat} {pacing : Pacing}
    (alone : Alone count period asked pacing) (stimuli : List Stimulus) :
    Alone count period (asked + stimuli.countP Stimulus.isWait)
      (stimuli.foldl Pacing.meet pacing) := by
  induction stimuli generalizing asked pacing with
  | nil => exact alone
  | cons stimulus rest ih =>
      have onward := ih (alone.meet stimulus)
      rw [List.countP_cons, Nat.add_comm (rest.countP _), ← Nat.add_assoc]
      exact onward

/-- Every run of a driver keeps its pace, hanging up ends it, and a driver that nobody commands
ticks as often as it counts. -/
theorem every_run_is_paced (policy : Policy) (stimuli : List Stimulus) :
    Paced policy (after { policy } stimuli) ∧
      (∀ expiries : List Bool, (after { policy } stimuli).sent.length < expiries.length →
        (after { policy } (stimuli ++ .hangUp :: expiries.map .wait)).isOver = true) ∧
      ∀ count period,
        (after (uncontrolled (.count count period)) stimuli).driver.ticks =
            min (stimuli.countP Stimulus.isWait) count ∧
          (after (uncontrolled (.count count period)) stimuli).isOver =
            decide (count < stimuli.countP Stimulus.isWait) := by
  have kept : Kept policy (after { policy } stimuli) := (kept_at_first policy).meets stimuli
  refine ⟨kept.paced, ?_, ?_⟩
  · intro expiries enough
    rw [after, List.foldl_append, List.foldl_cons]
    obtain ⟨channel, reached⟩ := kept.reached
    apply kept.hangUp.ends
    · simp only [meet]
      simp [Driver.hangUp, isOpen, reached]
    · have sent := congrArg List.length kept.hangUp.in_order
      rw [List.length_append] at sent
      exact Nat.lt_of_le_of_lt (sent ▸ Nat.le_add_left _ _) enough
  · intro count period
    have alone : Alone count period 0 { driver := uncontrolled (.count count period) } :=
      ⟨by simp [uncontrolled], by simp [isOver]⟩
    have after := alone.meets stimuli
    rw [Nat.zero_add] at after
    exact ⟨congrArg Driver.ticks after.driver, after.isOver⟩

/-- Neither a resumption nor a stop releases a tick under the interactive policy. -/
example :
    (after { policy := .interactive }
        [.send .step, .send .resume, .send .step, .send .stop, .wait true, .wait true,
          .wait true]).driver.ticks = 2 := by
  decide

end Pacing

end BehaviorTree
