import BehaviorTree.Ticker.Driver

/-!
How a driver waits. Paused or not, and whatever its policy, it meets the commands one by one until
one of them releases a tick or stops it, and finds the period run out only when none is left. Its
two loops are one loop over these reactions.
-/

namespace BehaviorTree

/-- The paused flag after a command. -/
@[simp] def Command.flag (paused : Bool) : Command → Bool
  | .pause => true
  | .resume => false
  | .step | .stop => paused

/-- How a waiting driver meets a command, or finds, with no command left, that the period has run
out. The paused flag is known before and after. -/
structure Reaction where
  command : Option Command
  before : Bool
  after : Bool
  deriving DecidableEq, Repr

namespace Reaction

def upon (command : Command) (paused : Bool) : Reaction :=
  ⟨some command, paused, command.flag paused⟩

def expiry (paused : Bool) : Reaction := ⟨none, paused, paused⟩

def isStep (reaction : Reaction) : Bool := reaction.command = some .step

def isResumption (reaction : Reaction) : Bool := reaction.command = some .resume && reaction.before

def isTimely (reaction : Reaction) : Bool := reaction.command = none && !reaction.before

/-- Only a step releases a tick under the interactive policy. -/
def releases (policy : Policy) (reaction : Reaction) : Bool :=
  reaction.isStep || policy ≠ .interactive && (reaction.isResumption || reaction.isTimely)

@[simp] theorem releases_pause (policy : Policy) (paused : Bool) :
    (upon .pause paused).releases policy = false := by
  simp [releases, isStep, isResumption, isTimely, upon]

@[simp] theorem releases_resume (policy : Policy) (paused : Bool) :
    (upon .resume paused).releases policy = (decide (policy ≠ .interactive) && paused) := by
  simp [releases, isStep, isResumption, isTimely, upon]

@[simp] theorem releases_step (policy : Policy) (paused : Bool) :
    (upon .step paused).releases policy = true := by
  simp [releases, isStep, upon]

@[simp] theorem releases_stop (policy : Policy) (paused : Bool) :
    (upon .stop paused).releases policy = false := by
  simp [releases, isStep, isResumption, isTimely, upon]

@[simp] theorem releases_expiry (policy : Policy) (paused : Bool) :
    (expiry paused).releases policy = (decide (policy ≠ .interactive) && !paused) := by
  simp [releases, isStep, isResumption, isTimely, expiry]

/-- Meets a command that neither releases a tick nor stops the driver. -/
structure IsIdle (policy : Policy) (reaction : Reaction) : Prop where
  keeps : reaction.releases policy = false
  met : reaction.command ≠ none
  goesOn : reaction.command ≠ some .stop

theorem releases_unprompted {policy : Policy} {reaction : Reaction}
    (unprompted : reaction.command = none) (releases : reaction.releases policy = true) :
    policy ≠ .interactive ∧ reaction.before = false := by
  simpa [Reaction.releases, isStep, isResumption, isTimely, unprompted] using releases

theorem releases_ne_stop {policy : Policy} {reaction : Reaction}
    (releases : reaction.releases policy = true) : reaction.command ≠ some .stop := by
  intro stops
  simp [Reaction.releases, isStep, isResumption, isTimely, stops] at releases

/-- A tick has one cause. -/
theorem releases_cases {policy : Policy} (timed : policy ≠ .interactive) (reaction : Reaction) :
    (if reaction.releases policy = true then 1 else 0) =
      (if reaction.isStep = true then 1 else 0) + (if reaction.isResumption = true then 1 else 0) +
        if reaction.isTimely = true then 1 else 0 := by
  obtain ⟨command, before, after⟩ := reaction
  rcases command with _ | command
  · cases before <;> simp [releases, isStep, isResumption, isTimely, timed]
  · cases command <;> cases before <;> simp [releases, isStep, isResumption, isTimely, timed]

theorem countP_releases {policy : Policy} (timed : policy ≠ .interactive)
    (reactions : List Reaction) :
    reactions.countP (releases policy) =
      reactions.countP isStep + reactions.countP isResumption + reactions.countP isTimely := by
  induction reactions with
  | nil => rfl
  | cons reaction rest ih =>
      have one := releases_cases timed reaction
      simp only [List.countP_cons, ih]
      omega

theorem releases_interactive : releases .interactive = isStep := by
  funext reaction
  simp [releases]

/-- The commands met. -/
def commands (reactions : List Reaction) : List Command := reactions.filterMap (·.command)

@[simp] theorem commands_append (first second : List Reaction) :
    commands (first ++ second) = commands first ++ commands second := List.filterMap_append

theorem countP_isStep (reactions : List Reaction) :
    reactions.countP isStep = (commands reactions).count .step := by
  induction reactions with
  | nil => rfl
  | cons reaction rest ih =>
      obtain ⟨command, before, after⟩ := reaction
      rcases command with _ | command
      · simpa [commands, isStep] using ih
      · cases command <;> simpa [commands, isStep] using ih

theorem stop_not_mem_commands {reactions : List Reaction}
    (unstopped : ∀ reaction ∈ reactions, reaction.command ≠ some .stop) :
    .stop ∉ commands reactions := by
  intro met
  obtain ⟨reaction, inside, stops⟩ := List.mem_filterMap.mp met
  exact unstopped reaction inside stops

@[simp] theorem upon_before (command : Command) (paused : Bool) :
    (upon command paused).before = paused := rfl

@[simp] theorem upon_command (command : Command) (paused : Bool) :
    (upon command paused).command = some command := rfl

@[simp] theorem upon_after (command : Command) (paused : Bool) :
    (upon command paused).after = command.flag paused := rfl

/-- Reactions that follow one another, from one paused flag to another. -/
def Thread : Bool → List Reaction → Bool → Prop
  | first, [], last => first = last
  | first, reaction :: rest, last =>
      (reaction = expiry first ∨ ∃ command, reaction = upon command first) ∧
        Thread reaction.after rest last

theorem Thread.append {first middle last : Bool} {early late : List Reaction}
    (before : Thread first early middle) (after : Thread middle late last) :
    Thread first (early ++ late) last := by
  induction early generalizing first with
  | nil => exact before ▸ after
  | cons reaction rest ih => exact ⟨before.1, ih before.2⟩

theorem Thread.mem {first last : Bool} {reactions : List Reaction}
    (thread : Thread first reactions last) {reaction : Reaction} (inside : reaction ∈ reactions) :
    ∃ paused, reaction = expiry paused ∨ ∃ command, reaction = upon command paused := by
  induction reactions generalizing first with
  | nil => simp at inside
  | cons head rest ih =>
      rcases List.mem_cons.mp inside with rfl | later
      · exact ⟨first, thread.1⟩
      · exact ih thread.2 later

end Reaction

/-- Whether a pause was the last word on it. -/
def pausedBy (commands : List Command) : Bool :=
  (commands.filter fun command => command = .pause || command = .resume).getLast? = some .pause

theorem pausedBy_concat (commands : List Command) (command : Command) :
    pausedBy (commands ++ [command]) = command.flag (pausedBy commands) := by
  cases command <;> simp [pausedBy]

namespace Reaction

theorem Thread.paused (past : List Command) {reactions : List Reaction} {last : Bool}
    (thread : Thread (pausedBy past) reactions last) :
    last = pausedBy (past ++ commands reactions) := by
  induction reactions generalizing past with
  | nil => simpa [commands] using thread.symm
  | cons reaction rest ih =>
      obtain ⟨rfl | ⟨command, rfl⟩, onward⟩ := thread
      · simpa [commands, expiry] using ih _ onward
      · rw [upon_after, ← pausedBy_concat] at onward
        simpa [commands] using ih _ onward

theorem Thread.flags (past : List Command) {front rest : List Reaction} {reaction : Reaction}
    {last : Bool} (thread : Thread (pausedBy past) (front ++ reaction :: rest) last) :
    reaction.before = pausedBy (past ++ commands front) ∧
      reaction.after = pausedBy (past ++ commands (front ++ [reaction])) := by
  induction front generalizing past with
  | nil =>
      obtain ⟨rfl | ⟨command, rfl⟩, -⟩ := thread
      · simp [commands, expiry]
      · simp [commands, pausedBy_concat]
  | cons earlier front ih =>
      obtain ⟨rfl | ⟨command, rfl⟩, onward⟩ := thread
      · simpa [commands, expiry] using ih _ onward
      · rw [upon_after, ← pausedBy_concat] at onward
        simpa [commands] using ih _ onward

end Reaction

namespace Driver

open Reaction

/-! The two loops of a driver as one. -/

/-- Meets the commands that have come. A period that has run out is `ready` to release a tick once
no command is left. -/
def attend (policy : Policy) (hungUp ready : Bool) : Bool → List Command → Waited × List Reaction
  | paused, [] =>
      if hungUp then (⟨.over, paused, []⟩, [])
      else if ready && (expiry paused).releases policy then (⟨.due, paused, []⟩, [expiry paused])
      else (⟨.blocked, paused, []⟩, [])
  | paused, command :: rest =>
      let reaction := upon command paused
      if reaction.releases policy then (⟨.due, reaction.after, rest⟩, [reaction])
      else if command = .stop then (⟨.over, reaction.after, rest⟩, [reaction])
      else
        let (waited, reactions) := attend policy hungUp ready reaction.after rest
        (waited, reaction :: reactions)

theorem awaitStep_eq_attend (policy : Policy) (hungUp ready paused : Bool) (queue : List Command)
    (held : policy = .interactive ∨ paused = true) :
    awaitStep (policy = .interactive) hungUp paused queue =
      (attend policy hungUp ready paused queue).1 := by
  induction queue generalizing paused with
  | nil => rcases held with rfl | rfl <;> cases hungUp <;> simp [awaitStep, attend]
  | cons command rest ih =>
      cases command with
      | pause =>
          have onward := ih true (.inr rfl)
          simpa [awaitStep, attend] using onward
      | resume =>
          by_cases interactive : policy = .interactive
          · have onward := ih false (.inl interactive)
            simpa [awaitStep, attend, interactive] using onward
          · have resumed : paused = true := held.resolve_left interactive
            simp [awaitStep, attend, interactive, resumed]
      | step => simp [awaitStep, attend]
      | stop => simp [awaitStep, attend]

theorem awaitPeriod_eq_attend (policy : Policy) (hungUp ready : Bool) (queue : List Command)
    (free : policy ≠ .interactive) :
    awaitPeriod ready hungUp queue = (attend policy hungUp ready false queue).1 := by
  induction queue with
  | nil => cases hungUp <;> cases ready <;> simp [awaitPeriod, attend, free]
  | cons command rest ih =>
      cases command with
      | pause =>
          have held := awaitStep_eq_attend policy hungUp ready true rest (.inr rfl)
          simpa [awaitPeriod, attend, free] using held
      | resume => simpa [awaitPeriod, attend] using ih
      | step => simp [awaitPeriod, attend]
      | stop => simp [awaitPeriod, attend]

/-- How the driver meets the commands on their way. -/
def attendTo (driver : Driver) (expires : Bool) (channel : Channel) : Waited × List Reaction :=
  attend driver.policy channel.hungUp (expires || driver.ticks = 0) driver.paused channel.queue

theorem waitOn_eq_attendTo (driver : Driver) (expires : Bool) (channel : Channel) :
    driver.waitOn expires channel =
      ((driver.attendTo expires channel).1.verdict,
        { driver with
          paused := (driver.attendTo expires channel).1.paused
          channel :=
            some { channel with queue := (driver.attendTo expires channel).1.queue } }) := by
  unfold waitOn attendTo
  by_cases held : driver.policy = .interactive ∨ driver.paused = true
  · rw [← awaitStep_eq_attend driver.policy channel.hungUp _ driver.paused channel.queue held]
    simp [held]
  · obtain ⟨free, awake⟩ := not_or.mp held
    rw [Bool.not_eq_true] at awake
    rw [awake, ← awaitPeriod_eq_attend driver.policy channel.hungUp _ channel.queue free]
    simp [free]

theorem attend_takes (policy : Policy) (hungUp ready paused : Bool) (queue : List Command) :
    commands (attend policy hungUp ready paused queue).2 ++
      (attend policy hungUp ready paused queue).1.queue = queue := by
  induction queue generalizing paused with
  | nil =>
      unfold attend
      split
      · rfl
      · split <;> rfl
  | cons command rest ih =>
      simp only [attend]
      split
      · rfl
      · split
        · rfl
        · have onward := ih (command.flag paused)
          simpa [commands] using onward

theorem attend_thread (policy : Policy) (hungUp ready paused : Bool) (queue : List Command) :
    Thread paused (attend policy hungUp ready paused queue).2
      (attend policy hungUp ready paused queue).1.paused := by
  induction queue generalizing paused with
  | nil =>
      unfold attend
      split
      · rfl
      · split
        · exact ⟨.inl rfl, rfl⟩
        · rfl
  | cons command rest ih =>
      simp only [attend]
      split
      · exact ⟨.inr ⟨command, rfl⟩, rfl⟩
      · split
        · exact ⟨.inr ⟨command, rfl⟩, rfl⟩
        · exact ⟨.inr ⟨command, rfl⟩, ih _⟩

/-- What ends the reactions of a wait, all others being idle. -/
inductive Ending (policy : Policy) (hungUp ready : Bool) :
    Verdict → List Command → List Reaction → Prop
  | released {queue : List Command} (idle : List Reaction) (last : Reaction)
      (idles : ∀ reaction ∈ idle, reaction.IsIdle policy) (releases : last.releases policy = true)
      (timely : last.command = none → ready = true ∧ hungUp = false ∧ queue = []) :
      Ending policy hungUp ready .due queue (idle ++ [last])
  | stopped {queue : List Command} (idle : List Reaction) (paused : Bool)
      (idles : ∀ reaction ∈ idle, reaction.IsIdle policy) :
      Ending policy hungUp ready .over queue (idle ++ [upon .stop paused])
  | leftAlone (idle : List Reaction) (idles : ∀ reaction ∈ idle, reaction.IsIdle policy)
      (gone : hungUp = true) : Ending policy hungUp ready .over [] idle
  | blocked (idle : List Reaction) (idles : ∀ reaction ∈ idle, reaction.IsIdle policy)
      (there : hungUp = false) : Ending policy hungUp ready .blocked [] idle

section

variable {policy : Policy} {hungUp ready : Bool} {verdict : Verdict} {queue : List Command}
  {reactions : List Reaction}

theorem Ending.cons {first : Reaction} (idle : first.IsIdle policy)
    (ending : Ending policy hungUp ready verdict queue reactions) :
    Ending policy hungUp ready verdict queue (first :: reactions) := by
  cases ending with
  | released others last idles releases timely =>
      exact .released (first :: others) last (List.forall_mem_cons.mpr ⟨idle, idles⟩) releases
        timely
  | stopped others paused idles =>
      exact .stopped (first :: others) paused (List.forall_mem_cons.mpr ⟨idle, idles⟩)
  | leftAlone _ idles gone => exact .leftAlone _ (List.forall_mem_cons.mpr ⟨idle, idles⟩) gone
  | blocked _ idles there => exact .blocked _ (List.forall_mem_cons.mpr ⟨idle, idles⟩) there

theorem attend_ending (policy : Policy) (hungUp ready paused : Bool) (queue : List Command) :
    Ending policy hungUp ready (attend policy hungUp ready paused queue).1.verdict
      (attend policy hungUp ready paused queue).1.queue
      (attend policy hungUp ready paused queue).2 := by
  induction queue generalizing paused with
  | nil =>
      unfold attend
      split
      next gone => exact .leftAlone [] (by simp) gone
      next there =>
        rw [Bool.not_eq_true] at there
        split
        next timely =>
          rw [Bool.and_eq_true] at timely
          exact .released [] (expiry paused) (by simp) timely.2 fun _ => ⟨timely.1, there, rfl⟩
        next => exact .blocked [] (by simp) there
  | cons command rest ih =>
      simp only [attend]
      split
      next releases => exact .released [] (upon command paused) (by simp) releases (by simp)
      next keeps =>
        rw [Bool.not_eq_true] at keeps
        split
        next stops => exact stops ▸ .stopped [] paused (by simp)
        next goesOn => exact (ih _).cons ⟨keeps, by simp, by simpa using goesOn⟩

theorem Ending.one_cause (ending : Ending policy hungUp ready .due queue reactions) :
    ∃ idle last, reactions = idle ++ [last] ∧ last.releases policy = true ∧
      ∀ reaction ∈ idle, reaction.releases policy = false := by
  obtain ⟨idle, last, idles, releases, -⟩ := ending
  exact ⟨idle, last, rfl, releases, fun reaction inside => (idles reaction inside).keeps⟩

/-- What a reaction may be: idle, the one that releases a tick, or the one to a stop. -/
theorem Ending.cases_of_mem (ending : Ending policy hungUp ready verdict queue reactions)
    {reaction : Reaction} (inside : reaction ∈ reactions) :
    reaction.IsIdle policy ∨
      verdict = .due ∧ reaction.releases policy = true ∧
        (reaction.command = none → ready = true) ∨
      verdict = .over ∧ ∃ paused, reaction = upon .stop paused := by
  cases ending with
  | released idle last idles releases timely =>
      rcases List.mem_append.mp inside with early | late
      · exact .inl (idles reaction early)
      · obtain rfl := List.mem_singleton.mp late
        exact .inr (.inl ⟨rfl, releases, fun unprompted => (timely unprompted).1⟩)
  | stopped idle paused idles =>
      rcases List.mem_append.mp inside with early | late
      · exact .inl (idles reaction early)
      · exact .inr (.inr ⟨rfl, paused, List.mem_singleton.mp late⟩)
  | leftAlone _ idles gone => exact .inl (idles reaction inside)
  | blocked _ idles there => exact .inl (idles reaction inside)

theorem Ending.no_cause (ending : Ending policy hungUp ready verdict queue reactions)
    (withheld : verdict ≠ .due) : ∀ reaction ∈ reactions, reaction.releases policy = false := by
  intro reaction inside
  rcases ending.cases_of_mem inside with idle | ⟨due, -⟩ | ⟨-, paused, rfl⟩
  · exact idle.keeps
  · exact absurd due withheld
  · exact releases_stop policy paused

theorem Ending.expiry_releases (ending : Ending policy hungUp ready verdict queue reactions) :
    ∀ reaction ∈ reactions, reaction.command = none →
      reaction.releases policy = true ∧ ready = true := by
  intro reaction inside unprompted
  rcases ending.cases_of_mem inside with idle | ⟨-, releases, timely⟩ | ⟨-, paused, rfl⟩
  · exact absurd unprompted idle.met
  · exact ⟨releases, timely unprompted⟩
  · cases unprompted

/-- A stop is not met by a wait that does not end the drive. -/
theorem Ending.no_stop (ending : Ending policy hungUp ready verdict queue reactions)
    (goesOn : verdict ≠ .over) : .stop ∉ commands reactions := by
  apply stop_not_mem_commands
  intro reaction inside
  rcases ending.cases_of_mem inside with idle | ⟨-, releases, -⟩ | ⟨final, -⟩
  · exact idle.goesOn
  · exact releases_ne_stop releases
  · exact absurd final goesOn

theorem Ending.of_blocked (ending : Ending policy hungUp ready .blocked queue reactions) :
    queue = [] := by
  cases ending
  rfl

/-- Without a sender there is no wait for the period: a tick that is due is due to a command. -/
theorem Ending.meets (ending : Ending policy true ready verdict queue reactions)
    (goesOn : verdict ≠ .over) : 0 < (commands reactions).length := by
  cases ending with
  | released idle last idles releases timely =>
      cases met : last.command with
      | none => exact absurd (timely met).2.1 (by simp)
      | some command => simp [commands, met]
  | stopped => contradiction
  | leftAlone => contradiction
  | blocked _ idles there => contradiction

theorem Ending.of_over (ending : Ending policy hungUp ready .over queue reactions) :
    (∃ front, commands reactions = front ++ [.stop] ∧ .stop ∉ front) ∨
      .stop ∉ commands reactions ∧ hungUp = true ∧ queue = [] := by
  cases ending with
  | stopped idle paused idles =>
      refine .inl ⟨commands idle, by simp [commands], ?_⟩
      exact stop_not_mem_commands fun reaction inside => (idles reaction inside).goesOn
  | leftAlone _ idles gone =>
      refine .inr ⟨?_, gone, rfl⟩
      exact stop_not_mem_commands fun reaction inside => (idles reaction inside).goesOn

end

theorem isExhausted_iff (driver : Driver) :
    driver.isExhausted = true ↔
      ∃ count period, driver.policy = .count count period ∧ count ≤ driver.ticks := by
  unfold isExhausted
  split
  next count period counts => simp [counts]
  all_goals simp_all

/-- The commands on their way. -/
def queue (driver : Driver) : List Command :=
  match driver.channel with
  | some channel => channel.queue
  | none => []

/-- Whether commands can still be sent. -/
def isOpen (driver : Driver) : Bool :=
  match driver.channel with
  | some channel => !channel.hungUp
  | none => false

end Driver

/-- A question for the next tick: the driver that is asked, and whether its period runs out. -/
structure Wait where
  driver : Driver
  expires : Bool

namespace Wait

open Reaction Driver

def verdict (wait : Wait) : Verdict := (wait.driver.waitNext wait.expires).1

def next (wait : Wait) : Driver := (wait.driver.waitNext wait.expires).2

/-- A driver whose count is exhausted, or that nobody can command, meets no command. -/
def reactions (wait : Wait) : List Reaction :=
  match wait.driver.channel with
  | some channel =>
      if wait.driver.isExhausted then [] else (wait.driver.attendTo wait.expires channel).2
  | none => []

theorem exhausted (wait : Wait) {channel : Channel} (reached : wait.driver.channel = some channel)
    (done : wait.driver.isExhausted = true) :
    wait.verdict = .over ∧ wait.next = wait.driver ∧ wait.reactions = [] := by
  simp [verdict, next, reactions, waitNext, reached, done]

/-- What a wait comes to while there are ticks left. -/
theorem attended (wait : Wait) {channel : Channel} (reached : wait.driver.channel = some channel)
    (left : wait.driver.isExhausted = false) :
    wait.verdict = (wait.driver.attendTo wait.expires channel).1.verdict ∧
      wait.next =
        { wait.driver with
          paused := (wait.driver.attendTo wait.expires channel).1.paused
          channel :=
            some { channel with queue := (wait.driver.attendTo wait.expires channel).1.queue } } ∧
      wait.reactions = (wait.driver.attendTo wait.expires channel).2 := by
  simp [verdict, next, reactions, waitNext, reached, left, waitOn_eq_attendTo]

/-- A wait changes nothing but the paused flag and the queue. -/
theorem next_frame (wait : Wait) {channel : Channel}
    (reached : wait.driver.channel = some channel) :
    wait.next.policy = wait.driver.policy ∧ wait.next.ticks = wait.driver.ticks ∧
      wait.next.channel = some { channel with queue := wait.next.queue } := by
  cases done : wait.driver.isExhausted with
  | true =>
      obtain ⟨-, same, -⟩ := exhausted wait reached done
      simp [same, queue, reached]
  | false =>
      obtain ⟨-, onward, -⟩ := attended wait reached done
      simp [onward, queue]

theorem takes (wait : Wait) {channel : Channel} (reached : wait.driver.channel = some channel) :
    commands wait.reactions ++ wait.next.queue = channel.queue := by
  cases done : wait.driver.isExhausted with
  | true =>
      obtain ⟨-, same, quiet⟩ := exhausted wait reached done
      simp [same, quiet, queue, reached, commands]
  | false =>
      obtain ⟨-, onward, met⟩ := attended wait reached done
      rw [onward, met]
      exact attend_takes ..

theorem thread (wait : Wait) {channel : Channel} (reached : wait.driver.channel = some channel) :
    Thread wait.driver.paused wait.reactions wait.next.paused := by
  cases done : wait.driver.isExhausted with
  | true =>
      obtain ⟨-, same, quiet⟩ := exhausted wait reached done
      rw [same, quiet]
      rfl
  | false =>
      obtain ⟨-, onward, met⟩ := attended wait reached done
      rw [onward, met]
      exact attend_thread ..

theorem ending (wait : Wait) {channel : Channel} (reached : wait.driver.channel = some channel)
    (left : wait.driver.isExhausted = false) :
    Ending wait.driver.policy channel.hungUp (wait.expires || wait.driver.ticks = 0) wait.verdict
      wait.next.queue wait.reactions := by
  obtain ⟨decided, onward, met⟩ := attended wait reached left
  rw [decided, onward, met]
  exact attend_ending ..

theorem left_of_ne_over (wait : Wait) {channel : Channel}
    (reached : wait.driver.channel = some channel) (goesOn : wait.verdict ≠ .over) :
    wait.driver.isExhausted = false := by
  rw [← Bool.not_eq_true]
  intro done
  exact goesOn (exhausted wait reached done).1

theorem unstopped (wait : Wait) {channel : Channel} (reached : wait.driver.channel = some channel)
    (goesOn : wait.verdict ≠ .over) : .stop ∉ commands wait.reactions :=
  (ending wait reached (left_of_ne_over wait reached goesOn)).no_stop goesOn

/-- What ends a drive. -/
theorem finished (wait : Wait) {channel : Channel} (reached : wait.driver.channel = some channel)
    (final : wait.verdict = .over) :
    (∃ front, commands wait.reactions = front ++ [.stop] ∧ .stop ∉ front) ∨
      .stop ∉ commands wait.reactions ∧
        (channel.hungUp = true ∧ wait.next.queue = [] ∨ wait.driver.isExhausted = true) := by
  cases done : wait.driver.isExhausted with
  | true => exact .inr ⟨by simp [(exhausted wait reached done).2.2, commands], .inr rfl⟩
  | false =>
      have ended := ending wait reached done
      rw [final] at ended
      rcases ended.of_over with stopped | ⟨unseen, gone, drained⟩
      · exact .inl stopped
      · exact .inr ⟨unseen, .inl ⟨gone, drained⟩⟩

theorem takes_when_alone (wait : Wait) {channel : Channel}
    (reached : wait.driver.channel = some channel) (gone : channel.hungUp = true)
    (goesOn : wait.verdict ≠ .over) : wait.next.queue.length < channel.queue.length := by
  have ended := ending wait reached (left_of_ne_over wait reached goesOn)
  rw [gone] at ended
  have met := ended.meets goesOn
  rw [← takes wait reached, List.length_append]
  omega

/-- What a wait has to show for itself. A tick that is due has one cause, the last reaction of the
wait; without one no tick is due; and the first period runs out at once. -/
structure Accounted (policy : Policy) (wait : Wait) : Prop where
  released : wait.verdict = .due → ∃ idle last, wait.reactions = idle ++ [last] ∧
    last.releases policy = true ∧ ∀ reaction ∈ idle, reaction.releases policy = false
  withheld : wait.verdict ≠ .due → ∀ reaction ∈ wait.reactions, reaction.releases policy = false
  timely : ∀ reaction ∈ wait.reactions, reaction.command = none →
    policy ≠ .interactive ∧ reaction.before = false ∧
      (wait.expires = true ∨ wait.driver.ticks = 0)
  starved : wait.verdict = .blocked → wait.next.queue = []

theorem accounted (wait : Wait) {channel : Channel} (reached : wait.driver.channel = some channel) :
    wait.Accounted wait.driver.policy := by
  cases done : wait.driver.isExhausted with
  | true =>
      obtain ⟨final, -, quiet⟩ := exhausted wait reached done
      constructor <;> simp [final, quiet]
  | false =>
      have ended := ending wait reached done
      exact
        { released := fun due => (due ▸ ended).one_cause
          withheld := ended.no_cause
          timely := by
            intro reaction inside unprompted
            obtain ⟨releases, ready⟩ := ended.expiry_releases reaction inside unprompted
            obtain ⟨timed, awake⟩ := releases_unprompted unprompted releases
            exact ⟨timed, awake, by simpa using ready⟩
          starved := fun blocks => (blocks ▸ ended).of_blocked }

end Wait

end BehaviorTree
