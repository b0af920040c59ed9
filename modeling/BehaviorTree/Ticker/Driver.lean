import BehaviorTree.Text.Period

/-!
When to tick next. A driver follows a policy and a queue of commands. Commands are consumed in the
order they were sent and before the period runs out; a pause holds every tick back that no step or
resumption releases.
-/

namespace BehaviorTree

/-- Periods are milliseconds. -/
inductive Policy where
  | continuous (period : Nat)
  | interactive
  | count (ticks : Nat) (period : Nat)
  deriving DecidableEq, Repr, Inhabited

def Policy.description : Policy → String
  | .continuous period => s!"Continuous \x7b period: {Text.period period} \x7d"
  | .interactive => "Interactive"
  | .count ticks period =>
      s!"Count \x7b ticks: {ticks}, period: {Text.period period} \x7d"

inductive Command where
  | pause
  | resume
  | step
  | stop
  deriving DecidableEq, Repr

def Command.ofName? : String → Option Command
  | "pause" => some .pause
  | "resume" => some .resume
  | "step" => some .step
  | "stop" => some .stop
  | _ => none

/-- Commands on their way, the oldest first, and whether their sender has hung up. -/
structure Channel where
  queue : List Command := []
  hungUp : Bool := false
  deriving DecidableEq, Repr

/-- The answer to the question for the next tick: it is due, or there will be none, or neither
holds until another command comes or the period runs out. -/
inductive Verdict where
  | due
  | over
  | blocked
  deriving DecidableEq, Repr

/-- An answer, with the paused flag and the commands that are left. -/
structure Waited where
  verdict : Verdict
  paused : Bool
  queue : List Command
  deriving DecidableEq, Repr

structure Driver where
  policy : Policy
  /-- Absent for a driver that nobody can command. -/
  channel : Option Channel := some {}
  paused : Bool := false
  ticks : Nat := 0
  deriving DecidableEq, Repr

namespace Driver

def uncontrolled (policy : Policy) : Driver := { policy, channel := none }

/-- Waits while paused, or under the interactive policy, for a command that releases one tick. -/
def awaitStep (interactive hungUp : Bool) (paused : Bool) : List Command → Waited
  | [] => ⟨if hungUp then .over else .blocked, paused, []⟩
  | .stop :: rest => ⟨.over, paused, rest⟩
  | .step :: rest => ⟨.due, paused, rest⟩
  | .pause :: rest => awaitStep interactive hungUp true rest
  | .resume :: rest =>
      if interactive then awaitStep interactive hungUp false rest else ⟨.due, false, rest⟩

/-- Waits until the period runs out or a command decides. -/
def awaitPeriod (expires hungUp : Bool) : List Command → Waited
  | [] => ⟨if hungUp then .over else if expires then .due else .blocked, false, []⟩
  | .stop :: rest => ⟨.over, false, rest⟩
  | .step :: rest => ⟨.due, false, rest⟩
  | .pause :: rest => awaitStep false hungUp true rest
  | .resume :: rest => awaitPeriod expires hungUp rest

/-- The first tick is due without a delay; later ones when the period `expires`. -/
def waitOn (driver : Driver) (expires : Bool) (channel : Channel) : Verdict × Driver :=
  let waited :=
    if driver.policy = .interactive || driver.paused then
      awaitStep (driver.policy = .interactive) channel.hungUp driver.paused channel.queue
    else awaitPeriod (expires || driver.ticks = 0) channel.hungUp channel.queue
  (waited.verdict,
    { driver with
      paused := waited.paused, channel := some { channel with queue := waited.queue } })

/-- A driver that nobody can command follows its policy alone. -/
def waitAlone (driver : Driver) : Verdict × Driver :=
  if driver.policy = .interactive || driver.paused then (.over, driver) else (.due, driver)

def isExhausted (driver : Driver) : Bool :=
  match driver.policy with
  | .count ticks _ => ticks ≤ driver.ticks
  | .continuous _ | .interactive => false

/-- A driver whose count is exhausted is over and consumes nothing. -/
def waitNext (driver : Driver) (expires : Bool) : Verdict × Driver :=
  if driver.isExhausted then (.over, driver)
  else
    match driver.channel with
    | none => driver.waitAlone
    | some channel => driver.waitOn expires channel

def recordTick (driver : Driver) : Driver := { driver with ticks := driver.ticks + 1 }

def send (driver : Driver) (command : Command) : Driver :=
  { driver with
    channel := driver.channel.map fun channel =>
      { channel with queue := channel.queue ++ [command] } }

def hangUp (driver : Driver) : Driver :=
  { driver with channel := driver.channel.map fun channel => { channel with hungUp := true } }

end Driver

end BehaviorTree
