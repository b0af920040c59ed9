/-!
Elapsed-time gates. Times are counted on a clock that the caller reads, in any unit, so a timer is
a plain value and a copy of it lives a life of its own.
-/

namespace BehaviorTree

inductive TimerFault where
  | uninitialized
  deriving DecidableEq, Repr

def TimerFault.message : TimerFault → String
  | .uninitialized => "timer queried before start()"

/-- A periodic timer starts anew whenever it reports that its period has passed, a one-shot timer
keeps reporting it. -/
structure Timer where
  period : Nat
  periodic : Bool := false
  started : Option Nat := none
  deriving DecidableEq, Repr

namespace Timer

def isStarted (timer : Timer) : Bool := timer.started.isSome

/-- Starts, or starts again, at `now`. -/
def start (timer : Timer) (now : Nat) : Timer := { timer with started := some now }

def elapsed (timer : Timer) (now : Nat) : Except TimerFault Nat :=
  match timer.started with
  | none => .error .uninitialized
  | some started => .ok (now - started)

/-- Whether the period has passed, and the timer that is left after the question. -/
def query (timer : Timer) (now : Nat) : Except TimerFault (Bool × Timer) :=
  match timer.started with
  | none => .error .uninitialized
  | some started =>
      if now - started < timer.period then .ok (false, timer)
      else if timer.periodic then .ok (true, timer.start now)
      else .ok (true, timer)

end Timer

end BehaviorTree
