/-!
The result of evaluating a node, and the two small devices an action shares with its worker:
a status cell that counts attempts, and a gate that carries one start signal.
-/

namespace BehaviorTree

/-- `invalid` means never ticked, or reset. -/
inductive Status where
  | invalid
  | running
  | success
  | failure
  deriving DecidableEq, Repr, Inhabited

namespace Status

def all : List Status := [.invalid, .running, .success, .failure]

def name : Status → String
  | .invalid => "INVALID"
  | .running => "RUNNING"
  | .success => "SUCCESS"
  | .failure => "FAILURE"

/-- The number under which a status crosses a boundary that carries plain bytes. -/
def code : Status → Nat
  | .invalid => 0
  | .running => 1
  | .success => 2
  | .failure => 3

def ofCode? (code : Nat) : Option Status := all.find? (·.code = code)

def ofName? (name : String) : Option Status := all.find? (·.name = name)

def ofBool (holds : Bool) : Status := if holds then .success else .failure

/-- Success or failure. -/
def isTerminal : Status → Bool
  | .success | .failure => true
  | .invalid | .running => false

theorem ofCode?_code (status : Status) : ofCode? status.code = some status := by
  cases status <;> rfl

theorem ofName?_name (status : Status) : ofName? status.name = some status := by
  cases status <;> rfl

end Status

/-- The status an action shows to the tick, with the number of the latest attempt. Attempts are
counted modulo 2^64. -/
structure Cell where
  status : Status := .invalid
  attempt : UInt64 := 0
  deriving DecidableEq, Repr, Inhabited

namespace Cell

def set (cell : Cell) (status : Status) : Cell := { cell with status }

/-- Opens a new attempt, which runs at once. -/
def beginAttempt (cell : Cell) : Cell :=
  { status := .running, attempt := cell.attempt + 1 }

/-- A write in the name of `attempt` counts only while that attempt is the latest. -/
def isCurrent (cell : Cell) (attempt : UInt64) : Bool := cell.attempt == attempt

def setIfCurrent (cell : Cell) (attempt : UInt64) (status : Status) : Cell :=
  if cell.isCurrent attempt then cell.set status else cell

end Cell

/-- A start signal from the tick to a worker. Setting a set gate changes nothing, so several
signals that nobody consumed in between are one. -/
structure Gate where
  isSet : Bool := false
  deriving DecidableEq, Repr, Inhabited

namespace Gate

def set (_gate : Gate) : Gate := { isSet := true }

def clear (_gate : Gate) : Gate := { isSet := false }

/-- Waiting consumes the signal: the answer is whether there was one. -/
def consume (gate : Gate) : Bool × Gate := (gate.isSet, gate.clear)

end Gate

end BehaviorTree
