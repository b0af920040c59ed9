import BehaviorTree.Table
import BehaviorTree.Value

/-!
Process variables. A store holds the value of each variable it knows, and the names that do not
answer at the moment; conditions and work steps see it only through reading and writing.
-/

namespace BehaviorTree

/-- Why a process variable could not be read or written. -/
inductive StoreFault where
  | unknown (pv : String)
  | unreachable (pv : String)
  | timeout (pv : String)
  | typeMismatch (pv expected : String)
  deriving DecidableEq, Repr

def StoreFault.message : StoreFault → String
  | .unknown pv => s!"unknown process variable '{pv}'"
  | .unreachable pv => s!"process variable '{pv}' is unreachable"
  | .timeout pv => s!"timed out accessing process variable '{pv}'"
  | .typeMismatch pv expected => s!"type mismatch on '{pv}': expected {expected}"

structure Store where
  values : Table Value := {}
  unreachable : List String := []
  deriving Inhabited

namespace Store

def ofList (pairs : List (String × Value)) : Store := { values := .ofList pairs }

/-- The value held, whether or not the variable answers. -/
def get? (store : Store) (pv : String) : Option Value := store.values.find? pv

/-- Sets a value behind the variable's back, whether or not it answers. -/
def insert (store : Store) (pv : String) (value : Value) : Store :=
  { store with values := store.values.insert pv value }

def answers (store : Store) (pv : String) : Bool := !store.unreachable.contains pv

/-- Makes a variable stop or resume answering. -/
def setUnreachable (store : Store) (pv : String) (silent : Bool) : Store :=
  let others := store.unreachable.filter (· ≠ pv)
  { store with unreachable := if silent then pv :: others else others }

def read (store : Store) (pv : String) : Except StoreFault Value :=
  if store.answers pv then
    match store.get? pv with
    | some value => .ok value
    | none => .error (.unknown pv)
  else .error (.unreachable pv)

/-- A write may name a variable that the store did not know. -/
def write (store : Store) (pv : String) (value : Value) : Except StoreFault Store :=
  if store.answers pv then .ok (store.insert pv value) else .error (.unreachable pv)

@[simp] theorem get?_insert_self (store : Store) (pv : String) (value : Value) :
    (store.insert pv value).get? pv = some value := by
  simp [get?, insert]

theorem get?_insert_of_ne {pv other : String} (apart : other ≠ pv) (store : Store)
    (value : Value) : (store.insert pv value).get? other = store.get? other :=
  Table.find?_insert_of_ne apart store.values value

@[simp] theorem answers_insert (store : Store) (pv other : String) (value : Value) :
    (store.insert pv value).answers other = store.answers other := rfl

end Store

/-- A comparison of one process variable with a fixed value. -/
structure Check where
  pv : String
  operator : Comparator
  value : Value
  deriving Inhabited

namespace Check

/-- Whether the variable satisfies the comparison, if it can be read. -/
def read (check : Check) (store : Store) : Except StoreFault Bool :=
  (store.read check.pv).map fun actual => check.operator.holds actual check.value

/-- A variable that cannot be read does not satisfy anything. -/
def holds (check : Check) (store : Store) : Bool :=
  match check.read store with
  | .ok satisfied => satisfied
  | .error _ => false

end Check

end BehaviorTree
