import BehaviorTree.Value

/-!
Data as documents hold them, whatever notation the document is written in. Readers of trees,
configurations and events take data apart; writers put them together.
-/

namespace BehaviorTree

/-- The key of an entry in a record: a name, a position, or something that is neither. -/
inductive Key where
  | name (text : String)
  | position (index : Nat)
  | other
  deriving DecidableEq, Repr, Inhabited

inductive Datum where
  | null
  | bool (holds : Bool)
  | int (number : Int)
  | float (number : Float)
  | text (chars : String)
  | list (items : List Datum)
  | record (entries : List (Key × Datum))
  /-- Well written, but without a value: a number or a text that cannot be represented, or a list
  or record nested too deeply. It is harmless only where nobody looks. -/
  | unreadable
  deriving Inhabited

namespace Datum

/-- A record whose keys are names. -/
def ofFields (fields : List (String × Datum)) : Datum :=
  .record (fields.map fun (name, datum) => (.name name, datum))

mutual

/-- Whether there is a value everywhere. -/
def isReadable : Datum → Bool
  | .list items => areReadable items
  | .record entries => entriesAreReadable entries
  | .unreadable => false
  | _ => true

def areReadable : List Datum → Bool
  | [] => true
  | item :: rest => isReadable item && areReadable rest

def entriesAreReadable : List (Key × Datum) → Bool
  | [] => true
  | (_, datum) :: rest => isReadable datum && entriesAreReadable rest

end

mutual

/-- How many lists and records stand inside each other. -/
def depth : Datum → Nat
  | .list items => depths items + 1
  | .record entries => entryDepths entries + 1
  | _ => 0

def depths : List Datum → Nat
  | [] => 0
  | item :: rest => max (depth item) (depths rest)

def entryDepths : List (Key × Datum) → Nat
  | [] => 0
  | (_, datum) :: rest => max (depth datum) (entryDepths rest)

end

def asText? : Datum → Option String
  | .text chars => some chars
  | _ => none

def asBool? : Datum → Option Bool
  | .bool holds => some holds
  | _ => none

/-- A natural number below 2^64. -/
def asNat? : Datum → Option Nat
  | .int number => if 0 ≤ number ∧ number < Nat.pow 2 64 then some number.toNat else none
  | _ => none

/-- A list of which every item can be read. -/
def asList? {Item : Type} (read : Datum → Option Item) : Datum → Option (List Item)
  | .list items => items.mapM read
  | _ => none

/-- Null stands for nothing. -/
def asOption? {Content : Type} (read : Datum → Option Content) : Datum → Option (Option Content)
  | .null => some none
  | datum => (read datum).map some

end Datum

namespace Value

/-- An integer too large for a machine integer is taken as a double. -/
def ofDatum? : Datum → Option Value
  | .bool holds => some (.bool holds)
  | .int number =>
      if Int64.minValue.toInt ≤ number ∧ number ≤ Int64.maxValue.toInt then
        some (.int (.ofInt number))
      else some (.float (.ofInt number))
  | .float number => some (.float number)
  | .text chars => some (.text chars)
  | .null | .list _ | .record _ | .unreadable => none

def toDatum : Value → Datum
  | .bool holds => .bool holds
  | .int number => .int number.toInt
  | .float number => .float number
  | .text chars => .text chars

end Value

end BehaviorTree
