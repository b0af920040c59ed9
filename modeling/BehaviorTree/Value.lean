import BehaviorTree.Decimal.Numeral

/-!
The values of process variables, and the comparisons a condition can ask for. Values of different
kinds are incomparable, except that an integer meets a double as a double.
-/

namespace BehaviorTree

inductive Value where
  | bool (holds : Bool)
  | int (number : Int64)
  | float (number : Float)
  | text (chars : String)
  deriving Inhabited

/-- Doubles are shown with the fewest digits that read back, always positionally, and without a
fraction when they are whole. -/
def Decimal.plain : Decimal.Layout where
  positional := none
  wholeEnding := ""
  plus := ""
  zero := "0"
  negativeZero := "-0"
  nan := "NaN"
  infinity := "inf"
  negativeInfinity := "-inf"

/-- The order of two doubles, unless one is not a number. -/
def floatOrder? (left right : Float) : Option Ordering :=
  if left < right then some .lt
  else if left == right then some .eq
  else if right < left then some .gt
  else none

/-- The double nearest to a machine integer, a tie to the even one. -/
def nearestFloat (number : Int64) : Float :=
  if number < 0 then -(-number).toUInt64.toFloat else number.toUInt64.toFloat

/-- The sum of two machine integers, unless it leaves their range. -/
def sumInRange? (left right : Int64) : Option Int64 :=
  let sum := left.toInt + right.toInt
  if Int64.minValue.toInt ≤ sum ∧ sum ≤ Int64.maxValue.toInt then some (.ofInt sum) else none

namespace Value

/-- The value as a double, if it is a number. An integer is rounded to the nearest double. -/
def asFloat? : Value → Option Float
  | .int number => some (nearestFloat number)
  | .float number => some number
  | .bool _ | .text _ => none

def isNumeric : Value → Bool
  | .int _ | .float _ => true
  | .bool _ | .text _ => false

/-- A text is shown as it is, without quotes. -/
def shown : Value → String
  | .bool holds => if holds then "true" else "false"
  | .int number => String.ofList (Decimal.ofInt number.toInt)
  | .float number => Decimal.plain.ofFloat number
  | .text chars => chars

/-- Equality of kind and content; a double that is not a number differs from itself. -/
def same : Value → Value → Bool
  | .bool left, .bool right => left == right
  | .int left, .int right => left == right
  | .float left, .float right => left == right
  | .text left, .text right => left == right
  | _, _ => false

instance : BEq Value := ⟨same⟩

def boolOrder (left right : Bool) : Ordering :=
  if left = right then .eq else if right then .lt else .gt

def intOrder (left right : Int64) : Ordering :=
  if left < right then .lt else if left = right then .eq else .gt

/-- Texts are ordered by their characters' code points. -/
def textOrder (left right : String) : Ordering :=
  if left < right then .lt else if left = right then .eq else .gt

def order? : Value → Value → Option Ordering
  | .bool left, .bool right => some (boolOrder left right)
  | .text left, .text right => some (textOrder left right)
  | .int left, .int right => some (intOrder left right)
  | left, right => do floatOrder? (← left.asFloat?) (← right.asFloat?)

/-- The sum of two numbers: an integer for two integers, if it is in range, else a double. -/
def sum? : Value → Value → Option Value
  | .int left, .int right => (sumInRange? left right).map .int
  | left, right => do return .float ((← left.asFloat?) + (← right.asFloat?))

end Value

/-- How an actual value is compared with a target. -/
inductive Comparator where
  | eq
  | ne
  | lt
  | gt
  | le
  | ge
  deriving DecidableEq, Repr, Inhabited

namespace Comparator

def all : List Comparator := [.eq, .ne, .lt, .gt, .le, .ge]

def name : Comparator → String
  | .eq => "eq"
  | .ne => "ne"
  | .lt => "lt"
  | .gt => "gt"
  | .le => "le"
  | .ge => "ge"

def symbol : Comparator → String
  | .eq => "=="
  | .ne => "!="
  | .lt => "<"
  | .gt => ">"
  | .le => "<="
  | .ge => ">="

def longName : Comparator → String
  | .eq => "equal"
  | .ne => "not_equal"
  | .lt => "less"
  | .gt => "greater"
  | .le => "less_equal"
  | .ge => "greater_equal"

/-- A comparator may be given by its short name, its long name or its symbol. -/
def ofName? (text : String) : Option Comparator :=
  all.find? fun comparator =>
    comparator.name = text || comparator.longName = text || comparator.symbol = text

def admits (comparator : Comparator) (ordering : Ordering) : Bool :=
  match comparator with
  | .eq => ordering == .eq
  | .ne => ordering != .eq
  | .lt => ordering == .lt
  | .gt => ordering == .gt
  | .le => ordering != .gt
  | .ge => ordering != .lt

/-- Incomparable values are only unequal. -/
def holds (comparator : Comparator) (actual target : Value) : Bool :=
  match actual.order? target with
  | some ordering => comparator.admits ordering
  | none => comparator == .ne

end Comparator

end BehaviorTree
