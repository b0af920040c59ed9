import BehaviorTree.Decimal.Shortest

/-!
How a format lays out the digits of a double: where positional notation ends, whether a whole
number keeps a fraction, and how an exponent is signed.
-/

namespace BehaviorTree.Decimal

structure Layout where
  /-- The first and last exponent of the leading digit written positionally, if bounded. -/
  positional : Option (Int × Int)
  /-- What follows a whole number in positional notation. -/
  wholeEnding : String
  /-- What stands before a positive exponent. -/
  plus : String
  zero : String
  negativeZero : String
  nan : String
  infinity : String
  negativeInfinity : String

/-- The digits of a natural number in base ten. -/
def digits (number : Nat) : List Char := Nat.toDigits 10 number

def ofDigits (numerals : List Char) : Nat := Nat.ofDigitChars 10 numerals 0

def ofInt (number : Int) : List Char :=
  match number with
  | .ofNat magnitude => digits magnitude
  | .negSucc below => '-' :: digits (below + 1)

namespace Layout

/-- Digits with the point where it belongs, padded with zeros on either side. -/
def place (layout : Layout) (numerals : List Char) (leading : Int) : List Char :=
  if leading < 0 then
    "0.".toList ++ List.replicate (-leading - 1).toNat '0' ++ numerals
  else
    let whole := leading.toNat + 1
    if numerals.length ≤ whole then
      numerals ++ List.replicate (whole - numerals.length) '0' ++ layout.wholeEnding.toList
    else numerals.take whole ++ '.' :: numerals.drop whole

def scientific (layout : Layout) (numerals : List Char) (leading : Int) : List Char :=
  let fraction := match numerals.drop 1 with
    | [] => []
    | rest => '.' :: rest
  numerals.take 1 ++ fraction ++ 'e' :: (if leading < 0 then [] else layout.plus.toList) ++
    ofInt leading

def isPositional (layout : Layout) (leading : Int) : Bool :=
  match layout.positional with
  | none => true
  | some (first, last) => first ≤ leading && leading ≤ last

def magnitude (layout : Layout) (number : Scaled) : List Char :=
  let numerals := digits number.coefficient
  let leading := number.exponent + numerals.length - 1
  if layout.isPositional leading then layout.place numerals leading
  else layout.scientific numerals leading

def text (layout : Layout) (reading : Reading) : String :=
  match reading with
  | .nan => layout.nan
  | .infinite negative => if negative then layout.negativeInfinity else layout.infinity
  | .zero negative => if negative then layout.negativeZero else layout.zero
  | .finite negative value =>
      String.ofList ((if negative then ['-'] else []) ++ layout.magnitude value.shortest)

def ofFloat (layout : Layout) (x : Float) : String := layout.text (.ofFloat x)

end Layout

end BehaviorTree.Decimal
