import BehaviorTree.Decimal.Layout

/-!
Reading decimal text as doubles. The general reader accepts a sign, digits with at most one point,
an exponent, and the words for infinity and not-a-number, and rounds correctly.
-/

namespace BehaviorTree.Decimal

/-- A numeral `±coefficient * 10^exponent` as written. -/
structure Numeral where
  negative : Bool
  coefficient : Nat
  exponent : Int
  deriving DecidableEq, Repr

/-- Splits off the leading digits. -/
def spanDigits (text : List Char) : List Char × List Char :=
  (text.takeWhile Char.isDigit, text.dropWhile Char.isDigit)

namespace Numeral

/-- An exponent after its letter; nothing may follow. -/
def readExponent (text : List Char) : Option Int :=
  let (negative, body) := match text with
    | '-' :: rest => (true, rest)
    | '+' :: rest => (false, rest)
    | rest => (false, rest)
  let (numerals, rest) := spanDigits body
  if numerals.isEmpty || !rest.isEmpty then none
  else some (if negative then -(ofDigits numerals : Int) else ofDigits numerals)

def readMagnitude (negative : Bool) (text : List Char) : Option Numeral :=
  let (whole, afterWhole) := spanDigits text
  let (fraction, rest) := match afterWhole with
    | '.' :: afterPoint => spanDigits afterPoint
    | other => ([], other)
  if whole.isEmpty && fraction.isEmpty then none
  else
    let coefficient := ofDigits (whole ++ fraction)
    match rest with
    | [] => some ⟨negative, coefficient, -fraction.length⟩
    | letter :: afterLetter =>
        if letter = 'e' || letter = 'E' then
          (readExponent afterLetter).map fun exponent =>
            ⟨negative, coefficient, exponent - fraction.length⟩
        else none

/-- The nearest double, a tie to the even one. Exponents far outside the range of doubles are
settled first. -/
def toFloat (numeral : Numeral) : Float :=
  let leading := numeral.exponent + (digits numeral.coefficient).length
  let magnitude : Float :=
    if numeral.coefficient = 0 || leading < -330 then 0.0
    else if 330 < leading then 1.0 / 0.0
    else .ofScientific numeral.coefficient (numeral.exponent < 0) numeral.exponent.natAbs
  if numeral.negative then -magnitude else magnitude

end Numeral

def lowered (text : List Char) : String := String.ofList (text.map Char.toLower)

def readMagnitude (negative : Bool) (text : List Char) : Option Float :=
  match lowered text with
  | "inf" | "infinity" => some (if negative then -1.0 / 0.0 else 1.0 / 0.0)
  | "nan" => some (0.0 / 0.0)
  | _ => (Numeral.readMagnitude negative text).map Numeral.toFloat

def readFloat (text : String) : Option Float :=
  match text.toList with
  | '-' :: rest => readMagnitude true rest
  | '+' :: rest => readMagnitude false rest
  | rest => readMagnitude false rest

/-- The value of a digit in a base of at most thirty-six. -/
def digitValue (base : Nat) (numeral : Char) : Option Nat :=
  let value :=
    if numeral.isDigit then some (numeral.toNat - '0'.toNat)
    else if 'a' ≤ numeral && numeral ≤ 'z' then some (numeral.toNat - 'a'.toNat + 10)
    else if 'A' ≤ numeral && numeral ≤ 'Z' then some (numeral.toNat - 'A'.toNat + 10)
    else none
  value.filter (· < base)

def readDigits (base : Nat) (text : List Char) : Option Nat :=
  if text.isEmpty then none
  else text.foldlM (fun total numeral => (digitValue base numeral).map (base * total + ·)) 0

/-- A whole number in decimal with an optional sign. -/
def readInt (text : List Char) : Option Int :=
  match text with
  | '-' :: rest => (readDigits 10 rest).map fun magnitude => -(magnitude : Int)
  | '+' :: rest => (readDigits 10 rest).map Int.ofNat
  | rest => (readDigits 10 rest).map Int.ofNat

end BehaviorTree.Decimal
