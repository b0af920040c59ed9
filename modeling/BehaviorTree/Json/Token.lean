import BehaviorTree.Datum

/-!
The words of JSON text. A number is an integer as long as it fits 64 bits and has neither a
fraction nor an exponent; otherwise it is the double that its leading digits, as many as fit 64
bits, give when multiplied or divided by one power of ten.
-/

namespace BehaviorTree.Json

inductive Token where
  | openList
  | closeList
  | openRecord
  | closeRecord
  | comma
  | colon
  /-- A number, a truth value or null. -/
  | plain (datum : Datum)
  /-- A text, unless its escapes do not make up characters. -/
  | text (content : Option String)

def isSpace (char : Char) : Bool := char == ' ' || char == '\t' || char == '\n' || char == '\r'

/-! Texts. -/

/-- What an escape of four hexadecimal digits or any other character in quotes contributes. -/
inductive Piece where
  | char (char : Char)
  | unit (code : Nat)
  deriving DecidableEq, Repr

/-- The characters that a backslash and a letter stand for. -/
def escapes : List (Char × Char) :=
  [('"', '"'), ('\\', '\\'), ('/', '/'), ('b', '\x08'), ('f', '\x0c'), ('n', '\n'), ('r', '\r'),
    ('t', '\t')]

def unescape? (letter : Char) : Option Char := (escapes.find? (·.1 = letter)).map (·.2)

/-- Splits what follows an opening quote at the closing one. Control characters may not stand in
quotes. -/
def readPieces : List Char → Option (List Piece × List Char)
  | [] => none
  | '"' :: rest => some ([], rest)
  | '\\' :: 'u' :: first :: second :: third :: fourth :: rest => do
      let code ← Decimal.readDigits 16 [first, second, third, fourth]
      let (pieces, after) ← readPieces rest
      return (.unit code :: pieces, after)
  | '\\' :: letter :: rest => do
      let char ← unescape? letter
      let (pieces, after) ← readPieces rest
      return (.char char :: pieces, after)
  | char :: rest =>
      if char = '\\' || char.toNat < 0x20 then none
      else do
        let (pieces, after) ← readPieces rest
        return (.char char :: pieces, after)

def isHighUnit (code : Nat) : Bool := 0xD800 ≤ code && code < 0xDC00

def isLowUnit (code : Nat) : Bool := 0xDC00 ≤ code && code < 0xE000

/-- A high unit and the low one after it make one character; alone they make none. -/
def joinPieces : List Piece → Option (List Char)
  | [] => some []
  | .char char :: rest => (joinPieces rest).map (char :: ·)
  | .unit high :: .unit low :: rest =>
      if isHighUnit high then
        if isLowUnit low then
          (joinPieces rest).map
            (Char.ofNat (0x10000 + (high - 0xD800) * 0x400 + (low - 0xDC00)) :: ·)
        else none
      else if isLowUnit high then none
      else (joinPieces (.unit low :: rest)).map (Char.ofNat high :: ·)
  | .unit code :: rest =>
      if isHighUnit code || isLowUnit code then none
      else (joinPieces rest).map (Char.ofNat code :: ·)

/-! Numbers. -/

/-- The parts of a number as written. -/
structure Literal where
  negative : Bool
  whole : List Char
  fraction : List Char
  exponent : Option Int
  deriving Repr

def isNumeralChar (char : Char) : Bool :=
  char.isDigit || char == '-' || char == '+' || char == '.' || char == 'e' || char == 'E'

def readExponentPart : List Char → Option (Option Int)
  | [] => some none
  | letter :: rest =>
      if letter = 'e' || letter = 'E' then (Decimal.Numeral.readExponent rest).map some else none

def readFractionPart : List Char → Option (List Char × List Char)
  | '.' :: rest =>
      let (numerals, after) := Decimal.spanDigits rest
      if numerals.isEmpty then none else some (numerals, after)
  | rest => some ([], rest)

/-- A number does not begin with a zero that could be left out. -/
def isWholePart (numerals : List Char) : Bool :=
  match numerals with
  | [] => false
  | '0' :: _ :: _ => false
  | _ => true

def readMagnitude (negative : Bool) (chars : List Char) : Option Literal := do
  let (whole, afterWhole) := Decimal.spanDigits chars
  if !isWholePart whole then none
  else do
    let (fraction, afterFraction) ← readFractionPart afterWhole
    let exponent ← readExponentPart afterFraction
    return { negative, whole, fraction, exponent }

def readLiteral : List Char → Option Literal
  | '-' :: rest => readMagnitude true rest
  | rest => readMagnitude false rest

/-- The longest run of leading digits whose value is below 2^64, and the other digits. -/
def leadingDigits (value : Nat) : List Char → Nat × List Char
  | [] => (value, [])
  | numeral :: rest =>
      let next := 10 * value + (numeral.toNat - '0'.toNat)
      if next < Nat.pow 2 64 then leadingDigits next rest else (value, numeral :: rest)

def powerOfTen (exponent : Nat) : Float := .ofScientific 1 false exponent

/-- Scales a double by a power of ten; `none` if it becomes too large. A division by more than the
largest power of ten among the doubles takes several steps, after which nothing is left. -/
def scaleWithin : Nat → Float → Int → Option Float
  | 0, value, _ => some value
  | steps + 1, value, exponent =>
      if value == 0.0 then some value
      else if 308 < exponent then none
      else if 0 ≤ exponent then
        let product := value * powerOfTen exponent.toNat
        if product.isInf then none else some product
      else if -308 ≤ exponent then some (value / powerOfTen exponent.natAbs)
      else scaleWithin steps (value / powerOfTen 308) (exponent + 308)

def scale? (significand : Float) (exponent : Int) : Option Float :=
  scaleWithin 4 significand exponent

namespace Literal

/-- The double of a number that is not a machine integer. -/
def float? (literal : Literal) : Option Float :=
  let (whole, wholeRest) := leadingDigits 0 literal.whole
  let (value, fractionRest) := leadingDigits whole literal.fraction
  let taken := literal.fraction.length - fractionRest.length
  let exponent : Int := literal.exponent.getD 0 + wholeRest.length - taken
  (scale? (.ofNat value) exponent).map fun magnitude =>
    if literal.negative then -magnitude else magnitude

/-- The integer, if the number is written as one and is in range. There is no negative zero among
the integers. -/
def int? (literal : Literal) : Option Int :=
  let value : Int := Decimal.ofDigits literal.whole
  if !literal.fraction.isEmpty || literal.exponent.isSome then none
  else if literal.negative then (if 0 < value ∧ value ≤ Nat.pow 2 63 then some (-value) else none)
  else if value < Nat.pow 2 64 then some value
  else none

def datum (literal : Literal) : Datum :=
  match literal.int? with
  | some number => .int number
  | none =>
      match literal.float? with
      | some number => .float number
      | none => .unreadable

end Literal

/-! Words. -/

def word? (chars : List Char) : Option Datum :=
  if chars = "null".toList then some .null
  else if chars = "true".toList then some (.bool true)
  else if chars = "false".toList then some (.bool false)
  else none

def mark? : Char → Option Token
  | '[' => some .openList
  | ']' => some .closeList
  | '{' => some .openRecord
  | '}' => some .closeRecord
  | ',' => some .comma
  | ':' => some .colon
  | _ => none

/-- The first token and the characters after it, given that there is no space before it. -/
def first? (char : Char) (rest : List Char) : Option (Token × List Char) :=
  match mark? char with
  | some token => some (token, rest)
  | none =>
      if char = '"' then do
        let (pieces, after) ← readPieces rest
        return (.text ((joinPieces pieces).map String.ofList), after)
      else if char = '-' || char.isDigit then do
        let literal ← readLiteral (char :: rest.takeWhile isNumeralChar)
        return (.plain literal.datum, rest.dropWhile isNumeralChar)
      else do
        let datum ← word? (char :: rest.takeWhile Char.isAlpha)
        return (.plain datum, rest.dropWhile Char.isAlpha)

def tokensWithin : Nat → List Char → Option (List Token)
  | _, [] => some []
  | 0, _ :: _ => none
  | fuel + 1, char :: rest =>
      if isSpace char then tokensWithin fuel rest
      else do
        let (token, after) ← first? char rest
        let tokens ← tokensWithin fuel after
        return token :: tokens

/-- All tokens of a text, if it consists of such. -/
def tokens (chars : List Char) : Option (List Token) := tokensWithin chars.length chars

end BehaviorTree.Json
