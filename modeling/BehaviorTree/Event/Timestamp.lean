import BehaviorTree.Decimal.Layout
import BehaviorTree.Text.Blank

/-!
Moments in writing, as dates and times of day with their distance from universal time. They are
kept and written in universal time, with no, three, six or nine digits of the second.
-/

namespace BehaviorTree

/-- A moment in universal time. During a leap second there are more nanoseconds than in others. -/
structure Timestamp where
  /-- Seconds since the beginning of 1970, leap seconds aside. -/
  second : Int := 0
  nanosecond : Nat := 0
  deriving DecidableEq, Repr, Inhabited

/-- A day of the Gregorian calendar, which is extended to all years. -/
structure Date where
  year : Int
  month : Nat
  day : Nat
  deriving DecidableEq, Repr

namespace Date

def isLeap (year : Int) : Bool := year % 4 == 0 && (year % 100 != 0 || year % 400 == 0)

def daysIn (year : Int) (month : Nat) : Nat :=
  if month = 2 then (if isLeap year then 29 else 28)
  else if [4, 6, 9, 11].contains month then 30
  else 31

def isValid (date : Date) : Bool :=
  1 ≤ date.month && date.month ≤ 12 && 1 ≤ date.day && date.day ≤ daysIn date.year date.month

/-- Days since the beginning of 1970. Years are counted from March, so that a leap day is the last
of its year. -/
def dayNumber (date : Date) : Int :=
  let year := if date.month ≤ 2 then date.year - 1 else date.year
  let month : Int := if date.month ≤ 2 then date.month + 9 else date.month - 3
  let dayOfYear := (153 * month + 2) / 5 + date.day - 1
  365 * year + year / 4 - year / 100 + year / 400 + dayOfYear - 719468

def ofDayNumber (number : Int) : Date :=
  let shifted := number + 719468
  let era := shifted / 146097
  let dayOfEra := shifted % 146097
  let yearOfEra :=
    (dayOfEra - dayOfEra / 1460 + dayOfEra / 36524 - dayOfEra / 146096) / 365
  let dayOfYear := dayOfEra - (365 * yearOfEra + yearOfEra / 4 - yearOfEra / 100)
  let month := (5 * dayOfYear + 2) / 153
  let day := dayOfYear - (153 * month + 2) / 5 + 1
  let civil := if month < 10 then month + 3 else month - 9
  let year := yearOfEra + era * 400
  { year := if civil ≤ 2 then year + 1 else year, month := civil.toNat, day := day.toNat }

end Date

namespace Timestamp

/-! Reading. -/

def dropBlank (chars : List Char) : List Char := chars.dropWhile Text.isBlank

/-- At least one and at most so many digits, with what follows. -/
def readNumber (most : Nat) (chars : List Char) : Option (Nat × List Char) :=
  let digits := (chars.take most).takeWhile Char.isDigit
  if digits.isEmpty then none else some (Decimal.ofDigits digits, chars.drop digits.length)

/-- A year has four digits at most, or a sign and any number of digits. -/
def readYear (chars : List Char) : Option (Int × List Char) :=
  match chars with
  | '-' :: rest => (readNumber rest.length rest).map fun (year, after) => (-(year : Int), after)
  | '+' :: rest => (readNumber rest.length rest).map fun (year, after) => ((year : Int), after)
  | rest => (readNumber 4 rest).map fun (year, after) => ((year : Int), after)

/-- A separator and a number of at most two digits, with blanks around the separator. -/
def readPart (separator : Char) (chars : List Char) : Option (Nat × List Char) :=
  match dropBlank chars with
  | first :: rest => if first = separator then readNumber 2 (dropBlank rest) else none
  | [] => none

def readDate (chars : List Char) : Option (Date × List Char) := do
  let (year, afterYear) ← readYear (dropBlank chars)
  let (month, afterMonth) ← readPart '-' afterYear
  let (day, afterDay) ← readPart '-' afterMonth
  return ({ year, month, day }, afterDay)

/-- Digits behind a point; those beyond the ninth are passed over. -/
def readFraction (chars : List Char) : Option (Nat × List Char) :=
  match chars with
  | '.' :: rest => do
      let digits := (rest.take 9).takeWhile Char.isDigit
      if digits.isEmpty then none
      else
        let nanoseconds := Decimal.ofDigits digits * Nat.pow 10 (9 - digits.length)
        return (nanoseconds, rest.dropWhile Char.isDigit)
  | rest => some (0, rest)

/-- The seconds and nanoseconds of a time of day. -/
def readTime (chars : List Char) : Option ((Nat × Nat) × List Char) := do
  let (hour, afterHour) ← readNumber 2 (dropBlank chars)
  let (minute, afterMinute) ← readPart ':' afterHour
  let (second, afterSecond) ← readPart ':' afterMinute
  let (fraction, after) ← readFraction afterSecond
  if 24 ≤ hour || 60 ≤ minute || 61 ≤ second then none
  else
    let whole := 3600 * hour + 60 * minute
    return (if second = 60 then (whole + 59, 1000000000 + fraction)
      else (whole + second, fraction), after)

def readTwoDigits (chars : List Char) : Option (Nat × List Char) :=
  match chars with
  | first :: second :: rest =>
      if first.isDigit && second.isDigit then some (Decimal.ofDigits [first, second], rest)
      else none
  | _ => none

def isColonOrBlank (char : Char) : Bool := char == ':' || Text.isBlank char

/-- Hours and minutes in seconds. -/
def readDistance (chars : List Char) : Option (Int × List Char) := do
  let (hours, afterHours) ← readTwoDigits chars
  let (minutes, after) ← readTwoDigits (afterHours.dropWhile isColonOrBlank)
  if 60 ≤ minutes then none else return (3600 * hours + 60 * minutes, after)

/-- The distance from universal time, in seconds. -/
def readOffset (chars : List Char) : Option (Int × List Char) :=
  if (chars.take 3).map Char.toUpper = "UTC".toList then some (0, chars.drop 3)
  else
    match chars with
    | 'Z' :: rest => some (0, rest)
    | 'z' :: rest => some (0, rest)
    | '+' :: rest => readDistance rest
    | '-' :: rest => (readDistance rest).map fun (distance, after) => (-distance, after)
    | '\u2212' :: rest => (readDistance rest).map fun (distance, after) => (-distance, after)
    | _ => none

def firstYear : Int := -262143

def lastYear : Int := 262142

def isInRange (year : Int) : Bool := firstYear ≤ year && year ≤ lastYear

def read (text : String) : Option Timestamp := do
  let (date, afterDate) ← readDate text.toList
  match afterDate with
  | separator :: rest =>
      if !(separator == 't' || separator == 'T' || separator == ' ') then none
      else do
        let ((seconds, nanosecond), afterTime) ← readTime rest
        let (offset, after) ← readOffset (dropBlank afterTime)
        let second := 86400 * date.dayNumber + seconds - offset
        let isSound := date.isValid && isInRange date.year && offset.natAbs < 86400 &&
          isInRange (Date.ofDayNumber (second / 86400)).year && (dropBlank after).isEmpty
        if isSound then return { second, nanosecond } else none
  | [] => none

/-! Writing. -/

/-- Digits filled up with zeros to a width. -/
def padded (width number : Nat) : List Char :=
  let digits := Decimal.digits number
  List.replicate (width - digits.length) '0' ++ digits

/-- Years of other than four digits have a sign. -/
def yearChars (year : Int) : List Char :=
  if 0 ≤ year ∧ year ≤ 9999 then padded 4 year.toNat
  else (if year < 0 then '-' else '+') :: padded 4 year.natAbs

def fractionChars (nanosecond : Nat) : List Char :=
  if nanosecond = 0 then []
  else if nanosecond % 1000000 = 0 then '.' :: padded 3 (nanosecond / 1000000)
  else if nanosecond % 1000 = 0 then '.' :: padded 6 (nanosecond / 1000)
  else '.' :: padded 9 nanosecond

def write (timestamp : Timestamp) : String :=
  let date := Date.ofDayNumber (timestamp.second / 86400)
  let ofDay := (timestamp.second % 86400).toNat
  let leap := timestamp.nanosecond / 1000000000
  String.ofList <|
    yearChars date.year ++ '-' :: padded 2 date.month ++ '-' :: padded 2 date.day ++
      'T' :: padded 2 (ofDay / 3600) ++ ':' :: padded 2 (ofDay / 60 % 60) ++
      ':' :: padded 2 (ofDay % 60 + leap) ++
      fractionChars (timestamp.nanosecond % 1000000000) ++ ['Z']

end Timestamp

end BehaviorTree
