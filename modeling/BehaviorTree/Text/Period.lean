import BehaviorTree.Decimal.Layout

/-!
Spans of time in writing. A span of whole milliseconds is given in seconds from one second on,
else in milliseconds, and the empty span in nanoseconds; a fraction has no trailing zeros.
-/

namespace BehaviorTree.Text

/-- Three digits, without the zeros at their end. -/
def thousandths (count : Nat) : List Char :=
  let padded := List.replicate (3 - (Decimal.digits count).length) '0' ++ Decimal.digits count
  (padded.reverse.dropWhile (· = '0')).reverse

def period (milliseconds : Nat) : String :=
  let seconds := Decimal.digits (milliseconds / 1000)
  let fraction := milliseconds % 1000
  String.ofList <|
    if milliseconds = 0 then "0ns".toList
    else if milliseconds < 1000 then Decimal.digits milliseconds ++ "ms".toList
    else if fraction = 0 then seconds ++ ['s']
    else seconds ++ '.' :: thousandths fraction ++ ['s']

end BehaviorTree.Text
