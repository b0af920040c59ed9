import BehaviorTree.Datum
import BehaviorTree.Text.Quoted

/-!
Writing JSON text, on one line or indented. Doubles that are no numbers are written as null.
-/

namespace BehaviorTree.Json

/-- Doubles are written positionally from 10^-5 up to 10^16, and always with a point or an
exponent. -/
def layout : Decimal.Layout where
  positional := some (-5, 15)
  wholeEnding := ".0"
  plus := "+"
  zero := "0.0"
  negativeZero := "-0.0"
  nan := "null"
  infinity := "null"
  negativeInfinity := "null"

/-- Quotes, backslashes and control characters are escaped, everything else stands for itself. -/
def escaped (char : Char) : List Char :=
  if char = '"' then ['\\', '"']
  else if char = '\\' then ['\\', '\\']
  else if char = '\x08' then ['\\', 'b']
  else if char = '\x0c' then ['\\', 'f']
  else if char = '\n' then ['\\', 'n']
  else if char = '\r' then ['\\', 'r']
  else if char = '\t' then ['\\', 't']
  else if char.toNat < 0x10 then ['\\', 'u', '0', '0', '0'] ++ Text.hexadecimal char.toNat
  else if char.toNat < 0x20 then ['\\', 'u', '0', '0'] ++ Text.hexadecimal char.toNat
  else [char]

def quoted (text : String) : List Char := '"' :: text.toList.flatMap escaped ++ ['"']

def keyChars : Key → List Char
  | .name text => quoted text
  | .position index => '"' :: Decimal.digits index ++ ['"']
  | .other => quoted ""

def word (chars : String) : List Char := chars.toList

def plainChars : Datum → List Char
  | .bool true => word "true"
  | .bool false => word "false"
  | .int number => Decimal.ofInt number
  | .float number => word (layout.ofFloat number)
  | .text chars => quoted chars
  | _ => word "null"

mutual

def chars : Datum → List Char
  | .list items => '[' :: itemChars items ++ [']']
  | .record entries => '\x7b' :: entryChars entries ++ ['\x7d']
  | plain => plainChars plain

def itemChars : List Datum → List Char
  | [] => []
  | [item] => chars item
  | item :: next :: rest => chars item ++ ',' :: itemChars (next :: rest)

def entryChars : List (Key × Datum) → List Char
  | [] => []
  | [(key, datum)] => keyChars key ++ ':' :: chars datum
  | (key, datum) :: next :: rest =>
      keyChars key ++ ':' :: chars datum ++ ',' :: entryChars (next :: rest)

end

def write (datum : Datum) : String := String.ofList (chars datum)

/-! Indented by two blanks for each level, one item a line. -/

def newLine (level : Nat) : List Char := '\n' :: List.replicate (2 * level) ' '

mutual

def indented (level : Nat) : Datum → List Char
  | .list [] => ['[', ']']
  | .list (item :: rest) =>
      '[' :: newLine (level + 1) ++ indentedItems (level + 1) (item :: rest) ++
        newLine level ++ [']']
  | .record [] => ['\x7b', '\x7d']
  | .record (entry :: rest) =>
      '\x7b' :: newLine (level + 1) ++ indentedEntries (level + 1) (entry :: rest) ++
        newLine level ++ ['\x7d']
  | plain => plainChars plain

def indentedItems (level : Nat) : List Datum → List Char
  | [] => []
  | [item] => indented level item
  | item :: next :: rest =>
      indented level item ++ ',' :: newLine level ++ indentedItems level (next :: rest)

def indentedEntries (level : Nat) : List (Key × Datum) → List Char
  | [] => []
  | [(key, datum)] => keyChars key ++ ':' :: ' ' :: indented level datum
  | (key, datum) :: next :: rest =>
      keyChars key ++ ':' :: ' ' :: indented level datum ++ ',' :: newLine level ++
        indentedEntries level (next :: rest)

end

def writeIndented (datum : Datum) : String := String.ofList (indented 0 datum)

end BehaviorTree.Json
