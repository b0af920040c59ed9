import BehaviorTree.Decimal.Numeral

/-!
A place in the text of a document: what follows, and how far it is from the beginning of the text
and of its line.
-/

namespace BehaviorTree.Yaml

/-- What may stand in a document at all. -/
def isAllowed (char : Char) : Bool :=
  let point := char.toNat
  point == 0x09 || point == 0x0A || point == 0x0D || (0x20 ≤ point && point ≤ 0x7E) ||
    point == 0x85 || (0xA0 ≤ point && point ≤ 0xD7FF) ||
    (0xE000 ≤ point && point ≤ 0xFFFD && point != 0xFEFF) || 0x10000 ≤ point

def isBlank (char : Char) : Bool := char == ' ' || char == '\t'

def isBreak (char : Char) : Bool :=
  char == '\n' || char == '\r' || char.toNat == 0x85 || char.toNat == 0x2028 ||
    char.toNat == 0x2029

def isSolid (char : Char) : Bool := !isBlank char && !isBreak char

/-- Letters, digits, dashes and underscores, in ASCII. -/
def isWordChar (char : Char) : Bool := char.isAlphanum || char == '-' || char == '_'

/-- Whether a word ends before these characters. -/
def endsWord : List Char → Bool
  | [] => true
  | char :: _ => !isSolid char

structure Cursor where
  rest : List Char
  index : Nat := 0
  line : Nat := 0
  column : Nat := 0

namespace Cursor

/-- Goes on by some characters of the same line. -/
def advance (cursor : Cursor) (count : Nat) : Cursor :=
  { cursor with
    rest := cursor.rest.drop count, index := cursor.index + count, column := cursor.column + count }

/-- The line break at the cursor as it counts in a text, and the place behind it. -/
def lineBreak (cursor : Cursor) : List Char × Cursor :=
  let next (rest : List Char) (count : Nat) : Cursor :=
    { rest, index := cursor.index + count, line := cursor.line + 1, column := 0 }
  match cursor.rest with
  | '\r' :: '\n' :: rest => (['\n'], next rest 2)
  | char :: rest =>
      if char.toNat == 0x2028 || char.toNat == 0x2029 then ([char], next rest 1)
      else if isBreak char then (['\n'], next rest 1)
      else ([], cursor)
  | [] => ([], cursor)

def skipWhile (cursor : Cursor) (holds : Char → Bool) : Cursor :=
  cursor.advance (cursor.rest.takeWhile holds).length

/-- Passes a comment, if one begins here. -/
def skipComment (cursor : Cursor) : Cursor :=
  match cursor.rest with
  | '#' :: _ => cursor.skipWhile fun char => !isBreak char
  | _ => cursor

def atBreak (cursor : Cursor) : Bool :=
  match cursor.rest with
  | char :: _ => isBreak char
  | [] => false

/-- Whether three dashes or three dots stand here at the beginning of a line. -/
def atDocumentMark (cursor : Cursor) : Bool :=
  cursor.column == 0 &&
    match cursor.rest with
    | '-' :: '-' :: '-' :: rest => endsWord rest
    | '.' :: '.' :: '.' :: rest => endsWord rest
    | _ => false

end Cursor

/-- White space between the words of a scalar. Breaks outweigh blanks. -/
structure Gap where
  blanks : List Char := []
  firstBreak : List Char := []
  moreBreaks : List Char := []
  isBroken : Bool := false

namespace Gap

/-- A single break counts as a blank, and of several the first does not count. -/
def text (gap : Gap) : List Char :=
  if !gap.isBroken then gap.blanks
  else if gap.firstBreak = ['\n'] then (if gap.moreBreaks.isEmpty then [' '] else gap.moreBreaks)
  else gap.firstBreak ++ gap.moreBreaks

/-- Adds a break. -/
def addBreak (gap : Gap) (chars : List Char) : Gap :=
  if gap.isBroken then { gap with moreBreaks := gap.moreBreaks ++ chars }
  else { gap with blanks := [], firstBreak := chars, isBroken := true }

/-- Passes white space. A tab must not stand where a plain scalar is indented, that is left of
`indent`. -/
def scan (indent : Nat) : Nat → Cursor → Gap → Option (Gap × Cursor)
  | 0, cursor, gap => some (gap, cursor)
  | fuel + 1, cursor, gap =>
      match cursor.rest with
      | char :: _ =>
          if isBlank char then
            if gap.isBroken then
              if char = '\t' && cursor.column < indent then none
              else scan indent fuel (cursor.advance 1) gap
            else scan indent fuel (cursor.advance 1) { gap with blanks := gap.blanks ++ [char] }
          else if isBreak char then
            let (chars, next) := cursor.lineBreak
            scan indent fuel next (gap.addBreak chars)
          else some (gap, cursor)
      | [] => some (gap, cursor)

end Gap

end BehaviorTree.Yaml
