import BehaviorTree.Yaml
import BehaviorTree.Yaml.Cursor

/-!
The scalars of a document: quoted, plain, and in blocks of lines.
-/

namespace BehaviorTree.Yaml

/-! Quoted scalars. -/

/-- What a backslash and a letter stand for in double quotes. -/
def escapes : List (Char × Char) :=
  [('0', '\x00'), ('a', '\x07'), ('b', '\x08'), ('t', '\t'), ('\t', '\t'), ('n', '\n'),
    ('v', '\x0b'), ('f', '\x0c'), ('r', '\r'), ('e', '\x1b'), (' ', ' '), ('"', '"'), ('/', '/'),
    ('\\', '\\'), ('N', '\u0085'), ('_', '\u00a0'), ('L', '\u2028'), ('P', '\u2029')]

/-- How many hexadecimal digits follow the letter of an escape. -/
def escapeLength? : Char → Option Nat
  | 'x' => some 2
  | 'u' => some 4
  | 'U' => some 8
  | _ => none

/-- The character that an escape stands for after its backslash, and the length of the rest of the
escape. -/
def readEscape : List Char → Option (Char × Nat)
  | [] => none
  | letter :: rest =>
      match escapes.find? (·.1 = letter), escapeLength? letter with
      | some (_, char), _ => some (char, 1)
      | none, some length => do
          let digits := rest.take length
          if digits.length < length then none
          else do
            let code ← Decimal.readDigits 16 digits
            if (0xD800 ≤ code && code < 0xE000) || 0x10FFFF < code then none
            else some (Char.ofNat code, length + 1)
      | none, none => none

/-- The words of a quoted scalar up to its closing quote, each with the white space after it. -/
def readQuoted (isSingle : Bool) : Nat → Cursor → Option (List Char × Cursor)
  | 0, _ => none
  | fuel + 1, cursor =>
      if cursor.atDocumentMark then none
      else
        let proceed (chars : List Char) (next : Cursor) : Option (List Char × Cursor) := do
          let (more, after) ← readQuoted isSingle fuel next
          return (chars ++ more, after)
        let overGap (next : Cursor) (gap : Gap) : Option (List Char × Cursor) := do
          let (passed, after) ← Gap.scan 0 next.rest.length next gap
          proceed passed.text after
        match isSingle, cursor.rest with
        | _, [] => none
        | true, '\'' :: '\'' :: _ => proceed ['\''] (cursor.advance 2)
        | true, '\'' :: _ => some ([], cursor.advance 1)
        | false, '"' :: _ => some ([], cursor.advance 1)
        | false, '\\' :: char :: rest =>
            if isBreak char then overGap (cursor.advance 1).lineBreak.2 { isBroken := true }
            else do
              let (meant, length) ← readEscape (char :: rest)
              proceed [meant] (cursor.advance (length + 1))
        | _, char :: _ =>
            if isSolid char then proceed [char] (cursor.advance 1) else overGap cursor {}

/-! Plain scalars. -/

def isFlowMark (char : Char) : Bool := [',', '[', ']', '{', '}'].contains char

/-- The rest of a word in a plain scalar. In a flow a colon must not touch one of its marks. -/
def readWord (inFlow : Bool) : List Char → Option (List Char)
  | [] => some []
  | char :: rest =>
      let touches := match rest with
        | next :: _ => isFlowMark next || next == '?'
        | [] => false
      if !isSolid char then some []
      else if inFlow && char = ':' && touches then none
      else if char = ':' && endsWord rest then some []
      else if inFlow && isFlowMark char then some []
      else (readWord inFlow rest).map (char :: ·)

/-- A plain scalar without the white space that follows it, whether a line ended after it, and the
place behind both. -/
structure Plain where
  chars : List Char
  cursor : Cursor
  isBroken : Bool

/-- Goes on with a plain scalar after `gap`. It ends before a comment, at a document mark, and
where a line is not indented by `indent`. -/
def readPlain (inFlow : Bool) (indent : Nat) : Nat → Cursor → Gap → Option Plain
  | 0, cursor, gap => some ⟨[], cursor, gap.isBroken⟩
  | fuel + 1, cursor, gap =>
      let stops := cursor.atDocumentMark || cursor.rest.head? = some '#' ||
        (!inFlow && gap.isBroken && cursor.column < indent)
      if stops then some ⟨[], cursor, gap.isBroken⟩
      else do
        let word ← readWord inFlow cursor.rest
        let behind := cursor.advance word.length
        let endsHere := match behind.rest with
          | char :: _ => isSolid char
          | [] => true
        if endsHere then
          return if word.isEmpty then ⟨[], behind, gap.isBroken⟩
            else ⟨gap.text ++ word, behind, false⟩
        else
          let (next, after) ← Gap.scan indent behind.rest.length behind {}
          let more ← readPlain inFlow indent fuel after next
          return { more with chars := gap.text ++ word ++ more.chars }

/-! Scalars in blocks of lines. -/

/-- What is kept of the line breaks at the end of a block. -/
inductive Chomping where
  | strip
  | clip
  | keep
  deriving DecidableEq, Repr

structure BlockHeader where
  chomping : Chomping := .clip
  increment : Option Nat := none

def chomping? : Char → Option Chomping
  | '+' => some .keep
  | '-' => some .strip
  | _ => none

/-- An indicator of the indentation, which must not be zero. -/
def increment? (char : Char) : Option (Option Nat) :=
  if !char.isDigit then some none
  else if char = '0' then none
  else some (some (char.toNat - '0'.toNat))

/-- The indicators behind the mark of a block, in either order, and how many there are. -/
def readIndicators (chars : List Char) : Option (BlockHeader × Nat) := do
  match chars with
  | first :: rest =>
      let second := rest.head?.getD ' '
      match chomping? first with
      | some chomping =>
          match ← increment? second with
          | some increment => return ({ chomping, increment := some increment }, 2)
          | none => return ({ chomping }, 1)
      | none =>
          match ← increment? first with
          | none => return ({}, 0)
          | some increment =>
              match chomping? second with
              | some chomping => return ({ chomping, increment := some increment }, 2)
              | none => return ({ increment := some increment }, 1)
  | [] => return ({}, 0)

/-- Empty lines before a line with content. -/
structure Margin where
  breaks : List Char
  /-- The deepest column that was met. -/
  deepest : Nat
  cursor : Cursor

/-- Passes indentation and empty lines. Without a known indentation all blanks are indentation. -/
def readMargin (indent : Option Nat) : Nat → Cursor → Nat → Option Margin
  | 0, cursor, deepest => some ⟨[], deepest, cursor⟩
  | fuel + 1, cursor, deepest =>
      let blanks := (cursor.rest.takeWhile (· = ' ')).length
      let wanted := match indent with
        | none => blanks
        | some column => min blanks (column - cursor.column)
      let behind := cursor.advance wanted
      let reached := max deepest behind.column
      let isShallow := match indent with
        | none => true
        | some column => behind.column < column
      match behind.rest with
      | char :: _ =>
          if isShallow && char = '\t' then none
          else if isBreak char then do
            let (chars, next) := behind.lineBreak
            let margin ← readMargin indent fuel next reached
            return { margin with breaks := chars ++ margin.breaks }
          else some ⟨[], reached, behind⟩
      | [] => some ⟨[], reached, behind⟩

/-- The lines of a block: its text without what stands at its end, the last line break, the breaks
of the empty lines after it, and the place behind. -/
structure BlockLines where
  chars : List Char
  lastBreak : List Char
  emptyBreaks : List Char
  cursor : Cursor

/-- Goes on after a line that ended with `lastBreak` and was followed by empty lines. In a folded
block a break between two lines that do not begin with a blank counts as a blank. -/
def readLines (isFolded : Bool) (indent : Nat) :
    Nat → Cursor → List Char → List Char → Bool → Option BlockLines
  | 0, cursor, lastBreak, emptyBreaks, _ => some ⟨[], lastBreak, emptyBreaks, cursor⟩
  | fuel + 1, cursor, lastBreak, emptyBreaks, wasBlank =>
      if cursor.column ≠ indent || cursor.rest.isEmpty then
        some ⟨[], lastBreak, emptyBreaks, cursor⟩
      else do
        let beginsBlank := (cursor.rest.head?.map isBlank).getD false
        let joined :=
          if isFolded && lastBreak = ['\n'] && !wasBlank && !beginsBlank then
            (if emptyBreaks.isEmpty then [' '] else emptyBreaks)
          else lastBreak ++ emptyBreaks
        let line := cursor.rest.takeWhile fun char => !isBreak char
        let (nextBreak, next) := (cursor.advance line.length).lineBreak
        let margin ← readMargin (some indent) next.rest.length next 0
        let more ← readLines isFolded indent fuel margin.cursor nextBreak margin.breaks beginsBlank
        return { more with chars := joined ++ line ++ more.chars }

/-- A block behind its mark. `outer` is the indentation of what it stands in. -/
def readBlock (isFolded : Bool) (outer : Option Nat) (start : Cursor) :
    Option (List Char × Cursor) := do
  let (header, count) ← readIndicators start.rest
  let behind := ((start.advance count).skipWhile isBlank).skipComment
  if !endsWord behind.rest then none
  else do
    let (_, first) := behind.lineBreak
    let least := match outer with
      | some column => column + 1
      | none => 1
    let known := header.increment.map fun increment => outer.getD 0 + increment
    let margin ← readMargin known first.rest.length first 0
    let indent := known.getD (max margin.deepest least)
    let lines ←
      readLines isFolded indent (margin.cursor.rest.length + 1) margin.cursor [] margin.breaks false
    let ending := match header.chomping with
      | .strip => []
      | .clip => lines.lastBreak
      | .keep => lines.lastBreak ++ lines.emptyBreaks
    return (lines.chars ++ ending, lines.cursor)

end BehaviorTree.Yaml
