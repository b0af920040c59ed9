import BehaviorTree.Yaml.Scalar

/-!
The tokens of a document. Indentation becomes explicit: deeper lines open a block and shallower
ones close it. Whether a scalar is a key shows only at the colon after it, so every place where a
key could begin is remembered until then.
-/

namespace BehaviorTree.Yaml

inductive Token where
  | version (major minor : Nat)
  | handle (handle start : String)
  | documentStart
  | documentEnd
  | blockSequence
  | blockMapping
  | blockEnd
  | flowSequence
  | flowSequenceEnd
  | flowMapping
  | flowMappingEnd
  | blockEntry
  | flowEntry
  | key
  | value
  | alias (name : String)
  | anchor (name : String)
  | tag (handle suffix : String)
  | scalar (style : Style) (text : String)
  deriving DecidableEq, Repr

/-- A place where a key may have begun, and the number of tokens before it. One that stands where
a key has to be is required. -/
structure PossibleKey where
  count : Nat
  index : Nat
  line : Nat
  column : Nat
  isRequired : Bool

structure Scanner where
  cursor : Cursor
  /-- The tokens so far, the latest first. -/
  tokens : List Token := []
  /-- The columns of the open blocks, the innermost first. -/
  indents : List Nat := []
  /-- For every open flow, and for what they stand in, the place where a key may have begun. -/
  keys : List (Option PossibleKey) := [none]
  flowLevel : Nat := 0
  keyAllowed : Bool := true

namespace Scanner

def inFlow (scanner : Scanner) : Bool := scanner.flowLevel != 0

def indent? (scanner : Scanner) : Option Nat := scanner.indents.head?

/-- The least column of a line that goes on with what is indented. -/
def leastColumn (scanner : Scanner) : Nat :=
  match scanner.indent? with
  | some column => column + 1
  | none => 0

def emit (scanner : Scanner) (token : Token) : Scanner :=
  { scanner with tokens := token :: scanner.tokens }

/-- Puts tokens where only `count` tokens stand before them. -/
def insertAt (scanner : Scanner) (count : Nat) (inserted : List Token) : Scanner :=
  let later := scanner.tokens.length - count
  { scanner with
    tokens :=
      scanner.tokens.take later ++ inserted.reverse ++ scanner.tokens.drop later }

def skip (scanner : Scanner) (count : Nat) : Scanner :=
  { scanner with cursor := scanner.cursor.advance count }

def allowKey (scanner : Scanner) (allowed : Bool) : Scanner :=
  { scanner with keyAllowed := allowed }

/-- A key stands on one line and within 1024 characters. -/
def isStale (cursor : Cursor) (key : PossibleKey) : Bool :=
  key.line < cursor.line || key.index + 1024 < cursor.index

/-- Forgets a place where a key may have begun; that is a fault if there had to be one. -/
def forget : Option PossibleKey → Option (Option PossibleKey)
  | some key => if key.isRequired then none else some none
  | none => some none

def dropStale (scanner : Scanner) : Option Scanner := do
  let keys ← scanner.keys.mapM fun key =>
    match key with
    | some place => if isStale scanner.cursor place then forget key else some key
    | none => some none
  return { scanner with keys }

def forgetKey (scanner : Scanner) : Option Scanner := do
  match scanner.keys with
  | [] => return scanner
  | key :: rest =>
      let forgotten ← forget key
      return { scanner with keys := forgotten :: rest }

/-- Remembers that a key may begin here. -/
def rememberKey (scanner : Scanner) : Option Scanner :=
  if !scanner.keyAllowed then some scanner
  else do
    let cleared ← scanner.forgetKey
    let cursor := scanner.cursor
    let place : PossibleKey :=
      { count := scanner.tokens.length, index := cursor.index, line := cursor.line
        column := cursor.column
        isRequired := !scanner.inFlow && scanner.indent? == some cursor.column }
    return { cleared with keys := some place :: cleared.keys.drop 1 }

def isDeeper (scanner : Scanner) (column : Nat) : Bool :=
  match scanner.indent? with
  | some outer => outer < column
  | none => true

/-- Opens a block if the column is deeper than the block that is open. -/
def openBlock (scanner : Scanner) (column : Nat) (token : Token) : Scanner :=
  if scanner.inFlow || !scanner.isDeeper column then scanner
  else { scanner.emit token with indents := column :: scanner.indents }

/-- Closes the blocks deeper than a column; without a column, all. -/
def closeBlocks (scanner : Scanner) (column : Option Nat) : Scanner :=
  if scanner.inFlow then scanner
  else
    let isClosed (indent : Nat) : Bool :=
      match column with
      | some least => least < indent
      | none => true
    let closed := scanner.indents.takeWhile isClosed
    { scanner with
      indents := scanner.indents.drop closed.length
      tokens := closed.map (fun _ => Token.blockEnd) ++ scanner.tokens }

/-! Words of one line. -/

/-- A name behind a star or an ampersand. -/
def readName (chars : List Char) : Option (List Char) :=
  let name := chars.takeWhile isWordChar
  let endsWell := match chars.drop name.length with
    | [] => true
    | char :: _ => !isSolid char || "?:,]\x7d%@\x60".toList.contains char
  if name.isEmpty || !endsWell then none else some name

def isUriChar (withFlowMarks : Bool) (char : Char) : Bool :=
  isWordChar char || ";/?:@&=+$.%!~*'()".toList.contains char ||
    (withFlowMarks && ",[]".toList.contains char)

/-- Bytes that are written as escapes make up characters. -/
def decodeUri : List Char → Option (List UInt8)
  | [] => some []
  | '%' :: first :: second :: rest => do
      let code ← Decimal.readDigits 16 [first, second]
      return UInt8.ofNat code :: (← decodeUri rest)
  | char :: rest =>
      if char = '%' then none
      else do return (String.singleton char).toUTF8.toList ++ (← decodeUri rest)

def uriText (chars : List Char) : Option String := do
  String.fromUTF8? ⟨(← decodeUri chars).toArray⟩

/-- The handle of a tag: an exclamation mark, or a word between two of them. -/
def readHandle : List Char → Option (List Char)
  | '!' :: rest =>
      let word := rest.takeWhile isWordChar
      match rest.drop word.length with
      | '!' :: _ => some ('!' :: word ++ ['!'])
      | _ => some ('!' :: word)
  | _ => none

/-- A tag with its length. -/
def readTag (chars : List Char) : Option (Token × Nat) :=
  match chars with
  | '!' :: '<' :: rest => do
      let uri := rest.takeWhile (isUriChar true)
      match rest.drop uri.length with
      | '>' :: _ => if uri.isEmpty then none else return (.tag "" (← uriText uri), uri.length + 3)
      | _ => none
  | _ => do
      let handle ← readHandle chars
      let rest := chars.drop handle.length
      let suffix := rest.takeWhile (isUriChar false)
      let length := handle.length + suffix.length
      if 2 ≤ handle.length && handle.getLast? = some '!' then
        if suffix.isEmpty then none
        else return (.tag (String.ofList handle) (← uriText suffix), length)
      else
        let whole ← uriText (handle.drop 1 ++ suffix)
        return if whole.isEmpty then (.tag "" "!", length) else (.tag "!" whole, length)

def readNumber (chars : List Char) : Option (Nat × Nat) :=
  let digits := chars.takeWhile Char.isDigit
  if digits.isEmpty || 9 < digits.length then none
  else some (Decimal.ofDigits digits, digits.length)

/-- A directive behind its percent sign. -/
def readDirective (chars : List Char) : Option (Token × List Char) := do
  let name := chars.takeWhile isWordChar
  let rest := (chars.drop name.length).dropWhile isBlank
  if !endsWord (chars.drop name.length) then none
  else if name = "YAML".toList then
    let (major, count) ← readNumber rest
    match rest.drop count with
    | '.' :: more =>
        let (minor, length) ← readNumber more
        return (.version major minor, more.drop length)
    | _ => none
  else if name = "TAG".toList then
    let handle ← readHandle rest
    let behind := rest.drop handle.length
    let start := (behind.dropWhile isBlank).takeWhile (isUriChar true)
    let after := (behind.dropWhile isBlank).drop start.length
    let handleEnds := handle = ['!'] || (2 ≤ handle.length && handle.getLast? = some '!')
    let blankBetween := (behind.head?.map isBlank).getD false
    if !handleEnds || !blankBetween || start.isEmpty || !endsWord after then none
    else return (.handle (String.ofList handle) (← uriText start), after)
  else none

/-! One token after another. -/

/-- Passes blanks, comments and line breaks. A tab must not stand where a key may begin. -/
def toNextToken : Nat → Scanner → Scanner
  | 0, scanner => scanner
  | fuel + 1, scanner =>
      let isPassed (char : Char) : Bool :=
        char == ' ' || ((scanner.inFlow || !scanner.keyAllowed) && char == '\t')
      let cursor := (scanner.cursor.skipWhile isPassed).skipComment
      if cursor.atBreak then
        toNextToken fuel
          { scanner with
            cursor := cursor.lineBreak.2, keyAllowed := scanner.keyAllowed || !scanner.inFlow }
      else { scanner with cursor }

def directive (scanner : Scanner) : Option Scanner := do
  let closed ← (scanner.closeBlocks none).forgetKey
  let (token, rest) ← readDirective (scanner.cursor.rest.drop 1)
  let behind := scanner.cursor.advance (scanner.cursor.rest.length - rest.length)
  let after := (behind.skipWhile isBlank).skipComment
  if endsWord after.rest then return { closed.emit token with cursor := after, keyAllowed := false }
  else none

def documentMark (scanner : Scanner) : Option Scanner := do
  let closed ← (scanner.closeBlocks none).forgetKey
  let token : Token :=
    if scanner.cursor.rest.head? = some '-' then .documentStart else .documentEnd
  return ((closed.emit token).allowKey false).skip 3

def openFlow (scanner : Scanner) (token : Token) : Option Scanner := do
  let saved ← scanner.rememberKey
  return (({ saved with keys := none :: saved.keys, flowLevel := saved.flowLevel + 1 }.allowKey
    true).emit token).skip 1

def closeFlow (scanner : Scanner) (token : Token) : Option Scanner := do
  let cleared ← scanner.forgetKey
  let outside : Scanner :=
    if cleared.inFlow then
      { cleared with keys := cleared.keys.drop 1, flowLevel := cleared.flowLevel - 1 }
    else cleared
  return ((outside.allowKey false).emit token).skip 1

def flowEntry (scanner : Scanner) : Option Scanner := do
  let cleared ← scanner.forgetKey
  return ((cleared.allowKey true).emit .flowEntry).skip 1

def blockEntry (scanner : Scanner) : Option Scanner := do
  if !scanner.inFlow && !scanner.keyAllowed then none
  else
    let cleared ← (scanner.openBlock scanner.cursor.column .blockSequence).forgetKey
    return ((cleared.allowKey true).emit .blockEntry).skip 1

def explicitKey (scanner : Scanner) : Option Scanner := do
  if !scanner.inFlow && !scanner.keyAllowed then none
  else
    let cleared ← (scanner.openBlock scanner.cursor.column .blockMapping).forgetKey
    return ((cleared.allowKey (!scanner.inFlow)).emit .key).skip 1

/-- A colon makes a key of what could have begun as one, which may also open a block. -/
def mappingValue (scanner : Scanner) : Option Scanner :=
  match scanner.keys with
  | some place :: rest =>
      let opens := !scanner.inFlow && scanner.isDeeper place.column
      let marked := scanner.insertAt place.count (if opens then [.blockMapping, .key] else [.key])
      some <|
        (({ marked with
            keys := none :: rest
            indents := if opens then place.column :: scanner.indents else scanner.indents }.allowKey
          false).emit .value).skip 1
  | _ =>
      if !scanner.inFlow && !scanner.keyAllowed then none
      else
        some <|
          (((scanner.openBlock scanner.cursor.column .blockMapping).allowKey
            (!scanner.inFlow)).emit .value).skip 1

def reference (scanner : Scanner) (token : String → Token) : Option Scanner := do
  let saved ← scanner.rememberKey
  let name ← readName (scanner.cursor.rest.drop 1)
  return ((saved.allowKey false).emit (token (String.ofList name))).skip (name.length + 1)

def tagToken (scanner : Scanner) : Option Scanner := do
  let saved ← scanner.rememberKey
  let (token, length) ← readTag scanner.cursor.rest
  let behind := scanner.cursor.rest.drop length
  if endsWord behind || (scanner.inFlow && behind.head? = some ',') then
    return ((saved.allowKey false).emit token).skip length
  else none

def blockScalar (scanner : Scanner) (isFolded : Bool) : Option Scanner := do
  let cleared ← scanner.forgetKey
  let (chars, cursor) ← readBlock isFolded scanner.indent? (scanner.cursor.advance 1)
  let style : Style := if isFolded then .quoted else .literal
  return { (cleared.allowKey true).emit (.scalar style (String.ofList chars)) with cursor }

def quotedScalar (scanner : Scanner) (isSingle : Bool) : Option Scanner := do
  let saved ← scanner.rememberKey
  let start := scanner.cursor.advance 1
  let (chars, cursor) ← readQuoted isSingle (start.rest.length + 1) start
  return { (saved.allowKey false).emit (.scalar .quoted (String.ofList chars)) with cursor }

def plainScalar (scanner : Scanner) : Option Scanner := do
  let saved ← scanner.rememberKey
  let plain ←
    readPlain scanner.inFlow scanner.leastColumn (scanner.cursor.rest.length + 1) scanner.cursor {}
  return { (saved.allowKey plain.isBroken).emit (.scalar .plain (String.ofList plain.chars)) with
    cursor := plain.cursor }

/-- Marks that cannot begin a plain scalar. -/
def isIndicator (char : Char) : Bool := "-?:,[]\x7b\x7d#&*!|>'\"%@\x60".toList.contains char

/-- A plain scalar may begin with a dash, or outside a flow a question mark or a colon, if
something touches it. -/
def beginsPlain (scanner : Scanner) (char : Char) (rest : List Char) : Bool :=
  (isSolid char && !isIndicator char) || (char == '-' && !((rest.head?.map isBlank).getD false)) ||
    (!scanner.inFlow && (char == '?' || char == ':') && !endsWord rest)

/-- The next token, which begins at the cursor. -/
def token (scanner : Scanner) (char : Char) (rest : List Char) : Option Scanner :=
  let isMark := scanner.inFlow || endsWord rest
  if scanner.cursor.column = 0 && char = '%' then scanner.directive
  else if scanner.cursor.atDocumentMark then scanner.documentMark
  else if char = '[' then scanner.openFlow .flowSequence
  else if char = '\x7b' then scanner.openFlow .flowMapping
  else if char = ']' then scanner.closeFlow .flowSequenceEnd
  else if char = '\x7d' then scanner.closeFlow .flowMappingEnd
  else if char = ',' then scanner.flowEntry
  else if char = '-' && endsWord rest then scanner.blockEntry
  else if char = '?' && isMark then scanner.explicitKey
  else if char = ':' && isMark then scanner.mappingValue
  else if char = '*' then scanner.reference .alias
  else if char = '&' then scanner.reference .anchor
  else if char = '!' then scanner.tagToken
  else if char = '|' && !scanner.inFlow then scanner.blockScalar false
  else if char = '>' && !scanner.inFlow then scanner.blockScalar true
  else if char = '\'' then scanner.quotedScalar true
  else if char = '"' then scanner.quotedScalar false
  else if scanner.beginsPlain char rest then scanner.plainScalar
  else none

/-- Closes all blocks at the end of the text. -/
def finish (scanner : Scanner) : Option (List Token) := do
  let closed ← (scanner.closeBlocks none).forgetKey
  return closed.tokens.reverse

def scanWithin : Nat → Scanner → Option (List Token)
  | 0, _ => none
  | fuel + 1, scanner => do
      let settled ← (toNextToken (scanner.cursor.rest.length + 1) scanner).dropStale
      let placed := settled.closeBlocks (some settled.cursor.column)
      match placed.cursor.rest with
      | [] => finish placed
      | char :: rest => scanWithin fuel (← placed.token char rest)

end Scanner

/-- All tokens of a text. A mark of the byte order at its beginning is passed. -/
def tokens (text : String) : Option (List Token) :=
  let chars := match text.toList with
    | first :: rest => if first.toNat = 0xFEFF then rest else first :: rest
    | [] => []
  if chars.all isAllowed then Scanner.scanWithin (chars.length + 2) { cursor := { rest := chars } }
  else none

end BehaviorTree.Yaml
