import BehaviorTree.Datum

/-!
Documents in YAML. A scalar keeps its text and how it was written; what it stands for depends on
who looks. Where a text is wanted it is its text, elsewhere a plain scalar may be a number, a
truth value or nothing.
-/

namespace BehaviorTree

/-- How a scalar is written. Folded scalars count as quoted. -/
inductive Style where
  | plain
  | quoted
  | literal
  deriving DecidableEq, Repr

inductive Yaml where
  | scalar (style : Style) (tag : Option String) (text : String)
  | sequence (tag : Option String) (items : List Yaml)
  | mapping (tag : Option String) (entries : List (Yaml × Yaml))
  /-- A document without any content. -/
  | absent
  /-- A reference of a node to itself. -/
  | circular
  deriving Inhabited

namespace Yaml

def coreTag (name : String) : String := "tag:yaml.org,2002:" ++ name

/-- A tag that means something to one application only. -/
def isLocal : Option String → Bool
  | some tag => tag.startsWith "!"
  | none => false

/-! What plain scalars stand for. -/

def isNullWord (text : String) : Bool := ["null", "Null", "NULL", "~"].contains text

def boolWord? (text : String) : Option Bool :=
  if ["true", "True", "TRUE"].contains text then some true
  else if ["false", "False", "FALSE"].contains text then some false
  else none

/-- Digits in the base that they announce, sixteen, eight or two, and in base ten without an
announcement. -/
def readBased (chars : List Char) : Option Nat :=
  let announced := match chars with
    | '0' :: 'x' :: rest => Decimal.readDigits 16 rest
    | '0' :: 'o' :: rest => Decimal.readDigits 8 rest
    | '0' :: 'b' :: rest => Decimal.readDigits 2 rest
    | _ => none
  announced.or (Decimal.readDigits 10 chars)

/-- Digits that begin with a superfluous zero are no number. -/
def isPadded (chars : List Char) : Bool :=
  match chars with
  | '0' :: next :: rest => (next :: rest).all Char.isDigit
  | _ => false

/-- Whole numbers between -2^127 and 2^128. -/
def readInt (text : String) : Option Int :=
  let (negative, chars) := match text.toList with
    | '-' :: rest => (true, rest)
    | '+' :: rest => (false, rest)
    | rest => (false, rest)
  if isPadded chars then none
  else
    match readBased chars with
    | none => none
    | some magnitude =>
        if negative then (if magnitude ≤ Nat.pow 2 127 then some (-(magnitude : Int)) else none)
        else if magnitude < Nat.pow 2 128 then some magnitude
        else none

def infinityWords : List String := [".inf", ".Inf", ".INF"]

/-- A finite decimal, or one of the words for infinity and not-a-number. -/
def readFloat (text : String) : Option Float :=
  let magnitude := match text.toList with
    | '+' :: rest => String.ofList rest
    | _ => text
  if infinityWords.contains magnitude then some (1.0 / 0.0)
  else if ["-.inf", "-.Inf", "-.INF"].contains text then some (-1.0 / 0.0)
  else if [".nan", ".NaN", ".NAN"].contains text then some (0.0 / 0.0)
  else
    match magnitude.toList with
    | '+' :: _ => none
    | '-' :: _ =>
        if magnitude == text then (Decimal.readFloat text).filter Float.isFinite else none
    | _ => (Decimal.readFloat magnitude).filter Float.isFinite

/-- An integer has a value if it fits 64 bits. -/
def intDatum (number : Int) : Option Datum :=
  if -(Nat.pow 2 63 : Int) ≤ number ∧ number < Nat.pow 2 64 then some (.int number) else none

def isPaddedText (text : String) : Bool :=
  match text.toList with
  | '-' :: rest => isPadded rest
  | '+' :: rest => isPadded rest
  | rest => isPadded rest

/-- What a plain scalar without a tag stands for. -/
def plainDatum (text : String) : Option Datum :=
  if text.isEmpty || isNullWord text then some .null
  else
    match boolWord? text, readInt text with
    | some holds, _ => some (.bool holds)
    | none, some number => intDatum number
    | none, none =>
        if isPaddedText text then some (.text text)
        else
          match readFloat text with
          | some number => some (.float number)
          | none => some (.text text)

/-- A core tag asks for a certain kind of value. -/
def taggedDatum (tag text : String) : Option Datum :=
  if tag = coreTag "bool" then (boolWord? text).map .bool
  else if tag = coreTag "int" then (readInt text).bind intDatum
  else if tag = coreTag "float" then (readFloat text).map .float
  else if tag = coreTag "null" then (if isNullWord text then some .null else none)
  else some (.text text)

def scalarDatum (style : Style) (tag : Option String) (text : String) : Option Datum :=
  match style, tag with
  | _, some tag => if tag.startsWith "!" then none else taggedDatum tag text
  | .plain, none => plainDatum text
  | _, none => some (.text text)

def keyOf : Datum → Key
  | .text chars => .name chars
  | .int number => if 0 ≤ number then .position number.toNat else .other
  | _ => .other

def maxDepth : Nat := 128

mutual

/-- The datum that a node stands for inside `depth` others. Local tags, references in a circle
and too deep nesting leave it without one. -/
def settle? (depth : Nat) : Yaml → Option Datum
  | .scalar style tag text => scalarDatum style tag text
  | .sequence tag items =>
      if isLocal tag || maxDepth ≤ depth then none
      else (settleItems (depth + 1) items).map .list
  | .mapping tag entries =>
      if isLocal tag || maxDepth ≤ depth then none
      else (settleEntries (depth + 1) entries).map .record
  | .absent | .circular => none

def settleItems (depth : Nat) : List Yaml → Option (List Datum)
  | [] => some []
  | item :: rest => do
      let first ← settle? depth item
      let others ← settleItems depth rest
      return first :: others

def settleEntries (depth : Nat) : List (Yaml × Yaml) → Option (List (Key × Datum))
  | [] => some []
  | (key, node) :: rest => do
      let first ← settle? depth key
      let second ← settle? depth node
      let others ← settleEntries depth rest
      return (keyOf first, second) :: others

end

/-! What a node says where a certain kind of content is wanted. -/

def asText? : Yaml → Option String
  | .scalar _ _ text => some text
  | _ => none

/-- A plain word for nothing, or nothing at all, leaves a text out. -/
def asOptionalText? : Yaml → Option (Option String)
  | .scalar .plain none text =>
      some (if text.isEmpty || isNullWord text then none else some text)
  | .scalar .plain (some tag) text =>
      if tag = coreTag "null" then (if isNullWord text then some none else none)
      else some (some text)
  | .scalar _ _ text => some (some text)
  | _ => none

/-- A natural number below 2^64, in any base. -/
def asNat? : Yaml → Option Nat
  | .scalar style tag text =>
      if style = .plain || (style = .literal && tag = some (coreTag "int")) then
        match readInt text with
        | some number =>
            if 0 ≤ number ∧ number < Nat.pow 2 64 ∧ !text.startsWith "-" then some number.toNat
            else none
        | none => none
      else none
  | _ => none

/-- A choice by name, or by a local tag on nothing. -/
def asChoice? : Yaml → Option String
  | .scalar style (some tag) text =>
      if tag.startsWith "!" then
        (if style = .plain && (text.isEmpty || isNullWord text) then
          some (String.ofList (tag.toList.drop 1)) else none)
      else some text
  | .scalar _ none text => some text
  | _ => none

/-- The entries of a mapping with their keys as texts; nothing at all is an empty mapping. -/
def asEntries? : Yaml → Option (List (String × Yaml))
  | .mapping _ entries => entries.mapM fun (key, node) => key.asText?.map fun name => (name, node)
  | .scalar .plain _ text => if text.isEmpty then some [] else none
  | .absent => some []
  | _ => none

/-- The entries with the given names, which must not be repeated; others are ignored. -/
def fields? (names : List String) (node : Yaml) : Option (List (String × Yaml)) := do
  let entries ← node.asEntries?
  let known := entries.filter fun (name, _) => names.contains name
  if (known.map (·.1)).Nodup then some known else none

def field? (fields : List (String × Yaml)) (name : String) : Option Yaml :=
  (fields.find? (·.1 = name)).map (·.2)

/-- A field that may be left out. -/
def withDefault {Content : Type} (fields : List (String × Yaml)) (name : String)
    (read : Yaml → Option Content) (default : Content) : Option Content :=
  match field? fields name with
  | none => some default
  | some node => read node

def required {Content : Type} (fields : List (String × Yaml)) (name : String)
    (read : Yaml → Option Content) : Option Content :=
  (field? fields name).bind read

end Yaml

end BehaviorTree
