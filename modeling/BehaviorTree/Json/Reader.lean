import BehaviorTree.Json.Token

/-!
Reading JSON text. The nesting of lists and records is followed to any depth, but what is nested
more than 127 deep has no value.
-/

namespace BehaviorTree.Json

def maxDepth : Nat := 127

/-- A list or record that stands `depth` deep. -/
def bounded (depth : Nat) (datum : Datum) : Datum :=
  if depth ≤ maxDepth then datum else .unreadable

def textDatum : Option String → Datum
  | some chars => .text chars
  | none => .unreadable

def textKey : Option String → Key
  | some chars => .name chars
  | none => .other

/-- A record with a key that is no text has no value as a whole. -/
def recordDatum (entries : List (Key × Datum)) : Datum :=
  if entries.any (·.1 == .other) then .unreadable else .record entries

mutual

/-- A value at the beginning of some tokens, inside `depth` lists and records. -/
def readValue : Nat → Nat → List Token → Option (Datum × List Token)
  | 0, _, _ => none
  | fuel + 1, depth, tokens =>
      match tokens with
      | .plain datum :: rest => some (datum, rest)
      | .text content :: rest => some (textDatum content, rest)
      | .openList :: .closeList :: rest => some (bounded (depth + 1) (.list []), rest)
      | .openList :: rest => do
          let (items, after) ← readItems fuel (depth + 1) rest
          return (bounded (depth + 1) (.list items), after)
      | .openRecord :: .closeRecord :: rest => some (bounded (depth + 1) (.record []), rest)
      | .openRecord :: rest => do
          let (entries, after) ← readEntries fuel (depth + 1) rest
          return (bounded (depth + 1) (recordDatum entries), after)
      | _ => none

/-- One or more values between commas, and the end of their list. -/
def readItems : Nat → Nat → List Token → Option (List Datum × List Token)
  | 0, _, _ => none
  | fuel + 1, depth, tokens => do
      let (item, afterItem) ← readValue fuel depth tokens
      match afterItem with
      | .closeList :: rest => return ([item], rest)
      | .comma :: rest =>
          let (items, after) ← readItems fuel depth rest
          return (item :: items, after)
      | _ => none

/-- One or more entries between commas, and the end of their record. -/
def readEntries : Nat → Nat → List Token → Option (List (Key × Datum) × List Token)
  | 0, _, _ => none
  | fuel + 1, depth, tokens =>
      match tokens with
      | .text content :: .colon :: afterColon => do
          let (datum, afterDatum) ← readValue fuel depth afterColon
          match afterDatum with
          | .closeRecord :: rest => return ([(textKey content, datum)], rest)
          | .comma :: rest =>
              let (entries, after) ← readEntries fuel depth rest
              return ((textKey content, datum) :: entries, after)
          | _ => none
      | _ => none

end

/-- The value that a text stands for; nothing else may be around it. -/
def read (text : String) : Option Datum := do
  let tokens ← tokens text.toList
  let (datum, rest) ← readValue (2 * tokens.length + 1) 0 tokens
  if rest.isEmpty then some datum else none

end BehaviorTree.Json
