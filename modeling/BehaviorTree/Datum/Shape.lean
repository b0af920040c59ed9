import BehaviorTree.Datum

/-!
Taking data apart by shape. A shape gives the items of a record type their names and their order;
a datum fits it as a record with these names or as a list in this order. Choices are made by name.
-/

namespace BehaviorTree

/-- Item names in order. A list must give the first `needed` items and may leave out the rest. -/
structure Shape where
  names : List String
  needed : Nat
  deriving Repr

/-- The items that a datum gives, by name. -/
structure Items where
  given : List (String × Datum)
  deriving Inhabited

namespace Items

def find? (items : Items) (name : String) : Option Datum :=
  (items.given.find? (·.1 = name)).map (·.2)

variable {Content : Type}

def required (items : Items) (read : Datum → Option Content) (name : String) : Option Content :=
  (items.find? name).bind read

/-- An item that may be left out or null. -/
def optional (items : Items) (read : Datum → Option Content) (name : String) :
    Option (Option Content) :=
  match items.find? name with
  | none => some none
  | some datum => datum.asOption? read

/-- An item that may be left out but not null. -/
def withDefault (items : Items) (read : Datum → Option Content) (default : Content)
    (name : String) : Option Content :=
  match items.find? name with
  | none => some default
  | some datum => read datum

end Items

namespace Shape

/-- The name of the item that a key means: `none` if the key means nothing at all, and an absent
name if it is one that the shape does not know. -/
def nameOf? (shape : Shape) : Key → Option (Option String)
  | .name text => some (if shape.names.contains text then some text else none)
  | .position index => some shape.names[index]?
  | .other => none

/-- The known entries of a record. -/
def known? (shape : Shape) : List (Key × Datum) → Option (List (String × Datum))
  | [] => some []
  | (key, datum) :: rest => do
      let name ← shape.nameOf? key
      let others ← shape.known? rest
      match name with
      | none => return others
      | some name => if others.any (·.1 = name) then none else return (name, datum) :: others

/-- Unknown entries of a record are ignored, known ones must not be repeated. -/
def items? (shape : Shape) : Datum → Option Items
  | .record entries => (shape.known? entries).map Items.mk
  | .list items =>
      if shape.needed ≤ items.length ∧ items.length ≤ shape.names.length then
        some { given := shape.names.zip items }
      else none
  | _ => none

end Shape

/-- How a choice may be written: in plain data only by its name or as a record from the name to
null, in data taken from a larger datum also by position, and with an empty record for null. -/
inductive Manner where
  | strict
  | lenient
  deriving DecidableEq, Repr

namespace Datum

/-- What may stand where a choice has nothing more to say. -/
def isNothing (manner : Manner) : Datum → Bool
  | .null => true
  | .record [] => manner == .lenient
  | _ => false

def keyName? (names : List String) : Key → Option String
  | .name chars => some chars
  | .position index => names[index]?
  | .other => none

/-- The name of a choice among `names`. -/
def choice? (manner : Manner) (names : List String) : Datum → Option String
  | .text chars => some chars
  | .record [(key, datum)] => if datum.isNothing manner then keyName? names key else none
  | _ => none

/-- The name of a tag. -/
def tagName? (manner : Manner) (names : List String) : Datum → Option String
  | .text chars => some chars
  | .int number => if manner = .lenient ∧ 0 ≤ number then names[number.toNat]? else none
  | _ => none

def isKeyOf (tag : String) (entry : Key × Datum) : Bool := entry.1 == .name tag

/-- Splits a tagged record into the name of its tag and the rest, and a list into its first item
and the others. A tag must not be repeated. -/
def tagged? (manner : Manner) (tag : String) (names : List String) :
    Datum → Option (String × Datum)
  | .record entries =>
      match entries.filter (isKeyOf tag) with
      | [(_, datum)] => do
          let name ← datum.tagName? manner names
          return (name, .record (entries.filter (!isKeyOf tag ·)))
      | _ => none
  | .list (first :: rest) => do
      let name ← first.tagName? manner names
      return (name, .list rest)
  | _ => none

end Datum

end BehaviorTree
