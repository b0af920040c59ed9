/-!
Lines. Every line ends with a mark, except that the last one need not; nothing at all after the
last mark is no line.
-/

namespace BehaviorTree.Text

/-- Splits off line after line; `line` holds what has been seen of the first, in reverse. -/
def linesWithin {Item : Type} [DecidableEq Item] (mark : Item) (line : List Item) :
    List Item → List (List Item)
  | [] => if line.isEmpty then [] else [line.reverse]
  | item :: rest =>
      if item = mark then line.reverse :: linesWithin mark [] rest
      else linesWithin mark (item :: line) rest

def splitLines {Item : Type} [DecidableEq Item] (mark : Item) (items : List Item) :
    List (List Item) :=
  linesWithin mark [] items

/-- The lines of a text, without their ends. -/
def lines (text : String) : List String := (splitLines '\n' text.toList).map String.ofList

end BehaviorTree.Text
