import BehaviorTree.Disk
import BehaviorTree.Event
import BehaviorTree.Text.Lines

/-!
The log of events is a file to which every event adds one line. Reading it back passes over lines
that are no events, and ends at the first line that is no text.
-/

namespace BehaviorTree

namespace Event

def newLine : UInt8 := 10

def carriageReturn : UInt8 := 13

def textBytes (event : Event) : List UInt8 := event.write.toUTF8.toList

/-- The line of an event. -/
def lineBytes (event : Event) : List UInt8 := event.textBytes ++ [newLine]

/-- A carriage return before the end of a line does not belong to it. -/
def trimLine (line : List UInt8) : List UInt8 :=
  if line.getLast? = some carriageReturn then line.dropLast else line

/-- The lines of a content up to the first that is no text. -/
def textLines : List (List UInt8) → List String
  | [] => []
  | line :: rest =>
      match String.fromUTF8? ⟨(trimLine line).toArray⟩ with
      | some text => text :: textLines rest
      | none => []

/-- All events of a content. -/
def ofContent (content : List UInt8) : List Event :=
  (textLines (Text.splitLines newLine content)).filterMap Event.read

/-- The last few of some events. -/
def last (limit : Nat) (events : List Event) : List Event :=
  events.drop (events.length - limit)

end Event

namespace Disk

/-- Writes the text of an event behind what is in the log of that path; `none` if the log cannot be
written. -/
def beginLine? (disk : Disk) (path : String) (event : Event) : Option Disk :=
  disk.append? path event.textBytes

/-- Ends a line of the log. -/
def endLine? (disk : Disk) (path : String) : Option Disk := disk.append? path [Event.newLine]

/-- Adds an event to the log of that path. The text of the event and the end of its line are two
writes, here with nothing in between. -/
def emit? (disk : Disk) (path : String) (event : Event) : Option Disk :=
  (disk.beginLine? path event).bind (·.endLine? path)

/-- Adds an event if the log can be written. -/
def emit (disk : Disk) (path : String) (event : Event) : Disk :=
  (disk.emit? path event).getD disk

/-- The last few events of a log; none if there is no log. -/
def recentEvents (disk : Disk) (path : String) (limit : Nat) : List Event :=
  match disk.read? path with
  | none => []
  | some content => Event.last limit (Event.ofContent content)

end Disk

end BehaviorTree
