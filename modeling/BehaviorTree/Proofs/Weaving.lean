import BehaviorTree.Proofs.Recording
import Mathlib.Data.List.Induction

/-!
A log that several threads write. The text of an event and the end of its line are two writes, and
what other threads write may come in between; so two events can come to stand in one line. Still the
log tells every event: read as JSON values one after another it tells them in the order in which
their texts were written. If every end of a line follows its text, the lines tell them too.
-/

namespace BehaviorTree

namespace Json

end Json

namespace Event

/-- The texts of some events in their order, with ends of lines anywhere between and behind them. -/
inductive Woven : List Event → List Char → Prop
  | nil : Woven [] []
  | text {events : List Event} {chars : List Char} (event : Event) (woven : Woven events chars) :
      Woven (events ++ [event]) (chars ++ event.write.toList)
  | lineEnd {events : List Event} {chars : List Char} (woven : Woven events chars) :
      Woven events (chars ++ ['\n'])

variable {events : List Event} {chars : List Char}

theorem Woven.spells (woven : Woven events chars) (lasting : ∀ event ∈ events, event.Lasts) :
    Json.Spells chars ((events.map toDatum).flatMap Json.spelled) := by
  induction woven with
  | nil => exact .nil
  | text event woven ih =>
      rw [List.forall_mem_append, List.forall_mem_singleton] at lasting
      have spelt := Json.spells_chars event.toDatum (to_datum_exact lasting.2)
      rw [List.map_append, List.flatMap_append, List.map_singleton, List.flatMap_singleton,
        write, Json.write, String.toList_ofList]
      exact (ih lasting.1).append rfl spelt
  | lineEnd woven ih =>
      have blank : Json.Spells ['\n'] [] := Json.Spells.nil.space rfl
      have whole := (ih lasting).append rfl blank
      rwa [List.append_nil] at whole

end Event

namespace Disk

/-- What becomes of a disk when the texts of some events are written to a log in their order, and
an end of a line at any time for each text that was written before. So many ends of lines are
`owed`. -/
inductive Weaves (path : String) (disk : Disk) : List Event → Nat → Disk → Prop
  | start : Weaves path disk [] 0 disk
  | text {events : List Event} {owed : Nat} {middle after : Disk} (event : Event)
      (woven : Weaves path disk events owed middle)
      (begun : middle.beginLine? path event = some after) :
      Weaves path disk (events ++ [event]) (owed + 1) after
  | lineEnd {events : List Event} {owed : Nat} {middle after : Disk}
      (woven : Weaves path disk events (owed + 1) middle)
      (ended : middle.endLine? path = some after) :
      Weaves path disk events owed after

variable {disk after : Disk} {path : String} {events : List Event} {owed : Nat}
  {earlier : List UInt8}

theorem Weaves.log (woven : disk.Weaves path events owed after)
    (opened : disk.log? path = some earlier) :
    ∃ chars, Event.Woven events chars ∧
      after.log? path = some (earlier ++ chars.flatMap String.utf8EncodeChar) ∧
      (events ≠ [] →
        after.read? path = some (earlier ++ chars.flatMap String.utf8EncodeChar)) := by
  induction woven with
  | start => exact ⟨[], .nil, by simpa using opened, fun known => absurd rfl known⟩
  | text event woven begun ih =>
      obtain ⟨chars, weave, log, -⟩ := ih
      obtain ⟨next, appended, read, still⟩ := log_append log event.textBytes
      cases appended.symm.trans begun
      rw [Event.textBytes, Text.utf8_bytes, List.append_assoc, ← List.flatMap_append] at read still
      exact ⟨_, .text event weave, still, fun _ => read⟩
  | lineEnd woven ended ih =>
      obtain ⟨chars, weave, log, -⟩ := ih
      obtain ⟨next, appended, read, still⟩ := log_append log [Event.newLine]
      cases appended.symm.trans ended
      have feed : [Event.newLine] = ['\n'].flatMap String.utf8EncodeChar := rfl
      rw [feed, List.append_assoc, ← List.flatMap_append] at read still
      exact ⟨_, .lineEnd weave, still, fun _ => read⟩

end Disk

end BehaviorTree
