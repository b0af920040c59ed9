import BehaviorTree.Event.Log

/-!
The log of events on the disk. Whether a log can be written does not depend on what stands in it,
and writing it changes nothing about that; so of a log that can be written at first every event
becomes a line, one after another.
-/

namespace BehaviorTree

namespace Disk

/-! Ways that were made. -/

/-- A disk with the same files, and perhaps more directories. -/
structure Extends (disk ready : Disk) : Prop where
  files : ready.files = disk.files
  workingDirectory : ready.workingDirectory = disk.workingDirectory
  directories : ∀ place, disk.isDirectory place = true → ready.isDirectory place = true

namespace Extends

variable {disk ready last : Disk}

theorem refl (disk : Disk) : disk.Extends disk := ⟨rfl, rfl, fun _ known => known⟩

theorem trans (first : disk.Extends ready) (second : ready.Extends last) : disk.Extends last :=
  ⟨second.files.trans first.files, second.workingDirectory.trans first.workingDirectory,
    fun place known => second.directories place (first.directories place known)⟩

theorem isFile (grown : disk.Extends ready) (place : Place) :
    ready.isFile place = disk.isFile place := by
  rw [Disk.isFile, file?, grown.files, Disk.isFile, file?]

end Extends

theorem extends_directory (disk : Disk) (place : Place) :
    disk.Extends { disk with directories := place :: disk.directories } := by
  refine ⟨rfl, rfl, ?_⟩
  intro other known
  simp only [isDirectory, Bool.or_eq_true, List.contains_cons] at known ⊢
  exact known.imp_right .inr

theorem make_way_extends {disk ready : Disk} {place last : Place} {steps : List String}
    (made : disk.makeWay place steps = some (ready, last)) : disk.Extends ready := by
  induction steps generalizing disk place with
  | nil =>
      cases made
      exact .refl _
  | cons step rest ih =>
      rw [makeWay] at made
      split at made
      · exact ih made
      · dsimp only at made
        split at made
        · cases made
        · split at made
          · exact ih made
          · exact (disk.extends_directory _).trans (ih made)

/-- A way that was made is there: it need not be made again, whatever files there are besides. -/
theorem make_way_again {disk ready after : Disk} {place last : Place} {steps : List String}
    (made : disk.makeWay place steps = some (ready, last))
    (same : after.directories = ready.directories)
    (free : ∀ other, ready.isDirectory other = true → ready.isFile other = false →
      after.isFile other = false) :
    after.makeWay place steps = some (after, last) := by
  -- Every step of the way was free of files, and is a directory of the disk at last.
  have onward : ∀ {base : Disk} {next : Place} {rest : List String},
      base.isFile next = false → base.isDirectory next = true →
        base.makeWay next rest = some (ready, last) →
          after.isFile next = false ∧ after.isDirectory next = true := by
    intro base next rest absent there made
    have extended := make_way_extends made
    have directory := extended.directories next there
    refine ⟨free next directory ((extended.isFile next).trans absent), ?_⟩
    rw [isDirectory, same]
    exact directory
  induction steps generalizing disk place with
  | nil =>
      cases made
      rfl
  | cons step rest ih =>
      rw [makeWay] at made ⊢
      by_cases up : step = ".."
      · rw [if_pos up] at made ⊢
        exact ih made
      · rw [if_neg up] at made ⊢
        dsimp only at made ⊢
        cases file : disk.isFile (place ++ [step]) with
        | true => simp [file] at made
        | false =>
            rw [file, if_neg Bool.false_ne_true] at made
            cases known : disk.isDirectory (place ++ [step]) with
            | true =>
                rw [known, if_pos rfl] at made
                obtain ⟨absent, directory⟩ := onward file known made
                rw [absent, directory, if_neg Bool.false_ne_true, if_pos rfl]
                exact ih made
            | false =>
                rw [known, if_neg Bool.false_ne_true] at made
                have there : isDirectory
                    { disk with directories := (place ++ [step]) :: disk.directories }
                    (place ++ [step]) = true := by simp [isDirectory]
                have absent : isFile
                    { disk with directories := (place ++ [step]) :: disk.directories }
                    (place ++ [step]) = false := file
                obtain ⟨absent, directory⟩ := onward absent there made
                rw [absent, directory, if_neg Bool.false_ne_true, if_pos rfl]
                exact ih made

theorem follow_congr {disk after : Disk} (same : after.directories = disk.directories)
    (place : Place) (steps : List String) : after.follow place steps = disk.follow place steps := by
  have known : after.isDirectory = disk.isDirectory := by
    funext other
    rw [isDirectory, isDirectory, same]
  induction steps generalizing place with
  | nil => rfl
  | cons step rest ih => rw [follow, follow, known, ih, ih]

theorem locate_congr {disk after : Disk} (same : after.directories = disk.directories)
    (home : after.workingDirectory = disk.workingDirectory) (path : String) :
    after.locate path = disk.locate path := by
  have known : after.isDirectory = disk.isDirectory := by
    funext other
    rw [isDirectory, isDirectory, same]
  have begins : after.start path = disk.start path := by rw [start, start, home]
  rw [locate, locate, begins, known, follow_congr same]

/-! Files that are written. -/

@[simp] theorem file_put (disk : Disk) (place : Place) (content : List UInt8) :
    (disk.put place content).file? place = some content := by
  simp [put, file?]

theorem file_put_other {place other : Place} (apart : other ≠ place) (disk : Disk)
    (content : List UInt8) : (disk.put place content).file? other = disk.file? other := by
  rw [file?, put, List.find?_cons_of_neg (by simpa using apart.symm), List.find?_filter, file?]
  congr 2
  funext file
  by_cases here : file.1 = other
  · simp [here, apart]
  · simp [here]

/-- A log can be written if the way to it can be made and its place is no directory. -/
structure Opens (disk : Disk) (path : String) (ready : Disk) (place : Place) : Prop where
  made : ∃ way,
    disk.makeWay (disk.start path) (Text.Path.steps path).dropLast = some (ready, way)
  located : ready.locate path = some place
  free : ready.isDirectory place = false

/-- What is in a log when it is opened to be written; nothing if it cannot be written. -/
def log? (disk : Disk) (path : String) : Option (List UInt8) :=
  (disk.append? path []).bind (·.read? path)

section

variable {disk ready after : Disk} {path : String} {place : Place} {content : List UInt8}

theorem append_of_opens (opens : disk.Opens path ready place) (content : List UInt8) :
    disk.append? path content =
      some (ready.put place ((ready.file? place).getD [] ++ content)) := by
  obtain ⟨way, made⟩ := opens.made
  simp [append?, made, opens.located, opens.free]

theorem opens_of_append (appended : disk.append? path content = some after) :
    ∃ ready place, disk.Opens path ready place := by
  rw [append?] at appended
  obtain ⟨⟨ready, way⟩, made, appended⟩ := Option.bind_eq_some_iff.mp appended
  obtain ⟨place, located, appended⟩ := Option.bind_eq_some_iff.mp appended
  refine ⟨ready, place, ⟨way, made⟩, located, ?_⟩
  cases known : ready.isDirectory place with
  | false => rfl
  | true => simp [known] at appended

theorem locate_put (disk : Disk) (path : String) (place : Place) (content : List UInt8) :
    (disk.put place content).locate path = disk.locate path :=
  @locate_congr disk (disk.put place content) rfl rfl path

theorem read_put (located : ready.locate path = some place) (content : List UInt8) :
    (ready.put place content).read? path = some content := by
  rw [read?, locate_put, located, Option.bind_some, file_put]

/-- A log that was written can be written again: its place is in no way's way. -/
theorem Opens.again (opens : disk.Opens path ready place) (content : List UInt8) :
    (ready.put place content).Opens path (ready.put place content) place := by
  obtain ⟨way, made⟩ := opens.made
  have home : (ready.put place content).start path = disk.start path := by
    rw [start, start]
    exact congrArg _ (make_way_extends made).workingDirectory
  refine ⟨⟨way, ?_⟩, (locate_put ready path place content).trans opens.located, opens.free⟩
  rw [home]
  refine make_way_again made (rfl : (ready.put place content).directories = _) ?_
  intro other directory absent
  have apart : other ≠ place := by
    rintro rfl
    rw [opens.free] at directory
    cases directory
  rw [isFile, file_put_other apart]
  exact absent

theorem Opens.log (opens : disk.Opens path ready place) :
    disk.log? path = some ((ready.file? place).getD []) := by
  rw [log?, append_of_opens opens, Option.bind_some, read_put opens.located, List.append_nil]

/-- Whatever is appended to a log that can be written comes behind what is there, and the log can be
written on. -/
theorem log_append (opened : disk.log? path = some content) (more : List UInt8) :
    ∃ after, disk.append? path more = some after ∧ after.read? path = some (content ++ more) ∧
      after.log? path = some (content ++ more) := by
  obtain ⟨_, appended, -⟩ := Option.bind_eq_some_iff.mp opened
  obtain ⟨ready, place, opens⟩ := opens_of_append appended
  cases opens.log.symm.trans opened
  refine ⟨_, append_of_opens opens more, read_put opens.located _, ?_⟩
  rw [(opens.again _).log, file_put, Option.getD_some]

theorem put_put (disk : Disk) (place : Place) (first second : List UInt8) :
    (disk.put place first).put place second = disk.put place second := by
  simp [put]

/-- Both writes of an event together add its line. -/
theorem emit_eq_append (disk : Disk) (path : String) (event : Event) :
    disk.emit? path event = disk.append? path event.lineBytes := by
  cases appended : disk.append? path event.lineBytes with
  | none =>
      cases begun : disk.beginLine? path event with
      | none => rw [emit?, begun, Option.bind_none]
      | some middle =>
          obtain ⟨ready, place, opens⟩ := opens_of_append begun
          rw [append_of_opens opens] at appended
          cases appended
  | some after =>
      obtain ⟨ready, place, opens⟩ := opens_of_append appended
      rw [append_of_opens opens] at appended
      cases appended
      have ended := append_of_opens
        (opens.again ((ready.file? place).getD [] ++ event.textBytes)) [Event.newLine]
      rw [emit?, beginLine?, append_of_opens opens, Option.bind_some, endLine?, ended, file_put,
        put_put, Option.getD_some, Event.lineBytes, List.append_assoc]

end

end Disk

end BehaviorTree
