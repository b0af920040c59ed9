import BehaviorTree.Text.Path

/-!
The files that the program reads and writes, as a value. A path is followed step by step from the
root or from the working directory; every step but the last must be a directory.
-/

namespace BehaviorTree

/-- A place on the disk: the names on the way from the root. -/
abbrev Place := List String

structure Disk where
  directories : List Place := []
  files : List (Place × List UInt8) := []
  workingDirectory : Place := []

namespace Disk

def isDirectory (disk : Disk) (place : Place) : Bool :=
  place.isEmpty || disk.directories.contains place

def file? (disk : Disk) (place : Place) : Option (List UInt8) :=
  (disk.files.find? (·.1 = place)).map (·.2)

def isFile (disk : Disk) (place : Place) : Bool := (disk.file? place).isSome

def start (disk : Disk) (path : String) : Place :=
  if Text.Path.isAbsolute path then [] else disk.workingDirectory

/-- Where some steps lead, if they lead through directories only. -/
def follow (disk : Disk) : Place → List String → Option Place
  | place, [] => some place
  | place, step :: rest =>
      if !disk.isDirectory place then none
      else if step = ".." then disk.follow place.dropLast rest
      else disk.follow (place ++ [step]) rest

/-- The place that a path names, whether or not something is there. -/
def locate (disk : Disk) (path : String) : Option Place := do
  let place ← disk.follow (disk.start path) (Text.Path.steps path)
  if Text.Path.isDirectoryPath path && !disk.isDirectory place then none else some place

def existsAt (disk : Disk) (path : String) : Bool :=
  match disk.locate path with
  | none => false
  | some place => disk.isDirectory place || disk.isFile place

def read? (disk : Disk) (path : String) : Option (List UInt8) :=
  (disk.locate path).bind disk.file?

/-- The content of a file, if it is text. -/
def readText? (disk : Disk) (path : String) : Option String := do
  String.fromUTF8? ⟨(← disk.read? path).toArray⟩

/-- Follows some steps and makes the directories that are missing. -/
def makeWay (disk : Disk) : Place → List String → Option (Disk × Place)
  | place, [] => some (disk, place)
  | place, step :: rest =>
      if step = ".." then disk.makeWay place.dropLast rest
      else
        let next := place ++ [step]
        if disk.isFile next then none
        else if disk.isDirectory next then disk.makeWay next rest
        else makeWay { disk with directories := next :: disk.directories } next rest

def put (disk : Disk) (place : Place) (content : List UInt8) : Disk :=
  { disk with files := (place, content) :: disk.files.filter (·.1 ≠ place) }

/-- Appends to a file, which is made if it is missing, and so are the directories on the way. -/
def append? (disk : Disk) (path : String) (content : List UInt8) : Option Disk := do
  let (ready, _) ← disk.makeWay (disk.start path) (Text.Path.steps path).dropLast
  let place ← ready.locate path
  if ready.isDirectory place then none
  else return ready.put place ((ready.file? place).getD [] ++ content)

/-- A disk with one more file, and the directories on the way. -/
def withFile (disk : Disk) (path : String) (content : List UInt8) : Disk :=
  (disk.append? path content).getD disk

/-- A disk with one more directory, and those on the way to it. -/
def withDirectory (disk : Disk) (path : String) : Disk :=
  match disk.makeWay (disk.start path) (Text.Path.steps path) with
  | some (ready, _) => ready
  | none => disk

/-- The path of the working directory. -/
def workingPath (disk : Disk) : String :=
  String.join (disk.workingDirectory.map ("/" ++ ·))

/-- A disk on which the directory of that path is made and worked in. -/
def workingIn (path : String) : Disk :=
  match makeWay {} [] (Text.Path.steps path) with
  | some (disk, place) => { disk with workingDirectory := place }
  | none => {}

end Disk

end BehaviorTree
