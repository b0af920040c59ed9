import BehaviorTree.CommandLine
import Std.Time.DateTime.Timestamp

/-!
The program. The files that a request needs are read beforehand; what a run records is appended to
its log as it goes on.
-/

namespace BehaviorTree.CommandLine

def usage : String :=
  "Behavior-tree runner for hardware control

Usage: ctltree [OPTIONS] <COMMAND>

Commands:
  run       Load a tree and drive it
  validate  Check a tree file without starting any worker
  show      Print the structure of a tree file
  help      Print this message

Options:
  -p, --project <PROJECT>  Project root directory
  -v, --verbose            Print recorded events
  -h, --help               Print help
  -V, --version            Print version

Options of run:
      --mode <MODE>            continuous, interactive or count
      --count <COUNT>          Number of ticks in count mode
      --period-ms <PERIOD_MS>  Delay between ticks in milliseconds
      --json                   Print the final report as JSON
"

def refuse (refusal : Refusal) : IO UInt32 := do
  match refusal with
  | .help => IO.print usage
  | .version => IO.println "ctltree 0.1.0"
  | .misuse => IO.eprint usage
  return UInt32.ofNat refusal.code

def now : IO Timestamp := do
  let nanoseconds := (← Std.Time.Timestamp.now).toNanosecondsSinceUnixEpoch.val
  return { second := nanoseconds / 1000000000, nanosecond := (nanoseconds % 1000000000).toNat }

/-- A disk with what stands at a path. What is there but is no file is a directory. -/
def fetch (disk : Disk) (path : String) : IO Disk := do
  try return disk.withFile path (← IO.FS.readBinFile path).toList
  catch
    | .noFileOrDirectory _ _ _ => return disk
    | _ => return disk.withDirectory path

/-- The files that a request needs. -/
def fetchAll (request : Request) : IO Disk := do
  let start := Disk.workingIn (← IO.currentDir).toString
  let root := request.project.getD start.workingPath
  fetch (← fetch start request.tree) (Text.Path.join root ".ctltree/config.yaml")

/-- Appends what was recorded to the log, if that can be written, and forgets it. -/
def publish (session : Session) (isVerbose : Bool) : IO Session := do
  let manager := session.manager
  match manager.eventsPath with
  | none => return session
  | some path =>
      let recorded : ByteArray := ⟨((manager.disk.read? path).getD []).toArray⟩
      if isVerbose then IO.eprint ((String.fromUTF8? recorded).getD "")
      try
        IO.FS.createDirAll (Text.Path.parent path)
        (← IO.FS.Handle.mk path .append).write recorded
      catch _ => pure ()
      let disk := match manager.disk.locate path with
        | some place => manager.disk.put place []
        | none => manager.disk
      return { session with manager := { manager with disk, now := ← now } }

/-- Lets each line of the input release a tick. -/
partial def converse (input : IO.FS.Stream) (isVerbose : Bool) (session : Session) :
    IO (Except String Session) := do
  let line ← input.getLine
  if line.isEmpty || Session.isFarewell line then return .ok session
  match session.step with
  | .error reason => return .error reason
  | .ok (stepped, shown) =>
      IO.print shown
      converse input isVerbose (← publish stepped isVerbose)

/-- Lets period after period run out until the drive is over. -/
partial def tickOn (period : Nat) (isVerbose : Bool) (session : Session) : IO Session := do
  if !session.isDriven then return session
  IO.sleep (UInt32.ofNat (min period 4294967295))
  tickOn period isVerbose (← publish session.elapse isVerbose)

/-- Drives a tree as its policy says. -/
def drive (isVerbose : Bool) (session : Session) : IO (Except String Session) := do
  match session.policy with
  | .continuous period | .count _ period => return .ok (← tickOn period isVerbose session)
  | .interactive =>
      IO.print Session.greeting
      converse (← IO.getStdin) isVerbose session

def complain (reason : String) : IO UInt32 := do
  IO.eprintln s!"Error: {reason}"
  return 1

def runTree (request : Request) (start : Start) (overrides : Overrides) (json : Bool) :
    IO UInt32 := do
  match begin request overrides start with
  | .error reason => complain reason
  | .ok session =>
      match ← drive request.isVerbose (← publish session request.isVerbose) with
      | .error reason => complain reason
      | .ok driven =>
          match driven.conclude json with
          | .error reason => complain reason
          | .ok (after, ending) =>
              ending.forM IO.print
              let _ ← publish after request.isVerbose
              return 0

def perform (request : Request) : IO UInt32 := do
  let start : Start := { disk := ← fetchAll request, now := ← now }
  match request.errand with
  | .run overrides json => runTree request start overrides json
  | .validate | .outline =>
      match request.perform start "" with
      | none => return 0
      | some outcome =>
          IO.print outcome.output
          if !outcome.complaint.isEmpty then IO.eprintln outcome.complaint
          return UInt32.ofNat outcome.code

end BehaviorTree.CommandLine

def main (arguments : List String) : IO UInt32 :=
  match BehaviorTree.CommandLine.Request.ofArguments arguments with
  | .error refusal => BehaviorTree.CommandLine.refuse refusal
  | .ok request => BehaviorTree.CommandLine.perform request
