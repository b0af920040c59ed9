import BehaviorTree.Disk
import BehaviorTree.Json.Writer
import BehaviorTree.Plan.Build
import BehaviorTree.Ticker.Driver
import BehaviorTree.Yaml.Document

/-!
The configuration of a project: when to tick, the timing of workers that plans leave open, where
events are recorded, and the process variables at the start. Everything has a default.
-/

namespace BehaviorTree

inductive TickMode where
  | continuous
  | interactive
  | count
  deriving DecidableEq, Repr, Inhabited

namespace TickMode

def all : List TickMode := [.continuous, .interactive, .count]

def name : TickMode → String
  | .continuous => "continuous"
  | .interactive => "interactive"
  | .count => "count"

def ofName? (text : String) : Option TickMode := all.find? (·.name = text)

end TickMode

structure TickSettings where
  mode : TickMode := .continuous
  /-- Milliseconds between ticks. -/
  period : Nat := 500
  count : Nat := 1
  deriving DecidableEq, Repr

def TickSettings.policy (settings : TickSettings) : Policy :=
  match settings.mode with
  | .continuous => .continuous settings.period
  | .interactive => .interactive
  | .count => .count settings.count settings.period

structure Config where
  version : Option String := none
  tick : TickSettings := {}
  timing : Timing := {}
  eventsPath : String := ".ctltree/events.jsonl"
  /-- The process variables at the start. -/
  values : Table Value := {}

/-- Why there is no configuration. -/
inductive ConfigFault where
  | missing (path : String)
  | malformed (path : String)
  | invalid (path reason : String)
  deriving DecidableEq, Repr

def ConfigFault.circumstances : ConfigFault → List String
  | .missing path => [s!"Failed to read config from {path}"]
  | .malformed path => [s!"Failed to parse config from {path}"]
  | .invalid path reason => [s!"Invalid config in {path}", reason]

namespace Config

/-! Reading. -/

def tickOf? (node : Yaml) : Option TickSettings := do
  let fields ← node.fields? ["mode", "period_ms", "count"]
  let mode ← Yaml.withDefault fields "mode" (fun node => node.asChoice?.bind TickMode.ofName?)
    .continuous
  let period ← Yaml.withDefault fields "period_ms" Yaml.asNat? 500
  let count ← Yaml.withDefault fields "count" Yaml.asNat? 1
  return { mode, period, count }

def timingOf? (node : Yaml) : Option Timing := do
  let fields ← node.fields? ["loop_period_ms", "timeout_ms", "stop_grace_ms", "gate_poll_ms"]
  let loopPeriod ← Yaml.withDefault fields "loop_period_ms" Yaml.asNat? 100
  let timeout ← Yaml.withDefault fields "timeout_ms" Yaml.asNat? 10000
  let stopGrace ← Yaml.withDefault fields "stop_grace_ms" Yaml.asNat? 200
  let gatePoll ← Yaml.withDefault fields "gate_poll_ms" Yaml.asNat? 50
  return { loopPeriod, timeout, stopGrace, gatePoll }

/-- Of variables that are named twice the last value counts. -/
def valuesOf? (node : Yaml) : Option (Table Value) := do
  let entries ← node.asEntries?
  let pairs ← entries.mapM fun (name, held) => do
    let datum ← held.settle? 2
    let value ← Value.ofDatum? datum
    return (name, value)
  return .ofList pairs

def ofYaml? (document : Yaml) : Option Config := do
  let fields ← document.fields? ["version", "tick", "worker", "events_path", "process_variables"]
  let version ← Yaml.withDefault fields "version" Yaml.asOptionalText? none
  let tick ← Yaml.withDefault fields "tick" tickOf? {}
  let timing ← Yaml.withDefault fields "worker" timingOf? {}
  let eventsPath ← Yaml.withDefault fields "events_path" Yaml.asText? ".ctltree/events.jsonl"
  let values ← Yaml.withDefault fields "process_variables" valuesOf? {}
  return { version, tick, timing, eventsPath, values }

def read? (text : String) : Option Config := (Yaml.read text).bind ofYaml?

/-- The first setting that must be positive and is not. The period between ticks matters only if
ticks come by themselves. -/
def problem? (config : Config) : Option String :=
  if config.tick.mode ≠ .interactive ∧ config.tick.period = 0 then
    some "tick.period_ms must be positive"
  else if config.timing.loopPeriod = 0 then some "worker.loop_period_ms must be positive"
  else if config.timing.timeout = 0 then some "worker.timeout_ms must be positive"
  else if config.timing.gatePoll = 0 then some "worker.gate_poll_ms must be positive"
  else none

def load (disk : Disk) (path : String) : Except ConfigFault Config :=
  match disk.readText? path with
  | none => .error (.missing path)
  | some text =>
      match read? text with
      | none => .error (.malformed path)
      | some config =>
          match config.problem? with
          | some reason => .error (.invalid path reason)
          | none => .ok config

/-- The configuration of a project is in a file below its root; a project without one has the
default. -/
def loadProject (disk : Disk) (root : String) : Except ConfigFault Config :=
  let path := Text.Path.join root ".ctltree/config.yaml"
  if disk.existsAt path then load disk path else .ok {}

/-- The events of a project are recorded below its root. -/
def resolve (config : Config) (root : String) : Config :=
  { config with eventsPath := Text.Path.join root config.eventsPath }

/-! Writing. -/

def natDatum (number : Nat) : Datum := .int number

def toDatum (config : Config) : Datum :=
  .ofFields
    [("version", (config.version.map Datum.text).getD .null),
      ("tick", .ofFields
        [("mode", .text config.tick.mode.name), ("period_ms", natDatum config.tick.period),
          ("count", natDatum config.tick.count)]),
      ("worker", .ofFields
        [("loop_period_ms", natDatum config.timing.loopPeriod),
          ("timeout_ms", natDatum config.timing.timeout),
          ("stop_grace_ms", natDatum config.timing.stopGrace),
          ("gate_poll_ms", natDatum config.timing.gatePoll)]),
      ("events_path", .text config.eventsPath),
      ("process_variables", .ofFields
        (config.values.entries.map fun (name, value) => (name, value.toDatum)))]

def write (config : Config) : String := Json.write config.toDatum

end Config

end BehaviorTree
