import BehaviorTree.Config

/-!
Requests: what the arguments of the program ask for. Options stand before the verb or after it,
as words of their own or with their values attached; both places are read from left to right. The
first wish for help or for the version, or the first misuse, ends the reading. A value that stands
apart from its option is looked at when the next option, the tree or the end of its place is
reached.
-/

namespace BehaviorTree.CommandLine

/-- What one run changes in the settings of its project. -/
structure Overrides where
  mode : Option TickMode := none
  count : Option Nat := none
  period : Option Nat := none
  deriving DecidableEq, Repr

inductive Errand where
  | run (overrides : Overrides) (json : Bool)
  | validate
  | outline
  deriving DecidableEq, Repr

structure Request where
  /-- The root of the project; by default it is where the program was started. -/
  project : Option String
  isVerbose : Bool
  /-- The file of the tree. -/
  tree : String
  errand : Errand
  deriving DecidableEq, Repr

/-- Why arguments are no request. -/
inductive Refusal where
  | help
  | version
  | misuse
  deriving DecidableEq, Repr

/-- Asking for help is no failure. -/
def Refusal.code : Refusal → Nat
  | .help | .version => 0
  | .misuse => 2

inductive Verb where
  | run
  | validate
  | outline
  deriving DecidableEq, Repr

def Verb.ofWord? : String → Option Verb
  | "run" => some .run
  | "validate" => some .validate
  | "show" => some .outline
  | _ => none

inductive Flag where
  | verbose
  | json
  | help
  | version
  deriving DecidableEq, Repr

/-- What takes a value. -/
inductive Slot where
  | project
  | mode
  | count
  | period
  | tree
  deriving DecidableEq, Repr

/-- An option, and how it is written. -/
structure Switch where
  long : String
  letter : Option Char := none
  meaning : Flag ⊕ Slot

namespace Switch

def project : Switch := ⟨"project", some 'p', .inr .project⟩

def verbose : Switch := ⟨"verbose", some 'v', .inl .verbose⟩

def help : Switch := ⟨"help", some 'h', .inl .help⟩

def version : Switch := ⟨"version", some 'V', .inl .version⟩

/-- The options before the verb. -/
def leading : List Switch := [project, verbose, help, version]

/-- The options after a verb. -/
def following : Verb → List Switch
  | .run =>
      [project, verbose, help, ⟨"mode", none, .inr .mode⟩, ⟨"count", none, .inr .count⟩,
        ⟨"period-ms", none, .inr .period⟩, ⟨"json", none, .inl .json⟩]
  | .validate | .outline => [project, verbose, help]

def meaning? (switches : List Switch) (isMeant : Switch → Bool) : Option (Flag ⊕ Slot) :=
  (switches.find? isMeant).map (·.meaning)

end Switch

/-- What has been given and looked at. -/
structure Given where
  project : Option String := none
  tree : Option String := none
  overrides : Overrides := {}
  isVerbose : Bool := false
  json : Bool := false
  deriving DecidableEq, Repr

/-- A number of at most 64 bits, perhaps after a plus sign. -/
def readCount? (text : String) : Option Nat :=
  let numeral := match text.toList with
    | '+' :: rest => rest
    | all => all
  (Decimal.readDigits 10 numeral).filter (· < Nat.pow 2 64)

namespace Given

/-- Fills a slot that is still empty. -/
def fill (given : Given) (slot : Slot) (text : String) : Except Refusal Given :=
  let overrides := given.overrides
  let filled := match slot with
    | .project =>
        if given.project.isSome || text.isEmpty then none
        else some { given with project := some text }
    | .tree =>
        if given.tree.isSome || text.isEmpty then none else some { given with tree := some text }
    | .mode =>
        if overrides.mode.isSome then none
        else (TickMode.ofName? text).map fun mode =>
          { given with overrides := { overrides with mode := some mode } }
    | .count =>
        if overrides.count.isSome then none
        else (readCount? text).map fun count =>
          { given with overrides := { overrides with count := some count } }
    | .period =>
        if overrides.period.isSome then none
        else (readCount? text).map fun period =>
          { given with overrides := { overrides with period := some period } }
  match filled with
  | some after => .ok after
  | none => .error .misuse

/-- Raises a flag that is not raised. -/
def raise (given : Given) (flag : Flag) : Except Refusal Given :=
  match flag with
  | .help => .error .help
  | .version => .error .version
  | .verbose => if given.isVerbose then .error .misuse else .ok { given with isVerbose := true }
  | .json => if given.json then .error .misuse else .ok { given with json := true }

end Given

/-- The state of reading one place. -/
structure Reading where
  given : Given := {}
  /-- A slot whose value has not been looked at, or has not even come. -/
  pending : Option (Slot × Option String) := none
  deriving DecidableEq, Repr

namespace Reading

/-- Looks at the pending value. -/
def settle (reading : Reading) : Except Refusal Given :=
  match reading.pending with
  | none => .ok reading.given
  | some (slot, some text) => reading.given.fill slot text
  | some (_, none) => .error .misuse

/-- The slot that the next plain word fills. -/
def awaited? (reading : Reading) : Option Slot :=
  match reading.pending with
  | some (slot, none) => some slot
  | _ => none

def raise (reading : Reading) (flag : Flag) : Except Refusal Reading := do
  return { given := ← (← reading.settle).raise flag }

/-- Fills a slot with a value that is attached to its option. -/
def attach (reading : Reading) (slot : Slot) (text : String) : Except Refusal Reading := do
  return { given := ← (← reading.settle).fill slot text }

/-- Opens a slot, with its value if that has come. -/
def await (reading : Reading) (slot : Slot) (text : Option String) : Except Refusal Reading := do
  return { given := ← reading.settle, pending := some (slot, text) }

/-- Letters behind a single stroke: flags, of which the last may be an option with its value. -/
def letters (switches : List Switch) : Reading → List Char → Except Refusal Reading
  | reading, [] => .ok reading
  | reading, letter :: rest =>
      match Switch.meaning? switches (·.letter = some letter), rest with
      | none, _ => .error .misuse
      | some (.inl flag), _ => do letters switches (← reading.raise flag) rest
      | some (.inr slot), [] => reading.await slot none
      | some (.inr slot), '=' :: value => reading.attach slot (String.ofList value)
      | some (.inr slot), value => reading.attach slot (String.ofList value)

/-- A word behind two strokes, with a value behind the first equality sign if there is one. -/
def word (switches : List Switch) (reading : Reading) (chars : List Char) :
    Except Refusal Reading :=
  let long := String.ofList (chars.takeWhile (· ≠ '='))
  match Switch.meaning? switches (·.long = long), chars.dropWhile (· ≠ '=') with
  | some (.inl flag), [] => reading.raise flag
  | some (.inr slot), [] => reading.await slot none
  | some (.inr slot), _ :: value => reading.attach slot (String.ofList value)
  | some (.inl _), _ :: _ | none, _ => .error .misuse

/-- Reads what follows a verb. Behind two lone strokes nothing is an option. -/
def following (switches : List Switch) : Bool → Reading → List String → Except Refusal Given
  | _, reading, [] => reading.settle
  | true, reading, argument :: rest => do
      following switches true (← reading.await .tree (some argument)) rest
  | false, reading, argument :: rest =>
      match argument.toList with
      | ['-', '-'] => following switches true reading rest
      | '-' :: '-' :: chars => do following switches false (← reading.word switches chars) rest
      | '-' :: first :: chars => do
          following switches false (← reading.letters switches (first :: chars)) rest
      | _ =>
          match reading.awaited? with
          | some slot =>
              following switches false
                { reading with pending := some (slot, some argument) } rest
          | none => do
              following switches false (← reading.await .tree (some argument)) rest

end Reading

/-- Help may be asked for by a verb, for the program or for one verb. -/
def helpOn : List String → Refusal
  | [] => .help
  | [topic] => if topic = "help" || (Verb.ofWord? topic).isSome then .help else .misuse
  | _ => .misuse

/-- Reads what stands before the verb. What remains behind the verb is still to be read. -/
def leading : Reading → List String → Except Refusal (Reading × Verb × List String)
  | _, [] => .error .misuse
  | reading, argument :: rest =>
      match argument.toList with
      | ['-', '-'] => .error .misuse
      | '-' :: '-' :: chars => do leading (← reading.word Switch.leading chars) rest
      | '-' :: first :: chars => do
          leading (← reading.letters Switch.leading (first :: chars)) rest
      | _ =>
          match reading.awaited?, Verb.ofWord? argument with
          | some slot, _ => leading { reading with pending := some (slot, some argument) } rest
          | none, some verb => .ok (reading, verb, rest)
          | none, none => .error (if argument = "help" then helpOn rest else .misuse)

def Verb.errand (given : Given) : Verb → Errand
  | .run => .run given.overrides given.json
  | .validate => .validate
  | .outline => .outline

/-- The request of some arguments. A project that is named behind the verb is the one that
counts. -/
def Request.ofArguments (arguments : List String) : Except Refusal Request := do
  let (reading, verb, rest) ← leading {} arguments
  let after ← Reading.following (Switch.following verb) false {} rest
  match after.tree with
  | none => .error .misuse
  | some tree =>
      let before ← reading.settle
      return {
        project := after.project.or before.project
        isVerbose := after.isVerbose || before.isVerbose
        tree
        errand := verb.errand after }

end BehaviorTree.CommandLine
