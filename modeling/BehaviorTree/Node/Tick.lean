import BehaviorTree.Node.Halt

/-!
Ticking. A node that is entered while it is not running is initialised first; then it is updated;
and once its answer is not running any more, its cycle is over and none of its children is left
running. Every node that was ticked is recorded with its answer, after its children.
-/

namespace BehaviorTree

/-- A node that was ticked, and its answer. -/
structure Visit where
  name : String
  status : Status
  deriving DecidableEq, Repr

/-- What leaves can see during a tick: its number and the process variables. -/
structure Surroundings where
  tick : Nat
  store : Store

/-- What a tick leaves behind besides the tree. -/
structure Journal where
  visits : List Visit := []
  calls : List Call := []
  deriving Repr

instance : Append Journal :=
  ⟨fun first second => ⟨first.visits ++ second.visits, first.calls ++ second.calls⟩⟩

namespace Leaf

/-- Entering a leaf anew. -/
def initialise : Leaf → Leaf
  | .action inner => .action inner.initialise
  | other => other

/-- The answer of a leaf and the leaf that is left. -/
def update (surroundings : Surroundings) : Leaf → Status × Leaf
  | .condition (.signal on) => (.ofBool on, .condition (.signal on))
  | .condition (.reading check) =>
      (.ofBool (check.holds surroundings.store), .condition (.reading check))
  | .acknowledge permitted acknowledgedBy =>
      (.ofBool acknowledgedBy.isSome, .acknowledge permitted acknowledgedBy)
  | .action inner => (inner.cell.status, .action inner)
  | .scripted kind answers fault =>
      match answers with
      | [] => (.invalid, .scripted kind [] fault)
      | [answer] => (answer, .scripted kind [answer] fault)
      | answer :: next :: rest => (answer, .scripted kind (next :: rest) fault)

/-- An action starts without a message and tells how it ended. -/
def message (leaf : Leaf) (entered : Bool) (status : Status) (before : String) : String :=
  match leaf with
  | .action _ =>
      match status with
      | .success => "Action complete"
      | .failure => "Action failed"
      | .running | .invalid => if entered then "" else before
  | _ => before

end Leaf

namespace Node

structure Ticked where
  node : Node
  journal : Journal

/-- Children after some of them were ticked in a row: how many answered as the row needs to go on,
and the first other answer. -/
structure Swept where
  children : List Node
  passed : Nat
  verdict : Option Status
  journal : Journal

/-- Children after they were ticked side by side, with the answer counted for each. -/
structure Gathered where
  children : List Node
  answers : List Status
  journal : Journal

def tickLeaf (surroundings : Surroundings) (state : NodeState) (content : Leaf) : Ticked :=
  let entered := state.status != .running
  let begun := if entered then content.initialise else content
  let (status, after) := begun.update surroundings
  { node := .leaf
      { state with status, message := content.message entered status state.message } after
    journal :=
      { visits := [⟨state.name, status⟩]
        calls :=
          (if entered then content.calls (.initialise state.name) else []) ++
            content.calls (.update state.name surroundings.tick) ++
            if status = .running then [] else content.calls (.terminate state.name status) } }

def parallelVerdict (policy : ParallelPolicy) (answers : List Status) : Status :=
  if answers.contains .failure then .failure
  else
    let succeeded : Bool := match policy with
      | .successOnAll => answers.all (· == .success)
      | .successOnOne => answers.contains .success
    if succeeded then .success else .running

/-- What a check-and-do tells the operator. -/
def goalMessage (check : Option Status) : Status → String
  | .success => if check = some .success then "Goal already met" else "Goal reached by action"
  | .running => "Acting"
  | .failure => "Goal not reached"
  | .invalid => ""

/-- A branch whose rule has come to an answer. -/
structure Decided where
  rule : Rule
  children : List Node
  status : Status
  journal : Journal

/-- After a row without memory has decided, the children behind the deciding one stop running. -/
def decideReactive (rule : Rule) (flow : Flow) (swept : Swept) : Decided :=
  match swept.verdict with
  | none => ⟨rule, swept.children, flow.onward, swept.journal⟩
  | some status =>
      let (behind, calls) := haltRunning (swept.children.drop (swept.passed + 1))
      ⟨rule, swept.children.take (swept.passed + 1) ++ behind, status,
        swept.journal ++ { calls }⟩

def decideMemory (flow : Flow) (index : Nat) (swept : Swept) : Decided :=
  ⟨.memory flow (index + swept.passed), swept.children, swept.verdict.getD flow.onward,
    swept.journal⟩

def decideParallel (policy : ParallelPolicy) (synchronise : Bool) (gathered : Gathered) :
    Decided :=
  ⟨.parallel policy synchronise (gathered.answers.map (· == .success)), gathered.children,
    parallelVerdict policy gathered.answers, gathered.journal⟩

/-- Records the answer, and ends the cycle unless it goes on. -/
def conclude (state : NodeState) (decided : Decided) : Ticked :=
  let message := match decided.rule with
    | .checkAndDo => goalMessage (decided.children.head?.map (·.status)) decided.status
    | _ => state.message
  let after := { state with status := decided.status, message }
  let visit : Journal := { visits := [⟨state.name, decided.status⟩] }
  if decided.status = .running then
    { node := .branch after decided.rule decided.children
      journal := decided.journal ++ visit }
  else
    let (children, calls) := haltRunning decided.children
    { node := .branch after decided.rule.terminate children
      journal := decided.journal ++ { calls } ++ visit }

mutual

def tick (surroundings : Surroundings) : Node → Ticked
  | .leaf state content => tickLeaf surroundings state content
  | .branch state rule children =>
      match if state.status = .running then rule else rule.initialise with
      | .reactive flow =>
          conclude state
            (decideReactive (.reactive flow) flow (sweep surroundings flow.onward 0 children))
      | .memory flow index =>
          conclude state
            (decideMemory flow index (sweep surroundings flow.onward index children))
      | .parallel policy synchronise settled =>
          conclude state
            (decideParallel policy synchronise (gather surroundings synchronise settled children))
      | .checkAndDo =>
          conclude state
            (decideReactive .checkAndDo .selector
              (sweep surroundings Flow.selector.onward 0 children))

/-- Ticks children in order after leaving out the first few, as long as they answer `onward`. -/
def sweep (surroundings : Surroundings) (onward : Status) : Nat → List Node → Swept
  | _, [] => ⟨[], 0, none, {}⟩
  | skip + 1, child :: rest =>
      let swept := sweep surroundings onward skip rest
      { swept with children := child :: swept.children }
  | 0, child :: rest =>
      let ticked := tick surroundings child
      if ticked.node.status = onward then
        let swept := sweep surroundings onward 0 rest
        { swept with
          children := ticked.node :: swept.children
          passed := swept.passed + 1
          journal := ticked.journal ++ swept.journal }
      else ⟨ticked.node :: rest, 0, some ticked.node.status, ticked.journal⟩

/-- Ticks every child, except that a settled one rests when the branch synchronises. -/
def gather (surroundings : Surroundings) (synchronise : Bool) : List Bool → List Node → Gathered
  | _, [] => ⟨[], [], {}⟩
  | [], rest => ⟨rest, [], {}⟩
  | settled :: more, child :: rest =>
      if synchronise && settled then
        let gathered := gather surroundings synchronise more rest
        { gathered with
          children := child :: gathered.children
          answers := .success :: gathered.answers }
      else
        let ticked := tick surroundings child
        let gathered := gather surroundings synchronise more rest
        { children := ticked.node :: gathered.children
          answers := ticked.node.status :: gathered.answers
          journal := ticked.journal ++ gathered.journal }

end

end Node

end BehaviorTree
