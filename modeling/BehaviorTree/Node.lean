import BehaviorTree.Action

/-!
The nodes of a control tree. A leaf answers by itself; a branch combines the answers of its
children by a rule. Every node carries its name, its last status and a message for the operator.
-/

namespace BehaviorTree

inductive Kind where
  | condition
  | acknowledge
  | action
  | sequence
  | selector
  | parallel
  | checkAndDo
  deriving DecidableEq, Repr, Inhabited

namespace Kind

def all : List Kind :=
  [.condition, .acknowledge, .action, .sequence, .selector, .parallel, .checkAndDo]

def name : Kind → String
  | .condition => "condition"
  | .acknowledge => "acknowledge"
  | .action => "action"
  | .sequence => "sequence"
  | .selector => "selector"
  | .parallel => "parallel"
  | .checkAndDo => "check_and_do"

def ofName? (text : String) : Option Kind := all.find? (·.name = text)

end Kind

structure NodeState where
  name : String
  description : String := ""
  status : Status := .invalid
  message : String := ""
  deriving DecidableEq, Repr, Inhabited

/-- What a condition looks at: a signal from outside, or a process variable. -/
inductive Test where
  | signal (on : Bool)
  | reading (check : Check)

inductive Leaf where
  | condition (test : Test)
  | acknowledge (permitted : List String) (acknowledgedBy : Option String)
  | action (action : Action)
  /-- Answers given in advance, of which the last one repeats, and possibly a reason why the leaf
  cannot be set up. It reports its calls. -/
  | scripted (kind : Kind) (answers : List Status) (setupFault : Option String)

/-- Whether a row of children needs all of them or any of them. -/
inductive Flow where
  | sequence
  | selector
  deriving DecidableEq, Repr

namespace Flow

/-- The answer of a child after which the row goes on to the next, and which is its own answer
when there is no next. -/
def onward : Flow → Status
  | .sequence => .success
  | .selector => .failure

def kind : Flow → Kind
  | .sequence => .sequence
  | .selector => .selector

end Flow

inductive ParallelPolicy where
  | successOnAll
  | successOnOne
  deriving DecidableEq, Repr, Inhabited

namespace ParallelPolicy

def all : List ParallelPolicy := [.successOnAll, .successOnOne]

def name : ParallelPolicy → String
  | .successOnAll => "success_on_all"
  | .successOnOne => "success_on_one"

def title : ParallelPolicy → String
  | .successOnAll => "SuccessOnAll"
  | .successOnOne => "SuccessOnOne"

def ofName? (text : String) : Option ParallelPolicy := all.find? (·.name = text)

end ParallelPolicy

/-- How a branch combines its children. -/
inductive Rule where
  /-- A row that starts from the first child in every tick. -/
  | reactive (flow : Flow)
  /-- A row that goes on from the child it stopped at. -/
  | memory (flow : Flow) (index : Nat)
  /-- All children at once; with `synchronise` those that have succeeded rest. -/
  | parallel (policy : ParallelPolicy) (synchronise : Bool) (settled : List Bool)
  /-- A check and an action: the action is tried while the check fails. -/
  | checkAndDo
  deriving DecidableEq, Repr

inductive Node where
  | leaf (state : NodeState) (leaf : Leaf)
  | branch (state : NodeState) (rule : Rule) (children : List Node)

instance : Inhabited Node := ⟨.leaf { name := "" } (.condition (.signal false))⟩

namespace Rule

def kind : Rule → Kind
  | .reactive flow | .memory flow _ => flow.kind
  | .parallel _ _ _ => .parallel
  | .checkAndDo => .checkAndDo

/-- The memory of a rule at the beginning of a cycle. -/
def initialise : Rule → Rule
  | .memory flow _ => .memory flow 0
  | .parallel policy synchronise settled =>
      .parallel policy synchronise (settled.map fun _ => false)
  | other => other

/-- What is left of the memory of a rule once its cycle is over. -/
def terminate : Rule → Rule
  | .memory flow _ => .memory flow 0
  | other => other

end Rule

namespace Leaf

def kind : Leaf → Kind
  | .condition _ => .condition
  | .acknowledge _ _ => .acknowledge
  | .action _ => .action
  | .scripted kind _ _ => kind

end Leaf

namespace Node

def state : Node → NodeState
  | .leaf state _ => state
  | .branch state _ _ => state

def withState : Node → NodeState → Node
  | .leaf _ content, state => .leaf state content
  | .branch _ rule children, state => .branch state rule children

def name (node : Node) : String := node.state.name

def status (node : Node) : Status := node.state.status

def children : Node → List Node
  | .leaf _ _ => []
  | .branch _ _ children => children

def kind : Node → Kind
  | .leaf _ content => content.kind
  | .branch _ rule _ => rule.kind

def isRunning (node : Node) : Bool := node.status == .running

/-- A row of children, with or without memory. -/
def row (state : NodeState) (flow : Flow) (memory : Bool) (children : List Node) : Node :=
  .branch state (if memory then .memory flow 0 else .reactive flow) children

def parallel (state : NodeState) (policy : ParallelPolicy) (synchronise : Bool)
    (children : List Node) : Node :=
  .branch state (.parallel policy synchronise (children.map fun _ => false)) children

def checkAndDo (state : NodeState) (check action : Node) : Node :=
  .branch state .checkAndDo [check, action]

def action (state : NodeState) (work : Work) : Node := .leaf state (.action { work })

end Node

end BehaviorTree
