import BehaviorTree.Proofs.Inspection
import BehaviorTree.Proofs.Naming
import BehaviorTree.Proofs.Waiting

/-!
A manager in service. It takes one order at a time; some are answered at once, others are taken up
first and answered later, a stop only when the drive is over. Between orders, and while one is
pending, drives go on, workers work, process variables vary and time passes, in any way. What was
taken up and answered and what the drives did makes up a chronicle.
-/

namespace BehaviorTree

/-- The action of a node comes to stand as given. -/
def Node.withAction (action : Action) : Node → Node
  | .leaf state (.action _) => .leaf state (.action action)
  | other => other

/-- What happens in a loaded tree by itself: its drive goes on, or one of its actions comes to stand
differently by what its worker did. -/
inductive Motion where
  | ask (expires : Bool)
  | tick
  | finish
  | work (path : Node.Path) (action : Action)

/-- What is worth telling of a loaded tree: its driver was asked for the next tick, or it was
ticked. -/
inductive Mark where
  | asked (wait : Wait)
  | ticked (status : Status)

namespace Mark

def wait? : Mark → Option Wait
  | .asked wait => some wait
  | .ticked _ => none

def status? : Mark → Option Status
  | .asked _ => none
  | .ticked status => some status

/-- The questions for the next tick. -/
def waits (marks : List Mark) : List Wait := marks.filterMap wait?

/-- The answers of the ticks. -/
def ticks (marks : List Mark) : List Status := marks.filterMap status?

@[simp] theorem waits_append (early late : List Mark) :
    waits (early ++ late) = waits early ++ waits late := List.filterMap_append

@[simp] theorem ticks_append (early late : List Mark) :
    ticks (early ++ late) = ticks early ++ ticks late := List.filterMap_append

@[simp] theorem waits_asked (wait : Wait) : waits [.asked wait] = [wait] := rfl

@[simp] theorem waits_ticked (status : Status) : waits [.ticked status] = [] := rfl

@[simp] theorem ticks_asked (wait : Wait) : ticks [.asked wait] = [] := rfl

@[simp] theorem ticks_ticked (status : Status) : ticks [.ticked status] = [status] := rfl

end Mark

/-- A loaded tree after something happened in it. -/
structure Moved where
  tree : LoadedTree
  events : List Event := []
  marks : List Mark := []

namespace LoadedTree

/-- Whether the drive is to perform a tick. -/
def isDue (tree : LoadedTree) : Bool := tree.drive.any (·.stage = .ticking)

/-- The question that the drive puts to its driver, if it is about to ask. -/
def question? (tree : LoadedTree) (expires : Bool) : Option Wait :=
  (tree.drive.filter (·.stage = .asking)).map fun drive => ⟨drive.driver, expires⟩

def undergo (store : Store) (tree : LoadedTree) : Motion → Moved
  | .ask expires =>
      { tree := tree.ask expires, marks := ((tree.question? expires).map Mark.asked).toList }
  | .tick =>
      let (after, events) := tree.perform store
      { tree := after, events
        marks := if tree.isDue then [.ticked after.ticker.lastStatus] else [] }
  | .finish => { tree := tree.finish }
  | .work path action =>
      { tree := { tree with ticker.root := tree.ticker.root.changeAt (.withAction action) path } }

end LoadedTree

/-- What a manager can be told to do with a loaded tree. -/
inductive Instruction where
  | start (policy : Policy)
  | pause
  | resume
  | step
  | tickOnce
  | stop
  | wait
  | unload
  | acknowledge (node identity : String)
  deriving DecidableEq, Repr

/-- What a manager answers if nothing is in the way. -/
inductive Reply where
  | loaded (id : TreeId)
  | done
  | status (status : Status)
  deriving DecidableEq, Repr

abbrev Response := Except ManagerFault Reply

def Handled.map {First Second : Type} (change : First → Second) (handled : Handled First) :
    Handled Second :=
  { tree := handled.tree, events := handled.events, answer := handled.answer.map change }

namespace Instruction

/-- The command that the drive of the tree gets, if there is a drive. -/
def command? : Instruction → Option Command
  | .pause => some .pause
  | .resume => some .resume
  | .step => some .step
  | .stop | .unload => some .stop
  | .start _ | .tickOnce | .wait | .acknowledge _ _ => none

/-- Whether an instruction is answered at once. -/
def isBrief : Instruction → Bool
  | .tickOnce | .acknowledge _ _ => true
  | .start _ | .pause | .resume | .step | .stop | .wait | .unload => false

/-- What an instruction does when it is taken up, and whether it is. -/
def takeUp (store : Store) (tree : LoadedTree) : Instruction → Handled Reply
  | .start policy => (tree.launch policy).map fun _ => .done
  | .pause => (tree.command .pause).map fun _ => .done
  | .resume => (tree.command .resume).map fun _ => .done
  | .step => (tree.command .step).map fun _ => .done
  | .tickOnce => (tree.tickOnce store).map .status
  | .stop => tree.dismiss.map fun _ => .done
  | .wait => { tree, answer := tree.release.answer.map fun _ => .done }
  | .unload => { tree := tree.dismiss.tree, answer := .ok .done }
  | .acknowledge node identity => (tree.acknowledge node identity).map fun _ => .done

def marks : Instruction → Reply → List Mark
  | .tickOnce, .status status => [.ticked status]
  | _, _ => []

end Instruction

inductive Order where
  /-- A plan is brought, or the reason why it could not be read. -/
  | load (read : Except PlanFault TreePlan)
  | instruct (id : TreeId) (instruction : Instruction)

inductive Happening where
  | motion (id : TreeId) (motion : Motion)
  /-- Process variables vary, and what became of the trees that were unloaded comes to its end. -/
  | vary (store : Store) (orphans : List (String × Action))
  | pass (now : Timestamp)

inductive Entry where
  | taken (id : TreeId) (instruction : Instruction)
  | did (id : TreeId) (mark : Mark)
  | answered (order : Order) (answer : Response)

namespace Entry

def told? (id : TreeId) : Entry → Option Instruction
  | .taken other instruction => if other = id then some instruction else none
  | .did _ _ | .answered _ _ => none

def mark? (id : TreeId) : Entry → Option Mark
  | .did other mark => if other = id then some mark else none
  | .taken _ _ | .answered _ _ => none

/-- The instructions about a tree that were taken up. -/
def told (id : TreeId) (chronicle : List Entry) : List Instruction :=
  chronicle.filterMap (told? id)

def marks (id : TreeId) (chronicle : List Entry) : List Mark := chronicle.filterMap (mark? id)

@[simp] theorem told_append (id : TreeId) (early late : List Entry) :
    told id (early ++ late) = told id early ++ told id late := List.filterMap_append

@[simp] theorem marks_append (id : TreeId) (early late : List Entry) :
    marks id (early ++ late) = marks id early ++ marks id late := List.filterMap_append

@[simp] theorem told_nil (id : TreeId) : told id [] = [] := rfl

@[simp] theorem marks_nil (id : TreeId) : marks id [] = [] := rfl

@[simp] theorem told_taken (id other : TreeId) (instruction : Instruction) (rest : List Entry) :
    told id (.taken other instruction :: rest) =
      (if other = id then [instruction] else []) ++ told id rest := by
  by_cases here : other = id <;> simp [told, told?, here]

@[simp] theorem marks_taken (id other : TreeId) (instruction : Instruction)
    (rest : List Entry) : marks id (.taken other instruction :: rest) = marks id rest := rfl

@[simp] theorem told_answered (id : TreeId) (order : Order) (response : Response) :
    told id [.answered order response] = [] := rfl

@[simp] theorem marks_answered (id : TreeId) (order : Order) (response : Response) :
    marks id [.answered order response] = [] := rfl

end Entry

namespace Manager

def isDriven (manager : Manager) (id : TreeId) : Bool :=
  ((manager.tree? id).bind (·.activeDrive?)).isSome

/-- What is left to do of an instruction that was taken up, and its answer. A stop, a wait and an
unloading wait for the drive to be over. -/
def conclude (manager : Manager) (id : TreeId) : Instruction → Option (Manager × Response)
  | .start policy => some (manager.announce id fun tree => some (tree.startEvent policy), .ok .done)
  | .pause => some (manager.announce id (·.commandEvent? .pause), .ok .done)
  | .resume => some (manager.announce id (·.commandEvent? .resume), .ok .done)
  | .step => some (manager.announce id (·.commandEvent? .step), .ok .done)
  | .stop =>
      if manager.isDriven id then none
      else
        let (released, answer) := manager.handle id (·.release)
        some (released.announce id fun tree => some tree.stopEvent, answer.map .status)
  | .wait =>
      if manager.isDriven id then none
      else
        let (released, answer) := manager.handle id (·.release)
        some (released, answer.map .status)
  | .unload =>
      if manager.isDriven id then none
      else
        let (after, answer) := manager.forget id
        some (after, answer.map fun _ => .done)
  | .tickOnce | .acknowledge _ _ => none

end Manager

/-- A manager with the instruction that it has not answered yet. -/
structure Service where
  manager : Manager
  pending : Option (TreeId × Instruction) := none

/-- One moment of service. -/
inductive Moment where
  | order (order : Order)
  | happening (happening : Happening)
  | answer

namespace Service

def obey (service : Service) (order : Order) : Service × List Entry :=
  match order with
  | .load read =>
      let (after, answer) := service.manager.loadRead read
      ({ service with manager := after }, [.answered order (answer.map .loaded)])
  | .instruct id instruction =>
      match service.manager.handle id (instruction.takeUp service.manager.store) with
      | (after, .error fault) =>
          ({ service with manager := after }, [.answered order (.error fault)])
      | (after, .ok reply) =>
          if instruction.isBrief then
            ({ service with manager := after },
              .taken id instruction :: (instruction.marks reply).map (.did id) ++
                [.answered order (.ok reply)])
          else
            ({ manager := after, pending := some (id, instruction) }, [.taken id instruction])

def undergo (service : Service) : Happening → Service × List Entry
  | .motion id motion =>
      match service.manager.tree? id with
      | none => (service, [])
      | some tree =>
          let moved := tree.undergo service.manager.store motion
          ({ service with
              manager := (service.manager.replace moved.tree).recordAll moved.events },
            moved.marks.map (.did id))
  | .vary store orphans =>
      ({ service with manager := { service.manager with store, orphans } }, [])
  | .pass now => ({ service with manager := { service.manager with now } }, [])

/-- The moments that are possible: no order is taken while another one is pending. -/
def meet (service : Service) : Moment → Option (Service × List Entry)
  | .order order =>
      match service.pending with
      | none => some (service.obey order)
      | some _ => none
  | .happening happening => some (service.undergo happening)
  | .answer =>
      match service.pending with
      | none => none
      | some (id, instruction) =>
          (service.manager.conclude id instruction).map fun (after, answer) =>
            ({ manager := after }, [.answered (.instruct id instruction) answer])

theorem meet_order_eq_some {service next : Service} {order : Order} {entries : List Entry} :
    service.meet (.order order) = some (next, entries) ↔
      service.pending = none ∧ next = (service.obey order).1 ∧
        entries = (service.obey order).2 := by
  rw [meet]
  cases service.pending with
  | none => simp [Prod.ext_iff, eq_comm]
  | some => simp

theorem meet_happening_eq_some {service next : Service} {happening : Happening}
    {entries : List Entry} :
    service.meet (.happening happening) = some (next, entries) ↔
      next = (service.undergo happening).1 ∧ entries = (service.undergo happening).2 := by
  simp [meet, Prod.ext_iff, eq_comm]

theorem meet_answer_eq_some {service next : Service} {entries : List Entry} :
    service.meet .answer = some (next, entries) ↔
      ∃ id instruction after response, service.pending = some (id, instruction) ∧
        service.manager.conclude id instruction = some (after, response) ∧
        next = { manager := after } ∧
        entries = [.answered (.instruct id instruction) response] := by
  rw [meet]
  cases service.pending with
  | none => simp
  | some pending =>
      obtain ⟨id, instruction⟩ := pending
      constructor
      · intro met
        obtain ⟨⟨after, response⟩, concluded, same⟩ := Option.map_eq_some_iff.mp met
        cases same
        exact ⟨id, instruction, after, response, rfl, concluded, rfl, rfl⟩
      · rintro ⟨_, _, after, response, same, concluded, rfl, rfl⟩
        cases same
        simp [concluded]

/-- The service after some moments, with their chronicle. -/
def run (service : Service) : List Moment → Option (Service × List Entry)
  | [] => some (service, [])
  | moment :: rest => do
      let (next, entries) ← service.meet moment
      let (last, more) ← next.run rest
      return (last, entries ++ more)

theorem run_nil (service : Service) : service.run [] = some (service, []) := rfl

theorem run_cons_eq_some {service last : Service} {moment : Moment} {rest : List Moment}
    {chronicle : List Entry} :
    service.run (moment :: rest) = some (last, chronicle) ↔
      ∃ next entries more, service.meet moment = some (next, entries) ∧
        next.run rest = some (last, more) ∧ chronicle = entries ++ more := by
  rw [run]
  constructor
  · intro ran
    obtain ⟨⟨next, entries⟩, met, ran⟩ := Option.bind_eq_some_iff.mp ran
    obtain ⟨⟨last, more⟩, onward, same⟩ := Option.bind_eq_some_iff.mp ran
    cases same
    exact ⟨next, entries, more, met, onward, rfl⟩
  · rintro ⟨next, entries, more, met, onward, rfl⟩
    simp [met, onward]

theorem run_append_eq_some {service last : Service} {early late : List Moment}
    {chronicle : List Entry} :
    service.run (early ++ late) = some (last, chronicle) ↔
      ∃ middle first second, service.run early = some (middle, first) ∧
        middle.run late = some (last, second) ∧ chronicle = first ++ second := by
  induction early generalizing service chronicle with
  | nil => simp [run_nil]
  | cons moment rest ih =>
      rw [List.cons_append, run_cons_eq_some]
      simp only [run_cons_eq_some, ih]
      constructor
      · rintro ⟨next, entries, _, met, ⟨middle, first, second, ran, onward, rfl⟩, rfl⟩
        exact ⟨middle, _, second, ⟨next, entries, first, met, ran, rfl⟩, onward,
          (List.append_assoc ..).symm⟩
      · rintro ⟨middle, _, second, ⟨next, entries, first, met, ran, rfl⟩, onward, rfl⟩
        exact ⟨next, entries, _, met, ⟨middle, first, second, ran, onward, rfl⟩,
          List.append_assoc ..⟩

end Service

end BehaviorTree
