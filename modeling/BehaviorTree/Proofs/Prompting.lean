import BehaviorTree.Proofs.Stints

/-!
A tree under the interactive policy that is told one thing at a time. Its drive waits, was told to
step, is to tick, was told to stop or is on its way to the end; so every step comes to one tick, and
what there is to see of the tree is what its last tick left.
-/

namespace BehaviorTree

/-! What there is to see. -/

namespace Report

/-- What a worker does is not reported before the next tick. -/
theorem of_change_action (action : Action) (path : Node.Path) (node : Node) :
    of (node.changeAt (.withAction action) path) = of node := by
  induction path generalizing node with
  | nil =>
      cases node with
      | leaf state content => cases content <;> rfl
      | branch => rfl
  | cons index path ih =>
      cases node with
      | leaf => rfl
      | branch state rule children =>
          have same : (children.modify index (Node.changeAt (.withAction action) path)).map of =
              children.map of := by
            apply List.ext_getElem?
            intro place
            rw [List.getElem?_map, List.getElem?_map, List.getElem?_modify]
            cases children[place]? with
            | none => rfl
            | some child =>
                by_cases here : index = place <;> simp [here, ih]
          rw [Node.change_at_branch, of, of, of_all_eq_map, of_all_eq_map, same]

/-- To set a tree up leaves its report as it is. -/
theorem of_setup (node : Node) : of node.setup.node = of node := by
  induction node with
  | leaf state content =>
      cases content with
      | action action =>
          rw [Node.setup, Node.setupLeaf]
          cases action.setup state.name <;> rfl
      | condition | acknowledge | scripted => rfl
  | branch state rule children induction =>
      have below : (Node.setupAll children).children.map of = children.map of := by
        induction children with
        | nil => rfl
        | cons child rest later =>
            have first := induction child (by simp)
            have others := later fun other member => induction other (by simp [member])
            rw [Node.setupAll]
            split
            · rw [List.map_cons, List.map_cons, first]
            · rw [List.map_cons, List.map_cons, first, others]
      rw [Node.setup, of, of, of_all_eq_map, of_all_eq_map, below]

end Report

/-- The last status of a tree and its report. -/
abbrev Sight := Status × Report

def LoadedTree.sight (tree : LoadedTree) : Sight := (tree.ticker.lastStatus, tree.ticker.report)

/-- What a motion of a tree brings to see: nothing new, or one tick. -/
theorem LoadedTree.sight_undergo (tree : LoadedTree) (store : Store) (motion : Motion) :
    (Mark.ticks (tree.undergo store motion).marks = [] ∧
        (tree.undergo store motion).tree.ticker.tickCount = tree.ticker.tickCount ∧
        (tree.undergo store motion).tree.sight = tree.sight) ∨
      ((Mark.ticks (tree.undergo store motion).marks).length = 1 ∧
        (tree.undergo store motion).tree.ticker.tickCount = tree.ticker.tickCount + 1) := by
  have turns := tree.turns_of_undergo store motion
  generalize (tree.undergo store motion).marks = marks at turns ⊢
  generalize (tree.undergo store motion).tree = after at turns ⊢
  generalize none : ([] : List Instruction) = told at turns
  cases turns with
  | rests same mute unticked => exact .inl ⟨unticked, by rw [same], by rw [sight, same, sight]⟩
  | ticks other same =>
      refine .inr ⟨rfl, ?_⟩
      rw [same]
      rfl
  | works path action same =>
      refine .inl ⟨rfl, by rw [same], ?_⟩
      rw [sight, same, sight, Ticker.report, Report.of_change_action]
      rfl
  | hears node identity granted => cases none

/-! Phases of a drive. -/

/-- How an interactive drive stands that is told one thing at a time: it waits, was told to step, is
to tick, was told to stop, is on its way to the end, or is over. -/
inductive Phase where
  | waiting
  | prompted
  | due
  | stopped
  | leaving
  | gone
  | over
  deriving DecidableEq, Repr

namespace Phase

def stage : Phase → Stage
  | .waiting | .prompted | .stopped => .asking
  | .due => .ticking
  | .leaving => .leaving
  | .gone => .gone
  | .over => .over

def queue : Phase → List Command
  | .prompted => [.step]
  | .stopped => [.stop]
  | .waiting | .due | .leaving | .gone | .over => []

/-- What becomes of a drive in a motion of its tree. -/
def after : Phase → Motion → Phase
  | .prompted, .ask _ => .due
  | .due, .tick => .waiting
  | .stopped, .ask _ => .leaving
  | .leaving, .finish => .gone
  | .gone, .finish => .over
  | phase, _ => phase

/-- How many ticks are still to come. -/
def owed : Phase → Nat
  | .prompted | .due => 1
  | .waiting | .stopped | .leaving | .gone | .over => 0

/-- Whether a drive was not told to stop. -/
def isOpen : Phase → Bool
  | .waiting | .prompted | .due => true
  | .stopped | .leaving | .gone | .over => false

theorem after_is_open (phase : Phase) (motion : Motion) :
    (phase.after motion).isOpen = phase.isOpen := by
  cases phase <;> cases motion <;> rfl

theorem waiting_of_open {phase : Phase} (opened : phase.isOpen = true) (paid : phase.owed = 0) :
    phase = .waiting := by
  cases phase <;> simp_all [isOpen, owed]

/-- A drive in a phase. -/
structure Has (phase : Phase) (drive : Drive) : Prop where
  interactive : drive.driver.policy = .interactive
  channel : drive.driver.channel = some { queue := phase.queue }
  stage : drive.stage = phase.stage

/-- The drive of a tree in a phase; in the end there is none any more. -/
inductive Suits : Phase → Option Drive → Prop
  | driven {phase : Phase} {drive : Drive} (has : phase.Has drive) : Suits phase (some drive)
  | undriven : Suits .over none

variable {phase : Phase} {drive : Drive}

theorem Has.ask (has : phase.Has drive) (expires : Bool) :
    (phase.after (.ask expires)).Has (drive.ask expires) := by
  obtain ⟨⟨policy, channel, paused, ticks⟩, shown, stage⟩ := drive
  obtain ⟨rfl, rfl, rfl⟩ := has
  cases phase <;> exact ⟨rfl, rfl, rfl⟩

theorem Has.finish (has : phase.Has drive) : (phase.after .finish).Has drive.finish := by
  obtain ⟨⟨policy, channel, paused, ticks⟩, shown, stage⟩ := drive
  obtain ⟨rfl, rfl, rfl⟩ := has
  cases phase <;> exact ⟨rfl, rfl, rfl⟩

theorem Has.ticked (has : Has .due drive) : Has .waiting drive.ticked :=
  ⟨has.interactive, has.channel, rfl⟩

theorem has_of_launch : Has .waiting { driver := { policy := .interactive } } := ⟨rfl, rfl, rfl⟩

theorem Has.step (has : Has .waiting drive) : Has .prompted (drive.tell .step) :=
  ⟨has.interactive, by simp [Drive.tell, Driver.send, has.channel, queue], has.stage⟩

theorem Has.stop (has : Has .waiting drive) : Has .stopped (drive.tell .stop) :=
  ⟨has.interactive, by simp [Drive.tell, Driver.send, has.channel, queue], has.stage⟩

/-- Only a tick takes from what is owed. -/
theorem owed_after (phase : Phase) {motion : Motion} (other : motion ≠ .tick) :
    (phase.after motion).owed = phase.owed := by
  cases motion with
  | tick => contradiction
  | ask | finish | work => cases phase <;> rfl

/-- A motion of a tree moves its drive to the next phase, and a tick that was owed is performed. -/
theorem suits_undergo {tree : LoadedTree} (suits : phase.Suits tree.drive) (store : Store)
    (motion : Motion) :
    (phase.after motion).Suits (tree.undergo store motion).tree.drive ∧
      (Mark.ticks (tree.undergo store motion).marks).length + (phase.after motion).owed =
        phase.owed := by
  generalize own : tree.drive = held at suits
  cases suits with
  | undriven =>
      have still : (tree.undergo store motion).tree.drive = none ∧
          Mark.ticks (tree.undergo store motion).marks = [] := by
        cases motion <;>
          simp [LoadedTree.undergo, LoadedTree.ask, LoadedTree.finish, LoadedTree.question?,
            LoadedTree.perform, LoadedTree.isDue, own, Mark.ticks]
      rw [still.1, still.2]
      cases motion <;> exact ⟨.undriven, rfl⟩
  | @driven _ drive has =>
      cases motion with
      | ask expires =>
          have goes : (tree.undergo store (.ask expires)).tree.drive = some (drive.ask expires) :=
            congrArg (Option.map _) own
          have quiet : Mark.ticks (tree.undergo store (.ask expires)).marks = [] := by
            rw [LoadedTree.undergo]
            cases tree.question? expires <;> rfl
          rw [goes, quiet, owed_after phase (by simp)]
          exact ⟨.driven (has.ask expires), Nat.zero_add _⟩
      | finish =>
          have goes : (tree.undergo store .finish).tree.drive = some drive.finish :=
            congrArg (Option.map _) own
          rw [goes, owed_after phase (by simp)]
          exact ⟨.driven has.finish, Nat.zero_add _⟩
      | work path action =>
          have goes : (tree.undergo store (.work path action)).tree.drive = some drive := own
          rw [goes, owed_after phase (by simp)]
          exact ⟨.driven (by cases phase <;> exact has), Nat.zero_add _⟩
      | tick =>
          rw [LoadedTree.undergo]
          by_cases due : phase = .due
          · subst due
            have ticking : tree.isDue = true := LoadedTree.is_due_iff.mpr ⟨drive, own, has.stage⟩
            rw [LoadedTree.perform_of_due own has.stage, ticking]
            exact ⟨.driven has.ticked, rfl⟩
          · have idle : tree.isDue = false := by
              rw [LoadedTree.isDue, own, Option.any_some, has.stage]
              cases phase <;> first | rfl | contradiction
            rw [LoadedTree.perform_of_not_due idle, idle, own]
            cases phase with
            | due => contradiction
            | _ => exact ⟨.driven has, rfl⟩

end Phase

/-! Trees in service. -/

namespace Service

open Entry Manager

/-- What each tick of a tree left to see, as some moments of service go by. -/
def sights (id : TreeId) : Service → List Moment → List Sight
  | _, [] => []
  | service, moment :: rest =>
      match service.meet moment with
      | none => []
      | some (next, entries) =>
          ((Mark.ticks (Entry.marks id entries)).flatMap fun _ =>
            ((next.manager.tree? id).map (·.sight)).toList) ++ sights id next rest

theorem sights_met {id : TreeId} {service next : Service} {moment : Moment} {entries : List Entry}
    (met : service.meet moment = some (next, entries)) (rest : List Moment) :
    service.sights id (moment :: rest) =
      ((Mark.ticks (Entry.marks id entries)).flatMap fun _ =>
        ((next.manager.tree? id).map (·.sight)).toList) ++ next.sights id rest := by
  rw [sights, met]

theorem sights_append {id : TreeId} {service middle : Service} {early : List Moment}
    {chronicle : List Entry} (ran : service.run early = some (middle, chronicle))
    (late : List Moment) :
    service.sights id (early ++ late) = service.sights id early ++ middle.sights id late := by
  induction early generalizing service chronicle with
  | nil =>
      cases ran
      rfl
  | cons moment rest ih =>
      obtain ⟨next, entries, more, met, onward, -⟩ := run_cons_eq_some.mp ran
      rw [List.cons_append, sights_met met, sights_met met, ih onward, List.append_assoc]

/-- A tree whose drive is in a phase, with its number of ticks and what there is to see of it. -/
structure Poised (service : Service) (id : TreeId) (phase : Phase) (count : Nat) (sight : Sight) :
    Prop where
  there : ∃ tree, service.manager.tree? id = some tree ∧ phase.Suits tree.drive ∧
    tree.ticker.tickCount = count ∧ tree.sight = sight

/-- What comes about while nothing is ordered: the ticks that were owed, as far as they are seen,
and no others. -/
def Passes (id : TreeId) (service after : Service) (seen : List Sight) : Prop :=
  ∀ phase count sight, service.Poised id phase count sight →
    ∃ next : Phase, after.Poised id next (count + seen.length) (seen.getLastD sight) ∧
      seen.length + next.owed = phase.owed ∧ next.isOpen = phase.isOpen

theorem passes_nothing (id : TreeId) (service : Service) : Passes id service service [] :=
  fun phase _ _ poised => ⟨phase, poised, Nat.zero_add _, rfl⟩

theorem last_of_append (early late : List Sight) (sight : Sight) :
    (early ++ late).getLastD sight = late.getLastD (early.getLastD sight) := by
  simp only [List.getLastD_eq_getLast?, List.getLast?_append, Option.getD_or]

theorem Passes.trans {id : TreeId} {service middle after : Service} {early late : List Sight}
    (first : Passes id service middle early) (second : Passes id middle after late) :
    Passes id service after (early ++ late) := by
  intro phase count sight poised
  obtain ⟨next, halfway, some, opened⟩ := first phase count sight poised
  obtain ⟨last, ended, others, still⟩ := second next _ _ halfway
  refine ⟨last, ?_, ?_, still.trans opened⟩
  · rwa [last_of_append, List.length_append, ← Nat.add_assoc]
  · rw [List.length_append]
    omega

theorem sights_happening (id : TreeId) (service : Service) (happening : Happening) :
    service.sights id [.happening happening] =
      (Mark.ticks (Entry.marks id (service.undergo happening).2)).flatMap fun _ =>
        (((service.undergo happening).1.manager.tree? id).map (·.sight)).toList := by
  rw [sights, meet]
  exact List.append_nil _

theorem passes_undergo (id : TreeId) (service : Service) (happening : Happening) :
    Passes id service (service.undergo happening).1
      (service.sights id [.happening happening]) := by
  intro phase count sight poised
  obtain ⟨tree, found, suits, counted, seen⟩ := poised.there
  rw [sights_happening]
  cases happening with
  | vary | pass => exact ⟨phase, ⟨tree, found, suits, counted, seen⟩, Nat.zero_add _, rfl⟩
  | motion other motion =>
      by_cases here : other = id
      · subst here
        obtain ⟨goes, paid⟩ := phase.suits_undergo suits service.manager.store motion
        have after : (service.undergo (.motion other motion)).1.manager.tree? other =
            some (tree.undergo service.manager.store motion).tree := by
          rw [undergo_motion]
          exact tree_affect (fun tree => tree.undergo_id service.manager.store motion) found
        have marked : Entry.marks other (service.undergo (.motion other motion)).2 =
            (tree.undergo service.manager.store motion).marks := by
          rw [undergo, found]
          exact marks_did_self other _
        rw [marked, after]
        rcases tree.sight_undergo service.manager.store motion with
          ⟨quiet, sameCount, sameSight⟩ | ⟨one, more⟩
        · rw [quiet] at paid ⊢
          exact ⟨phase.after motion, ⟨_, after, goes, sameCount.trans counted,
            sameSight.trans seen⟩, paid, phase.after_is_open motion⟩
        · obtain ⟨status, ticked⟩ := List.length_eq_one_iff.mp one
          rw [ticked] at paid ⊢
          exact ⟨phase.after motion, ⟨_, after, goes, more.trans (congrArg (· + 1) counted), rfl⟩,
            paid, phase.after_is_open motion⟩
      · have apart : Entry.marks id (service.undergo (.motion other motion)).2 = [] := by
          rw [undergo]
          cases service.manager.tree? other with
          | none => rfl
          | some moving => exact marks_did_other here _
        rw [apart]
        refine ⟨phase, ⟨tree, ?_, suits, counted, seen⟩, Nat.zero_add _, rfl⟩
        rw [undergo_motion]
        dsimp only
        rw [affect, tree_handle (fun tree => tree.undergo_id service.manager.store motion), found,
          Option.map_some, if_neg (Ne.symm here)]

theorem passes_undergo_all (id : TreeId) (service : Service) (happenings : List Happening) :
    Passes id service (service.undergoAll happenings).1
      (service.sights id (happenings.map .happening)) := by
  induction happenings generalizing service with
  | nil => exact passes_nothing id service
  | cons happening rest ih =>
      have first := passes_undergo id service happening
      have both := first.trans (ih (service.undergo happening).1)
      rwa [← sights_append (run_one rfl)] at both

/-- What leaves a tree as it is. -/
theorem passes_same {id : TreeId} {service after : Service}
    (same : after.manager.tree? id = service.manager.tree? id) : Passes id service after [] := by
  intro phase count sight poised
  obtain ⟨tree, found, known⟩ := poised.there
  exact ⟨phase, ⟨tree, same.trans found, known⟩, Nat.zero_add _, rfl⟩

section

variable {service after : Service} {id : TreeId} {phase : Phase} {count : Nat} {sight : Sight}
  {seen : List Sight}

/-- Where no tick is owed there is none. -/
theorem Passes.unowed (passes : Passes id service after seen)
    (poised : service.Poised id phase count sight) (paid : phase.owed = 0) :
    seen = [] ∧ ∃ next : Phase, after.Poised id next count sight ∧ next.isOpen = phase.isOpen ∧
      next.owed = 0 := by
  obtain ⟨next, onward, ticked, opened⟩ := passes phase count sight poised
  have none : seen = [] := List.length_eq_zero_iff.mp (by omega)
  subst none
  exact ⟨rfl, next, onward, opened, by simpa [paid] using ticked⟩

theorem Passes.waiting (passes : Passes id service after seen)
    (poised : service.Poised id .waiting count sight) :
    seen = [] ∧ after.Poised id .waiting count sight := by
  obtain ⟨none, next, onward, opened, paid⟩ := passes.unowed poised rfl
  cases Phase.waiting_of_open opened paid
  exact ⟨none, onward⟩

end

end Service

/-! A drive that waits takes commands. -/

theorem LoadedTree.command_of_waiting {tree : LoadedTree} {drive : Drive}
    (own : tree.drive = some drive) (has : Phase.Has .waiting drive) (command : Command) :
    tree.command command = { tree := tree.tell command, answer := .ok () } := by
  have stage : drive.stage = .asking := has.stage
  have active : tree.activeDrive? = some drive :=
    active_drive_eq_some.mpr ⟨own, by simp [stage]⟩
  rw [command_of_active active, if_neg (by simp [stage])]

namespace Service

open Entry Manager

variable {service taken : Service} {id : TreeId} {phase : Phase} {count : Nat} {sight : Sight}

/-- A drive is there until it is over. -/
theorem Poised.driven (poised : service.Poised id phase count sight) (going : phase ≠ .over) :
    ∃ tree drive, service.manager.tree? id = some tree ∧ tree.drive = some drive ∧
      phase.Has drive ∧ tree.ticker.tickCount = count ∧ tree.sight = sight := by
  obtain ⟨tree, found, suits, known⟩ := poised.there
  generalize own : tree.drive = held at suits
  cases suits with
  | undriven => contradiction
  | driven has => exact ⟨tree, _, found, own, has, known⟩

/-- A drive that waits is told to step or to stop whenever that is ordered. -/
theorem Poised.takes (poised : service.Poised id .waiting count sight)
    (idle : service.pending = none) {instruction : Instruction}
    (asked : instruction = .step ∨ instruction = .stop) :
    service.meet (.order (.instruct id instruction)) =
      some ((service.obey (.instruct id instruction)).1, [.taken id instruction]) := by
  obtain ⟨tree, drive, found, own, has, -⟩ := poised.driven (by simp)
  have granted : ∃ reply,
      (service.manager.handle id (instruction.takeUp service.manager.store)).2 = .ok reply := by
    rw [handle_answer _ _ found]
    rcases asked with rfl | rfl
    · rw [Instruction.takeUp, LoadedTree.command_of_waiting own has]
      exact ⟨.done, rfl⟩
    · rw [Instruction.takeUp, LoadedTree.dismiss, own]
      exact ⟨.done, rfl⟩
  obtain ⟨reply, granted⟩ := granted
  exact meet_of_granted idle granted (by rcases asked with rfl | rfl <;> rfl)

theorem Poised.prompted (poised : service.Poised id .waiting count sight)
    (takes : service.meet (.order (.instruct id .step)) = some (taken, [.taken id .step])) :
    taken.Poised id .prompted count sight := by
  obtain ⟨tree, drive, found, own, has, known⟩ := poised.driven (by simp)
  obtain ⟨-, other, reply, there, -, after⟩ := taken_of_meet takes
  cases found.symm.trans there
  rw [Instruction.takeUp, LoadedTree.command_of_waiting own has] at after
  refine ⟨_, after, ?_, known⟩
  have told : (tree.tell .step).drive = some (drive.tell .step) := congrArg (Option.map _) own
  exact told ▸ .driven has.step

theorem Poised.stopped (poised : service.Poised id .waiting count sight)
    (takes : service.meet (.order (.instruct id .stop)) = some (taken, [.taken id .stop])) :
    taken.Poised id .stopped count sight := by
  obtain ⟨tree, drive, found, own, has, known⟩ := poised.driven (by simp)
  obtain ⟨-, other, reply, there, -, after⟩ := taken_of_meet takes
  cases found.symm.trans there
  have dismissed : tree.dismiss = { tree := tree.tell .stop, answer := .ok () } := by
    rw [LoadedTree.dismiss, own]
  rw [Instruction.takeUp, dismissed] at after
  refine ⟨_, after, ?_, known⟩
  have told : (tree.tell .stop).drive = some (drive.tell .stop) := congrArg (Option.map _) own
  exact told ▸ .driven has.stop

theorem Poised.started (poised : service.Poised id phase count sight)
    (takes : service.meet (.order (.instruct id (.start .interactive))) =
      some (taken, [.taken id (.start .interactive)])) :
    taken.Poised id .waiting count sight := by
  obtain ⟨tree, found, -, known⟩ := poised.there
  obtain ⟨-, other, reply, there, granted, after⟩ := taken_of_meet takes
  cases found.symm.trans there
  obtain ⟨_, launched⟩ := LoadedTree.answer_of_map granted
  cases active : tree.activeDrive? with
  | some drive =>
      rw [LoadedTree.launch_of_active active] at launched
      cases launched
  | none =>
      rw [Instruction.takeUp, LoadedTree.launch_of_idle active] at after
      exact ⟨_, after, .driven Phase.has_of_launch, known⟩

/-- A stop that is answered, is answered with the status to see, and leaves no drive. -/
theorem Poised.released {answered : Service} {reply : Reply}
    (poised : service.Poised id phase count sight)
    (answers : service.meet .answer =
      some (answered, [.answered (.instruct id .stop) (.ok reply)])) :
    reply = .status sight.1 ∧ answered.Poised id .over count sight := by
  obtain ⟨tree, found, suits, counted, seen⟩ := poised.there
  obtain ⟨other, instruction, after, response, -, concluded, rfl, entries⟩ :=
    meet_answer_eq_some.mp answers
  cases entries
  cases driven : service.manager.isDriven id with
  | true =>
      rw [conclude, if_pos driven] at concluded
      cases concluded
  | false =>
      obtain ⟨rfl, answer⟩ := Prod.mk.inj
        (Option.some.inj ((Stint.conclude_stop driven).symm.trans concluded))
      rw [handle_answer _ _ found] at answer
      cases own : tree.drive with
      | none =>
          rw [LoadedTree.release, own] at answer
          cases answer
      | some drive =>
          have released : tree.release =
              { tree := { tree with drive := none }, answer := .ok tree.ticker.lastStatus } := by
            rw [LoadedTree.release, own]
          rw [released] at answer
          cases answer
          refine ⟨congrArg (Reply.status ·.1) seen, { tree with drive := none }, ?_, .undriven,
            counted, seen⟩
          rw [tree_announce, tree_handle LoadedTree.release_id, found, Option.map_some, if_pos rfl,
            released]

end Service

end BehaviorTree
