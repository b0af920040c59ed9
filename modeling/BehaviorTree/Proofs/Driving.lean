import BehaviorTree.Proofs.Lifelong
import BehaviorTree.Proofs.Pace

/-!
Drives under way. A drive keeps the pace of its driver, with the commands that were taken up since
it began and the questions that it put; it is known to be paused as soon as a pause was taken up;
and an interactive drive that was stepped and then stopped has ticked once for every step.
-/

namespace BehaviorTree

def Instruction.commands (told : List Instruction) : List Command := told.filterMap command?

@[simp] theorem Instruction.commands_append (early late : List Instruction) :
    commands (early ++ late) = commands early ++ commands late := List.filterMap_append

theorem pausedBy_append (early late : List Command) :
    pausedBy (early ++ late) = late.foldl Command.flag (pausedBy early) := by
  induction late generalizing early with
  | nil => simp
  | cons command rest ih =>
      have onward := ih (early ++ [command])
      rwa [pausedBy_concat, List.append_assoc] at onward

/-- A wait that leaves a command on its way has a tick due to an earlier one. -/
theorem Driver.Ending.prompted {policy : Policy} {hungUp ready : Bool} {verdict : Verdict}
    {queue : List Command} {reactions : List Reaction}
    (ending : Driver.Ending policy hungUp ready verdict queue reactions) {command : Command}
    (left : command ∈ queue) (goesOn : verdict ≠ .over) :
    verdict = .due ∧ 0 < (Reaction.commands reactions).length := by
  cases ending with
  | released idle last idles releases timely =>
      refine ⟨rfl, ?_⟩
      cases prompt : last.command with
      | none =>
          rw [(timely prompt).2.2] at left
          cases left
      | some command => simp [Reaction.commands, prompt]
  | stopped => contradiction
  | leftAlone => cases left
  | blocked => cases left

/-- With a stop on its way, a driver that is not over has a tick due to an earlier command. -/
theorem Wait.due_before_stop (wait : Wait) {channel : Channel}
    (reached : wait.driver.channel = some channel) (waiting : .stop ∈ channel.queue)
    (goesOn : wait.verdict ≠ .over) :
    wait.verdict = .due ∧ wait.next.queue.length < channel.queue.length := by
  have taken := wait.takes reached
  have left : .stop ∈ wait.next.queue := by
    rw [← taken] at waiting
    exact (List.mem_append.mp waiting).resolve_left (wait.unstopped reached goesOn)
  have ended := wait.ending reached (wait.left_of_ne_over reached goesOn)
  obtain ⟨due, met⟩ := ended.prompted left goesOn
  refine ⟨due, ?_⟩
  rw [← taken, List.length_append]
  omega

/-- Whether a drive knows that there will be no further tick. -/
def Stage.isLast : Stage → Bool
  | .asking | .ticking => false
  | .leaving | .gone | .over => true

namespace Drive

/-- What may become of a drive by what its tree is told, and what that leaves in the marks. -/
inductive Goes : Drive → List Instruction → List Mark → Drive → Prop
  | rests (drive : Drive) (told : List Instruction)
      (mute : ∀ instruction ∈ told, instruction.command? = none)
      (unbegun : ∀ policy, .start policy ∉ told) : Goes drive told [] drive
  | hears (drive : Drive) (instruction : Instruction) (command : Command)
      (sends : instruction.command? = some command) :
      Goes drive [instruction] [] (drive.tell command)
  | asks (drive : Drive) (expires : Bool) (asking : drive.stage = .asking) :
      Goes drive [] [.asked ⟨drive.driver, expires⟩] (drive.ask expires)
  | ticks (drive : Drive) (status : Status) (due : drive.stage = .ticking) :
      Goes drive [] [.ticked status] drive.ticked
  | finishes (drive : Drive) : Goes drive [] [] drive.finish

/-- A drive that begins does not go on from one that was there. -/
theorem Goes.unbegun {drive after : Drive} {told : List Instruction} {marks : List Mark}
    (goes : Goes drive told marks after) (policy : Policy) : .start policy ∉ told := by
  cases goes with
  | rests _ mute unbegun => exact unbegun policy
  | hears instruction command sends =>
      intro begun
      rw [← List.mem_singleton.mp begun] at sends
      cases sends
  | asks | ticks | finishes => simp

end Drive

namespace LoadedTree

theorem active_drive_eq_some {tree : LoadedTree} {drive : Drive} :
    tree.activeDrive? = some drive ↔ tree.drive = some drive ∧ drive.stage ≠ .over := by
  simp [activeDrive?, Option.filter_eq_some_iff, Drive.isOver]

/-- Reaping leaves the drive that is not over, and everything else. -/
theorem reap_eq (tree : LoadedTree) : tree.reap = { tree with drive := tree.activeDrive? } := by
  obtain ⟨id, name, ticker, drive, recorded⟩ := tree
  cases drive with
  | none => rfl
  | some drive =>
      cases ended : drive.isOver <;> simp [reap, activeDrive?, ended, Option.filter]

theorem launch_of_active {tree : LoadedTree} {drive : Drive}
    (active : tree.activeDrive? = some drive) (policy : Policy) :
    tree.launch policy = { tree, answer := .error (.alreadyRunning tree.id) } := by
  obtain ⟨own, -⟩ := active_drive_eq_some.mp active
  obtain ⟨id, name, ticker, held, recorded⟩ := tree
  cases own
  simp only [launch, reap_eq, active]

theorem launch_of_idle {tree : LoadedTree} (idle : tree.activeDrive? = none) (policy : Policy) :
    tree.launch policy =
      { tree := { tree with drive := some { driver := { policy } } }, answer := .ok () } := by
  simp only [launch, reap_eq, idle]

theorem command_of_idle {tree : LoadedTree} (idle : tree.activeDrive? = none)
    (command : Command) :
    tree.command command =
      { tree := { tree with drive := none }, answer := .error (.notRunning tree.id) } := by
  simp only [LoadedTree.command, reap_eq, idle]

theorem command_of_active {tree : LoadedTree} {drive : Drive}
    (active : tree.activeDrive? = some drive) (command : Command) :
    tree.command command =
      if drive.stage = .gone then { tree, answer := .error (.notRunning tree.id) }
      else { tree := tree.tell command, answer := .ok () } := by
  obtain ⟨own, -⟩ := active_drive_eq_some.mp active
  obtain ⟨id, name, ticker, held, recorded⟩ := tree
  cases own
  simp only [LoadedTree.command, reap_eq, active]

theorem tick_once_of_active {tree : LoadedTree} {drive : Drive}
    (active : tree.activeDrive? = some drive) (store : Store) :
    tree.tickOnce store = { tree, answer := .error (.alreadyRunning tree.id) } := by
  obtain ⟨own, -⟩ := active_drive_eq_some.mp active
  obtain ⟨id, name, ticker, held, recorded⟩ := tree
  cases own
  simp only [tickOnce, reap_eq, active]

theorem tick_once_of_idle {tree : LoadedTree} (idle : tree.activeDrive? = none)
    (store : Store) :
    tree.tickOnce store =
      { tree := (tick { tree with drive := none } store).1
        events := (tick { tree with drive := none } store).2
        answer := .ok (tick { tree with drive := none } store).1.ticker.lastStatus } := by
  simp only [tickOnce, reap_eq, idle]

@[simp] theorem reap_ticker (tree : LoadedTree) : tree.reap.ticker = tree.ticker := by
  rw [reap_eq]

@[simp] theorem launch_ticker (tree : LoadedTree) (policy : Policy) :
    (tree.launch policy).tree.ticker = tree.ticker := by
  unfold launch
  dsimp only
  split <;> exact tree.reap_ticker

@[simp] theorem command_ticker (tree : LoadedTree) (command : Command) :
    (tree.command command).tree.ticker = tree.ticker := by
  unfold LoadedTree.command
  dsimp only
  split
  · exact tree.reap_ticker
  · split <;> exact tree.reap_ticker

@[simp] theorem dismiss_ticker (tree : LoadedTree) :
    tree.dismiss.tree.ticker = tree.ticker := by
  unfold dismiss
  split <;> rfl

@[simp] theorem tick_drive (tree : LoadedTree) (store : Store) :
    (tree.tick store).1.drive = tree.drive := rfl

@[simp] theorem acknowledge_drive (tree : LoadedTree) (node identity : String) :
    (tree.acknowledge node identity).tree.drive = tree.drive := by
  unfold acknowledge
  split <;> rfl

theorem is_due_iff {tree : LoadedTree} :
    tree.isDue = true ↔ ∃ drive, tree.drive = some drive ∧ drive.stage = .ticking := by
  simp [isDue, Option.any_eq_true]

theorem perform_of_due {tree : LoadedTree} {drive : Drive} (own : tree.drive = some drive)
    (due : drive.stage = .ticking) (store : Store) :
    tree.perform store =
      ({ (tree.tick store).1 with drive := some drive.ticked }, (tree.tick store).2) := by
  rw [perform, own]
  exact if_pos due

theorem perform_of_not_due {tree : LoadedTree} (idle : tree.isDue = false) (store : Store) :
    tree.perform store = (tree, []) := by
  unfold perform
  split
  next drive own =>
    have waits : drive.stage ≠ .ticking := by simpa [isDue, own] using idle
    exact if_neg waits
  next => rfl

/-! Drives in the changes of a tree. -/

theorem drive_of_undergo {tree : LoadedTree} {store : Store} {motion : Motion} {drive : Drive}
    (there : (tree.undergo store motion).tree.drive = some drive) :
    ∃ before, tree.drive = some before ∧
      Drive.Goes before [] (tree.undergo store motion).marks drive := by
  cases motion with
  | work path action => exact ⟨drive, there, .rests drive [] (by simp) (by simp)⟩
  | finish =>
      obtain ⟨before, own, rfl⟩ := Option.map_eq_some_iff.mp there
      exact ⟨before, own, .finishes before⟩
  | ask expires =>
      obtain ⟨before, own, rfl⟩ := Option.map_eq_some_iff.mp there
      refine ⟨before, own, ?_⟩
      rw [undergo, question?, own]
      by_cases asking : before.stage = .asking
      · rw [Option.filter_some_pos (by simpa using asking)]
        exact .asks before expires asking
      · have idle : before.ask expires = before := by
          unfold Drive.ask
          split
          · contradiction
          all_goals rfl
        rw [idle, Option.filter_some_neg (by simpa using asking)]
        exact .rests before [] (by simp) (by simp)
  | tick =>
      rw [undergo] at there ⊢
      cases due : tree.isDue with
      | false =>
          rw [perform_of_not_due due] at there ⊢
          exact ⟨drive, there, .rests drive [] (by simp) (by simp)⟩
      | true =>
          obtain ⟨before, own, ticking⟩ := is_due_iff.mp due
          rw [perform_of_due own ticking] at there ⊢
          cases there
          exact ⟨before, own, .ticks before _ ticking⟩

theorem drive_of_tell {tree : LoadedTree} {command : Command} {drive : Drive}
    (there : (tree.tell command).drive = some drive) :
    ∃ before, tree.drive = some before ∧ drive = before.tell command := by
  obtain ⟨before, own, told⟩ := Option.map_eq_some_iff.mp there
  exact ⟨before, own, told.symm⟩

theorem drive_of_command {tree : LoadedTree} {command : Command} {drive : Drive}
    (granted : (tree.command command).answer = .ok ())
    (there : (tree.command command).tree.drive = some drive) :
    ∃ before, tree.drive = some before ∧ drive = before.tell command := by
  cases active : tree.activeDrive? with
  | none => simp [command_of_idle active] at granted
  | some before =>
      rw [command_of_active active] at granted there
      split at granted
      · cases granted
      next driven =>
        rw [if_neg driven] at there
        exact drive_of_tell there

theorem drive_of_dismiss {tree : LoadedTree} {drive : Drive}
    (there : tree.dismiss.tree.drive = some drive) :
    ∃ before, tree.drive = some before ∧ drive = before.tell .stop := by
  unfold dismiss at there
  split at there
  next none => simp [none] at there
  next => exact drive_of_tell there

theorem answer_of_map {Answer : Type} {handled : Handled Answer} {change : Answer → Reply}
    {reply : Reply} (granted : (handled.map change).answer = .ok reply) :
    ∃ answer, handled.answer = .ok answer := by
  cases known : handled.answer with
  | error fault => simp [Handled.map, known, Except.map] at granted
  | ok answer => exact ⟨answer, rfl⟩

theorem fault_of_map {Answer : Type} {handled : Handled Answer} {change : Answer → Reply}
    {fault : ManagerFault} (refused : (handled.map change).answer = .error fault) :
    handled.answer = .error fault := by
  cases known : handled.answer with
  | error other =>
      simp only [Handled.map, known, Except.map] at refused
      cases refused
      rfl
  | ok answer => simp [Handled.map, known, Except.map] at refused

/-- A drive that there is after an instruction was taken up has just begun, or there was one that
went on. -/
theorem drive_of_taken {tree : LoadedTree} {store : Store} {instruction : Instruction}
    {reply : Reply} {drive : Drive}
    (granted : (instruction.takeUp store tree).answer = .ok reply)
    (there : (instruction.takeUp store tree).tree.drive = some drive) :
    (∃ policy, instruction = .start policy ∧ drive = { driver := { policy } }) ∨
      ∃ before, tree.drive = some before ∧
        Drive.Goes before [instruction] (instruction.marks reply) drive := by
  cases instruction with
  | start policy =>
      left
      obtain ⟨_, launched⟩ := answer_of_map granted
      cases active : tree.activeDrive? with
      | some before => simp [launch_of_active active] at launched
      | none =>
          rw [Instruction.takeUp, launch_of_idle active] at there
          exact ⟨policy, rfl, (Option.some.inj there).symm⟩
  | pause =>
      obtain ⟨_, spoken⟩ := answer_of_map granted
      obtain ⟨before, own, rfl⟩ := drive_of_command spoken there
      exact .inr ⟨before, own, .hears before .pause .pause rfl⟩
  | resume =>
      obtain ⟨_, spoken⟩ := answer_of_map granted
      obtain ⟨before, own, rfl⟩ := drive_of_command spoken there
      exact .inr ⟨before, own, .hears before .resume .resume rfl⟩
  | step =>
      obtain ⟨_, spoken⟩ := answer_of_map granted
      obtain ⟨before, own, rfl⟩ := drive_of_command spoken there
      exact .inr ⟨before, own, .hears before .step .step rfl⟩
  | stop =>
      obtain ⟨before, own, rfl⟩ := drive_of_dismiss there
      exact .inr ⟨before, own, .hears before .stop .stop rfl⟩
  | unload =>
      obtain ⟨before, own, rfl⟩ := drive_of_dismiss there
      exact .inr ⟨before, own, .hears before .unload .stop rfl⟩
  | wait => exact .inr ⟨drive, there, .rests drive _ (by simp [Instruction.command?]) (by simp)⟩
  | tickOnce =>
      obtain ⟨_, ticked⟩ := answer_of_map granted
      cases active : tree.activeDrive? with
      | some before => simp [tick_once_of_active active] at ticked
      | none =>
          rw [Instruction.takeUp, tick_once_of_idle active] at there
          cases there
  | acknowledge node identity =>
      have same : tree.drive = some drive := (tree.acknowledge_drive node identity).symm.trans there
      exact .inr ⟨drive, same, .rests drive _ (by simp [Instruction.command?]) (by simp)⟩

/-- A drive that there is after an instruction was refused was there as it is. -/
theorem drive_of_refused {tree : LoadedTree} {store : Store} {instruction : Instruction}
    {fault : ManagerFault} {drive : Drive}
    (refused : (instruction.takeUp store tree).answer = .error fault)
    (there : (instruction.takeUp store tree).tree.drive = some drive) :
    tree.drive = some drive := by
  have spoken : ∀ {command : Command},
      ((tree.command command).map fun _ => Reply.done).answer = .error fault →
        ((tree.command command).map fun _ => Reply.done).tree.drive = some drive →
          tree.drive = some drive := by
    intro command refused there
    cases active : tree.activeDrive? with
    | none =>
        rw [command_of_idle active] at there
        cases there
    | some before =>
        rw [command_of_active active] at refused there
        split at refused
        next gone =>
          rw [if_pos gone] at there
          exact there
        next => cases refused
  cases instruction with
  | start policy =>
      cases active : tree.activeDrive? with
      | some before =>
          rw [Instruction.takeUp, launch_of_active active] at there
          exact there
      | none =>
          rw [Instruction.takeUp, launch_of_idle active] at refused
          cases refused
  | pause => exact spoken refused there
  | resume => exact spoken refused there
  | step => exact spoken refused there
  | tickOnce =>
      cases active : tree.activeDrive? with
      | some before =>
          rw [Instruction.takeUp, tick_once_of_active active] at there
          exact there
      | none =>
          rw [Instruction.takeUp, tick_once_of_idle active] at refused
          cases refused
  | stop =>
      simp only [Instruction.takeUp, dismiss] at refused there
      split at refused
      next none => simp [Handled.map, none] at there
      next => cases refused
  | wait => exact there
  | unload => cases refused
  | acknowledge node identity => exact (tree.acknowledge_drive node identity).symm.trans there

/-! Tickers in the changes of a tree. -/

/-- What may become of the ticker of a tree by what the tree is told and does. -/
inductive Turns : LoadedTree → List Instruction → List Mark → LoadedTree → Prop
  | rests {tree after : LoadedTree} {told : List Instruction} {marks : List Mark}
      (same : after.ticker = tree.ticker)
      (mute : ∀ node identity, .acknowledge node identity ∉ told)
      (unticked : Mark.ticks marks = []) : Turns tree told marks after
  | ticks {tree after : LoadedTree} {told : List Instruction} (store : Store)
      (same : after.ticker = (tree.tick store).1.ticker)
      (mute : ∀ node identity, .acknowledge node identity ∉ told) :
      Turns tree told [.ticked after.ticker.lastStatus] after
  | works {tree after : LoadedTree} (path : Node.Path) (action : Action)
      (same : after.ticker =
        { tree.ticker with root := tree.ticker.root.changeAt (.withAction action) path }) :
      Turns tree [] [] after
  | hears {tree after : LoadedTree} (node identity : String)
      (granted : tree.ticker.acknowledge node identity = .ok after.ticker) :
      Turns tree [.acknowledge node identity] [] after

theorem turns_of_undergo (tree : LoadedTree) (store : Store) (motion : Motion) :
    tree.Turns [] (tree.undergo store motion).marks (tree.undergo store motion).tree := by
  cases motion with
  | finish => exact .rests rfl (by simp) rfl
  | work path action => exact .works path action rfl
  | ask expires =>
      refine .rests rfl (by simp) ?_
      rw [undergo]
      cases tree.question? expires <;> rfl
  | tick =>
      rw [undergo]
      cases due : tree.isDue with
      | false =>
          rw [perform_of_not_due due]
          exact .rests rfl (by simp) rfl
      | true =>
          obtain ⟨drive, own, ticking⟩ := is_due_iff.mp due
          rw [perform_of_due own ticking]
          exact .ticks store rfl (by simp)

theorem acknowledge_granted {tree : LoadedTree} {node identity : String}
    (granted : (tree.acknowledge node identity).answer = .ok ()) :
    tree.ticker.acknowledge node identity = .ok (tree.acknowledge node identity).tree.ticker := by
  unfold acknowledge at granted ⊢
  split at granted
  · cases granted
  next known => rw [known]

theorem acknowledge_refused {tree : LoadedTree} {node identity : String} {fault : ManagerFault}
    (refused : (tree.acknowledge node identity).answer = .error fault) :
    (tree.acknowledge node identity).tree = tree := by
  unfold acknowledge at refused ⊢
  split
  · rfl
  next known =>
    rw [known] at refused
    cases refused

theorem turns_of_taken {tree : LoadedTree} {store : Store} {instruction : Instruction}
    {reply : Reply} (granted : (instruction.takeUp store tree).answer = .ok reply) :
    tree.Turns [instruction] (instruction.marks reply) (instruction.takeUp store tree).tree := by
  cases instruction with
  | start | pause | resume | step | stop | unload | wait =>
      exact .rests (by simp [Instruction.takeUp, Handled.map]) (by simp) rfl
  | acknowledge node identity =>
      obtain ⟨_, granted⟩ := answer_of_map granted
      exact .hears node identity (acknowledge_granted granted)
  | tickOnce =>
      cases active : tree.activeDrive? with
      | some drive =>
          rw [Instruction.takeUp, tick_once_of_active active] at granted
          cases granted
      | none =>
          rw [Instruction.takeUp, tick_once_of_idle active] at granted ⊢
          cases granted
          exact .ticks store rfl (by simp)

theorem ticker_of_refused {tree : LoadedTree} {store : Store} {instruction : Instruction}
    {fault : ManagerFault} (refused : (instruction.takeUp store tree).answer = .error fault) :
    (instruction.takeUp store tree).tree.ticker = tree.ticker := by
  cases instruction with
  | start | pause | resume | step | stop | unload | wait => simp [Instruction.takeUp, Handled.map]
  | acknowledge node identity =>
      exact congrArg ticker (acknowledge_refused (fault_of_map refused))
  | tickOnce =>
      cases active : tree.activeDrive? with
      | some drive =>
          rw [Instruction.takeUp, tick_once_of_active active]
          rfl
      | none =>
          rw [Instruction.takeUp, tick_once_of_idle active] at refused
          cases refused

end LoadedTree

namespace Drive

open Instruction (commands)

/-- What a drive was told and asked, as a driver on its way. A tick that is due counts as
recorded. -/
def pacing (drive : Drive) (told : List Instruction) (marks : List Mark) : Pacing where
  driver := if drive.stage = .ticking then drive.driver.recordTick else drive.driver
  sent := commands told
  waits := Mark.waits marks

/-- How a drive stands that began with a policy and got on with what it was told. -/
structure Underway (policy : Policy) (drive : Drive) (told : List Instruction)
    (marks : List Mark) : Prop where
  kept : (drive.pacing told marks).Kept policy
  opened : drive.driver.isOpen = true
  isOver : (drive.pacing told marks).isOver = drive.stage.isLast
  ticked : (Mark.ticks marks).length = drive.driver.ticks
  paused : drive.paused = pausedBy (commands told)

theorem underway_at_first (policy : Policy) {told : List Instruction}
    (mute : ∀ instruction ∈ told, instruction.command? = none) :
    Underway policy { driver := { policy } } told [] := by
  have silent : commands told = [] := List.filterMap_eq_nil_iff.mpr mute
  constructor
  · rw [pacing, silent]
    exact Pacing.kept_at_first policy
  · rfl
  · rfl
  · rfl
  · rw [silent]
    rfl

theorem send_open {driver : Driver} (opened : driver.isOpen = true) (command : Command) :
    (driver.send command).isOpen = true := by
  cases reached : driver.channel with
  | none => simp [Driver.isOpen, reached] at opened
  | some channel => simpa [Driver.isOpen, Driver.send, reached] using opened

theorem flag_eq_pausedAfter (paused : Bool) (command : Command) :
    pausedAfter paused command = command.flag paused := by
  cases command <;> rfl

variable {policy : Policy} {drive : Drive} {told : List Instruction} {marks : List Mark}

theorem pacing_driver_open (opened : drive.driver.isOpen = true) :
    (drive.pacing told marks).driver.isOpen = true := by
  unfold pacing
  dsimp only
  split <;> exact opened

theorem Underway.tell (underway : Underway policy drive told marks) {instruction : Instruction}
    {command : Command} (sends : instruction.command? = some command) :
    Underway policy (drive.tell command) (told ++ [instruction]) marks := by
  have spoken : commands (told ++ [instruction]) = commands told ++ [command] := by
    simp [commands, sends]
  have met : (drive.tell command).pacing (told ++ [instruction]) marks =
      (drive.pacing told marks).meet (.send command) := by
    rw [Pacing.meet, if_pos (pacing_driver_open underway.opened)]
    unfold pacing Drive.tell
    rw [spoken]
    dsimp only
    split <;> rfl
  constructor
  · rw [met]
    exact underway.kept.send command
  · exact send_open underway.opened command
  · exact underway.isOver
  · exact underway.ticked
  · rw [spoken, pausedBy_concat, ← underway.paused]
    exact flag_eq_pausedAfter drive.paused command

theorem Underway.ask (underway : Underway policy drive told marks) (expires : Bool)
    (asking : drive.stage = .asking) :
    Underway policy (drive.ask expires) told (marks ++ [.asked ⟨drive.driver, expires⟩]) := by
  have idle : (drive.pacing told marks).driver = drive.driver := by
    rw [pacing, asking]
    rfl
  have going : (drive.pacing told marks).isOver = false := by
    rw [underway.isOver, asking]
    rfl
  have asked : drive.ask expires =
      { drive with
        driver := (drive.driver.waitNext expires).2
        stage := (drive.driver.waitNext expires).1.stage } := by
    rw [Drive.ask, asking]
  have met : (drive.ask expires).pacing told (marks ++ [.asked ⟨drive.driver, expires⟩]) =
      (drive.pacing told marks).ask expires := by
    rw [asked, Pacing.ask, Pacing.question, idle]
    unfold pacing Wait.verdict Wait.next
    cases drive.driver.waitNext expires with
    | mk verdict next => cases verdict <;> simp [Verdict.stage]
  obtain ⟨channel, reached⟩ := underway.kept.reached
  obtain ⟨-, sameTicks, sameChannel⟩ :=
    ((drive.pacing told marks).question expires).next_frame reached
  simp only [Pacing.question, idle, Wait.next] at sameTicks sameChannel
  rw [idle] at reached
  have opened := underway.opened
  constructor
  · rw [met]
    exact underway.kept.ask going expires
  · rw [asked]
    simpa [Driver.isOpen, sameChannel, reached] using opened
  · rw [met, Pacing.ask_isOver going, asked, Pacing.question, idle, Wait.verdict]
    cases (drive.driver.waitNext expires).1 <;> rfl
  · rw [asked, sameTicks]
    simpa using underway.ticked
  · rw [asked]
    exact underway.paused

theorem Underway.tick (underway : Underway policy drive told marks)
    (due : drive.stage = .ticking) (status : Status) :
    Underway policy drive.ticked told (marks ++ [.ticked status]) := by
  have same : drive.ticked.pacing told (marks ++ [.ticked status]) = drive.pacing told marks := by
    rw [pacing, pacing, due]
    simp [Drive.ticked]
  constructor
  · rw [same]
    exact underway.kept
  · exact underway.opened
  · rw [same, underway.isOver, due]
    rfl
  · simpa [Drive.ticked, Driver.recordTick] using underway.ticked
  · exact underway.paused

theorem Underway.finish (underway : Underway policy drive told marks) :
    Underway policy drive.finish told marks := by
  obtain ⟨driver, paused, stage⟩ := drive
  cases stage <;> exact ⟨underway.kept, underway.opened, underway.isOver, underway.ticked,
    underway.paused⟩

/-- However a drive goes on, it stays under way. -/
theorem Underway.goes (underway : Underway policy drive told marks) {more : List Instruction}
    {others : List Mark} {after : Drive} (goes : drive.Goes more others after) :
    Underway policy after (told ++ more) (marks ++ others) := by
  cases goes with
  | hears instruction command sends => simpa using underway.tell sends
  | asks expires asking => simpa using underway.ask expires asking
  | ticks status due => simpa using underway.tick due status
  | finishes => simpa using underway.finish
  | rests _ mute _ =>
      have silent : commands (told ++ more) = commands told := by
        have none : commands more = [] := List.filterMap_eq_nil_iff.mpr mute
        rw [Instruction.commands_append, none, List.append_nil]
      have same : drive.pacing (told ++ more) marks = drive.pacing told marks := by
        rw [pacing, pacing, silent]
      rw [List.append_nil]
      exact ⟨same ▸ underway.kept, underway.opened, same ▸ underway.isOver, underway.ticked,
        silent ▸ underway.paused⟩

/-- A drive counts as paused exactly if its driver will be once it has met what is on its way. -/
theorem Underway.settled (underway : Underway policy drive told marks) :
    drive.paused = drive.driver.queue.foldl Command.flag drive.driver.paused := by
  have same : (drive.pacing told marks).driver.queue = drive.driver.queue ∧
      (drive.pacing told marks).driver.paused = drive.driver.paused := by
    unfold pacing
    dsimp only
    split <;> exact ⟨rfl, rfl⟩
  have sent : commands told =
      (drive.pacing told marks).consumed ++ (drive.pacing told marks).driver.queue :=
    underway.kept.in_order.symm
  rw [underway.paused, sent, pausedBy_append, ← underway.kept.paced.paused, same.1, same.2]

/-! The end of a drive that was told to stop. -/

/-- Asks for the next tick and does what follows from the answer. -/
def round (drive : Drive) (expires : Bool) : Drive :=
  let asked := drive.ask expires
  (if asked.stage = .ticking then asked.ticked else asked).finish.finish

/-- The rounds that are enough for a drive with a stop on its way. -/
def roundsLeft (drive : Drive) : Nat :=
  match drive.stage with
  | .asking => drive.driver.queue.length
  | .ticking => drive.driver.queue.length + 1
  | .leaving | .gone => 1
  | .over => 0

theorem rounds_left_le (drive : Drive) : drive.roundsLeft ≤ drive.driver.queue.length + 1 := by
  unfold roundsLeft
  split <;> omega

theorem round_of_over (ended : drive.stage = .over) (expires : Bool) :
    drive.round expires = drive := by
  simp [round, Drive.ask, finish, ended]

theorem round_of_leaving (leaves : drive.stage = .leaving ∨ drive.stage = .gone)
    (expires : Bool) : (drive.round expires).stage = .over := by
  rcases leaves with stage | stage <;> simp [round, Drive.ask, finish, stage]

theorem round_of_ticking (due : drive.stage = .ticking) (expires : Bool) :
    drive.round expires = drive.ticked := by
  simp [round, Drive.ask, finish, due, Drive.ticked]

theorem round_of_asking (asking : drive.stage = .asking) (expires : Bool) :
    drive.round expires =
      match (Wait.mk drive.driver expires).verdict with
      | .due => { drive with driver := (Wait.mk drive.driver expires).next.recordTick }
      | .over => { drive with driver := (Wait.mk drive.driver expires).next, stage := .over }
      | .blocked => { drive with driver := (Wait.mk drive.driver expires).next } := by
  rw [round, Drive.ask, asking]
  unfold Wait.verdict Wait.next
  cases drive.driver.waitNext expires with
  | mk verdict next => cases verdict <;> simp [Verdict.stage, finish, Drive.ticked]

theorem Underway.round (underway : Underway policy drive told marks) (expires : Bool) :
    ∃ others, Underway policy (drive.round expires) told (marks ++ others) := by
  have asked : ∃ others, Underway policy (drive.ask expires) told (marks ++ others) := by
    by_cases asking : drive.stage = .asking
    · exact ⟨_, underway.ask expires asking⟩
    · refine ⟨[], ?_⟩
      rw [List.append_nil]
      unfold Drive.ask
      split
      · contradiction
      all_goals exact underway
  obtain ⟨others, asked⟩ := asked
  unfold Drive.round
  dsimp only
  split
  next due =>
    have ticked := asked.tick due .invalid
    rw [List.append_assoc] at ticked
    exact ⟨_, ticked.finish.finish⟩
  next => exact ⟨others, asked.finish.finish⟩

/-- A driver that is still to ask has not met its stop. -/
theorem Underway.stop_on_its_way (underway : Underway policy drive told marks)
    (stopped : .stop ∈ commands told) (asking : drive.stage = .asking) :
    .stop ∈ drive.driver.queue := by
  have going : (drive.pacing told marks).isOver = false := by
    rw [underway.isOver, asking]
    rfl
  have sent : .stop ∈
      (drive.pacing told marks).consumed ++ (drive.pacing told marks).driver.queue :=
    underway.kept.in_order ▸ stopped
  rcases List.mem_append.mp sent with met | waiting
  · exact absurd met (underway.kept.going going)
  · rw [pacing, asking] at waiting
    exact waiting

/-- Every round brings a drive that was told to stop nearer to its end. -/
theorem Underway.nearer (underway : Underway policy drive told marks)
    (stopped : .stop ∈ commands told) (going : drive.stage ≠ .over) (expires : Bool) :
    (drive.round expires).roundsLeft < drive.roundsLeft := by
  cases stage : drive.stage with
  | leaving =>
      have last := round_of_leaving (.inl stage) expires
      simp [roundsLeft, last, stage]
  | gone =>
      have last := round_of_leaving (.inr stage) expires
      simp [roundsLeft, last, stage]
  | ticking =>
      have queued : drive.driver.recordTick.queue = drive.driver.queue := rfl
      rw [round_of_ticking stage]
      simp [roundsLeft, Drive.ticked, stage, queued]
  | asking =>
      -- The stop is still in the queue, so asking takes something out of it or ends the drive.
      have waiting := underway.stop_on_its_way stopped stage
      obtain ⟨channel, reached⟩ : ∃ channel, drive.driver.channel = some channel := by
        simpa [pacing, stage] using underway.kept.reached
      have queued : drive.driver.queue = channel.queue := by rw [Driver.queue, reached]
      rw [round_of_asking stage]
      by_cases final : (Wait.mk drive.driver expires).verdict = .over
      · rw [final]
        simpa [roundsLeft, stage] using List.length_pos_of_mem waiting
      · obtain ⟨due, fewer⟩ :=
          (Wait.mk drive.driver expires).due_before_stop reached (queued ▸ waiting) final
        rw [due]
        rw [← queued] at fewer
        simp only [roundsLeft, stage]
        exact fewer
  | _ => exact absurd stage going

theorem Underway.ends (underway : Underway policy drive told marks)
    (stopped : .stop ∈ commands told) {expiries : List Bool}
    (enough : drive.roundsLeft ≤ expiries.length) :
    (expiries.foldl Drive.round drive).stage = .over := by
  induction expiries generalizing drive marks with
  | nil =>
      -- No rounds left means that the drive is over: otherwise one more would come nearer.
      by_contra going
      have nearer := underway.nearer stopped going false
      rw [List.length_nil] at enough
      omega
  | cons expires rest ih =>
      obtain ⟨others, onward⟩ := underway.round expires
      apply ih onward
      by_cases going : drive.stage = .over
      · rw [round_of_over going]
        simp [roundsLeft, going]
      · have nearer := underway.nearer stopped going expires
        rw [List.length_cons] at enough
        omega

end Drive

/-! What becomes of the drive of a tree all its life. -/

namespace Service

open Drive

theorem lifelong_of_drive {holds : Drive → List Instruction → List Mark → Prop}
    (goes : ∀ {drive told marks more others after}, holds drive told marks →
      drive.Goes more others after → holds after (told ++ more) (marks ++ others))
    (starts : ∀ policy told marks,
      holds { driver := { policy } } (told ++ [.start policy]) marks) :
    Lifelong fun tree told marks => ∀ drive, tree.drive = some drive → holds drive told marks where
  moved := by
    intro tree told marks store motion before drive there
    obtain ⟨old, own, on⟩ := LoadedTree.drive_of_undergo there
    simpa using goes (before old own) on
  taken := by
    intro tree told marks store instruction reply before granted drive there
    rcases LoadedTree.drive_of_taken granted there with ⟨policy, rfl, rfl⟩ | ⟨old, own, on⟩
    · simpa [Instruction.marks] using starts policy told marks
    · exact goes (before old own) on
  refused := by
    intro tree told marks store instruction fault before refused drive there
    exact before drive (LoadedTree.drive_of_refused refused there)
  released := by
    intro tree told marks before idle drive there
    cases there

/-- What is said of a tree by its ticker alone lasts if it survives what becomes of the ticker. -/
theorem lifelong_of_ticker {holds : LoadedTree → List Instruction → List Mark → Prop}
    (turns : ∀ {tree after told marks more others}, holds tree told marks →
      tree.Turns more others after → holds after (told ++ more) (marks ++ others)) :
    Lifelong holds where
  moved := by
    intro tree told marks store motion before
    simpa using turns before (tree.turns_of_undergo store motion)
  taken := fun store instruction reply before granted =>
    turns before (LoadedTree.turns_of_taken granted)
  refused := by
    intro tree told marks store instruction fault before refused
    have rests : tree.Turns [] [] (instruction.takeUp store tree).tree :=
      .rests (LoadedTree.ticker_of_refused refused) (by simp) rfl
    simpa using turns before rests
  released := by
    intro tree told marks before idle
    have rests : tree.Turns [] [] { tree with drive := none } := .rests rfl (by simp) rfl
    simpa using turns before rests

/-- As long as no other drive begins. -/
theorem lifelong_underway (policy : Policy) :
    Lifelong fun tree told marks => ∀ drive, tree.drive = some drive →
      (∀ other, .start other ∉ told) → Underway policy drive told marks := by
  apply lifelong_of_drive
  · intro drive told marks more others after before goes unbegun
    apply Underway.goes _ goes
    apply before
    intro other early
    exact unbegun other (List.mem_append_left more early)
  · intro other told marks unbegun
    exact absurd (by simp) (unbegun other)

/-- Every drive is under way since the last start. -/
theorem lifelong_since_start :
    Lifelong fun tree told marks => ∀ drive, tree.drive = some drive →
      ∃ policy past recent earlier latest, told = past ++ .start policy :: recent ∧
        (∀ other, .start other ∉ recent) ∧ marks = earlier ++ latest ∧
        Underway policy drive recent latest := by
  apply lifelong_of_drive
  · rintro drive _ _ more others after
      ⟨policy, past, recent, earlier, latest, rfl, unbegun, rfl, underway⟩ goes
    refine ⟨policy, past, recent ++ more, earlier, latest ++ others, by simp, ?_, by simp,
      underway.goes goes⟩
    intro other begun
    rcases List.mem_append.mp begun with early | late
    · exact unbegun other early
    · exact goes.unbegun other late
  · intro policy told marks
    exact ⟨policy, told, [], marks, [], rfl, by simp, (List.append_nil marks).symm,
      underway_at_first policy (by simp)⟩

end Service

end BehaviorTree
