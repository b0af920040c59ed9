import BehaviorTree.Proofs.Serving

/-!
Stints: drives of one tree from their start to the answer of their stop. Under the interactive
policy a tree is ticked once for every step that was granted, and a stop is answered with the
status of the last of these ticks; and what a manager shows of a drive agrees with its driver.
-/

namespace BehaviorTree

/-- An acknowledgement is no tick. -/
theorem Ticker.acknowledge_ticks {ticker after : Ticker} {name identity : String}
    (granted : ticker.acknowledge name identity = .ok after) :
    after.tickCount = ticker.tickCount ∧ after.lastStatus = ticker.lastStatus := by
  unfold acknowledge at granted
  split at granted
  · cases granted
  · split at granted
    · cases granted
    · cases granted
      exact ⟨rfl, rfl⟩

namespace Service

open Entry Manager Drive

/-- What the ticker of a tree knows of its ticks, from some moment on. -/
structure Counted (count : Nat) (status : Status) (tree : LoadedTree) (marks : List Mark) :
    Prop where
  tickCount : tree.ticker.tickCount = count + (Mark.ticks marks).length
  lastStatus : tree.ticker.lastStatus = (Mark.ticks marks).getLastD status

section

variable {count : Nat} {status : Status} {tree after : LoadedTree} {marks : List Mark}

theorem Counted.unticked (counted : Counted count status tree marks) {more : List Mark}
    (none : Mark.ticks more = [])
    (same : after.ticker.tickCount = tree.ticker.tickCount ∧
      after.ticker.lastStatus = tree.ticker.lastStatus) :
    Counted count status after (marks ++ more) := by
  constructor
  · rw [same.1, Mark.ticks_append, none, List.append_nil]
    exact counted.tickCount
  · rw [same.2, Mark.ticks_append, none, List.append_nil]
    exact counted.lastStatus

theorem Counted.ticked (counted : Counted count status tree marks) {last : Status}
    (one : after.ticker.tickCount = tree.ticker.tickCount + 1)
    (shown : after.ticker.lastStatus = last) :
    Counted count status after (marks ++ [.ticked last]) := by
  constructor
  · rw [one, counted.tickCount, Mark.ticks_append, Mark.ticks_ticked, List.length_append,
      List.length_singleton, Nat.add_assoc]
  · rw [shown, Mark.ticks_append, Mark.ticks_ticked, List.getLastD_concat]

end

theorem lifelong_counted (count : Nat) (status : Status) :
    Lifelong fun tree _ marks => Counted count status tree marks := by
  apply lifelong_of_ticker
  intro tree after told marks more others counted turns
  cases turns with
  | rests same mute unticked => exact counted.unticked unticked (by simp [same])
  | ticks store same => exact counted.ticked (by rw [same]; rfl) rfl
  | works path action same => exact counted.unticked rfl (by simp [same])
  | hears node identity granted => exact counted.unticked rfl (Ticker.acknowledge_ticks granted)

end Service

/-! Orders that were granted. -/

namespace Entry

/-- Whether an instruction about a tree was answered and not refused. -/
def grants (id : TreeId) (instruction : Instruction) : Entry → Bool
  | .answered (.instruct other given) (.ok _) => other = id && given = instruction
  | .answered _ _ | .taken _ _ | .did _ _ => false

theorem count_grants_did (id other : TreeId) (instruction : Instruction) (marks : List Mark) :
    (marks.map (Entry.did other)).countP (grants id instruction) = 0 := by
  simp [List.countP_eq_zero, grants]

end Entry

namespace Service

open Entry Manager Drive

/-- Whether an instruction is pending, as a number. -/
def waiting (service : Service) (id : TreeId) (instruction : Instruction) : Nat :=
  if service.pending = some (id, instruction) then 1 else 0

/-- A step that was taken up is granted or pending. -/
theorem steps_of_meet {service next : Service} {moment : Moment} {entries : List Entry}
    (met : service.meet moment = some (next, entries)) (id : TreeId) :
    service.waiting id .step + (told id entries).count .step =
      entries.countP (grants id .step) + next.waiting id .step := by
  cases moment with
  | happening happening =>
      obtain ⟨rfl, rfl⟩ := meet_happening_eq_some.mp met
      obtain ⟨other, marks, same⟩ := service.undergo_entries happening
      rw [same, told_did, count_grants_did, waiting, waiting, undergo_pending]
      simp
  | answer =>
      obtain ⟨other, instruction, after, response, pending, concluded, rfl, rfl⟩ :=
        meet_answer_eq_some.mp met
      rw [waiting, waiting, pending, told_answered]
      by_cases step : other = id ∧ instruction = .step
      · obtain ⟨rfl, rfl⟩ := step
        cases concluded
        simp [grants]
      · cases response with
        | error fault => simp [grants, step]
        | ok reply => simp [grants, step]
  | order order =>
      -- An order is heard only when nothing is pending, and what it takes up may be afterwards.
      obtain ⟨idle, rfl, rfl⟩ := meet_order_eq_some.mp met
      cases order with
      | load read =>
          have quiet : grants id .step
              (.answered (.load read) ((service.manager.loadRead read).2.map .loaded)) = false := by
            cases (service.manager.loadRead read).2 <;> rfl
          simp [obey, waiting, idle, quiet]
      | instruct other instruction =>
          cases answer :
              (service.manager.handle other (instruction.takeUp service.manager.store)).2 with
          | error fault =>
              rw [obey_of_refused answer]
              simp [waiting, idle, grants]
          | ok reply =>
              rw [(entries_of_granted answer id).1, obey_of_granted answer]
              cases brief : instruction.isBrief with
              | true =>
                  have apart : instruction ≠ .step := by
                    rintro rfl
                    cases brief
                  rw [if_pos rfl, List.cons_append, List.countP_cons, List.countP_append,
                    count_grants_did]
                  split <;> simp [waiting, idle, grants, apart]
              | false =>
                  by_cases here : other = id
                  · by_cases step : instruction = .step
                    · simp [waiting, idle, grants, here, step]
                    · simp [waiting, idle, grants, here, step]
                  · simp [waiting, idle, grants, here]

theorem steps_of_run {service last : Service} {moments : List Moment} {chronicle : List Entry}
    (ran : service.run moments = some (last, chronicle)) (id : TreeId) :
    service.waiting id .step + (told id chronicle).count .step =
      chronicle.countP (grants id .step) + last.waiting id .step := by
  induction moments generalizing service chronicle with
  | nil =>
      cases ran
      simp
  | cons moment rest ih =>
      obtain ⟨next, entries, more, met, onward, rfl⟩ := run_cons_eq_some.mp ran
      have first := steps_of_meet met id
      have others := ih onward
      rw [told_append, List.count_append, List.countP_append]
      omega

/-- A longer instruction that is taken up. -/
theorem taken_of_meet {service next : Service} {id : TreeId} {instruction : Instruction}
    (met : service.meet (.order (.instruct id instruction)) =
      some (next, [.taken id instruction])) :
    next.pending = some (id, instruction) ∧ ∃ tree reply,
      service.manager.tree? id = some tree ∧
        (instruction.takeUp service.manager.store tree).answer = .ok reply ∧
        next.manager.tree? id = some (instruction.takeUp service.manager.store tree).tree := by
  obtain ⟨-, rfl, entries⟩ := meet_order_eq_some.mp met
  have after := tree_handle (instruction.take_up_id service.manager.store) service.manager id id
  rw [← obey_manager] at after
  cases answer : (service.manager.handle id (instruction.takeUp service.manager.store)).2 with
  | error fault =>
      rw [obey_of_refused answer] at entries
      cases entries
  | ok reply =>
      have obeyed := obey_of_granted answer
      cases brief : instruction.isBrief with
      | true =>
          rw [if_pos brief] at obeyed
          rw [obeyed] at entries
          simp at entries
      | false =>
          rw [if_neg (by simp [brief])] at obeyed
          cases found : service.manager.tree? id with
          | none =>
              rw [handle_unknown found] at answer
              cases answer
          | some tree =>
              rw [found, Option.map_some, if_pos rfl] at after
              rw [handle_answer _ _ found] at answer
              exact ⟨by rw [obeyed], tree, reply, rfl, answer, after⟩

/-- The other way round: a longer instruction that is granted is taken up. -/
theorem meet_of_granted {service : Service} {id : TreeId} {instruction : Instruction}
    {reply : Reply} (idle : service.pending = none)
    (granted : (service.manager.handle id (instruction.takeUp service.manager.store)).2 =
      .ok reply)
    (long : instruction.isBrief = false) :
    service.meet (.order (.instruct id instruction)) =
      some ((service.obey (.instruct id instruction)).1, [.taken id instruction]) := by
  apply meet_order_eq_some.mpr
  refine ⟨idle, rfl, ?_⟩
  rw [obey_of_granted granted, if_neg (by simp [long])]

theorem drive_undergoes {tree : LoadedTree} {drive : Drive} (own : tree.drive = some drive)
    (store : Store) (motion : Motion) :
    ∃ after, (tree.undergo store motion).tree.drive = some after := by
  cases motion with
  | ask | finish =>
      rw [LoadedTree.undergo]
      exact ⟨_, congrArg (Option.map _) own⟩
  | work => exact ⟨drive, own⟩
  | tick =>
      rw [LoadedTree.undergo]
      cases due : tree.isDue with
      | false =>
          rw [LoadedTree.perform_of_not_due due]
          exact ⟨drive, own⟩
      | true =>
          obtain ⟨other, held, ticking⟩ := LoadedTree.is_due_iff.mp due
          rw [LoadedTree.perform_of_due held ticking]
          exact ⟨other.ticked, rfl⟩

/-- What happens by itself takes no tree and no drive away. -/
theorem drive_stays {service : Service} {id : TreeId} {tree : LoadedTree} {drive : Drive}
    (found : service.manager.tree? id = some tree) (own : tree.drive = some drive)
    (happenings : List Happening) :
    ∃ last final, (service.undergoAll happenings).1.manager.tree? id = some last ∧
      last.drive = some final := by
  induction happenings generalizing service tree drive with
  | nil => exact ⟨tree, drive, found, own⟩
  | cons happening rest ih =>
      have stays : ∃ next onward, (service.undergo happening).1.manager.tree? id = some next ∧
          next.drive = some onward := by
        cases happening with
        | vary | pass => exact ⟨tree, drive, found, own⟩
        | motion other motion =>
            rw [undergo_motion]
            dsimp only
            rw [affect, tree_handle (fun tree => tree.undergo_id service.manager.store motion),
              found, Option.map_some]
            split
            · obtain ⟨after, goes⟩ := drive_undergoes own service.manager.store motion
              exact ⟨_, after, rfl, goes⟩
            · exact ⟨tree, drive, rfl, own⟩
      obtain ⟨next, onward, there, goes⟩ := stays
      exact ih there goes

end Service

/-! Stints. -/

/-- What a driven tree may be told in the course of a stint. -/
def Instruction.isPlain : Instruction → Bool
  | .pause | .resume | .step | .acknowledge _ _ => true
  | .start _ | .tickOnce | .stop | .wait | .unload => false

/-- A drive of a tree that was started and, after anything else and some plain instructions, told to
stop; and what happened since. -/
structure Stint (policy : Policy) (id : TreeId) (before : Service) where
  begun : Service
  moments : List Moment
  chronicle : List Entry
  driven : Service
  halting : Service
  rest : List Happening := []
  starts : before.meet (.order (.instruct id (.start policy))) =
    some (begun, [.taken id (.start policy)])
  runs : begun.run moments = some (driven, chronicle)
  plain : ∀ instruction ∈ Entry.told id chronicle, instruction.isPlain = true
  stops : driven.meet (.order (.instruct id .stop)) = some (halting, [.taken id .stop])

namespace Stint

open Service Manager Drive

variable {policy : Policy} {id : TreeId} {before : Service}

def ending (stint : Stint policy id before) : Service := (stint.halting.undergoAll stint.rest).1

/-- The questions and ticks of the tree. -/
def marks (stint : Stint policy id before) : List Mark :=
  Entry.marks id (stint.chronicle ++ (stint.halting.undergoAll stint.rest).2)

/-- What happens goes on. -/
def linger (stint : Stint policy id before) (more : List Happening) : Stint policy id before :=
  { stint with rest := stint.rest ++ more }

theorem linger_ending (stint : Stint policy id before) (more : List Happening) :
    (stint.linger more).ending = (stint.ending.undergoAll more).1 :=
  (stint.halting.undergo_all_append stint.rest more).1

theorem begins (stint : Stint policy id before) :
    stint.begun.pending = some (id, .start policy) ∧ ∃ first : LoadedTree,
      before.manager.tree? id = some first ∧
        stint.begun.manager.tree? id =
          some { first with drive := some { driver := { policy } } } := by
  obtain ⟨pending, first, reply, found, granted, begun⟩ := taken_of_meet stint.starts
  obtain ⟨_, launched⟩ := LoadedTree.answer_of_map granted
  refine ⟨pending, first, found, ?_⟩
  cases active : first.activeDrive? with
  | some drive =>
      rw [LoadedTree.launch_of_active active] at launched
      cases launched
  | none => rwa [Instruction.takeUp, LoadedTree.launch_of_idle active] at begun

theorem stopping (stint : Stint policy id before) :
    stint.halting.pending = some (id, .stop) ∧ ∃ tree drive,
      stint.halting.manager.tree? id = some tree ∧ tree.drive = some drive := by
  obtain ⟨pending, tree, reply, found, granted, halting⟩ := taken_of_meet stint.stops
  obtain ⟨_, dismissed⟩ := LoadedTree.answer_of_map granted
  cases own : tree.drive with
  | none => simp [LoadedTree.dismiss, own] at dismissed
  | some drive =>
      refine ⟨pending, _, drive.tell .stop, halting, ?_⟩
      simp [Instruction.takeUp, Handled.map, LoadedTree.dismiss, own, LoadedTree.tell]

/-- What lasts from the beginning of the drive. -/
theorem lasts (stint : Stint policy id before) (numbered : before.manager.Numbered)
    {holds : LoadedTree → List Instruction → List Mark → Prop} (lifelong : Lifelong holds)
    {first last : LoadedTree} (found : stint.begun.manager.tree? id = some first)
    (there : stint.ending.manager.tree? id = some last) (fresh : holds first [] []) :
    holds last (Entry.told id stint.chronicle ++ [.stop]) stint.marks := by
  have begun := (numbered_of_meet numbered stint.starts).1
  have ran : stint.begun.run
      (stint.moments ++ ([.order (.instruct id .stop)] ++ stint.rest.map .happening)) =
        some (stint.ending, stint.chronicle ++
          ([.taken id .stop] ++ (stint.halting.undergoAll stint.rest).2)) :=
    run_then stint.runs (run_then (run_one stint.stops) (run_happenings _ _))
  have held := lifelong.run begun ran found there fresh
  obtain ⟨-, -, untold⟩ := stint.halting.undergo_all_quiet stint.rest
  simpa [marks, untold] using held

theorem underway (stint : Stint policy id before) (numbered : before.manager.Numbered)
    {last : LoadedTree} {drive : Drive} (there : stint.ending.manager.tree? id = some last)
    (own : last.drive = some drive) :
    Underway policy drive (Entry.told id stint.chronicle ++ [.stop]) stint.marks := by
  obtain ⟨-, first, -, found⟩ := stint.begins
  apply stint.lasts numbered (lifelong_underway policy) found there _ drive own
  · intro other begun
    rcases List.mem_append.mp begun with early | late
    · cases stint.plain _ early
    · simp at late
  · rintro _ ⟨⟩ -
    exact underway_at_first policy (by simp)

theorem lingers (stint : Stint policy id before) :
    stint.ending.pending = some (id, .stop) ∧ ∃ last drive,
      stint.ending.manager.tree? id = some last ∧ last.drive = some drive := by
  obtain ⟨pending, tree, drive, found, own⟩ := stint.stopping
  obtain ⟨kept, -⟩ := stint.halting.undergo_all_quiet stint.rest
  exact ⟨kept.trans pending, drive_stays found own stint.rest⟩

theorem conclude_stop {manager : Manager} {id : TreeId} (idle : manager.isDriven id = false) :
    manager.conclude id .stop =
      some ((manager.handle id (·.release)).1.announce id fun tree => some tree.stopEvent,
        (manager.handle id (·.release)).2.map .status) := by
  rw [conclude, if_neg (by simp [idle])]

/-- The stop of a stint can be answered when the drive is over, with the last status. -/
theorem answers (stint : Stint policy id before) {after : Service} {entries : List Entry}
    (met : stint.ending.meet .answer = some (after, entries)) :
    ∃ last drive, stint.ending.manager.tree? id = some last ∧ last.drive = some drive ∧
      drive.stage = .over ∧
      entries = [.answered (.instruct id .stop) (.ok (.status last.ticker.lastStatus))] ∧
      after.manager.tree? id = some { last with drive := none } := by
  obtain ⟨pending, last, drive, found, own⟩ := stint.lingers
  obtain ⟨_, _, manager, response, same, concluded, rfl, rfl⟩ := meet_answer_eq_some.mp met
  cases pending.symm.trans same
  cases driven : stint.ending.manager.isDriven id with
  | true =>
      rw [conclude, if_pos driven] at concluded
      cases concluded
  | false =>
      have ended : drive.stage = .over := by
        by_contra going
        have active := LoadedTree.active_drive_eq_some.mpr ⟨own, going⟩
        simp [isDriven, found, active] at driven
      have released : last.release =
          { tree := { last with drive := none }, answer := .ok last.ticker.lastStatus } := by
        rw [LoadedTree.release, own]
      obtain ⟨rfl, rfl⟩ := Prod.mk.inj
        (Option.some.inj ((conclude_stop driven).symm.trans concluded))
      refine ⟨last, drive, found, own, ended, ?_, ?_⟩
      · rw [handle_answer _ _ found, released]
        rfl
      · rw [tree_announce, tree_handle LoadedTree.release_id, found, Option.map_some, if_pos rfl,
          released]

/-- Enough turns of the drive bring a stint to the answer of its stop. -/
theorem comes_to_an_end (stint : Stint policy id before) (numbered : before.manager.Numbered) :
    ∃ bound : Nat, ∀ expiries : List Bool, bound < expiries.length →
      ((stint.linger (turns id expiries)).ending.meet .answer).isSome = true := by
  obtain ⟨-, last, drive, found, own⟩ := stint.lingers
  refine ⟨drive.driver.queue.length, ?_⟩
  intro expiries enough
  have leaving : Leaving last := by
    intro drive own
    refine ⟨policy, _, _, stint.underway numbered found own, ?_⟩
    simp [Instruction.commands, Instruction.command?]
  have ended : (stint.linger (turns id expiries)).ending.manager.isDriven id = false := by
    rw [linger_ending]
    apply stops_in_time found leaving
    rintro _ there
    cases own.symm.trans there
    exact enough
  obtain ⟨pending, -⟩ := (stint.linger (turns id expiries)).lingers
  rw [meet, pending]
  simp [conclude, ended]

/-- What a stint under the interactive policy comes to, from the tree at first to the tree at
last. -/
structure Accounted (stint : Stint .interactive id before) (first last : LoadedTree)
    (response : Response) : Prop where
  /-- One tick for every step that was granted. -/
  ticked : (Mark.ticks stint.marks).length = stint.chronicle.countP (Entry.grants id .step)
  tickCount : last.ticker.tickCount = first.ticker.tickCount + (Mark.ticks stint.marks).length
  /-- Every command was met, in order and once. -/
  in_order : Reaction.commands ((Mark.waits stint.marks).flatMap Wait.reactions) =
    Instruction.commands (Entry.told id stint.chronicle) ++ [.stop]
  /-- What released a tick was a step. -/
  released : ∀ wait ∈ Mark.waits stint.marks, wait.Accounted .interactive
  lastStatus : last.ticker.lastStatus =
    (Mark.ticks stint.marks).getLastD first.ticker.lastStatus
  answer : response = .ok (.status last.ticker.lastStatus)
  idle : last.drive = none

theorem count_step_commands (told : List Instruction) :
    (Instruction.commands told).count .step = told.count .step := by
  induction told with
  | nil => rfl
  | cons instruction rest ih =>
      rw [Instruction.commands] at ih ⊢
      cases instruction <;> simp [List.filterMap_cons, Instruction.command?, ih]

theorem stop_not_mem_of_plain {told : List Instruction}
    (plain : ∀ instruction ∈ told, instruction.isPlain = true) :
    .stop ∉ Instruction.commands told := by
  intro stopped
  obtain ⟨instruction, inside, stops⟩ := List.mem_filterMap.mp stopped
  have allowed := plain instruction inside
  cases instruction <;> simp [Instruction.command?, Instruction.isPlain] at stops allowed

/-- Until the stop is answered all steps that were taken up are. -/
theorem steps_granted (stint : Stint policy id before) :
    (Entry.told id stint.chronicle).count .step =
      stint.chronicle.countP (Entry.grants id .step) := by
  obtain ⟨pending, -⟩ := stint.begins
  obtain ⟨resting, -⟩ := meet_order_eq_some.mp stint.stops
  simpa [waiting, pending, resting] using steps_of_run stint.runs id

/-- Once the drive is over its driver has met every command up to the stop. -/
theorem consumes (stint : Stint .interactive id before) {drive : Drive}
    (underway : Underway .interactive drive (Entry.told id stint.chronicle ++ [.stop]) stint.marks)
    (ended : drive.stage = .over) :
    (drive.pacing (Entry.told id stint.chronicle ++ [.stop]) stint.marks).consumed =
      Instruction.commands (Entry.told id stint.chronicle) ++ [.stop] := by
  have paced := underway.kept.paced
  have final : (drive.pacing (Entry.told id stint.chronicle ++ [.stop]) stint.marks).isOver =
      true := by
    rw [underway.isOver, ended]
    rfl
  have driver : (drive.pacing (Entry.told id stint.chronicle ++ [.stop]) stint.marks).driver =
      drive.driver := by
    rw [pacing, ended]
    rfl
  -- Nothing but a stop ends an interactive drive whose driver is not left alone.
  have met : .stop ∈
      (drive.pacing (Entry.told id stint.chronicle ++ [.stop]) stint.marks).consumed := by
    rcases paced.ending final with stopped | ⟨closed, -⟩ | ⟨_, _, counts, -⟩
    · exact stopped
    · rw [driver, underway.opened] at closed
      cases closed
    · cases counts
  have before : ∀ command ∈ Instruction.commands (Entry.told id stint.chronicle),
      decide (command ≠ Command.stop) = true := by
    intro command inside
    apply decide_eq_true
    rintro rfl
    exact stop_not_mem_of_plain stint.plain inside
  have sent : Instruction.commands (Entry.told id stint.chronicle ++ [.stop]) =
      Instruction.commands (Entry.told id stint.chronicle) ++ [.stop] :=
    Instruction.commands_append _ _
  rw [(paced.stopped met).2, pacing, sent, List.takeWhile_append_of_pos before]
  simp

theorem accounted (stint : Stint .interactive id before) (numbered : before.manager.Numbered)
    {after : Service} {entries : List Entry}
    (met : stint.ending.meet .answer = some (after, entries)) :
    ∃ first last response, before.manager.tree? id = some first ∧
      after.manager.tree? id = some last ∧
      entries = [.answered (.instruct id .stop) response] ∧
      stint.Accounted first last response := by
  obtain ⟨-, first, known, begun⟩ := stint.begins
  obtain ⟨last, drive, there, own, ended, answered, left⟩ := stint.answers met
  have underway := stint.underway numbered there own
  have counted := stint.lasts numbered
    (lifelong_counted first.ticker.tickCount first.ticker.lastStatus) begun there ⟨rfl, rfl⟩
  have paced := underway.kept.paced
  have consumed := stint.consumes underway ended
  have steps : (Mark.ticks stint.marks).length =
      (Entry.told id stint.chronicle).count .step := by
    have driver : (drive.pacing (Entry.told id stint.chronicle ++ [.stop]) stint.marks).driver =
        drive.driver := by
      rw [pacing, ended]
      rfl
    have ticks := paced.interactive rfl
    rw [driver, consumed, List.count_append, count_step_commands] at ticks
    rw [underway.ticked, ticks]
    rfl
  refine ⟨first, _, _, known, left, answered, ?_⟩
  exact
    { ticked := steps.trans stint.steps_granted
      tickCount := counted.tickCount
      in_order := consumed
      released := paced.accounted
      lastStatus := counted.lastStatus
      answer := rfl
      idle := rfl }

end Stint

namespace Service

open Manager

/-- Whatever a manager was told before: a stint under the interactive policy comes to one tick for
every step that was granted, and a stop to an answer; what the manager shows of a drive as paused is
what its driver will have come to; and the manager's own pace is one way to serve. -/
theorem stints_come_to_account {manager : Manager} (new : manager.trees = [])
    {moments : List Moment} {service : Service} {chronicle : List Entry}
    (ran : run { manager } moments = some (service, chronicle)) (id : TreeId) :
    (∀ (stint : Stint .interactive id service) after entries,
      stint.ending.meet .answer = some (after, entries) →
        ∃ first last response, service.manager.tree? id = some first ∧
          after.manager.tree? id = some last ∧
          entries = [.answered (.instruct id .stop) response] ∧
          stint.Accounted first last response) ∧
      (∀ policy (stint : Stint policy id service), ∃ bound : Nat, ∀ expiries : List Bool,
        bound < expiries.length →
          ((stint.linger (turns id expiries)).ending.meet .answer).isSome = true) ∧
      (∀ tree drive, service.manager.tree? id = some tree → tree.activeDrive? = some drive →
        tree.summary ∈ service.manager.list ∧ tree.summary.isDriven = true ∧
          tree.summary.paused = drive.driver.queue.foldl Command.flag drive.driver.paused) ∧
      (service.pending = none → ∀ instruction,
        (instruction = .wait → service.manager.isDriven id = false) →
          service.manager.Serves (.instruct id instruction)
            (service.manager.follow id instruction)) := by
  have regular := regular_of_run new ran
  refine ⟨?_, ?_, ?_, ?_⟩
  · intro stint after entries met
    exact stint.accounted regular.numbered met
  · intro policy stint
    exact stint.comes_to_an_end regular.numbered
  · intro tree drive found active
    obtain ⟨own, -⟩ := LoadedTree.active_drive_eq_some.mp active
    obtain ⟨policy, told, marks, underway⟩ := regular.underway found own
    refine ⟨List.mem_map_of_mem (tree_mem found), ?_, ?_⟩
    · simp [LoadedTree.summary, active]
    · simpa [LoadedTree.summary, active] using underway.settled
  · intro _ instruction ready
    exact serves_follow regular id instruction ready

end Service

/-! A watch over a report. -/

namespace Watch
open Service

/-- A report that the operator has to confirm. -/
def plan : TreePlan where
  label := { name := "watch" }
  root := .acknowledge { name := "report" } ["operator"]

def loaded : Service := (obey { manager := {} } (.load (.ok plan))).1

def started : Service := (loaded.obey (.instruct (.number 0) (.start .interactive))).1

/-- A step, a confirmation, a pause and another step. -/
def course : List Moment :=
  [.answer, .order (.instruct (.number 0) .step), .answer] ++
    (turn (.number 0) false).map .happening ++
    [.order (.instruct (.number 0) (.acknowledge "report" "operator")),
      .order (.instruct (.number 0) .pause), .answer,
      .order (.instruct (.number 0) .step), .answer]

theorem course_possible : (started.run course).isSome = true := by decide +kernel

def outcome : Service × List Entry := (started.run course).get course_possible

theorem course_run : started.run course = some (outcome.1, outcome.2) := by
  rw [Prod.eta, outcome, Option.some_get]

theorem driven_idle : outcome.1.pending = none := by decide +kernel

theorem driven_stops : (outcome.1.manager.handle (.number 0)
    (Instruction.takeUp outcome.1.manager.store · .stop)).2 = .ok .done := by decide +kernel

def stint : Stint .interactive (.number 0) loaded where
  begun := started
  moments := course
  chronicle := outcome.2
  driven := outcome.1
  halting := (outcome.1.obey (.instruct (.number 0) .stop)).1
  rest := turns (.number 0) [false, false]
  starts := rfl
  runs := course_run
  plain := List.all_eq_true.mp (by decide +kernel)
  stops := meet_of_granted driven_idle driven_stops rfl

theorem watch_comes_to_account :
    stint.chronicle.countP (Entry.grants (.number 0) .step) = 2 ∧ ∃ after last,
      stint.ending.meet .answer =
          some (after, [.answered (.instruct (.number 0) .stop) (.ok (.status .success))]) ∧
        after.manager.tree? (.number 0) = some last ∧ last.ticker.tickCount = 2 := by
  have new : ({} : Manager).trees = [] := rfl
  have ran : run { manager := {} } [.order (.load (.ok plan))] =
      some (loaded, [.answered (.load (.ok plan)) (.ok (.loaded (.number 0)))]) := rfl
  have account := (stints_come_to_account new ran (.number 0)).1 stint
  have answers : (stint.ending.meet .answer).isSome = true := by decide +kernel
  obtain ⟨⟨after, entries⟩, met⟩ := Option.isSome_iff_exists.mp answers
  obtain ⟨first, last, _, known, there, rfl, accounted⟩ := account after entries met
  have granted : stint.chronicle.countP (Entry.grants (.number 0) .step) = 2 := by decide +kernel
  have ticks : Mark.ticks stint.marks = [.failure, .success] := by decide +kernel
  have unticked : (loaded.manager.tree? (.number 0)).map (·.ticker.tickCount) = some 0 := by
    decide +kernel
  have count := accounted.tickCount
  have status := accounted.lastStatus
  rw [known, Option.map_some, Option.some_inj] at unticked
  rw [ticks, unticked] at count
  rw [ticks] at status
  refine ⟨granted, after, last, ?_, there, count⟩
  rw [met, accounted.answer, status]
  rfl

end Watch

end BehaviorTree
