import BehaviorTree.Proofs.Interaction
import BehaviorTree.Proofs.Printing

/-!
Trees that are run by hand from the command line. The program is one party to a sitting: at its own
pace the drive goes on until it waits again, and the workers until they rest, after every order.
-/

namespace BehaviorTree

/-! Rounds of a drive. -/

namespace Phase

/-- What becomes of a drive in a round, and in as many as there may be. -/
def round : Phase → Phase
  | .waiting | .prompted | .due => .waiting
  | .stopped | .leaving | .gone | .over => .over

variable {phase : Phase} {drive : Drive}

theorem Has.round (has : phase.Has drive) (expires : Bool) :
    phase.round.Has (drive.round expires) := by
  obtain ⟨⟨policy, channel, paused, ticks⟩, shown, stage⟩ := drive
  obtain ⟨rfl, rfl, rfl⟩ := has
  cases phase <;> exact ⟨rfl, rfl, rfl⟩

theorem Has.rounds (has : phase.Has drive) {expiries : List Bool} (any : expiries ≠ []) :
    phase.round.Has (expiries.foldl Drive.round drive) := by
  induction expiries generalizing phase drive with
  | nil => contradiction
  | cons expires rest ih =>
      have first := has.round expires
      cases rest with
      | nil => exact first
      | cons next others =>
          have same : phase.round.round = phase.round := by cases phase <;> rfl
          exact same ▸ ih first (by simp)

theorem Has.unique {other : Phase} (has : phase.Has drive) (also : other.Has drive) :
    phase = other := by
  have stages := has.stage.symm.trans also.stage
  have queues : phase.queue = other.queue := by
    have channels := has.channel.symm.trans also.channel
    exact congrArg Channel.queue (Option.some.inj channels)
  cases phase <;> cases other <;>
    first | rfl | exact absurd stages (by decide) | exact absurd queues (by decide)

theorem round_owed (phase : Phase) : phase.round.owed = 0 := by cases phase <;> rfl

end Phase

namespace Service

open Entry Manager

variable {service : Service} {manager : Manager} {id : TreeId} {instruction : Instruction}
  {phase : Phase} {count : Nat} {sight : Sight}

/-- Some turns of a drive perform the tick that is owed, if one is, and leave it waiting or over. -/
theorem Poised.rounds (poised : service.Poised id phase count sight) {expiries : List Bool}
    (any : expiries ≠ []) :
    ∃ seen, (service.undergoAll (turns id expiries)).1.Poised id phase.round
      (count + phase.owed) seen := by
  obtain ⟨tree, found, suits, -⟩ := poised.there
  obtain ⟨after, there, drive⟩ := drive_after_turns found expiries
  obtain ⟨next, onward, ticked, -⟩ :=
    passes_undergo_all id service (turns id expiries) phase count sight poised
  obtain ⟨other, same, fits, known⟩ := onward.there
  cases there.symm.trans same
  have settled : next = phase.round := by
    generalize own : tree.drive = held at suits drive
    generalize after.drive = final at fits drive
    cases suits with
    | undriven =>
        cases drive
        cases fits
        rfl
    | driven has =>
        cases drive
        cases fits with
        | driven also => exact also.unique (has.rounds any)
  subst settled
  rw [Phase.round_owed, Nat.add_zero] at ticked
  exact ⟨_, ticked ▸ onward⟩

theorem Poised.not_driven (poised : service.Poised id .over count sight) :
    service.manager.isDriven id = false := by
  obtain ⟨tree, found, suits, -⟩ := poised.there
  apply not_driven_of_over found
  intro drive own
  rw [own] at suits
  cases suits with
  | driven has => exact has.stage

/-- What a manager does about a drive that it is told about. -/
theorem Poised.advance (numbered : service.manager.Numbered)
    (poised : service.Poised id phase count sight) (driven : phase ≠ .over) :
    ∃ happenings seen, (service.undergoAll happenings).1 =
        { service with manager := service.manager.advance id } ∧
      Poised { service with manager := service.manager.advance id } id phase.round
        (count + phase.owed) seen := by
  obtain ⟨tree, drive, found, own, -⟩ := poised.driven driven
  obtain ⟨times, advanced, enough⟩ := advance_happens numbered id
  have any : List.replicate times false ≠ [] := by
    have some := enough tree drive found own
    cases times with
    | zero => omega
    | succ => simp [List.replicate_succ]
  obtain ⟨seen, onward⟩ := poised.rounds any
  rw [advanced] at onward
  exact ⟨_, seen, advanced, onward⟩

variable {taken : Service}

/-- A step that was taken up comes to its tick once the drive has gone on. -/
theorem Poised.step_comes (poised : service.Poised id .waiting count sight)
    (takes : service.meet (.order (.instruct id .step)) = some (taken, [.taken id .step]))
    (happenings : List Happening) {expiries : List Bool} (any : expiries ≠ []) :
    ((taken.undergoAll happenings).1.undergoAll (turns id expiries)).1.ticksShown id =
      count + 1 := by
  obtain ⟨next, halfway, some, -⟩ :=
    passes_undergo_all id taken happenings .prompted count sight (poised.prompted takes)
  obtain ⟨seen, onward⟩ := halfway.rounds any
  rw [onward.shown, Nat.add_assoc, some]
  rfl

/-- A stop that was taken up is answered once the drive has gone on. -/
theorem Poised.stop_comes (poised : service.Poised id .waiting count sight)
    (takes : service.meet (.order (.instruct id .stop)) = some (taken, [.taken id .stop]))
    (happenings : List Happening) {expiries : List Bool} (any : expiries ≠ []) :
    (((taken.undergoAll happenings).1.undergoAll (turns id expiries)).1.meet .answer).isSome =
      true := by
  obtain ⟨-, next, halfway, closed, -⟩ :=
    (passes_undergo_all id taken happenings).unowed (poised.stopped takes) rfl
  obtain ⟨seen, onward⟩ := halfway.rounds any
  have ended : next.round = .over := by cases next <;> first | rfl | cases closed
  rw [ended] at onward
  obtain ⟨pending, -⟩ := taken_of_meet takes
  have waits : ((taken.undergoAll happenings).1.undergoAll (turns id expiries)).1.pending =
      some (id, .stop) := by
    rw [(undergo_all_quiet _ _).1, (undergo_all_quiet _ _).1, pending]
  rw [meet, waits]
  simp [conclude, onward.not_driven]

/-- Nothing is in the way of the next order about a tree: a step and a stop are taken up whenever
they are given, and once the drive has gone on the step has come to its tick and the stop to its
answer. -/
structure Ready (service : Service) (id : TreeId) : Prop where
  steps (early : List Happening) :
    ∃ taken, (service.undergoAll early).1.meet (.order (.instruct id .step)) =
        some (taken, [.taken id .step]) ∧
      ∀ late expiries, expiries ≠ [] → service.ticksShown id <
        ((taken.undergoAll late).1.undergoAll (turns id expiries)).1.ticksShown id
  stops (early : List Happening) :
    ∃ taken, (service.undergoAll early).1.meet (.order (.instruct id .stop)) =
        some (taken, [.taken id .stop]) ∧
      ∀ late expiries, expiries ≠ [] →
        (((taken.undergoAll late).1.undergoAll (turns id expiries)).1.meet .answer).isSome = true

theorem Poised.ready (poised : service.Poised id .waiting count sight)
    (idle : service.pending = none) : service.Ready id := by
  have waits : ∀ early, (service.undergoAll early).1.Poised id .waiting count sight ∧
      (service.undergoAll early).1.pending = none := fun early =>
    ⟨((passes_undergo_all id service early).waiting poised).2,
      (undergo_all_quiet service early).1.trans idle⟩
  constructor
  · intro early
    obtain ⟨waiting, free⟩ := waits early
    have takes := waiting.takes free (.inl rfl)
    refine ⟨_, takes, ?_⟩
    intro late expiries any
    rw [poised.shown, waiting.step_comes takes late any]
    exact Nat.lt_succ_self count
  · intro early
    obtain ⟨waiting, free⟩ := waits early
    have takes := waiting.takes free (.inr rfl)
    exact ⟨_, takes, fun late _ any => waiting.stop_comes takes late any⟩

/-! Orders at the manager's own pace. -/

theorem takes_of_granted (instruction : Instruction) {act : LoadedTree → Handled Unit}
    (takes : ∀ tree, instruction.takeUp manager.store tree = (act tree).map fun _ => Reply.done)
    (long : instruction.isBrief = false) (granted : (manager.handle id act).2 = .ok ()) :
    meet { manager } (.order (.instruct id instruction)) =
      some ({ manager := (manager.handle id act).1, pending := some (id, instruction) },
        [.taken id instruction]) := by
  have taking : manager.handle id (Instruction.takeUp manager.store · instruction) =
      ((manager.handle id act).1, .ok .done) := by
    have mapped := handle_map manager id act fun _ => Reply.done
    rw [granted] at mapped
    rw [← funext takes] at mapped
    exact mapped
  have obeyed := @obey_of_granted { manager } id instruction .done (congrArg Prod.snd taking)
  rw [if_neg (by simp [long]), taking] at obeyed
  exact meet_of_obeyed obeyed

/-- An exchange by its stages: what happens until the answer, the answer, and what happens then. -/
theorem exchange_of_stages {reply : Reply} {taken : Service} {ready after final : Manager}
    (takes : meet { manager } (.order (.instruct id instruction)) =
      some (taken, [.taken id instruction]))
    (middle late : List Happening)
    (prepared : (taken.undergoAll middle).1 =
      { manager := ready, pending := some (id, instruction) })
    (concluded : ready.conclude id instruction = some (after, .ok reply))
    (settled : (undergoAll { manager := after } late).1 = { manager := final }) :
    ∃ moments, Exchange id instruction { manager } moments reply { manager := final } := by
  have answers : (taken.undergoAll middle).1.meet .answer =
      some ({ manager := after }, [.answered (.instruct id instruction) (.ok reply)]) := by
    rw [prepared]
    exact meet_answer_eq_some.mpr ⟨id, instruction, after, .ok reply, rfl, concluded, rfl, rfl⟩
  have exchange := Exchange.of [] middle late takes answers
  rw [settled] at exchange
  exact ⟨_, exchange⟩

theorem start_exchange (numbered : manager.Numbered)
    (poised : Poised { manager } id .over count sight) :
    (manager.start id .interactive).2 = .ok () ∧
      ∃ moments, Exchange id (.start .interactive) { manager } moments .done
        { manager := (manager.start id .interactive).1.settle } := by
  obtain ⟨tree, found, -⟩ := poised.there
  have granted : (manager.handle id (·.launch .interactive)).2 = .ok () := by
    have idle : tree.activeDrive? = none := by
      simpa [isDriven, found] using poised.not_driven
    rw [handle_answer _ _ found, LoadedTree.launch_of_idle idle]
  have takes := takes_of_granted (.start .interactive) (fun _ => rfl) rfl granted
  have begun : manager.start id .interactive =
      (((manager.handle id (·.launch .interactive)).1.announce id fun tree =>
        some (tree.startEvent .interactive)).advance id, .ok ()) := by
    rw [start_eq, and_then_of_granted granted]
  have announced : ((manager.handle id (·.launch .interactive)).1.announce id fun tree =>
      some (tree.startEvent .interactive)).Numbered := (numbered.handle id _).affect id _
  obtain ⟨times, advanced, -⟩ := @advance_happens
    { manager := (manager.handle id (·.launch .interactive)).1.announce id fun tree =>
        some (tree.startEvent .interactive) } announced id
  obtain ⟨rests, settled⟩ := settle_happens { manager := (manager.start id .interactive).1 }
  refine ⟨congrArg Prod.snd begun, ?_⟩
  apply exchange_of_stages takes [] (turns id (List.replicate times false) ++ rests) rfl rfl
  rw [(undergo_all_append _ _ _).1, advanced, ← settled, begun]

/-- A step at the manager's own pace is taken up and answered, and its tick is over then. -/
theorem step_exchange (numbered : manager.Numbered)
    (poised : Poised { manager } id .waiting count sight) :
    (manager.step id).2 = .ok () ∧
      (∃ moments, Exchange id .step { manager } moments .done
        { manager := (manager.step id).1.settle }) ∧
      ∃ seen, Poised { manager := (manager.step id).1.settle } id .waiting (count + 1) seen := by
  obtain ⟨tree, drive, found, own, has, -⟩ := poised.driven (by simp)
  have granted : (manager.handle id (·.command .step)).2 = .ok () := by
    rw [handle_answer _ _ found, LoadedTree.command_of_waiting own has]
  have takes := takes_of_granted .step (fun _ => rfl) rfl granted
  obtain ⟨middle, seen, advanced, onward⟩ :=
    (poised.prompted takes).advance (numbered.handle id _) (by simp)
  have sent : manager.step id =
      (((manager.handle id (·.command .step)).1.advance id).announce id (·.commandEvent? .step),
        .ok ()) := by
    rw [step, send_eq, and_then_of_granted granted]
  obtain ⟨late, settled⟩ := settle_happens { manager := (manager.step id).1 }
  refine ⟨congrArg Prod.snd sent, ?_, ?_⟩
  · apply exchange_of_stages takes middle late advanced rfl
    rw [← settled, sent]
  · have announced : (manager.step id).1.tree? id =
        ((manager.handle id (·.command .step)).1.advance id).tree? id := by
      rw [sent, tree_announce]
    obtain ⟨-, answered⟩ := (@passes_same id
      { manager := (manager.handle id (·.command .step)).1.advance id, pending := some (id, .step) }
      { manager := (manager.step id).1 } announced).waiting onward
    have passes := passes_undergo_all id { manager := (manager.step id).1 } late
    rw [settled] at passes
    exact ⟨_, (passes.waiting answered).2⟩

/-- A stop at the manager's own pace is taken up and answered with a status. -/
theorem stop_exchange (numbered : manager.Numbered)
    (poised : Poised { manager } id .waiting count sight) :
    ∃ status, (manager.stop id).2 = .ok status ∧
      ∃ moments, Exchange id .stop { manager } moments (.status status)
        { manager := (manager.stop id).1 } := by
  obtain ⟨tree, drive, found, own, -⟩ := poised.driven (by simp)
  have granted : (manager.handle id (·.dismiss)).2 = .ok () := by
    rw [handle_answer _ _ found, LoadedTree.dismiss, own]
  have takes := takes_of_granted .stop (fun _ => rfl) rfl granted
  have told := poised.stopped takes
  obtain ⟨middle, seen, advanced, onward⟩ := told.advance (numbered.handle id _) (by simp)
  -- The drive comes to its end and stays with its tree, so that it can be let go of.
  obtain ⟨last, final, there, goes⟩ : ∃ last final,
      ((manager.handle id (·.dismiss)).1.advance id).tree? id = some last ∧
        last.drive = some final := by
    obtain ⟨before, driving, known, drives, -⟩ := told.driven (by simp)
    have stays := drive_stays known drives middle
    rwa [advanced] at stays
  have idle : ((manager.handle id (·.dismiss)).1.advance id).isDriven id = false :=
    onward.not_driven
  have released : (((manager.handle id (·.dismiss)).1.advance id).handle id (·.release)).2 =
      .ok last.ticker.lastStatus := by
    rw [handle_answer _ _ there, LoadedTree.release, goes]
  have concluded := Stint.conclude_stop idle
  have stopped : manager.stop id =
      ((((manager.handle id (·.dismiss)).1.advance id).handle id (·.release)).1.announce id
        fun tree => some tree.stopEvent, .ok last.ticker.lastStatus) := by
    rw [stop_eq, and_then_of_granted granted, released]
  rw [released] at concluded
  refine ⟨_, congrArg Prod.snd stopped, ?_⟩
  rw [stopped]
  exact exchange_of_stages takes middle [] advanced concluded rfl

end Service

/-! Sessions. -/

namespace CommandLine.Session

open Service Manager

variable {session : Session} {count : Nat} {sight : Sight}

/-- The session with another manager. -/
def under (session : Session) (manager : Manager) : Session := { session with manager }

theorem step_talks (numbered : session.manager.Numbered)
    (poised : Poised { manager := session.manager } session.id .waiting count sight) :
    ∃ manager seen moments, session.step = .ok (session.under manager, (Prod.snd seen).render) ∧
      Exchange session.id .step { manager := session.manager } moments .done { manager } ∧
      Poised { manager } session.id .waiting (count + 1) seen := by
  obtain ⟨granted, ⟨moments, exchange⟩, seen, onward⟩ := step_exchange numbered poised
  refine ⟨_, seen, moments, ?_, exchange, onward⟩
  have told : session.manager.step session.id = ((session.manager.step session.id).1, .ok ()) :=
    Prod.ext rfl granted
  have shown := onward.report
  rw [step, perform, told]
  simp only [report, bind, Except.bind, shown]
  rfl

theorem interact_talks (numbered : session.manager.Numbered)
    (poised : Poised { manager := session.manager } session.id .waiting count sight)
    (lines : List String) :
    ∃ manager reports moments,
      session.interact lines =
        .ok (session.under manager, reports.map Report.render) ∧
      Dialogue session.id { manager := session.manager } lines moments reports { manager } := by
  induction lines generalizing session count sight with
  | nil => exact ⟨session.manager, [], [], rfl, .ends (by simp)⟩
  | cons line rest ih =>
      by_cases farewell : isFarewell line = true
      · refine ⟨session.manager, [], [], ?_, .ends (by simpa using farewell)⟩
        rw [interact, if_pos farewell]
        rfl
      · obtain ⟨manager, seen, moments, stepped, exchange, next⟩ := step_talks numbered poised
        obtain ⟨_, ran⟩ := exchange.runs
        obtain ⟨last, reports, more, onward, talks⟩ :=
          @ih (session.under manager) _ _ (numbered_of_run numbered ran) next
        refine ⟨last, seen.2 :: reports, moments ++ more, ?_, ?_⟩
        · rw [interact, if_neg farewell, stepped]
          simp only [bind, Except.bind, onward]
          rfl
        · refine .steps (by simpa using farewell) exchange ?_ next.report talks
          rw [poised.shown, next.shown]
          exact Nat.lt_succ_self count

theorem conclude_talks (interactive : session.policy = .interactive)
    (numbered : session.manager.Numbered)
    (poised : Poised { manager := session.manager } session.id .waiting count sight)
    (json : Bool) :
    ∃ manager status report after moments,
      session.conclude json = .ok (session.under after, conclusion json status report) ∧
      Exchange session.id .stop { manager := session.manager } moments (.status status)
        { manager } ∧
      manager.report session.id = .ok report := by
  obtain ⟨manager, id, policy⟩ := session
  cases interactive
  obtain ⟨status, answered, moments, exchange⟩ := stop_exchange numbered poised
  obtain ⟨-, -, next, onward⟩ := exchange.of_stop poised
  refine ⟨_, status, sight.2, ((manager.stop id).1.unload id).1, moments, ?_, exchange,
    onward.report⟩
  have stopped : manager.stop id = ((manager.stop id).1, .ok status) := Prod.ext rfl answered
  have shown := onward.report
  rw [conclude]
  dsimp only
  rw [stopped, shown]
  rfl

/-- A whole interactive run is a sitting, and prints what the sitting shows. -/
theorem whole_sits {manager : Manager} {id : TreeId} (numbered : manager.Numbered)
    (poised : Poised { manager } id .over count sight)
    (begun : session =
      { manager := (manager.start id .interactive).1.settle, id, policy := .interactive })
    (json : Bool) (lines : List String) :
    ∃ after moments reports final prints,
      session.whole json lines = some (.ok (session.under after, prints)) ∧
      Told json reports final prints ∧
      Sitting id { manager } lines moments reports final := by
  subst begun
  obtain ⟨-, opening, starts⟩ := start_exchange numbered poised
  obtain ⟨_, started⟩ := starts.runs
  obtain ⟨-, begun⟩ := starts.of_start poised rfl
  have orderly := numbered_of_run numbered started
  obtain ⟨left, reports, course, shown, talks⟩ := @interact_talks
    { manager := (manager.start id .interactive).1.settle, id, policy := .interactive } _ _
      orderly begun lines
  obtain ⟨_, talked⟩ := talks.runs
  obtain ⟨-, -, total, waits⟩ := talks.sights begun
  obtain ⟨last, status, report, after, closing, ended, stops, final⟩ := @conclude_talks
    { manager := left, id, policy := .interactive } _ _ rfl (numbered_of_run orderly talked) waits
      json
  refine ⟨after, _, reports, (status, report), _, ?_, session_told json reports (status, report),
    .of starts talks stops final⟩
  rw [whole]
  simp only [bind, Except.bind, shown, under]
  rw [ended]
  rfl

end CommandLine.Session

/-! Trees that were just loaded. -/

theorem Manager.loaded_of_file {manager loaded : Manager} {path : String} {id : TreeId}
    (new : manager.trees = []) (loads : manager.loadFile path = (loaded, .ok id)) :
    loaded.Numbered ∧ ∃ plan, TreePlan.load manager.disk path = .ok plan ∧
      Service.Poised { manager := loaded } id .over 0
        (.invalid, .of (plan.root.node manager.timing)) := by
  have numbered := (Service.numbered_load (.of_new new) (TreePlan.load manager.disk path)).1
  rw [loadFile] at loads
  rw [loads] at numbered
  refine ⟨numbered, ?_⟩
  cases read : TreePlan.load manager.disk path with
  | error fault =>
      rw [read] at loads
      cases loads
  | ok plan =>
      rw [read, loadRead] at loads
      cases inspected : plan.inspect with
      | error defect =>
          rw [load_of_refused inspected] at loads
          cases loads
      | ok =>
          obtain ⟨disk, loading⟩ := load_of_accepted inspected manager
          cases loading.symm.trans loads
          refine ⟨plan, rfl, plan.loaded manager.timing (.number manager.loaded), ?_, .undriven,
            rfl, ?_⟩
          · simp [tree?, new, TreePlan.loaded]
          · have unticked := Report.of_setup (plan.root.node manager.timing)
            exact congrArg (Prod.mk Status.invalid) unticked

namespace CommandLine

open Service Manager Session

/-- A mode that is given counts. -/
theorem config_mode {disk : Disk} {project : Option String} {overrides : Overrides}
    {mode : TickMode} {config : Config} (given : overrides.mode = some mode)
    (valid : Session.config disk project overrides = .ok config) : config.tick.mode = mode := by
  rw [Session.config] at valid
  split at valid
  next => cases valid
  next loaded _ =>
    dsimp only at valid
    split at valid
    · cases valid
    · cases valid
      rw [Overrides.apply, given]
      rfl

theorem begin_of_started {start : Start} {request : Request} {overrides : Overrides}
    {config : Config} {loaded begun : Manager} {id : TreeId}
    (valid : Session.config start.disk request.project overrides = .ok config)
    (loads : Manager.loadFile
      { ofConfig config { values := config.values } start.disk with now := start.now }
        request.tree = (loaded, .ok id))
    (started : loaded.start id config.tick.policy = (begun, .ok ())) :
    CommandLine.begin request overrides start =
      .ok { manager := begun.settle, id, policy := config.tick.policy } := by
  rw [CommandLine.begin, valid]
  simp only [bind, Except.bind]
  rw [Session.begin]
  dsimp only
  rw [loads]
  dsimp only
  rw [Session.perform, started]

/-- Whatever the input of an interactive run: the tree is ticked once for every line up to the
farewell, a drawing of the report after each tick is printed, and in the end the last status and
report, or those of the tree that was never ticked. What is logged to the output stands between
these prints. This is so however the drive and the workers go on in between; the next order is
always taken up, and what it waits for comes once the drive has gone on. -/
theorem interactive_run_ticks_line_by_line {start : Start} {request : Request}
    {overrides : Overrides} {json : Bool} {config : Config} {loaded : Manager} {id : TreeId}
    (asked : request.errand = .run overrides json)
    (interactive : overrides.mode = some .interactive)
    (valid : Session.config start.disk request.project overrides = .ok config)
    (loads : Manager.loadFile
      { ofConfig config { values := config.values } start.disk with now := start.now }
        request.tree = (loaded, .ok id))
    (input : String) :
    ∃ plan, TreePlan.load start.disk request.tree = .ok plan ∧
      (∃ moments reports final prints pieces disk,
        Sitting id { manager := loaded } (Text.lines input) moments reports final ∧
        Told json reports final prints ∧
        Shuffled prints ((List.range (prints.length + 1)).flatMap start.logged) pieces ∧
        request.perform start input = some { output := String.join pieces, disk }) ∧
      (∀ moments reports final,
        Sitting id { manager := loaded } (Text.lines input) moments reports final →
          (sights id { manager := loaded } moments).length =
              ((Text.lines input).takeWhile (!isFarewell ·)).length ∧
            reports = (sights id { manager := loaded } moments).map (·.2) ∧
            final = (sights id { manager := loaded } moments).getLastD
              (.invalid, .of (plan.root.node config.timing))) ∧
      (∀ opening begun lines course reports left,
        Exchange id (.start .interactive) { manager := loaded } opening .done begun →
        Dialogue id begun lines course reports left → left.Ready id) := by
  obtain ⟨numbered, plan, read, poised⟩ := loaded_of_file rfl loads
  have policy : config.tick.policy = .interactive := by
    have mode : config.tick.mode = .interactive := config_mode interactive valid
    rw [TickSettings.policy, mode]
  refine ⟨plan, read, ?_, ?_, ?_⟩
  · obtain ⟨granted, -⟩ := start_exchange numbered poised
    have started : loaded.start id .interactive = ((loaded.start id .interactive).1, .ok ()) :=
      Prod.ext rfl granted
    obtain ⟨after, moments, reports, final, prints, shown, told, sits⟩ :=
      whole_sits numbered poised rfl json (Text.lines input)
    obtain ⟨pieces, shuffled, joined⟩ := amid_shuffled start.logged prints
    refine ⟨moments, reports, final, prints, pieces, after.disk, sits, told, shuffled, ?_⟩
    have begun := begin_of_started valid loads (policy ▸ started)
    rw [policy] at begun
    rw [Request.perform, asked]
    dsimp only
    rw [begun]
    dsimp only
    rw [shown, ← joined]
    rfl
  · intro moments reports final sits
    obtain ⟨told, counted, last⟩ := sits.sights poised rfl
    exact ⟨counted, told, last⟩
  · intro opening begun lines course reports left starts talks
    obtain ⟨-, waits⟩ := starts.of_start poised rfl
    obtain ⟨-, -, total, still⟩ := talks.sights waits
    exact still.ready (talks.idle starts.idle)

/-! A basin that is filled by hand. -/

namespace Basin

def disk : Disk :=
  ((Disk.workingIn "/mill").withFile ".ctltree/config.yaml"
      "tick:\n  mode: count\nprocess_variables:\n  level: 3\n".toUTF8.toList).withFile "fill.yaml"
    ("name: fill\nroot:\n  kind: set_pv\n  name: pour\n  description: ''\n  pv: level\n" ++
      "  value: 5\n").toUTF8.toList

def overrides : Overrides := { mode := some .interactive }

def request : Request :=
  { project := none, isVerbose := false, tree := "fill.yaml", errand := .run overrides false }

def start : Start :=
  { disk, logged := fun count => if count = 0 then ["INFO Tree loaded\n"] else [] }

def config : Config := (Session.config start.disk request.project overrides).toOption.getD {}

def manager : Manager :=
  { ofConfig config { values := config.values } start.disk with now := start.now }

theorem config_valid : Session.config start.disk request.project overrides = .ok config := by
  have valid : (Session.config start.disk request.project overrides).isOk = true := by
    decide +kernel
  cases found : Session.config start.disk request.project overrides with
  | error reason =>
      rw [found] at valid
      cases valid
  | ok settled =>
      rw [config, found]
      rfl

theorem file_accepted : (manager.loadFile request.tree).2 = .ok (.number 0) := by decide +kernel

theorem loaded_of_granted {answer : Manager × Except ManagerFault TreeId} {id : TreeId}
    (granted : answer.2 = .ok id) : ∃ loaded, answer = (loaded, .ok id) :=
  ⟨answer.1, Prod.ext rfl granted⟩

/-- Lines that are no farewell, and a farewell among blanks; and an input that says farewell at
once. -/
theorem basin_filled_line_by_line :
    (∃ loaded moments reports final prints pieces after,
      manager.loadFile request.tree = (loaded, .ok (.number 0)) ∧
      Sitting (.number 0) { manager := loaded } ["", "qq", "\tq ", ""] moments reports final ∧
      reports.length = 2 ∧ Told false reports final prints ∧
      Shuffled prints ((List.range (prints.length + 1)).flatMap start.logged) pieces ∧
      request.perform start "\nqq\n\tq \n\n" =
        some { output := String.join pieces, disk := after }) ∧
    (∃ plan prints pieces after, TreePlan.load start.disk request.tree = .ok plan ∧
      Told false [] (.invalid, .of (plan.root.node config.timing)) prints ∧
      Shuffled prints ((List.range (prints.length + 1)).flatMap start.logged) pieces ∧
      request.perform start "q" = some { output := String.join pieces, disk := after }) := by
  obtain ⟨loaded, loads⟩ := loaded_of_granted file_accepted
  have runs := @interactive_run_ticks_line_by_line start request overrides false config loaded
    (.number 0) rfl rfl config_valid loads
  constructor
  · have lines : Text.lines "\nqq\n\tq \n\n" = ["", "qq", "\tq ", ""] := by decide +kernel
    have talked : (["", "qq", "\tq ", ""].takeWhile (!isFarewell ·)).length = 2 := by
      decide +kernel
    obtain ⟨plan, read, ⟨moments, reports, final, prints, pieces, after, sits, shown, amid, ran⟩,
      every, -⟩ := runs "\nqq\n\tq \n\n"
    obtain ⟨counted, told, -⟩ := every moments reports final sits
    rw [lines] at sits counted
    refine ⟨loaded, moments, reports, final, prints, pieces, after, loads, sits, ?_, shown, amid,
      ran⟩
    rw [told, List.length_map, counted, talked]
  · have silent : ((Text.lines "q").takeWhile (!isFarewell ·)).length = 0 := by decide +kernel
    obtain ⟨plan, read, ⟨moments, reports, final, prints, pieces, after, sits, shown, amid, ran⟩,
      every, -⟩ := runs "q"
    obtain ⟨counted, rfl, rfl⟩ := every moments reports final sits
    have unticked := List.length_eq_zero_iff.mp (counted.trans silent)
    rw [unticked] at shown
    exact ⟨plan, prints, pieces, after, read, shown, amid, ran⟩

example : (request.perform start "\nq\n").map (·.output) =
    some ("INFO Tree loaded\nPress Enter to tick, q to quit.\n[RUNNING] pour (action)\n" ++
      "\nFinal status: RUNNING\n[RUNNING] pour (action)\n") := by decide +kernel

end Basin

end CommandLine

end BehaviorTree
