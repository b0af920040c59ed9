import BehaviorTree.Proofs.Driving

/-!
A manager at its own pace. What it does when it is told something is one way in which a service can
go: it takes an order up, lets the drive go on by a few turns, and answers.
-/

namespace BehaviorTree

namespace LoadedTree

@[simp] theorem round_drive (tree : LoadedTree) (store : Store) (expires : Bool) :
    (tree.round store expires).1.drive = tree.drive.map (·.round expires) := by
  obtain ⟨id, name, ticker, drive, recorded⟩ := tree
  cases drive with
  | none => rfl
  | some drive =>
      rw [round]
      by_cases due : (drive.ask expires).stage = .ticking
      · rw [perform_of_due rfl due]
        simp [finish, Drive.round, due]
      · rw [perform_of_not_due (by simpa [isDue, ask] using due)]
        simp [finish, ask, Drive.round, due]

@[simp] theorem round_id (tree : LoadedTree) (store : Store) (expires : Bool) :
    (tree.round store expires).1.id = tree.id := by
  rw [round]
  exact (tree.ask expires).perform_id store

@[simp] theorem rounds_id (tree : LoadedTree) (store : Store) (count : Nat) :
    (rounds store count tree).1.id = tree.id := by
  induction count generalizing tree with
  | zero => rfl
  | succ count ih => exact (ih _).trans (tree.round_id store false)

end LoadedTree

namespace Manager

/-! One change of a tree after another. -/

theorem replace_record (manager : Manager) (event : Event) (tree : LoadedTree) :
    (manager.record event).replace tree = (manager.replace tree).record event := by
  unfold record
  split
  next none => simp [replace, none]
  next path reached => simp [replace, reached]

theorem replace_record_all (manager : Manager) (events : List Event) (tree : LoadedTree) :
    (manager.recordAll events).replace tree = (manager.replace tree).recordAll events := by
  induction events generalizing manager with
  | nil => rfl
  | cons event rest ih =>
      have onward := ih (manager.record event)
      rwa [replace_record] at onward

theorem record_all_append (manager : Manager) (early late : List Event) :
    manager.recordAll (early ++ late) = (manager.recordAll early).recordAll late :=
  List.foldl_append

theorem replace_replace (manager : Manager) {first second : LoadedTree}
    (same : second.id = first.id) :
    (manager.replace first).replace second = manager.replace second := by
  unfold replace
  dsimp only
  rw [List.map_map]
  congr 1
  apply List.map_congr_left
  intro other _
  dsimp only [Function.comp_apply]
  by_cases here : other.id = first.id
  · simp [here, same]
  · simp [here, same]

theorem affect_of_known {manager : Manager} {id : TreeId} {tree : LoadedTree}
    (found : manager.tree? id = some tree) (act : LoadedTree → LoadedTree × List Event) :
    manager.affect id act = (manager.replace (act tree).1).recordAll (act tree).2 := by
  rw [affect, handle, found]

theorem affect_unknown {manager : Manager} {id : TreeId} (unknown : manager.tree? id = none)
    (act : LoadedTree → LoadedTree × List Event) : manager.affect id act = manager := by
  rw [affect, handle_unknown unknown]

theorem tree_affect {act : LoadedTree → LoadedTree × List Event}
    (keeps : ∀ tree, (act tree).1.id = tree.id) {manager : Manager} {id : TreeId}
    {tree : LoadedTree} (found : manager.tree? id = some tree) :
    (manager.affect id act).tree? id = some (act tree).1 := by
  rw [affect, tree_handle (by exact keeps), found, Option.map_some, if_pos rfl]

theorem affect_store (manager : Manager) (id : TreeId)
    (act : LoadedTree → LoadedTree × List Event) :
    (manager.affect id act).store = manager.store := by
  cases found : manager.tree? id with
  | none => rw [affect_unknown found]
  | some tree =>
      rw [affect_of_known found, record_all_store]
      rfl

theorem affect_affect {first : LoadedTree → LoadedTree × List Event}
    (keeps : ∀ tree, (first tree).1.id = tree.id) (manager : Manager) (id : TreeId)
    {second : LoadedTree → LoadedTree × List Event}
    (keepsOn : ∀ tree, (second tree).1.id = tree.id) :
    (manager.affect id first).affect id second =
      manager.affect id fun tree =>
        ((second (first tree).1).1, (first tree).2 ++ (second (first tree).1).2) := by
  cases found : manager.tree? id with
  | none => rw [affect_unknown found, affect_unknown found, affect_unknown found]
  | some tree =>
      rw [affect_of_known (tree_affect keeps found), affect_of_known found, affect_of_known found,
        replace_record_all, replace_replace _ (keepsOn _), record_all_append]

theorem tree_mem {manager : Manager} {id : TreeId} {tree : LoadedTree}
    (found : manager.tree? id = some tree) : tree ∈ manager.trees := List.mem_of_find?_eq_some found

/-- To replace a tree by itself changes nothing. -/
theorem Numbered.replace_same {manager : Manager} (numbered : manager.Numbered) {id : TreeId}
    {tree : LoadedTree} (found : manager.tree? id = some tree) :
    manager.replace tree = manager := by
  have same : manager.trees.map (fun other => if other.id = tree.id then tree else other) =
      manager.trees := by
    conv_rhs => rw [← List.map_id manager.trees]
    apply List.map_congr_left
    intro other inside
    split
    next here => exact List.inj_on_of_nodup_map numbered.apart (tree_mem found) inside here.symm
    next => rfl
  rw [replace, same]

theorem Numbered.affect_nothing {manager : Manager} (numbered : manager.Numbered) (id : TreeId) :
    manager.affect id (fun tree => (tree, [])) = manager := by
  cases found : manager.tree? id with
  | none => exact affect_unknown found _
  | some tree =>
      rw [affect_of_known found, numbered.replace_same found]
      rfl

theorem Numbered.affect {manager : Manager} (numbered : manager.Numbered) (id : TreeId)
    (act : LoadedTree → LoadedTree × List Event) : (manager.affect id act).Numbered :=
  numbered.handle id _

/-! What a manager answers by itself. -/

def done (answered : Manager × Except ManagerFault Unit) : Manager × Response :=
  (answered.1, answered.2.map fun _ => .done)

def status (answered : Manager × Except ManagerFault Status) : Manager × Response :=
  (answered.1, answered.2.map .status)

/-- Goes on with a tree after it was handled, if that was granted. -/
def andThen {Answer : Type} (handled : Manager × Except ManagerFault Unit)
    (next : Manager → Manager × Except ManagerFault Answer) :
    Manager × Except ManagerFault Answer :=
  match handled with
  | (after, .error fault) => (after, .error fault)
  | (after, .ok ()) => next after

section

variable {Answer : Type} {handled : Manager × Except ManagerFault Unit}
  {next : Manager → Manager × Except ManagerFault Answer}

theorem and_then_of_refused {fault : ManagerFault} (refused : handled.2 = .error fault) :
    andThen handled next = (handled.1, .error fault) := by
  obtain ⟨after, answer⟩ := handled
  cases refused
  rfl

theorem and_then_of_granted (granted : handled.2 = .ok ()) :
    andThen handled next = next handled.1 := by
  obtain ⟨after, answer⟩ := handled
  cases granted
  rfl

end

theorem start_eq (manager : Manager) (id : TreeId) (policy : Policy) :
    manager.start id policy = andThen (manager.handle id (·.launch policy)) fun launched =>
      ((launched.announce id fun tree => some (tree.startEvent policy)).advance id, .ok ()) := rfl

theorem send_eq (manager : Manager) (id : TreeId) (command : Command) :
    manager.send id command = andThen (manager.handle id (·.command command)) fun told =>
      ((told.advance id).announce id (·.commandEvent? command), .ok ()) := rfl

theorem stop_eq (manager : Manager) (id : TreeId) :
    manager.stop id = andThen (manager.handle id (·.dismiss)) fun told =>
      (((told.advance id).handle id (·.release)).1.announce id fun tree => some tree.stopEvent,
        ((told.advance id).handle id (·.release)).2) := rfl

/-- Follows an instruction to its answer. -/
def follow (manager : Manager) (id : TreeId) : Instruction → Manager × Response
  | .start policy => done (manager.start id policy)
  | .pause => done (manager.pause id)
  | .resume => done (manager.resume id)
  | .step => done (manager.step id)
  | .tickOnce => status (manager.tickOnce id)
  | .stop => status (manager.stop id)
  | .wait => status (manager.wait id)
  | .unload => done (manager.unload id)
  | .acknowledge node identity => done (manager.acknowledge id node identity)

end Manager

namespace Entry

def answer? : Entry → Option (Order × Response)
  | .answered order response => some (order, response)
  | .taken _ _ | .did _ _ => none

/-- The orders that were answered. -/
def answers (chronicle : List Entry) : List (Order × Response) := chronicle.filterMap answer?

@[simp] theorem answers_append (early late : List Entry) :
    answers (early ++ late) = answers early ++ answers late := List.filterMap_append

@[simp] theorem answers_answered (order : Order) (response : Response) :
    answers [.answered order response] = [(order, response)] := rfl

@[simp] theorem answers_taken (id : TreeId) (instruction : Instruction) (rest : List Entry) :
    answers (.taken id instruction :: rest) = answers rest := rfl

@[simp] theorem answers_did (id : TreeId) (marks : List Mark) :
    answers (marks.map (.did id)) = [] := by
  simp [answers, answer?, List.filterMap_eq_nil_iff]

end Entry

namespace Service

open Entry Manager

/-! What happens while nothing is ordered. -/

def undergoAll (service : Service) : List Happening → Service × List Entry
  | [] => (service, [])
  | happening :: rest =>
      let (next, entries) := service.undergo happening
      let (last, more) := next.undergoAll rest
      (last, entries ++ more)

theorem run_happenings (service : Service) (happenings : List Happening) :
    service.run (happenings.map .happening) = some (service.undergoAll happenings) := by
  induction happenings generalizing service with
  | nil => rfl
  | cons happening rest ih =>
      rw [List.map_cons, run_cons_eq_some]
      exact ⟨_, _, _, rfl, ih _, rfl⟩

theorem undergo_all_append (service : Service) (early late : List Happening) :
    (service.undergoAll (early ++ late)).1 =
        ((service.undergoAll early).1.undergoAll late).1 ∧
      (service.undergoAll (early ++ late)).2 =
        (service.undergoAll early).2 ++ ((service.undergoAll early).1.undergoAll late).2 := by
  induction early generalizing service with
  | nil => exact ⟨rfl, rfl⟩
  | cons happening rest ih =>
      obtain ⟨same, entries⟩ := ih (service.undergo happening).1
      refine ⟨same, ?_⟩
      rw [List.cons_append, undergoAll, undergoAll]
      dsimp only
      rw [entries, List.append_assoc]

@[simp] theorem undergo_pending (service : Service) (happening : Happening) :
    (service.undergo happening).1.pending = service.pending := by
  cases happening with
  | vary | pass => rfl
  | motion id motion =>
      rw [undergo]
      split <;> rfl

/-- What happens by itself answers nothing and takes nothing up. -/
theorem undergo_entries (service : Service) (happening : Happening) :
    ∃ (id : TreeId) (marks : List Mark),
      (service.undergo happening).2 = marks.map (.did id) := by
  cases happening with
  | vary | pass => exact ⟨.none, [], rfl⟩
  | motion id motion =>
      rw [undergo]
      split
      · exact ⟨id, [], rfl⟩
      · exact ⟨id, _, rfl⟩

theorem undergo_all_quiet (service : Service) (happenings : List Happening) :
    (service.undergoAll happenings).1.pending = service.pending ∧
      answers (service.undergoAll happenings).2 = [] ∧
      ∀ id, told id (service.undergoAll happenings).2 = [] := by
  induction happenings generalizing service with
  | nil => exact ⟨rfl, rfl, fun _ => rfl⟩
  | cons happening rest ih =>
      obtain ⟨pending, unanswered, untold⟩ := ih (service.undergo happening).1
      obtain ⟨other, marks, entries⟩ := service.undergo_entries happening
      refine ⟨pending.trans (service.undergo_pending happening), ?_, ?_⟩
      · rw [undergoAll]
        dsimp only
        rw [entries, answers_append, answers_did, unanswered]
        rfl
      · intro id
        rw [undergoAll]
        dsimp only
        rw [entries, told_append, told_did, untold]
        rfl

/-! Turns of a drive. -/

/-- The motions of a drive in one round. -/
def turn (id : TreeId) (expires : Bool) : List Happening :=
  [.motion id (.ask expires), .motion id .tick, .motion id .finish, .motion id .finish]

def turns (id : TreeId) (expiries : List Bool) : List Happening := expiries.flatMap (turn id)

/-- A motion of a tree, as its manager sees it. -/
theorem undergo_motion (service : Service) (id : TreeId) (motion : Motion) :
    (service.undergo (.motion id motion)).1 =
      { service with
        manager := service.manager.affect id fun tree =>
          ((tree.undergo service.manager.store motion).tree,
            (tree.undergo service.manager.store motion).events) } := by
  rw [undergo]
  split
  next unknown => rw [affect_unknown unknown]
  next tree found => rw [affect_of_known found]

theorem undergo_turn (service : Service) (id : TreeId) (expires : Bool) :
    (service.undergoAll (turn id expires)).1 =
      { service with
        manager := service.manager.affect id (·.round service.manager.store expires) } := by
  change ((((service.undergo (.motion id (.ask expires))).1.undergo (.motion id .tick)).1.undergo
    (.motion id .finish)).1.undergo (.motion id .finish)).1 = _
  rw [undergo_motion, undergo_motion, undergo_motion, undergo_motion]
  simp only [affect_store]
  rw [affect_affect, affect_affect, affect_affect]
  · congr 2
    funext tree
    simp [LoadedTree.undergo, LoadedTree.round]
  all_goals
    intro tree
    simp only [LoadedTree.undergo_id]

theorem turns_cons (id : TreeId) (expires : Bool) (rest : List Bool) :
    turns id (expires :: rest) = turn id expires ++ turns id rest := List.flatMap_cons

/-- As many turns as there are rounds. -/
theorem undergo_rounds {service : Service} (numbered : service.manager.Numbered) (id : TreeId)
    (count : Nat) :
    (service.undergoAll (turns id (List.replicate count false))).1 =
      { service with
        manager := service.manager.affect id (LoadedTree.rounds service.manager.store count) } := by
  -- The rounds of a tree happen in one stretch, each turn to what the one before left.
  induction count generalizing service with
  | zero =>
      have same := numbered.affect_nothing id
      exact (congrArg (fun manager => { service with manager }) same).symm
  | succ count ih =>
      rw [List.replicate_succ, turns_cons, (service.undergo_all_append _ _).1, undergo_turn,
        ih (numbered.affect id _)]
      dsimp only
      rw [affect_store, affect_affect]
      · rfl
      all_goals
        intro tree
        simp only [LoadedTree.round_id, LoadedTree.rounds_id]

/-- What becomes of a drive in some turns. -/
theorem drive_after_turns {service : Service} {id : TreeId} {tree : LoadedTree}
    (found : service.manager.tree? id = some tree) (expiries : List Bool) :
    ∃ after, (service.undergoAll (turns id expiries)).1.manager.tree? id = some after ∧
      after.drive = tree.drive.map (expiries.foldl Drive.round) := by
  induction expiries generalizing service tree with
  | nil => exact ⟨tree, found, Option.map_id'.symm⟩
  | cons expires rest ih =>
      rw [turns_cons, (service.undergo_all_append _ _).1, undergo_turn]
      have turned := tree_affect (fun other => other.round_id service.manager.store expires) found
      obtain ⟨after, there, drive⟩ := @ih { service with
        manager := service.manager.affect id (·.round service.manager.store expires) } _ turned
      refine ⟨after, there, ?_⟩
      rw [drive, LoadedTree.round_drive, Option.map_map]
      rfl

/-! The end of a drive that was told to stop. -/

/-- A drive that was told to stop, if there is one, is under way to its end. -/
def Leaving (tree : LoadedTree) : Prop :=
  ∀ drive, tree.drive = some drive → ∃ policy told marks,
    Drive.Underway policy drive told marks ∧ .stop ∈ Instruction.commands told

theorem not_driven_of_over {manager : Manager} {id : TreeId} {tree : LoadedTree}
    (found : manager.tree? id = some tree)
    (ended : ∀ drive, tree.drive = some drive → drive.stage = .over) :
    manager.isDriven id = false := by
  have idle : tree.activeDrive? = none := by
    rw [LoadedTree.activeDrive?, Option.filter_eq_none_iff]
    intro drive own
    simp [Drive.isOver, ended drive own]
  rw [isDriven, found, Option.bind_some, idle]
  rfl

/-- Enough turns bring a drive that was told to stop to its end. -/
theorem stops_in_time {service : Service} {id : TreeId} {tree : LoadedTree}
    (found : service.manager.tree? id = some tree) (leaving : Leaving tree)
    {expiries : List Bool}
    (enough : ∀ drive, tree.drive = some drive → drive.driver.queue.length < expiries.length) :
    (service.undergoAll (turns id expiries)).1.manager.isDriven id = false := by
  obtain ⟨after, there, drive⟩ := drive_after_turns found expiries
  apply not_driven_of_over there
  intro last own
  rw [drive] at own
  obtain ⟨first, held, rfl⟩ := Option.map_eq_some_iff.mp own
  obtain ⟨policy, told, marks, underway, stopped⟩ := leaving first held
  apply underway.ends stopped
  exact Nat.le_trans first.rounds_left_le (enough first held)

/-- What a manager does about the drive of a tree happens in some turns of it. -/
theorem advance_happens {service : Service} (numbered : service.manager.Numbered) (id : TreeId) :
    ∃ count, (service.undergoAll (turns id (List.replicate count false))).1 =
        { service with manager := service.manager.advance id } ∧
      ∀ tree drive, service.manager.tree? id = some tree → tree.drive = some drive →
        drive.driver.queue.length < count := by
  cases found : service.manager.tree? id with
  | none =>
      refine ⟨0, ?_, by simp⟩
      rw [undergo_rounds numbered, advance, affect_unknown found, affect_unknown found]
  | some tree =>
      refine ⟨tree.tickLimit, ?_, ?_⟩
      · rw [undergo_rounds numbered, advance, affect_of_known found, affect_of_known found]
        rfl
      · intro other drive same own
        cases same
        rw [LoadedTree.tickLimit, own, Option.bind_some, Driver.queue]
        cases drive.driver.channel <;> simp

/-- So does what it does after the period ran out. -/
theorem elapse_happens {service : Service} (numbered : service.manager.Numbered) (id : TreeId) :
    ∃ expiries, (service.undergoAll (turns id expiries)).1 =
      { service with manager := service.manager.elapse id } := by
  have turned := service.undergo_turn id true
  have still : (service.undergoAll (turn id true)).1.manager.Numbered := by
    rw [turned]
    exact numbered.affect id _
  obtain ⟨count, onward, -⟩ := advance_happens still id
  refine ⟨true :: List.replicate count false, ?_⟩
  rw [turns_cons, (service.undergo_all_append _ _).1, onward, turned]
  dsimp only
  rw [advance, elapse, affect_store, affect_affect]
  · rfl
  · intro tree
    exact tree.round_id service.manager.store true
  · intro tree
    exact tree.rounds_id service.manager.store tree.tickLimit

end Service

namespace Manager

open Service

/-- What holds of the managers that were new once. -/
structure Regular (manager : Manager) : Prop where
  numbered : manager.Numbered
  underway : ∀ {id tree drive}, manager.tree? id = some tree → tree.drive = some drive →
    ∃ policy told marks, Drive.Underway policy drive told marks

theorem regular_of_run {manager : Manager} (new : manager.trees = []) {moments : List Moment}
    {service : Service} {chronicle : List Entry}
    (ran : run { manager } moments = some (service, chronicle)) : service.manager.Regular := by
  have known := known_of_run (fun _ => lifelong_since_start) (by simp [TreePlan.loaded]) new ran
  refine ⟨known.numbered, ?_⟩
  intro id tree drive found own
  obtain ⟨plan, -, held⟩ := known.loaded id tree found
  obtain ⟨policy, past, recent, earlier, latest, -, -, -, underway⟩ := held drive own
  exact ⟨policy, recent, latest, underway⟩

theorem handle_map {First Second : Type} (manager : Manager) (id : TreeId)
    (act : LoadedTree → Handled First) (change : First → Second) :
    manager.handle id (fun tree => (act tree).map change) =
      ((manager.handle id act).1, (manager.handle id act).2.map change) := by
  unfold handle
  cases manager.tree? id <;> rfl

/-- A way for the service to come from an order to what the manager makes of it. -/
def Serves (manager : Manager) (order : Order) (result : Manager × Response) : Prop :=
  ∃ moments chronicle, run { manager } moments = some ({ manager := result.1 }, chronicle) ∧
    Entry.answers chronicle = [(order, result.2)]

variable {manager : Manager} {id : TreeId} {instruction : Instruction}

theorem serves_load (manager : Manager) (read : Except PlanFault TreePlan) :
    manager.Serves (.load read)
      ((manager.loadRead read).1, (manager.loadRead read).2.map .loaded) :=
  ⟨[.order (.load read)], _, rfl, rfl⟩

theorem run_one {service next : Service} {moment : Moment} {entries : List Entry}
    (met : service.meet moment = some (next, entries)) :
    service.run [moment] = some (next, entries) :=
  run_cons_eq_some.mpr ⟨next, entries, [], met, rfl, (List.append_nil entries).symm⟩

theorem run_then {service middle last : Service} {early late : List Moment}
    {first second : List Entry} (ran : service.run early = some (middle, first))
    (onward : middle.run late = some (last, second)) :
    service.run (early ++ late) = some (last, first ++ second) :=
  run_append_eq_some.mpr ⟨middle, first, second, ran, onward, rfl⟩

theorem meet_of_obeyed {next : Service} {order : Order} {entries : List Entry}
    (obeyed : obey { manager } order = (next, entries)) :
    meet { manager } (.order order) = some (next, entries) := congrArg some obeyed

theorem serves_refused {fault : ManagerFault}
    (refused : (manager.handle id (instruction.takeUp manager.store)).2 = .error fault) :
    manager.Serves (.instruct id instruction)
      ((manager.handle id (instruction.takeUp manager.store)).1, .error fault) := by
  have obeyed := @obey_of_refused { manager } id instruction fault refused
  exact ⟨_, _, run_one (meet_of_obeyed obeyed), rfl⟩

theorem serves_brief (brief : instruction.isBrief = true) :
    manager.Serves (.instruct id instruction)
      (manager.handle id (instruction.takeUp manager.store)) := by
  cases answer : (manager.handle id (instruction.takeUp manager.store)).2 with
  | error fault =>
      have served := serves_refused answer
      rwa [← answer] at served
  | ok reply =>
      have obeyed := @obey_of_granted { manager } id instruction reply answer
      rw [if_pos brief] at obeyed
      refine ⟨_, _, run_one (meet_of_obeyed obeyed), ?_⟩
      rw [List.cons_append, Entry.answers_taken, Entry.answers_append, Entry.answers_did,
        Entry.answers_answered, answer]
      rfl

/-- A longer instruction that is taken up is answered when it is concluded, whatever happens before
and afterwards. -/
theorem serves_taken {reply : Reply}
    (granted : (manager.handle id (instruction.takeUp manager.store)).2 = .ok reply)
    (long : instruction.isBrief = false) (early late : List Happening) {ready after final : Manager}
    {response : Response}
    (prepared : (undergoAll
        { manager := (manager.handle id (instruction.takeUp manager.store)).1
          pending := some (id, instruction) } early).1 =
      { manager := ready, pending := some (id, instruction) })
    (concluded : ready.conclude id instruction = some (after, response))
    (settled : (undergoAll { manager := after } late).1 = { manager := final }) :
    manager.Serves (.instruct id instruction) (final, response) := by
  have obeyed := @obey_of_granted { manager } id instruction reply granted
  rw [if_neg (by simp [long])] at obeyed
  have taken := run_one (meet_of_obeyed obeyed)
  have waited := run_happenings
    { manager := (manager.handle id (instruction.takeUp manager.store)).1
      pending := some (id, instruction) } early
  have answered : meet { manager := ready, pending := some (id, instruction) } .answer =
      some ({ manager := after }, [.answered (.instruct id instruction) response]) :=
    meet_answer_eq_some.mpr ⟨id, instruction, after, response, rfl, concluded, rfl, rfl⟩
  have settling := run_happenings { manager := after } late
  obtain ⟨-, quiet, -⟩ := undergo_all_quiet
    { manager := (manager.handle id (instruction.takeUp manager.store)).1
      pending := some (id, instruction) } early
  obtain ⟨-, silent, -⟩ := undergo_all_quiet { manager := after } late
  rw [← Prod.eta (undergoAll _ early), prepared] at waited
  rw [← Prod.eta (undergoAll _ late), settled] at settling
  refine ⟨_, _, run_then (run_then taken waited) (run_then (run_one answered) settling), ?_⟩
  simp only [Entry.answers_append, Entry.answers_answered, quiet, silent]
  rfl

/-! The manager's own pace, one instruction after another. -/

/-- Where the manager first handles the tree and goes on only if that was granted. -/
theorem serves_longer (act : LoadedTree → Handled Unit)
    (takes : ∀ tree, instruction.takeUp manager.store tree = (act tree).map fun _ => Reply.done)
    (long : instruction.isBrief = false) {result : Manager × Response}
    (refusing : ∀ fault, (manager.handle id act).2 = .error fault →
      result = ((manager.handle id act).1, .error fault))
    (granting : (manager.handle id act).2 = .ok () → ∃ early late ready after,
      (undergoAll { manager := (manager.handle id act).1, pending := some (id, instruction) }
          early).1 = { manager := ready, pending := some (id, instruction) } ∧
        ready.conclude id instruction = some (after, result.2) ∧
        (undergoAll { manager := after } late).1 = { manager := result.1 }) :
    manager.Serves (.instruct id instruction) result := by
  have taking : manager.handle id (Instruction.takeUp manager.store · instruction) =
      ((manager.handle id act).1, (manager.handle id act).2.map fun _ => Reply.done) := by
    rw [← handle_map]
    congr 1
    funext tree
    exact takes tree
  cases answer : (manager.handle id act).2 with
  | error fault =>
      have refused : (manager.handle id (Instruction.takeUp manager.store · instruction)).2 =
          .error fault := by
        rw [taking, answer]
        rfl
      have served := serves_refused refused
      rwa [taking, ← refusing fault answer] at served
  | ok =>
      have granted : (manager.handle id (Instruction.takeUp manager.store · instruction)).2 =
          .ok .done := by
        rw [taking, answer]
        rfl
      obtain ⟨early, late, ready, after, prepared, concluded, settled⟩ := granting answer
      apply serves_taken granted long early late _ concluded settled
      rwa [taking]

theorem serves_start (numbered : manager.Numbered) (id : TreeId) (policy : Policy) :
    manager.Serves (.instruct id (.start policy)) (done (manager.start id policy)) := by
  apply serves_longer (·.launch policy) (fun tree => rfl) rfl
  · intro fault refused
    rw [start_eq, and_then_of_refused refused]
    rfl
  · intro granted
    have announced : ((manager.handle id (·.launch policy)).1.announce id fun tree =>
        some (tree.startEvent policy)).Numbered := (numbered.handle id _).affect id _
    obtain ⟨count, advanced, -⟩ := @advance_happens { manager := _ } announced id
    have begun : done (manager.start id policy) =
        (((manager.handle id (·.launch policy)).1.announce id fun tree =>
          some (tree.startEvent policy)).advance id, .ok .done) := by
      rw [start_eq, and_then_of_granted granted]
      rfl
    rw [begun]
    exact ⟨[], turns id (List.replicate count false), _, _, rfl, rfl, advanced⟩

/-- A pause, a resumption or a step. -/
theorem serves_send (numbered : manager.Numbered) (id : TreeId) (command : Command)
    (takes : ∀ store tree, instruction.takeUp store tree =
      (tree.command command).map fun _ => Reply.done)
    (long : instruction.isBrief = false)
    (concludes : ∀ manager : Manager, manager.conclude id instruction =
      some (manager.announce id (·.commandEvent? command), .ok .done)) :
    manager.Serves (.instruct id instruction) (done (manager.send id command)) := by
  apply serves_longer (·.command command) (takes manager.store) long
  · intro fault refused
    rw [send_eq, and_then_of_refused refused]
    rfl
  · intro granted
    have told : (manager.handle id (·.command command)).1.Numbered := numbered.handle id _
    obtain ⟨count, advanced, -⟩ := @advance_happens
      { manager := _, pending := some (id, instruction) } told id
    refine ⟨turns id (List.replicate count false), [], _, _, advanced, ?_, rfl⟩
    rw [concludes, send_eq, and_then_of_granted granted]
    rfl

/-- A tree whose drive was told to stop is on its way to the end. -/
theorem Regular.leaving (regular : manager.Regular) {tree : LoadedTree}
    (found : manager.tree? id = some tree) : Leaving tree.dismiss.tree := by
  intro drive there
  obtain ⟨before, own, rfl⟩ := LoadedTree.drive_of_dismiss there
  obtain ⟨policy, told, marks, underway⟩ := regular.underway found own
  refine ⟨policy, told ++ [.stop], marks, underway.tell rfl, ?_⟩
  simp [Instruction.commands, Instruction.command?]

/-- After a tree was told to stop, the manager's own pace brings its drive to the end. -/
theorem Regular.dismissed (regular : manager.Regular) (id : TreeId)
    (pending : Option (TreeId × Instruction)) :
    ∃ happenings, (undergoAll { manager := (manager.handle id (·.dismiss)).1, pending }
        happenings).1 = { manager := (manager.handle id (·.dismiss)).1.advance id, pending } ∧
      ((manager.handle id (·.dismiss)).1.advance id).isDriven id = false := by
  obtain ⟨count, advanced, enough⟩ := @advance_happens { manager := _, pending }
    (regular.numbered.handle id (·.dismiss)) id
  refine ⟨turns id (List.replicate count false), advanced, ?_⟩
  have told := tree_handle LoadedTree.dismiss_id manager id id
  cases found : manager.tree? id with
  | none =>
      rw [handle_unknown found, advance, affect_unknown found, isDriven, found]
      rfl
  | some tree =>
      rw [found, Option.map_some, if_pos rfl] at told
      have stopped : (undergoAll { manager := (manager.handle id (·.dismiss)).1, pending }
          (turns id (List.replicate count false))).1.manager.isDriven id = false := by
        apply stops_in_time told (regular.leaving found)
        intro drive own
        rw [List.length_replicate]
        exact enough _ drive told own
      rwa [advanced] at stopped

theorem serves_stop (regular : manager.Regular) (id : TreeId) :
    manager.Serves (.instruct id .stop) (status (manager.stop id)) := by
  apply serves_longer (·.dismiss) (fun tree => rfl) rfl
  · intro fault refused
    rw [stop_eq, and_then_of_refused refused]
    rfl
  · intro granted
    obtain ⟨happenings, advanced, ended⟩ := regular.dismissed id (some (id, .stop))
    refine ⟨happenings, [], _, _, advanced, ?_, rfl⟩
    rw [conclude, if_neg (by simp [ended]), stop_eq, and_then_of_granted granted]
    rfl

theorem serves_unload (regular : manager.Regular) (id : TreeId) :
    manager.Serves (.instruct id .unload) (done (manager.unload id)) := by
  cases found : manager.tree? id with
  | none =>
      have refused : manager.handle id (Instruction.takeUp manager.store · .unload) =
          (manager, .error (.unknownTree id)) := handle_unknown found
      have served := serves_refused (congrArg Prod.snd refused)
      rw [refused] at served
      rw [unload, handle_unknown found, advance, affect_unknown found, forget_unknown found]
      exact served
  | some tree =>
      have quiet : tree.dismiss.events = [] := by
        unfold LoadedTree.dismiss
        split <;> rfl
      have taken : manager.handle id (Instruction.takeUp manager.store · .unload) =
          ((manager.handle id (·.dismiss)).1, .ok .done) := by
        rw [handle, handle, found]
        simp only [Instruction.takeUp, quiet]
      obtain ⟨happenings, advanced, ended⟩ := regular.dismissed id (some (id, .unload))
      rw [← congrArg Prod.fst taken] at advanced ended
      apply serves_taken (congrArg Prod.snd taken) rfl happenings [] advanced _ rfl
      rw [conclude, if_neg (by simp [ended]), taken]
      rfl

/-- The manager lets go of a drive without waiting for it; it does so once the drive is over. -/
theorem serves_wait (numbered : manager.Numbered) {id : TreeId}
    (idle : manager.isDriven id = false) :
    manager.Serves (.instruct id .wait) (status (manager.wait id)) := by
  cases found : manager.tree? id with
  | none =>
      have refused : manager.handle id (Instruction.takeUp manager.store · .wait) =
          (manager, .error (.unknownTree id)) := handle_unknown found
      have served := serves_refused (congrArg Prod.snd refused)
      rw [refused] at served
      rwa [wait, handle_unknown found]
  | some tree =>
      have asked : manager.handle id (Instruction.takeUp manager.store · .wait) =
          (manager, tree.release.answer.map fun _ => .done) := by
        rw [handle, found]
        simp only [Instruction.takeUp, numbered.replace_same found]
        rfl
      cases driven : tree.drive with
      | none =>
          have release : tree.release = { tree, answer := .error (.notRunning tree.id) } := by
            rw [LoadedTree.release, driven]
          rw [release] at asked
          have served := serves_refused (congrArg Prod.snd asked)
          rw [asked] at served
          rw [wait, handle, found]
          simp only [release, numbered.replace_same found]
          exact served
      | some drive =>
          have release : tree.release.answer = .ok tree.ticker.lastStatus := by
            rw [LoadedTree.release, driven]
          rw [release] at asked
          apply serves_taken (congrArg Prod.snd asked) rfl [] [] _ _ rfl
          · exact manager
          · rw [asked]
            rfl
          · rw [conclude, if_neg (by simp [idle])]
            rfl

/-- What the manager does at its own pace is a way for its service to go. -/
theorem serves_follow (regular : manager.Regular) (id : TreeId) (instruction : Instruction)
    (ready : instruction = .wait → manager.isDriven id = false) :
    manager.Serves (.instruct id instruction) (manager.follow id instruction) := by
  cases instruction with
  | start policy => exact serves_start regular.numbered id policy
  | pause => exact serves_send regular.numbered id .pause (fun _ _ => rfl) rfl fun _ => rfl
  | resume => exact serves_send regular.numbered id .resume (fun _ _ => rfl) rfl fun _ => rfl
  | step => exact serves_send regular.numbered id .step (fun _ _ => rfl) rfl fun _ => rfl
  | stop => exact serves_stop regular id
  | unload => exact serves_unload regular id
  | wait => exact serves_wait regular.numbered (ready rfl)
  | tickOnce =>
      have taken : manager.handle id (Instruction.takeUp manager.store · .tickOnce) =
          manager.follow id .tickOnce := handle_map manager id _ _
      exact taken ▸ serves_brief rfl
  | acknowledge node identity =>
      have taken : manager.handle id
          (Instruction.takeUp manager.store · (.acknowledge node identity)) =
            manager.follow id (.acknowledge node identity) := handle_map manager id _ _
      exact taken ▸ serves_brief rfl

end Manager

end BehaviorTree
