import BehaviorTree.Proofs.Recording

/-!
Orders that are refused. They are not recorded and leave everything as it was, but for one thing: a
pause, a resumption or a step of a tree whose drive came to its end by itself lets go of that drive.
-/

namespace BehaviorTree

/-! Drives that are let go of. -/

namespace LoadedTree

/-- The tree of that name without its drive; any other as it is. -/
def letGo (id : TreeId) (tree : LoadedTree) : LoadedTree :=
  if tree.id = id then { tree with drive := none } else tree

variable {id : TreeId} {tree : LoadedTree}

theorem let_go_self (own : tree.id = id) : tree.letGo id = { tree with drive := none } := if_pos own

theorem let_go_other (apart : tree.id ≠ id) : tree.letGo id = tree := if_neg apart

theorem let_go_driveless (none : tree.drive = none) : tree.letGo id = tree := by
  obtain ⟨own, name, ticker, drive, recorded⟩ := tree
  cases none
  exact ite_self _

theorem let_go_eq (id : TreeId) (tree : LoadedTree) :
    ∃ drive, tree.letGo id = { tree with drive } := by
  unfold letGo
  split
  · exact ⟨none, rfl⟩
  · exact ⟨tree.drive, rfl⟩

@[simp] theorem let_go_id (id : TreeId) (tree : LoadedTree) : (tree.letGo id).id = tree.id := by
  obtain ⟨drive, same⟩ := tree.let_go_eq id
  rw [same]

@[simp] theorem let_go_name (id : TreeId) (tree : LoadedTree) :
    (tree.letGo id).name = tree.name := by
  obtain ⟨drive, same⟩ := tree.let_go_eq id
  rw [same]

@[simp] theorem let_go_ticker (id : TreeId) (tree : LoadedTree) :
    (tree.letGo id).ticker = tree.ticker := by
  obtain ⟨drive, same⟩ := tree.let_go_eq id
  rw [same]

end LoadedTree

namespace Manager

/-- A manager that let go of the drive of a tree. -/
def letGo (manager : Manager) (id : TreeId) : Manager :=
  { manager with trees := manager.trees.map (·.letGo id) }

variable {manager : Manager} {id : TreeId}

theorem tree_let_go (manager : Manager) (id other : TreeId) :
    (manager.letGo id).tree? other = (manager.tree? other).map (·.letGo id) := by
  have same : ((fun tree : LoadedTree => decide (tree.id = other)) ∘ (·.letGo id)) =
      fun tree : LoadedTree => decide (tree.id = other) := by
    funext tree
    exact congrArg (fun own => decide (own = other)) (tree.let_go_id id)
  rw [tree?, letGo, List.find?_map, same, tree?]

/-- Nothing changes unless there is a drive to let go of. -/
theorem let_go_nothing
    (none : ∀ tree ∈ manager.trees, tree.id = id → tree.drive = none) :
    manager.letGo id = manager := by
  have same : manager.trees.map (·.letGo id) = manager.trees := by
    conv_rhs => rw [← List.map_id manager.trees]
    apply List.map_congr_left
    intro tree inside
    by_cases own : tree.id = id
    · exact LoadedTree.let_go_driveless (none tree inside own)
    · exact LoadedTree.let_go_other own
  rw [letGo, same]

theorem let_go_unknown (unknown : manager.tree? id = none) : manager.letGo id = manager := by
  apply let_go_nothing
  intro tree inside own
  rw [tree?, List.find?_eq_none] at unknown
  exact absurd (decide_eq_true own) (unknown tree inside)

theorem let_go_record (manager : Manager) (event : Event) (id : TreeId) :
    (manager.record event).letGo id = (manager.letGo id).record event := by
  unfold record
  split
  next none => simp [letGo, none]
  next path reached => simp [letGo, reached]

theorem let_go_record_all (manager : Manager) (events : List Event) (id : TreeId) :
    (manager.recordAll events).letGo id = (manager.letGo id).recordAll events := by
  induction events generalizing manager with
  | nil => rfl
  | cons event rest ih =>
      have onward := ih (manager.record event)
      rwa [let_go_record] at onward

theorem let_go_replace (manager : Manager) (tree : LoadedTree) (id : TreeId) :
    (manager.replace tree).letGo id = (manager.letGo id).replace (tree.letGo id) := by
  unfold letGo replace
  dsimp only
  rw [List.map_map, List.map_map]
  congr 1
  apply List.map_congr_left
  intro other _
  dsimp only [Function.comp_apply]
  rw [LoadedTree.let_go_id, LoadedTree.let_go_id]
  split <;> rfl

/-- To replace a tree is the same before and after its drive was let go of. -/
theorem replace_let_go (manager : Manager) {tree : LoadedTree} (own : tree.id = id) :
    (manager.letGo id).replace tree = manager.replace tree := by
  unfold letGo replace
  dsimp only
  rw [List.map_map]
  congr 1
  apply List.map_congr_left
  intro other _
  dsimp only [Function.comp_apply]
  rw [LoadedTree.let_go_id]
  split
  · rfl
  next apart =>
    apply LoadedTree.let_go_other
    rwa [own] at apart

/-- To replace a tree by itself without its drive is to let go of that. -/
theorem replace_driveless {tree : LoadedTree} (numbered : manager.Numbered)
    (found : manager.tree? id = some tree) :
    manager.replace { tree with drive := none } = manager.letGo id := by
  unfold letGo replace
  congr 1
  apply List.map_congr_left
  intro other inside
  by_cases own : other.id = id
  · have alike : other.id = tree.id := own.trans (tree_id found).symm
    have same : other = tree :=
      List.inj_on_of_nodup_map numbered.apart inside (tree_mem found) alike
    rw [LoadedTree.let_go_self own, same, if_pos rfl]
  · rw [LoadedTree.let_go_other own, if_neg (by rwa [tree_id found])]

section

variable {Answer : Type} {act : LoadedTree → Handled Answer}

/-- What does not look at a drive goes alike whether or not that was let go of. -/
theorem handle_let_go (other : TreeId)
    (blind : ∀ tree, manager.tree? other = some tree →
      act (tree.letGo id) = { act tree with tree := (act tree).tree.letGo id }) :
    (manager.letGo id).handle other act =
      ((manager.handle other act).1.letGo id, (manager.handle other act).2) := by
  rw [handle, handle, tree_let_go]
  cases found : manager.tree? other with
  | none => rfl
  | some tree =>
      dsimp only [Option.map_some]
      rw [blind tree found, let_go_record_all, let_go_replace]

/-- What comes to the same with and without a drive comes to the same when that was let go of. -/
theorem handle_after_let_go
    (keeps : ∀ tree, (act tree).tree.id = tree.id)
    (same : ∀ tree, manager.tree? id = some tree → act { tree with drive := none } = act tree) :
    (manager.letGo id).handle id act = manager.handle id act := by
  rw [handle, handle, tree_let_go]
  cases found : manager.tree? id with
  | none =>
      dsimp only [Option.map_none]
      rw [let_go_unknown found]
  | some tree =>
      have own := tree_id found
      dsimp only [Option.map_some]
      rw [LoadedTree.let_go_self own, same tree found, replace_let_go _ ((keeps tree).trans own)]

end

end Manager

/-! What is refused. -/

namespace LoadedTree

/-- Whether a tree has a drive that came to its end and was not let go of. -/
def isSpent (tree : LoadedTree) : Bool := tree.drive.any (·.isOver)

variable {tree : LoadedTree}

theorem is_spent_iff :
    tree.isSpent = true ↔ ∃ drive, tree.drive = some drive ∧ drive.stage = .over := by
  simp [isSpent, Option.any_eq_true, Drive.isOver]

theorem idle_of_spent (spent : tree.isSpent = true) : tree.activeDrive? = none := by
  obtain ⟨drive, own, ended⟩ := is_spent_iff.mp spent
  simp [activeDrive?, own, Option.filter, Drive.isOver, ended]

/-- A tree without a drive under way has none at all or a spent one. -/
theorem spent_or_driveless (idle : tree.activeDrive? = none) :
    tree.isSpent = true ∨ tree.drive = none := by
  cases own : tree.drive with
  | none => exact .inr rfl
  | some drive =>
      left
      by_contra going
      have active : tree.activeDrive? = some drive := by
        apply active_drive_eq_some.mpr
        exact ⟨own, fun ended => going (is_spent_iff.mpr ⟨drive, own, ended⟩)⟩
      rw [idle] at active
      cases active

end LoadedTree

namespace Instruction

/-- Whether an instruction is a command to a drive under way, which fails if there is none. -/
def isCommand : Instruction → Bool
  | .pause | .resume | .step => true
  | .start _ | .tickOnce | .stop | .wait | .unload | .acknowledge _ _ => false

/-- What a refused instruction leaves of its tree. -/
inductive Leaves (instruction : Instruction) (tree : LoadedTree) : ManagerFault → LoadedTree → Prop
  | same (fault : ManagerFault) : Leaves instruction tree fault tree
  | driveless (command : instruction.isCommand = true) (spent : tree.isSpent = true) :
      Leaves instruction tree (.notRunning tree.id) { tree with drive := none }

theorem leaves_of_command {instruction : Instruction} (isCommand : instruction.isCommand = true)
    {tree : LoadedTree} {command : Command} {fault : ManagerFault}
    (refused : (tree.command command).answer = .error fault) :
    instruction.Leaves tree fault (tree.command command).tree := by
  cases active : tree.activeDrive? with
  | some drive =>
      rw [LoadedTree.command_of_active active] at refused ⊢
      split at refused
      next gone =>
        rw [if_pos gone]
        exact .same fault
      next => cases refused
  | none =>
      rw [LoadedTree.command_of_idle active] at refused ⊢
      cases refused
      rcases LoadedTree.spent_or_driveless active with spent | none
      · exact .driveless isCommand spent
      · obtain ⟨id, name, ticker, drive, recorded⟩ := tree
        cases none
        exact .same _

/-- An instruction that is refused records nothing and changes nothing of the tree but a drive that
came to its end. -/
theorem leaves_of_refused {instruction : Instruction} {store : Store} {tree : LoadedTree}
    {fault : ManagerFault} (refused : (instruction.takeUp store tree).answer = .error fault) :
    (instruction.takeUp store tree).events = [] ∧
      instruction.Leaves tree fault (instruction.takeUp store tree).tree := by
  cases instruction with
  | start policy =>
      refine ⟨tree.launch_events policy, ?_⟩
      cases active : tree.activeDrive? with
      | some drive =>
          rw [takeUp, LoadedTree.launch_of_active active]
          exact .same fault
      | none =>
          rw [takeUp, LoadedTree.launch_of_idle active] at refused
          cases refused
  | pause =>
      exact ⟨tree.command_events .pause, leaves_of_command rfl (LoadedTree.fault_of_map refused)⟩
  | resume =>
      exact ⟨tree.command_events .resume, leaves_of_command rfl (LoadedTree.fault_of_map refused)⟩
  | step =>
      exact ⟨tree.command_events .step, leaves_of_command rfl (LoadedTree.fault_of_map refused)⟩
  | tickOnce =>
      cases active : tree.activeDrive? with
      | some drive =>
          rw [takeUp, LoadedTree.tick_once_of_active active]
          exact ⟨rfl, .same fault⟩
      | none =>
          rw [takeUp, LoadedTree.tick_once_of_idle active] at refused
          cases refused
  | stop =>
      refine ⟨tree.dismiss_events, ?_⟩
      have dismissed := LoadedTree.fault_of_map refused
      simp only [takeUp, Handled.map]
      unfold LoadedTree.dismiss at dismissed ⊢
      split at dismissed
      next => exact .same fault
      next => cases dismissed
  | wait => exact ⟨rfl, .same fault⟩
  | unload => cases refused
  | acknowledge node identity =>
      have rejected := LoadedTree.fault_of_map refused
      simp only [takeUp, Handled.map]
      rw [LoadedTree.acknowledge_refused rejected]
      refine ⟨?_, .same fault⟩
      unfold LoadedTree.acknowledge at rejected ⊢
      split at rejected
      next => rfl
      next => cases rejected

end Instruction

namespace Service

open Entry Manager

/-- Whatever is pending can be answered: its tree is there, and the drive if one is waited for. -/
def Awaited (service : Service) : Prop :=
  ∀ id instruction, service.pending = some (id, instruction) →
    ∃ tree, service.manager.tree? id = some tree ∧
      (instruction = .stop ∨ instruction = .wait → tree.drive.isSome = true)

theorem drive_of_granted {tree : LoadedTree} {store : Store} {instruction : Instruction}
    {reply : Reply} (granted : (instruction.takeUp store tree).answer = .ok reply)
    (waits : instruction = .stop ∨ instruction = .wait) :
    (instruction.takeUp store tree).tree.drive.isSome = true := by
  rcases waits with rfl | rfl
  · obtain ⟨_, dismissed⟩ := LoadedTree.answer_of_map granted
    cases own : tree.drive with
    | none => simp [LoadedTree.dismiss, own] at dismissed
    | some drive => simp [Instruction.takeUp, Handled.map, LoadedTree.dismiss, own, LoadedTree.tell]
  · cases own : tree.drive with
    | none => simp [Instruction.takeUp, LoadedTree.release, own, Except.map] at granted
    | some drive => simp [Instruction.takeUp, own]

theorem Awaited.order {service : Service} (free : service.pending = none) (order : Order) :
    (service.obey order).1.Awaited := by
  intro id instruction pending
  cases order with
  | load read =>
      rw [obey] at pending
      rw [free] at pending
      cases pending
  | instruct other given =>
      have after := tree_handle (given.take_up_id service.manager.store) service.manager other id
      rw [← obey_manager] at after
      cases answer : (service.manager.handle other (given.takeUp service.manager.store)).2 with
      | error fault =>
          rw [obey_of_refused answer, free] at pending
          cases pending
      | ok reply =>
          rw [obey_of_granted answer] at pending
          split at pending
          · rw [free] at pending
            cases pending
          · cases pending
            cases found : service.manager.tree? id with
            | none =>
                rw [handle_unknown found] at answer
                cases answer
            | some tree =>
                rw [found, Option.map_some, if_pos rfl] at after
                rw [handle_answer _ _ found] at answer
                exact ⟨_, after, drive_of_granted answer⟩

theorem Awaited.happening {service : Service} (awaited : service.Awaited)
    (happening : Happening) : (service.undergo happening).1.Awaited := by
  intro id instruction pending
  rw [undergo_pending] at pending
  obtain ⟨tree, found, driven⟩ := awaited id instruction pending
  cases happening with
  | vary | pass => exact ⟨tree, found, driven⟩
  | motion other motion =>
      rw [undergo_motion]
      dsimp only
      rw [affect, tree_handle (fun tree => tree.undergo_id service.manager.store motion), found,
        Option.map_some]
      refine ⟨_, rfl, ?_⟩
      intro waits
      split
      · obtain ⟨drive, own⟩ := Option.isSome_iff_exists.mp (driven waits)
        obtain ⟨after, goes⟩ := drive_undergoes own service.manager.store motion
        exact Option.isSome_iff_exists.mpr ⟨after, goes⟩
      · exact driven waits

theorem awaited_of_run {manager : Manager} {moments : List Moment} {service : Service}
    {chronicle : List Entry} (ran : run { manager } moments = some (service, chronicle)) :
    service.Awaited := by
  have onward : ∀ {moments : List Moment} {service last : Service} {chronicle : List Entry},
      service.Awaited → service.run moments = some (last, chronicle) → last.Awaited := by
    intro moments
    induction moments with
    | nil =>
        intro service last chronicle awaited ran
        cases ran
        exact awaited
    | cons moment rest ih =>
        intro service last chronicle awaited ran
        obtain ⟨next, entries, more, met, onward, -⟩ := run_cons_eq_some.mp ran
        apply ih _ onward
        cases moment with
        | order order =>
            obtain ⟨free, rfl, -⟩ := meet_order_eq_some.mp met
            exact .order free order
        | happening happening =>
            obtain ⟨rfl, -⟩ := meet_happening_eq_some.mp met
            exact awaited.happening happening
        | answer =>
            obtain ⟨_, _, after, _, -, -, rfl, -⟩ := meet_answer_eq_some.mp met
            intro id instruction pending
            cases pending
  apply onward _ ran
  intro id instruction pending
  cases pending

/-- What was taken up is never refused afterwards. -/
theorem conclude_granted {service : Service} (awaited : service.Awaited) {id : TreeId}
    {instruction : Instruction} (pending : service.pending = some (id, instruction))
    {after : Manager} {response : Response}
    (concluded : service.manager.conclude id instruction = some (after, response)) :
    ∃ reply, response = .ok reply := by
  obtain ⟨tree, found, driven⟩ := awaited id instruction pending
  have released : instruction = .stop ∨ instruction = .wait →
      (service.manager.handle id (·.release)).2 = .ok tree.ticker.lastStatus := by
    intro waits
    obtain ⟨drive, own⟩ := Option.isSome_iff_exists.mp (driven waits)
    rw [handle_answer _ _ found, LoadedTree.release, own]
  cases concludes concluded with
  | announced => exact ⟨_, rfl⟩
  | stopped => exact ⟨_, congrArg (Except.map Reply.status) (released (.inl rfl))⟩
  | waited => exact ⟨_, congrArg (Except.map Reply.status) (released (.inr rfl))⟩
  | unloaded =>
      obtain ⟨disk, orphans, forgotten⟩ := forget_of_known found
      rw [forgotten]
      exact ⟨_, rfl⟩

/-- A service that let go of the drive of a tree. -/
def letGo (service : Service) (id : TreeId) : Service :=
  { service with manager := service.manager.letGo id }

/-- What a refused order leaves: everything as it was, but for the spent drive of a tree that was to
be commanded. -/
inductive Refused (service : Service) : Order → ManagerFault → Service → Prop
  | same (order : Order) (fault : ManagerFault) : Refused service order fault service
  | spent {id : TreeId} {tree : LoadedTree} {instruction : Instruction}
      (command : instruction.isCommand = true) (found : service.manager.tree? id = some tree)
      (spent : tree.isSpent = true) :
      Refused service (.instruct id instruction) (.notRunning id) (service.letGo id)

/-- An order that was refused: nothing else was answered, and the service is left as it should. -/
structure Refusal (service : Service) (order given : Order) (fault : ManagerFault) : Prop where
  own : given = order
  alone : (service.obey order).2 = [.answered order (.error fault)]
  refused : service.Refused order fault (service.obey order).1

variable {service : Service} {given : Order} {fault : ManagerFault}

theorem refusal_of_load {read : Except PlanFault TreePlan}
    (failed : .answered given (.error fault) ∈ (service.obey (.load read)).2) :
    service.Refusal (.load read) given fault := by
  have left : ∀ reason, service.manager.loadRead read = (service.manager, .error reason) →
      service.Refusal (.load read) given fault := by
    intro reason same
    have refused : service.obey (.load read) =
        (service, [.answered (.load read) (.error reason)]) := by
      rw [obey, same]
      rfl
    rw [refused] at failed
    cases List.mem_singleton.mp failed
    refine ⟨rfl, congrArg Prod.snd refused, ?_⟩
    rw [refused]
    exact .same _ _
  cases read with
  | error reason => exact left _ rfl
  | ok plan =>
      cases inspected : plan.inspect with
      | error defect => exact left _ (load_of_refused inspected)
      | ok =>
          obtain ⟨disk, loaded⟩ := load_of_accepted inspected service.manager
          rw [obey, loadRead, loaded] at failed
          simp [Except.map] at failed

/-- What a tree refuses leaves its manager as it was, or without the spent drive. -/
theorem refused_of_handle (numbered : service.manager.Numbered) {id : TreeId}
    {instruction : Instruction} {reason : ManagerFault}
    (answer : (service.manager.handle id (instruction.takeUp service.manager.store)).2 =
      .error reason) :
    service.Refused (.instruct id instruction) reason
      { service with
        manager := (service.manager.handle id (instruction.takeUp service.manager.store)).1 } := by
  cases found : service.manager.tree? id with
  | none =>
      rw [handle_unknown found]
      exact .same _ _
  | some tree =>
      rw [handle_answer _ _ found] at answer
      obtain ⟨silent, leaves⟩ := Instruction.leaves_of_refused answer
      rw [handle, found]
      dsimp only
      rw [silent]
      generalize (instruction.takeUp service.manager.store tree).tree = after at leaves
      cases leaves with
      | same =>
          rw [numbered.replace_same found]
          exact .same _ _
      | driveless command spent =>
          rw [replace_driveless numbered found, tree_id found]
          exact .spent command found spent

theorem refusal_of_obey (numbered : service.manager.Numbered) {order : Order}
    (failed : .answered given (.error fault) ∈ (service.obey order).2) :
    service.Refusal order given fault := by
  cases order with
  | load read => exact refusal_of_load failed
  | instruct id instruction =>
      cases answer : (service.manager.handle id (instruction.takeUp service.manager.store)).2 with
      | ok reply =>
          rw [obey_of_granted answer] at failed
          split at failed <;> simp at failed
      | error reason =>
          have refused := obey_of_refused answer
          rw [refused] at failed
          cases List.mem_singleton.mp failed
          refine ⟨rfl, congrArg Prod.snd refused, ?_⟩
          rw [refused]
          exact refused_of_handle numbered answer

end Service

end BehaviorTree
