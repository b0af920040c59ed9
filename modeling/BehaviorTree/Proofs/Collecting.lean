import BehaviorTree.Proofs.Attempts
import BehaviorTree.Proofs.Refusing

/-!
What a refused command changes for later. A manager that let go of a spent drive goes on as one that
did not, until somebody asks for that drive; only who waits for the tree or stops it before anything
else is told otherwise.
-/

namespace BehaviorTree

namespace LoadedTree

variable {id : TreeId} {tree : LoadedTree}

/-- A drive that came to its end stays at it. -/
theorem spent_undergo (spent : tree.isSpent = true) (store : Store) (motion : Motion) :
    (tree.undergo store motion).tree.isSpent = true := by
  obtain ⟨drive, own, ended⟩ := is_spent_iff.mp spent
  have waits : tree.isDue = false := by simp [isDue, own, ended]
  apply is_spent_iff.mpr
  cases motion with
  | ask expires =>
      refine ⟨drive.ask expires, congrArg (Option.map _) own, ?_⟩
      simp [Drive.ask, ended]
  | tick =>
      rw [undergo, perform_of_not_due waits]
      exact ⟨drive, own, ended⟩
  | finish =>
      refine ⟨drive.finish, congrArg (Option.map _) own, ?_⟩
      simp [Drive.finish, ended]
  | work path action => exact ⟨drive, own, ended⟩

/-- What happens in a tree by itself does not depend on a drive that came to its end. -/
theorem undergo_driveless (spent : tree.isSpent = true) (store : Store) (motion : Motion) :
    undergo store { tree with drive := none } motion =
      { tree.undergo store motion with
        tree := { (tree.undergo store motion).tree with drive := none } } := by
  obtain ⟨drive, own, ended⟩ := is_spent_iff.mp spent
  have waits : tree.isDue = false := by simp [isDue, own, ended]
  cases motion with
  | ask expires =>
      have quiet : tree.question? expires = none := by simp [question?, own, ended]
      simp only [undergo, quiet]
      rfl
  | tick =>
      rw [undergo, undergo, perform_of_not_due waits, perform_of_not_due rfl, waits]
      rfl
  | finish => rfl
  | work path action => rfl

theorem undergo_let_go (spent : tree.id = id → tree.isSpent = true) (store : Store)
    (motion : Motion) :
    (tree.letGo id).undergo store motion =
      { tree.undergo store motion with tree := (tree.undergo store motion).tree.letGo id } := by
  by_cases own : tree.id = id
  · rw [let_go_self own, let_go_self ((tree.undergo_id store motion).trans own),
      undergo_driveless (spent own)]
  · rw [let_go_other own, let_go_other (by rwa [undergo_id])]

theorem acknowledge_let_go (tree : LoadedTree) (id : TreeId) (node identity : String) :
    (tree.letGo id).acknowledge node identity =
      { tree.acknowledge node identity with
        tree := (tree.acknowledge node identity).tree.letGo id } := by
  unfold acknowledge
  rw [let_go_ticker, let_go_name]
  split
  · rfl
  · unfold letGo
    dsimp only
    split <;> rfl

end LoadedTree

namespace Instruction

variable {id : TreeId} {tree : LoadedTree}

/-- Whether an instruction is about the drive of a tree, and not about one of its nodes. -/
def isCall : Instruction → Bool
  | .acknowledge _ _ => false
  | .start _ | .pause | .resume | .step | .tickOnce | .stop | .wait | .unload => true

/-- Whether an instruction waits for a drive that is to be over. -/
def awaitsDrive : Instruction → Bool
  | .stop | .wait => true
  | .start _ | .pause | .resume | .step | .tickOnce | .unload | .acknowledge _ _ => false

/-- What is no call to the drive does not look at it. -/
theorem take_up_let_go (instruction : Instruction) (store : Store)
    (plain : tree.id = id → instruction.isCall = false) :
    instruction.takeUp store (tree.letGo id) =
      { instruction.takeUp store tree with
        tree := (instruction.takeUp store tree).tree.letGo id } := by
  by_cases own : tree.id = id
  · cases instruction with
    | acknowledge node identity =>
        rw [takeUp, takeUp, LoadedTree.acknowledge_let_go]
        rfl
    | start | pause | resume | step | tickOnce | stop | wait | unload => cases plain own
  · have apart : (instruction.takeUp store tree).tree.id ≠ id := by rwa [take_up_id]
    rw [LoadedTree.let_go_other own, LoadedTree.let_go_other apart]

/-- A spent drive makes no difference to a call that neither waits for it nor unloads the tree. -/
theorem take_up_spent {instruction : Instruction} (call : instruction.isCall = true)
    (free : instruction.awaitsDrive = false) (stays : instruction ≠ .unload)
    (spent : tree.isSpent = true) (store : Store) :
    instruction.takeUp store { tree with drive := none } = instruction.takeUp store tree := by
  have idle := LoadedTree.idle_of_spent spent
  have none : LoadedTree.activeDrive? { tree with drive := none } = Option.none := rfl
  cases instruction with
  | start policy =>
      rw [takeUp, takeUp, LoadedTree.launch_of_idle idle, LoadedTree.launch_of_idle none]
  | pause | resume | step =>
      rw [takeUp, takeUp, LoadedTree.command_of_idle idle, LoadedTree.command_of_idle none]
  | tickOnce =>
      rw [takeUp, takeUp, LoadedTree.tick_once_of_idle idle, LoadedTree.tick_once_of_idle none]
  | unload => exact absurd rfl stays
  | stop | wait => cases free
  | acknowledge => cases call

theorem spent_take_up {instruction : Instruction} (plain : instruction.isCall = false)
    (spent : tree.isSpent = true) (store : Store) :
    (instruction.takeUp store tree).tree.isSpent = true := by
  cases instruction with
  | acknowledge node identity =>
      have same := tree.acknowledge_drive node identity
      rw [LoadedTree.isSpent] at spent ⊢
      exact (congrArg (Option.any _) same).trans spent
  | start | pause | resume | step | tickOnce | stop | wait | unload => cases plain

theorem take_up_unload (store : Store) (tree : LoadedTree) :
    takeUp store { tree with drive := none } .unload =
      { takeUp store tree .unload with
        tree := { (takeUp store tree .unload).tree with drive := none } } := by
  unfold takeUp LoadedTree.dismiss
  dsimp only
  split <;> rfl

end Instruction

namespace Manager

variable {manager : Manager} {id : TreeId}

theorem Numbered.tree_of_mem (numbered : manager.Numbered) {tree : LoadedTree}
    (inside : tree ∈ manager.trees) : manager.tree? tree.id = some tree := by
  cases found : manager.tree? tree.id with
  | none => exact absurd (List.mem_map_of_mem inside) (tree_eq_none_iff.mp found)
  | some other =>
      rw [List.inj_on_of_nodup_map numbered.apart (tree_mem found) inside (tree_id found)]

theorem load_let_go (manager : Manager) (id : TreeId) (plan : TreePlan) :
    (manager.letGo id).load plan = ((manager.load plan).1.letGo id, (manager.load plan).2) := by
  have same : (manager.letGo id).timing = manager.timing := rfl
  rw [load, load, same]
  cases plan.build manager.timing with
  | error defect => rfl
  | ok root =>
      dsimp only
      cases (Ticker.setup { root }).fault with
      | some fault => rfl
      | none =>
          dsimp only
          rw [← let_go_record]
          unfold letGo
          dsimp only
          rw [List.map_append, List.map_singleton, LoadedTree.let_go_driveless rfl]

theorem load_read_let_go (manager : Manager) (id : TreeId) (read : Except PlanFault TreePlan) :
    (manager.letGo id).loadRead read =
      ((manager.loadRead read).1.letGo id, (manager.loadRead read).2) := by
  cases read with
  | error fault => rfl
  | ok plan => exact manager.load_let_go id plan

theorem Numbered.letGo (numbered : manager.Numbered) (id : TreeId) :
    (manager.letGo id).Numbered := by
  refine numbered.of_ids ?_ rfl
  rw [ids, Manager.letGo, List.map_map, ids]
  apply List.map_congr_left
  intro tree _
  exact tree.let_go_id id

/-- An announcement changes nothing but the log. -/
theorem Numbered.announce_silent (numbered : manager.Numbered) (id : TreeId)
    (about : LoadedTree → Option Event) : (manager.announce id about).silent = manager.silent := by
  rw [announce]
  cases found : manager.tree? id with
  | none => rw [affect_unknown found]
  | some tree => rw [affect_of_known found, record_all_silent, numbered.replace_same found]

/-- What is announced does not depend on a drive. -/
theorem announce_let_go (manager : Manager) (id other : TreeId)
    {about : LoadedTree → Option Event} (blind : ∀ tree, about (tree.letGo id) = about tree) :
    (manager.letGo id).announce other about = (manager.announce other about).letGo id := by
  rw [announce, affect, handle_let_go other fun tree _ => by simp only [blind]]
  rfl

theorem is_driven_let_go {other : TreeId} (apart : other ≠ id) :
    (manager.letGo id).isDriven other = manager.isDriven other := by
  rw [isDriven, isDriven, tree_let_go]
  cases found : manager.tree? other with
  | none => rfl
  | some tree =>
      rw [Option.map_some, LoadedTree.let_go_other (by rwa [tree_id found])]

theorem release_let_go {other : TreeId} (apart : other ≠ id) :
    (manager.letGo id).handle other (·.release) =
      ((manager.handle other (·.release)).1.letGo id, (manager.handle other (·.release)).2) := by
  apply handle_let_go
  intro tree found
  have own : tree.id ≠ id := by rwa [tree_id found]
  rw [LoadedTree.let_go_other own, LoadedTree.let_go_other (by rwa [LoadedTree.release_id])]

/-- To forget a tree whose drive was let go of is to forget the tree. -/
theorem forget_let_go_self (manager : Manager) (id : TreeId) :
    (manager.letGo id).forget id = manager.forget id := by
  rw [forget, forget, tree_let_go]
  cases found : manager.tree? id with
  | none => rw [Option.map_none, let_go_unknown found]
  | some tree =>
      have left : (manager.trees.map (·.letGo id)).filter (·.id ≠ id) =
          manager.trees.filter (·.id ≠ id) := by
        rw [List.filter_map]
        conv_rhs => rw [← List.map_id (manager.trees.filter _)]
        have same : ((fun tree : LoadedTree => decide (tree.id ≠ id)) ∘ (·.letGo id)) =
            fun tree : LoadedTree => decide (tree.id ≠ id) := by
          funext tree
          exact congrArg (fun own => decide (own ≠ id)) (tree.let_go_id id)
        rw [same]
        apply List.map_congr_left
        intro other inside
        exact LoadedTree.let_go_other (of_decide_eq_true (List.mem_filter.mp inside).2)
      have event : (tree.letGo id).unloadEvent = tree.unloadEvent := by
        rw [LoadedTree.unloadEvent, LoadedTree.unloadEvent, LoadedTree.let_go_name]
      dsimp only [Option.map_some]
      rw [LoadedTree.let_go_ticker, event]
      unfold letGo
      dsimp only
      rw [left]

theorem forget_let_go_other {other : TreeId} (apart : other ≠ id) :
    (manager.letGo id).forget other =
      ((manager.forget other).1.letGo id, (manager.forget other).2) := by
  rw [forget, forget, tree_let_go]
  cases found : manager.tree? other with
  | none => rfl
  | some tree =>
      have left : (manager.trees.map (·.letGo id)).filter (·.id ≠ other) =
          (manager.trees.filter (·.id ≠ other)).map (·.letGo id) := by
        have same : ((fun tree : LoadedTree => decide (tree.id ≠ other)) ∘ (·.letGo id)) =
            fun tree : LoadedTree => decide (tree.id ≠ other) := by
          funext tree
          exact congrArg (fun own => decide (own ≠ other)) (tree.let_go_id id)
        rw [List.filter_map, same]
      dsimp only [Option.map_some]
      rw [LoadedTree.let_go_other (by rwa [tree_id found]), let_go_record]
      unfold letGo
      dsimp only
      rw [left]

theorem conclude_let_go {other : TreeId} (apart : other ≠ id) (instruction : Instruction) :
    (manager.letGo id).conclude other instruction =
      (manager.conclude other instruction).map fun result => (result.1.letGo id, result.2) := by
  have stopped : ∀ manager : Manager,
      (manager.letGo id).announce other (fun tree => some tree.stopEvent) =
        (manager.announce other fun tree => some tree.stopEvent).letGo id := by
    intro manager
    apply announce_let_go
    intro tree
    rw [LoadedTree.stopEvent, LoadedTree.stopEvent, LoadedTree.let_go_name,
      LoadedTree.let_go_ticker]
  cases instruction with
  | tickOnce | acknowledge => rfl
  | start policy =>
      rw [conclude, conclude, announce_let_go]
      · rfl
      · intro tree
        rw [LoadedTree.startEvent, LoadedTree.startEvent, LoadedTree.let_go_name]
  | pause | resume | step =>
      rw [conclude, conclude, announce_let_go]
      · rfl
      · intro tree
        simp [LoadedTree.commandEvent?]
  | stop | wait | unload =>
      rw [conclude, conclude, is_driven_let_go apart]
      cases manager.isDriven other with
      | true => rfl
      | false =>
          simp [release_let_go apart, stopped, forget_let_go_other apart]

/-- When nobody drives a tree any more, it does not matter whether its drive was let go of before it
is unloaded. -/
theorem conclude_unload_let_go {tree : LoadedTree} (found : manager.tree? id = some tree)
    (idle : tree.activeDrive? = none) :
    (manager.letGo id).conclude id .unload = manager.conclude id .unload := by
  have driveless : (tree.letGo id).activeDrive? = none := by
    rw [LoadedTree.let_go_self (tree_id found)]
    rfl
  rw [conclude, conclude, isDriven, isDriven, tree_let_go, found, Option.map_some,
    Option.bind_some, Option.bind_some, idle, driveless, forget_let_go_self]

end Manager

namespace Moment

/-- The call to the drive of a tree that a moment is, if it is one. -/
def call? (id : TreeId) : Moment → Option Instruction
  | .order (.instruct other instruction) =>
      if other = id ∧ instruction.isCall = true then some instruction else none
  | .order (.load _) | .happening _ | .answer => none

theorem call_eq_none {id other : TreeId} {instruction : Instruction} :
    call? id (.order (.instruct other instruction)) = none ↔
      (other = id → instruction.isCall = false) := by
  simp [call?]

theorem call_eq_some {id : TreeId} {moment : Moment} {instruction : Instruction}
    (called : moment.call? id = some instruction) :
    moment = .order (.instruct id instruction) ∧ instruction.isCall = true := by
  cases moment with
  | happening | answer => cases called
  | order order =>
      cases order with
      | load => cases called
      | instruct other given =>
          obtain ⟨⟨rfl, call⟩, same⟩ := Option.ite_none_right_eq_some.mp called
          cases same
          exact ⟨rfl, call⟩

end Moment

namespace Service

open Entry Manager

variable {service : Service} {id : TreeId}

/-- Services whose tree has a spent drive, and where nobody waits for it. -/
structure Spent (service : Service) (id : TreeId) : Prop where
  spent : ∃ tree, service.manager.tree? id = some tree ∧ tree.isSpent = true
  free : ∀ instruction, service.pending ≠ some (id, instruction)

theorem of_found {manager : Manager} {holds : LoadedTree → Prop}
    (there : ∃ tree, manager.tree? id = some tree ∧ holds tree) :
    ∀ tree, manager.tree? id = some tree → holds tree := by
  obtain ⟨tree, found, held⟩ := there
  intro other known
  cases found.symm.trans known
  exact held

theorem undergo_let_go (service : Service) (happening : Happening)
    (spent : ∀ tree, service.manager.tree? id = some tree → tree.isSpent = true) :
    (service.letGo id).undergo happening =
      ((service.undergo happening).1.letGo id, (service.undergo happening).2) := by
  cases happening with
  | vary | pass => rfl
  | motion other motion =>
      have same : (service.letGo id).manager.tree? other =
          (service.manager.tree? other).map (·.letGo id) := tree_let_go _ _ _
      rw [undergo, undergo, same]
      cases found : service.manager.tree? other with
      | none => rfl
      | some tree =>
          have alike : (tree.letGo id).undergo service.manager.store motion = _ :=
            LoadedTree.undergo_let_go
              (fun own => spent tree (by rw [← own, tree_id found]; exact found))
              service.manager.store motion
          dsimp only [Option.map_some, letGo]
          rw [let_go_record_all, let_go_replace]
          exact alike ▸ rfl

/-- An order that does not look at the drive goes alike. -/
theorem obey_let_go_of {other : TreeId} {instruction : Instruction}
    (alike : (service.manager.letGo id).handle other (instruction.takeUp service.manager.store) =
      ((service.manager.handle other (instruction.takeUp service.manager.store)).1.letGo id,
        (service.manager.handle other (instruction.takeUp service.manager.store)).2)) :
    (service.letGo id).obey (.instruct other instruction) =
      ((service.obey (.instruct other instruction)).1.letGo id,
        (service.obey (.instruct other instruction)).2) := by
  have handled : (service.letGo id).manager.handle other
      (instruction.takeUp (service.letGo id).manager.store) = _ := alike
  rw [obey, obey, handled]
  rcases service.manager.handle other (instruction.takeUp service.manager.store) with
    ⟨after, fault | reply⟩
  · rfl
  · dsimp only
    split <;> rfl

/-- Whatever is no call of the drive goes alike with and without it. -/
theorem meet_let_go (spent : service.Spent id) {moment : Moment}
    (plain : moment.call? id = none) :
    (service.letGo id).meet moment =
      (service.meet moment).map fun result => (result.1.letGo id, result.2) := by
  have same : (service.letGo id).pending = service.pending := rfl
  obtain ⟨tree, found, ended⟩ := spent.spent
  cases moment with
  | happening happening =>
      exact congrArg some (service.undergo_let_go happening (of_found spent.spent))
  | answer =>
      rw [meet, meet, same]
      cases pending : service.pending with
      | none => rfl
      | some waiting =>
          obtain ⟨other, instruction⟩ := waiting
          have apart : other ≠ id := by
            rintro rfl
            exact spent.free instruction pending
          have concluded : (service.letGo id).manager.conclude other instruction = _ :=
            conclude_let_go apart instruction
          dsimp only
          rw [concluded]
          cases service.manager.conclude other instruction <;> rfl
  | order order =>
      rw [meet, meet, same]
      cases service.pending with
      | some waiting => rfl
      | none =>
          refine congrArg some ?_
          cases order with
          | load read =>
              have loaded : (service.letGo id).manager.loadRead read = _ :=
                service.manager.load_read_let_go id read
              rw [obey, obey, loaded]
              rfl
          | instruct other instruction =>
              apply obey_let_go_of
              apply handle_let_go
              intro tree there
              apply instruction.take_up_let_go
              intro own
              rw [tree_id there] at own
              exact Moment.call_eq_none.mp plain own

theorem spent_happening
    (spent : ∃ tree, service.manager.tree? id = some tree ∧ tree.isSpent = true)
    (happening : Happening) :
    ∃ tree, (service.undergo happening).1.manager.tree? id = some tree ∧ tree.isSpent = true := by
  obtain ⟨tree, found, ended⟩ := spent
  cases happening with
  | vary | pass => exact ⟨tree, found, ended⟩
  | motion other motion =>
      rw [undergo_motion]
      dsimp only
      rw [affect, tree_handle (fun tree => tree.undergo_id service.manager.store motion), found,
        Option.map_some]
      split
      · exact ⟨_, rfl, LoadedTree.spent_undergo ended _ _⟩
      · exact ⟨tree, rfl, ended⟩

/-- Nobody comes to wait for a tree without a call to its drive. -/
theorem free_after_obey {other : TreeId} {instruction : Instruction}
    (quiet : other = id → instruction.isCall = false) (free : service.pending = none)
    (given : Instruction) :
    (service.obey (.instruct other instruction)).1.pending ≠ some (id, given) := by
  intro pending
  cases answer :
      (service.manager.handle other (instruction.takeUp service.manager.store)).2 with
  | error fault =>
      rw [obey_of_refused answer, free] at pending
      cases pending
  | ok reply =>
      rw [obey_of_granted answer] at pending
      split at pending
      · rw [free] at pending
        cases pending
      next long =>
        cases pending
        have plain := quiet rfl
        cases instruction with
        | acknowledge => exact long rfl
        | start | pause | resume | step | tickOnce | stop | wait | unload => cases plain

theorem spent_meet (numbered : service.manager.Numbered) (spent : service.Spent id)
    {moment : Moment} (plain : moment.call? id = none) {next : Service} {entries : List Entry}
    (met : service.meet moment = some (next, entries)) : next.Spent id := by
  obtain ⟨tree, found, ended⟩ := spent.spent
  cases moment with
  | happening happening =>
      obtain ⟨rfl, -⟩ := meet_happening_eq_some.mp met
      refine ⟨spent_happening spent.spent happening, ?_⟩
      intro instruction
      rw [undergo_pending]
      exact spent.free instruction
  | answer =>
      obtain ⟨other, instruction, after, response, pending, concluded, rfl, -⟩ :=
        meet_answer_eq_some.mp met
      have apart : id ≠ other := by
        rintro rfl
        exact spent.free instruction pending
      obtain ⟨events, notes, -⟩ := notes_conclude concluded
      exact ⟨⟨tree, (notes.others id apart).trans found, ended⟩, by simp⟩
  | order order =>
      obtain ⟨free, rfl, -⟩ := meet_order_eq_some.mp met
      cases order with
      | load read =>
          refine ⟨?_, fun instruction pending => ?_⟩
          · rcases change_load numbered read id with same | ⟨_, unknown, -⟩
            · exact ⟨tree, same.trans found, ended⟩
            · rw [found] at unknown
              cases unknown
          · rw [obey, free] at pending
            cases pending
      | instruct other instruction =>
          have quiet := Moment.call_eq_none.mp plain
          have after := tree_handle (instruction.take_up_id service.manager.store)
            service.manager other id
          rw [← obey_manager, found, Option.map_some] at after
          refine ⟨⟨_, after, ?_⟩, free_after_obey quiet free⟩
          split
          next here => exact Instruction.spent_take_up (quiet here.symm) ended _
          next => exact ended

/-- What can be seen of a run: its chronicle, with every answer, what the manager shows of its trees
at last, and what is on the disk. -/
structure View where
  chronicle : List Entry
  listed : List Summary
  reported : TreeId → Except ManagerFault Report
  pictured : TreeId → Except ManagerFault (Option Snapshot)
  recalled : Nat → List Event
  disk : Disk

def view (result : Service × List Entry) : View where
  chronicle := result.2
  listed := result.1.manager.list
  reported := result.1.manager.report
  pictured := result.1.manager.lastSnapshot
  recalled := result.1.manager.recentEvents
  disk := result.1.manager.disk

theorem summary_let_go {tree : LoadedTree} (idle : tree.id = id → tree.activeDrive? = none) :
    (tree.letGo id).summary = tree.summary := by
  by_cases own : tree.id = id
  · have driveless : LoadedTree.activeDrive? { tree with drive := none } = none := rfl
    rw [LoadedTree.let_go_self own, LoadedTree.summary, LoadedTree.summary, idle own, driveless]
  · rw [LoadedTree.let_go_other own]

/-- Nothing shows that a spent drive was let go of. -/
theorem view_let_go (numbered : service.manager.Numbered)
    (idle : ∀ tree, service.manager.tree? id = some tree → tree.activeDrive? = none)
    (chronicle : List Entry) : view (service.letGo id, chronicle) = view (service, chronicle) := by
  have listed : (service.letGo id).manager.list = service.manager.list := by
    rw [list, letGo, Manager.letGo, List.map_map, list]
    apply List.map_congr_left
    intro tree inside
    apply summary_let_go
    intro own
    exact idle tree (own ▸ numbered.tree_of_mem inside)
  have reported : (service.letGo id).manager.report = service.manager.report := by
    funext other
    rw [letGo, report, report, tree_let_go]
    cases service.manager.tree? other <;> simp
  have pictured : (service.letGo id).manager.lastSnapshot = service.manager.lastSnapshot := by
    funext other
    rw [letGo, lastSnapshot, lastSnapshot, tree_let_go]
    cases service.manager.tree? other <;> simp
  have recalled : (service.letGo id).manager.recentEvents = service.manager.recentEvents := rfl
  have disk : (service.letGo id).manager.disk = service.manager.disk := rfl
  simp only [view, listed, reported, pictured, recalled, disk]

def View.after (entries : List Entry) (view : View) : View :=
  { view with chronicle := entries ++ view.chronicle }

/-- What can be seen of a run is what can be seen of the rest of it, after its first moment. -/
theorem view_run_cons (service : Service) (moment : Moment) (rest : List Moment) :
    (service.run (moment :: rest)).map view =
      (service.meet moment).bind fun result =>
        ((result.1.run rest).map view).map (.after result.2) := by
  rw [run]
  cases service.meet moment with
  | none => rfl
  | some result =>
      obtain ⟨next, entries⟩ := result
      dsimp only [Option.bind_eq_bind, Option.bind_some]
      cases next.run rest <;> rfl

/-- Until a tree is unloaded it does not show that its drive was let go of, and afterwards it was
not there. -/
theorem view_unload (numbered : service.manager.Numbered)
    (pending : service.pending = some (id, .unload))
    (spent : ∃ tree, service.manager.tree? id = some tree ∧ tree.isSpent = true)
    (rest : List Moment) :
    ((service.letGo id).run rest).map view = (service.run rest).map view := by
  have same : ∀ service : Service, (service.letGo id).pending = service.pending := fun _ => rfl
  induction rest generalizing service with
  | nil =>
      refine congrArg some (view_let_go numbered ?_ [])
      intro tree found
      exact LoadedTree.idle_of_spent (of_found spent tree found)
  | cons moment rest ih =>
      rw [view_run_cons, view_run_cons]
      cases moment with
      | order order => rw [meet, meet, same, pending]
      | answer =>
          obtain ⟨tree, found, ended⟩ := spent
          have concluded : (service.letGo id).manager.conclude id .unload = _ :=
            conclude_unload_let_go found (LoadedTree.idle_of_spent ended)
          rw [meet, meet, same, pending]
          dsimp only
          rw [concluded]
      | happening happening =>
          have alike : (service.letGo id).undergo happening = _ :=
            service.undergo_let_go happening (of_found spent)
          have still : service.meet (.happening happening) = some (service.undergo happening) := rfl
          rw [meet, meet, alike, Option.bind_some, Option.bind_some]
          have onward := ih (numbered_of_meet numbered still).1
            ((service.undergo_pending happening).trans pending) (spent_happening spent happening)
          exact congrArg (Option.map _) onward

/-- A call that does not wait for the drive makes it the same whether or not the drive was let go
of. -/
theorem meet_after_let_go (spent : service.Spent id) {instruction : Instruction}
    (call : instruction.isCall = true) (free : instruction.awaitsDrive = false)
    (stays : instruction ≠ .unload) :
    (service.letGo id).meet (.order (.instruct id instruction)) =
      service.meet (.order (.instruct id instruction)) := by
  have handled : (service.letGo id).manager.handle id
      (instruction.takeUp (service.letGo id).manager.store) =
        service.manager.handle id (instruction.takeUp service.manager.store) := by
    apply handle_after_let_go (instruction.take_up_id service.manager.store)
    intro tree found
    have ended := of_found spent.spent tree found
    exact Instruction.take_up_spent call free stays ended service.manager.store
  have same : (service.letGo id).pending = service.pending := rfl
  rw [meet, meet, same]
  cases service.pending with
  | some waiting => rfl
  | none =>
      dsimp only
      rw [obey, obey, handled]
      rfl

theorem meet_unload_let_go (service : Service) (id : TreeId) :
    (service.letGo id).meet (.order (.instruct id .unload)) =
      (service.meet (.order (.instruct id .unload))).map fun result =>
        (result.1.letGo id, result.2) := by
  have same : (service.letGo id).pending = service.pending := rfl
  rw [meet, meet, same]
  cases service.pending with
  | some waiting => rfl
  | none =>
      refine congrArg some (obey_let_go_of (handle_let_go id ?_))
      intro tree there
      have own := tree_id there
      rw [LoadedTree.let_go_self own, Instruction.take_up_unload,
        LoadedTree.let_go_self ((Instruction.take_up_id _ _ tree).trans own)]

/-- When a tree is to be unloaded its spent drive is still there. -/
theorem spent_unload (spent : service.Spent id) {next : Service} {entries : List Entry}
    (met : service.meet (.order (.instruct id .unload)) = some (next, entries)) :
    next.pending = some (id, .unload) ∧
      ∃ tree, next.manager.tree? id = some tree ∧ tree.isSpent = true := by
  obtain ⟨tree, found, ended⟩ := spent.spent
  obtain ⟨drive, own, finished⟩ := LoadedTree.is_spent_iff.mp ended
  obtain ⟨free, rfl, -⟩ := meet_order_eq_some.mp met
  have granted : (service.manager.handle id
      (Instruction.takeUp service.manager.store · .unload)).2 = .ok .done :=
    handle_answer _ _ found
  have after := tree_handle (Instruction.take_up_id .unload service.manager.store)
    service.manager id id
  rw [← obey_manager, found, Option.map_some, if_pos rfl] at after
  refine ⟨by rw [obey_of_granted granted]; rfl, _, after, ?_⟩
  apply LoadedTree.is_spent_iff.mpr
  refine ⟨drive.tell .stop, ?_, finished⟩
  simp [Instruction.takeUp, LoadedTree.dismiss, own, LoadedTree.tell]

/-- As long as nobody waits for the drive before anything else is asked of it, nobody can see that
it was let go of. -/
theorem view_of_spent (numbered : service.manager.Numbered) (spent : service.Spent id)
    {later : List Moment}
    (unawaited : ∀ instruction, later.findSome? (Moment.call? id) = some instruction →
      instruction.awaitsDrive = false) :
    ((service.letGo id).run later).map view = (service.run later).map view := by
  induction later generalizing service with
  | nil =>
      refine congrArg some (view_let_go numbered ?_ [])
      intro tree found
      exact LoadedTree.idle_of_spent (of_found spent.spent tree found)
  | cons moment rest ih =>
      rw [view_run_cons, view_run_cons]
      cases called : moment.call? id with
      | none =>
          rw [meet_let_go spent called]
          rw [List.findSome?_cons_of_isNone (by simp [called])] at unawaited
          cases met : service.meet moment with
          | none => rfl
          | some result =>
              obtain ⟨next, entries⟩ := result
              have onward := ih (numbered_of_meet numbered met).1
                (spent_meet numbered spent called met) unawaited
              exact congrArg (Option.map _) onward
      | some instruction =>
          have free := unawaited instruction (by simp [called])
          obtain ⟨rfl, call⟩ := Moment.call_eq_some called
          by_cases leaves : instruction = .unload
          · subst leaves
            rw [meet_unload_let_go]
            cases met : service.meet (.order (.instruct id .unload)) with
            | none => rfl
            | some result =>
                obtain ⟨next, entries⟩ := result
                obtain ⟨pending, ended⟩ := spent_unload spent met
                have onward := view_unload (numbered_of_meet numbered met).1 pending ended rest
                exact congrArg (Option.map _) onward
          · rw [meet_after_let_go spent call free leaves]

/-! Waiting for a drive that was let go of. -/

theorem run_append (service : Service) (early late : List Moment) :
    service.run (early ++ late) = (service.run early).bind fun first =>
      (first.1.run late).map fun second => (second.1, first.2 ++ second.2) := by
  induction early generalizing service with
  | nil =>
      rw [run_nil, Option.bind_some, List.nil_append]
      exact (Option.map_id' ).symm
  | cons moment rest ih =>
      rw [List.cons_append, run, run]
      cases service.meet moment with
      | none => rfl
      | some result =>
          obtain ⟨next, entries⟩ := result
          dsimp only [Option.bind_eq_bind, Option.bind_some]
          rw [ih]
          cases next.run rest with
          | none => rfl
          | some first =>
              dsimp only [Option.bind_some]
              cases onward : first.1.run late <;> simp [onward]

theorem run_let_go (numbered : service.manager.Numbered) (spent : service.Spent id)
    {early : List Moment} (plain : ∀ moment ∈ early, moment.call? id = none) :
    (service.letGo id).run early =
        (service.run early).map (fun result => (result.1.letGo id, result.2)) ∧
      ∀ last chronicle, service.run early = some (last, chronicle) →
        last.manager.Numbered ∧ last.Spent id := by
  induction early generalizing service with
  | nil =>
      refine ⟨rfl, ?_⟩
      rintro _ _ ⟨⟩
      exact ⟨numbered, spent⟩
  | cons moment rest ih =>
      have called := plain moment List.mem_cons_self
      rw [run, run, meet_let_go spent called]
      cases met : service.meet moment with
      | none => exact ⟨rfl, fun _ _ ran => by cases ran⟩
      | some result =>
          obtain ⟨next, entries⟩ := result
          obtain ⟨alike, still⟩ := ih (numbered_of_meet numbered met).1
            (spent_meet numbered spent called met)
            fun moment inside => plain moment (List.mem_cons_of_mem _ inside)
          dsimp only [Option.bind_eq_bind, Option.bind_some, Option.map_some]
          rw [alike]
          refine ⟨by cases next.run rest <;> rfl, ?_⟩
          intro last chronicle ran
          obtain ⟨⟨final, more⟩, onward, same⟩ := Option.bind_eq_some_iff.mp ran
          cases same
          exact still _ _ onward

theorem silent_run (service : Service) (moments : List Moment) :
    service.silent.run moments =
      (service.run moments).map fun result => (result.1.silent, result.2) := by
  induction moments generalizing service with
  | nil => rfl
  | cons moment rest ih =>
      rw [run, run, silent_meet]
      cases service.meet moment with
      | none => rfl
      | some result =>
          obtain ⟨next, entries⟩ := result
          dsimp only [Option.bind_eq_bind, Option.bind_some, Option.map_some]
          rw [ih]
          cases next.run rest <;> rfl

/-- Services that differ in nothing but their logs go on alike. -/
theorem runs_of_silent {first second : Service} (alike : first.silent = second.silent)
    (moments : List Moment) :
    Option.Rel (fun one other => one.1.silent = other.1.silent ∧ one.2 = other.2)
      (first.run moments) (second.run moments) := by
  have both := first.silent_run moments
  rw [alike, second.silent_run] at both
  generalize first.run moments = one, second.run moments = other at both
  cases one with
  | none =>
      cases other with
      | none => exact .none
      | some result => cases both
  | some result =>
      cases other with
      | none => cases both
      | some outcome =>
          obtain ⟨silent, same⟩ := Prod.mk.inj (Option.some.inj both)
          exact .some ⟨silent.symm, same.symm⟩

theorem run_of_met {next : Service} {moment : Moment} {entries : List Entry}
    (met : service.meet moment = some (next, entries)) (rest : List Moment) :
    service.run (moment :: rest) =
      (next.run rest).map fun result => (result.1, entries ++ result.2) := by
  rw [run, met]
  dsimp only [Option.bind_eq_bind, Option.bind_some]
  cases next.run rest <;> rfl

theorem run_after_happenings (service : Service) (between : List Happening)
    (late : List Moment) :
    service.run (between.map .happening ++ late) =
      ((service.undergoAll between).1.run late).map fun result =>
        (result.1, (service.undergoAll between).2 ++ result.2) := by
  rw [run_append, run_happenings, Option.bind_some]

/-- Runs whose answers differ in one order alone, and that leave the same but for the log. -/
structure Differ (order : Order) (fault : ManagerFault) (first second : Service × List Entry) :
    Prop where
  answers : ∃ early status late,
    Entry.answers first.2 = early ++ (order, .ok (.status status)) :: late ∧
      Entry.answers second.2 = early ++ (order, .error fault) :: late
  silent : first.1.silent = second.1.silent

theorem undergo_with (service : Service) (pending : Option (TreeId × Instruction))
    (happening : Happening) :
    undergo { service with pending } happening =
      ({ (service.undergo happening).1 with pending }, (service.undergo happening).2) := by
  cases happening with
  | vary | pass => rfl
  | motion id motion =>
      rw [undergo, undergo]
      cases service.manager.tree? id <;> rfl

theorem undergo_all_let_go (numbered : service.manager.Numbered)
    (spent : ∃ tree, service.manager.tree? id = some tree ∧ tree.isSpent = true)
    (pending : Option (TreeId × Instruction)) (happenings : List Happening) :
    undergoAll { manager := service.manager.letGo id, pending } happenings =
        ({ manager := (service.undergoAll happenings).1.manager.letGo id, pending },
          (service.undergoAll happenings).2) ∧
      (service.undergoAll happenings).1.manager.Numbered ∧
      ∃ tree, (service.undergoAll happenings).1.manager.tree? id = some tree ∧
        tree.isSpent = true := by
  induction happenings generalizing service with
  | nil => exact ⟨rfl, numbered, spent⟩
  | cons happening rest ih =>
      have alike : (service.letGo id).undergo happening = _ :=
        service.undergo_let_go happening (of_found spent)
      have first : undergo { manager := service.manager.letGo id, pending } happening =
          ({ manager := (service.undergo happening).1.manager.letGo id, pending },
            (service.undergo happening).2) := by
        have same := (service.letGo id).undergo_with pending happening
        rw [alike] at same
        exact same
      have met : service.meet (.happening happening) = some (service.undergo happening) := rfl
      have kept : (service.undergo happening).1.manager.Numbered :=
        (numbered_of_meet numbered met).1
      obtain ⟨onward, still, there⟩ := ih kept (spent_happening spent happening)
      refine ⟨?_, still, there⟩
      rw [undergoAll, undergoAll, first]
      dsimp only
      rw [onward]

variable {instruction : Instruction}

theorem take_up_driveless (awaits : instruction.awaitsDrive = true) (store : Store)
    {tree : LoadedTree} (none : tree.drive = none) :
    instruction.takeUp store tree = { tree, answer := .error (.notRunning tree.id) } := by
  obtain ⟨own, name, ticker, drive, recorded⟩ := tree
  cases none
  cases instruction with
  | stop | wait => rfl
  | start | pause | resume | step | tickOnce | unload | acknowledge => cases awaits

theorem take_up_awaiting (awaits : instruction.awaitsDrive = true) (store : Store)
    {tree : LoadedTree} {drive : Drive} (own : tree.drive = some drive) :
    ∃ told : Drive, told.stage = drive.stage ∧
      instruction.takeUp store tree =
        { tree := { tree with drive := some told }, answer := .ok .done } := by
  obtain ⟨id, name, ticker, held, recorded⟩ := tree
  cases own
  cases instruction with
  | stop => exact ⟨drive.tell .stop, rfl, rfl⟩
  | wait => exact ⟨drive, rfl, rfl⟩
  | start | pause | resume | step | tickOnce | unload | acknowledge => cases awaits

theorem long_of_awaiting (awaits : instruction.awaitsDrive = true) :
    instruction.isBrief = false := by
  cases instruction with
  | stop | wait => rfl
  | start | pause | resume | step | tickOnce | unload | acknowledge => cases awaits

/-- Letting go of a drive twice changes nothing more. -/
theorem replace_settled {manager : Manager} (numbered : manager.Numbered) {tree : LoadedTree}
    (found : manager.tree? id = some tree) :
    (manager.letGo id).replace { tree with drive := none } = manager.letGo id := by
  have named : tree.id = id := tree_id found
  have plain : LoadedTree.id { tree with drive := none } = id := named
  rw [replace_let_go _ plain, replace_driveless numbered found]

/-- Who waits for a spent drive, or stops it, is taken up. -/
theorem obey_awaiting (numbered : service.manager.Numbered) (spent : service.Spent id)
    (awaits : instruction.awaitsDrive = true) :
    ∃ manager : Manager,
      service.obey (.instruct id instruction) =
          ({ manager, pending := some (id, instruction) }, [.taken id instruction]) ∧
        manager.Numbered ∧ manager.letGo id = service.manager.letGo id ∧
        ∃ tree, manager.tree? id = some tree ∧ tree.isSpent = true := by
  obtain ⟨tree, found, ended⟩ := spent.spent
  obtain ⟨drive, own, finished⟩ := LoadedTree.is_spent_iff.mp ended
  obtain ⟨told, stage, taken⟩ := take_up_awaiting awaits service.manager.store own
  have named := tree_id found
  have handled : service.manager.handle id (instruction.takeUp service.manager.store) =
      (service.manager.replace { tree with drive := some told }, .ok .done) := by
    rw [handle, found]
    dsimp only
    rw [taken]
    rfl
  refine ⟨service.manager.replace { tree with drive := some told }, ?_, ?_, ?_, ?_⟩
  · rw [obey, handled]
    dsimp only
    rw [long_of_awaiting awaits]
    rfl
  · exact numbered.of_ids (ids_replace _ _) rfl
  · have left : LoadedTree.letGo id { tree with drive := some told } =
        { tree with drive := none } := LoadedTree.let_go_self named
    rw [let_go_replace, left, replace_settled numbered found]
  · have known : service.manager.tree?
        (LoadedTree.id { tree with drive := some told }) = some tree := named.symm ▸ found
    have after := tree_replace_self known
    refine ⟨{ tree with drive := some told }, named ▸ after, ?_⟩
    exact LoadedTree.is_spent_iff.mpr ⟨told, rfl, stage.trans finished⟩

/-- Without the drive he is refused. -/
theorem obey_awaiting_driveless (numbered : service.manager.Numbered) (spent : service.Spent id)
    (awaits : instruction.awaitsDrive = true) :
    (service.letGo id).obey (.instruct id instruction) =
      (service.letGo id,
        [.answered (.instruct id instruction) (.error (.notRunning id))]) := by
  obtain ⟨tree, found, -⟩ := spent.spent
  have named := tree_id found
  have there : (service.letGo id).manager.tree? id = some { tree with drive := none } := by
    rw [letGo, tree_let_go, found, Option.map_some, LoadedTree.let_go_self named]
  have refused : (service.letGo id).manager.handle id
      (instruction.takeUp (service.letGo id).manager.store) =
        (service.manager.letGo id, .error (.notRunning id)) := by
    rw [handle, there]
    dsimp only
    rw [take_up_driveless awaits _ rfl]
    exact Prod.ext (replace_settled numbered found)
      (congrArg (fun own => Except.error (ManagerFault.notRunning own)) named)
  rw [obey, refused]
  rfl

/-- The drive that was waited for is let go of at last, and the status answered. -/
theorem meet_awaited (numbered : service.manager.Numbered)
    (pending : service.pending = some (id, instruction))
    (awaits : instruction.awaitsDrive = true)
    (spent : ∃ tree, service.manager.tree? id = some tree ∧ tree.isSpent = true) :
    ∃ (after : Manager) (status : Status),
      service.meet .answer =
          some ({ manager := after },
            [.answered (.instruct id instruction) (.ok (.status status))]) ∧
        after.silent = (service.manager.letGo id).silent := by
  obtain ⟨tree, found, ended⟩ := spent
  obtain ⟨drive, own, finished⟩ := LoadedTree.is_spent_iff.mp ended
  have idle : service.manager.isDriven id = false := by
    rw [isDriven, found, Option.bind_some, LoadedTree.idle_of_spent ended]
    rfl
  have released : service.manager.handle id (·.release) =
      (service.manager.letGo id, .ok tree.ticker.lastStatus) := by
    rw [handle, found]
    dsimp only
    rw [LoadedTree.release, own]
    exact congrArg (·, Except.ok tree.ticker.lastStatus) (replace_driveless numbered found)
  cases instruction with
  | stop =>
      refine ⟨(service.manager.letGo id).announce id fun tree => some tree.stopEvent,
        tree.ticker.lastStatus, ?_, ?_⟩
      · rw [meet, pending]
        dsimp only
        rw [Stint.conclude_stop idle, released]
        rfl
      · exact (numbered.letGo id).announce_silent id _
  | wait =>
      refine ⟨service.manager.letGo id, tree.ticker.lastStatus, ?_, rfl⟩
      rw [meet, pending]
      dsimp only
      rw [conclude, if_neg (by simp [idle]), released]
      rfl
  | start | pause | resume | step | tickOnce | unload | acknowledge => cases awaits

/-- Who waits for a spent drive is told the status, and without the drive he is refused; from then
on both go alike. -/
theorem runs_awaiting (numbered : service.manager.Numbered) (spent : service.Spent id)
    (awaits : instruction.awaitsDrive = true) (between : List Happening) (late : List Moment) :
    Option.Rel (Differ (.instruct id instruction) (.notRunning id))
      (service.run
        (.order (.instruct id instruction) :: (between.map .happening ++ .answer :: late)))
      ((service.letGo id).run
        (.order (.instruct id instruction) :: (between.map .happening ++ late))) := by
  have same : (service.letGo id).pending = service.pending := rfl
  cases free : service.pending with
  | some waiting =>
      rw [run, run, meet, meet, same, free]
      exact .none
  | none =>
      obtain ⟨manager, taken, still, alike, ended⟩ := obey_awaiting numbered spent awaits
      have refused := obey_awaiting_driveless numbered spent awaits
      have met : service.meet (.order (.instruct id instruction)) =
          some ({ manager, pending := some (id, instruction) }, [.taken id instruction]) := by
        rw [meet, free]
        exact congrArg some taken
      have unmet : (service.letGo id).meet (.order (.instruct id instruction)) =
          some (service.letGo id,
            [.answered (.instruct id instruction) (.error (.notRunning id))]) := by
        rw [meet, same, free]
        exact congrArg some refused
      -- Both go through what happens in between alike, the one without a drive.
      obtain ⟨onward, kept, there⟩ :=
        @undergo_all_let_go { manager, pending := some (id, instruction) } id still ended none
          between
      obtain ⟨waiting, quiet, -⟩ :=
        undergo_all_quiet { manager, pending := some (id, instruction) } between
      have begun : service.letGo id = { manager := manager.letGo id } := by
        rw [letGo, alike, free]
      rw [run_of_met met, run_of_met unmet, run_after_happenings, run_after_happenings, begun,
        onward]
      generalize undergoAll { manager, pending := some (id, instruction) } between = middle at *
      obtain ⟨after, status, answered, silent⟩ := meet_awaited kept waiting awaits there
      rw [run_of_met answered]
      have alike : ({ manager := after } : Service).silent =
          Service.silent { manager := middle.1.manager.letGo id } :=
        congrArg (Service.mk · none) silent
      have runs := runs_of_silent alike late
      dsimp only
      generalize run { manager := after } late = first,
        run { manager := middle.1.manager.letGo id } late = second at runs
      cases runs with
      | none => exact .none
      | @some one other both =>
          refine .some ⟨⟨[], status, answers other.2, ?_, ?_⟩, both.1⟩
          · rw [Entry.answers_append, Entry.answers_append, quiet, ← both.2]
            rfl
          · rw [Entry.answers_append, Entry.answers_append, quiet]
            rfl

/-- So it is too if something else comes first, as long as it is no call to the drive. -/
theorem runs_apart (numbered : service.manager.Numbered) (spent : service.Spent id)
    {early : List Moment} (plain : ∀ moment ∈ early, moment.call? id = none)
    (awaits : instruction.awaitsDrive = true) (between : List Happening) (late : List Moment) :
    Option.Rel (Differ (.instruct id instruction) (.notRunning id))
      (service.run (early ++
        .order (.instruct id instruction) :: (between.map .happening ++ .answer :: late)))
      ((service.letGo id).run (early ++
        .order (.instruct id instruction) :: (between.map .happening ++ late))) := by
  obtain ⟨alike, still⟩ := run_let_go numbered spent plain
  rw [run_append, run_append, alike]
  cases ran : service.run early with
  | none => exact .none
  | some first =>
      obtain ⟨middle, chronicle⟩ := first
      obtain ⟨numbered, spent⟩ := still middle chronicle ran
      have apart := runs_awaiting numbered spent awaits between late
      dsimp only [Option.bind_some, Option.map_some]
      generalize middle.run _ = one, (middle.letGo id).run _ = other at apart
      cases apart with
      | none => exact .none
      | @some one other differ =>
          obtain ⟨before, status, after, granted, refused⟩ := differ.answers
          refine .some ⟨⟨answers chronicle ++ before, status, after, ?_, ?_⟩, differ.silent⟩
          · rw [answers_append, granted, List.append_assoc]
          · rw [answers_append, refused, List.append_assoc]

/-- A drive that ended by itself can be told nothing, and it is let go of. -/
structure Collected (service : Service) (id : TreeId) (next : Service) : Prop where
  spent : ∃ tree, service.manager.tree? id = some tree ∧ tree.isSpent = true
  unseen : ∀ {later : List Moment},
    (∀ call, later.findSome? (Moment.call? id) = some call → call.awaitsDrive = false) →
      (next.run later).map view = (service.run later).map view
  awaited : ∀ {early : List Moment} {call : Instruction} (between : List Happening)
    (late : List Moment), (∀ moment ∈ early, moment.call? id = none) → call.awaitsDrive = true →
      Option.Rel (Differ (.instruct id call) (.notRunning id))
        (service.run (early ++
          .order (.instruct id call) :: (between.map .happening ++ .answer :: late)))
        (next.run (early ++ .order (.instruct id call) :: (between.map .happening ++ late)))

/-- What is refused is answered at once, writes nothing, and leaves everything as it was; only a
pause, a resumption or a step that came too late for the drive leaves the tree without one. -/
theorem refusal_leaves {manager : Manager} (new : manager.trees = []) {moments : List Moment}
    {chronicle : List Entry} (ran : run { manager } moments = some (service, chronicle))
    {moment : Moment} {next : Service} {entries : List Entry}
    (met : service.meet moment = some (next, entries)) {order : Order} {fault : ManagerFault}
    (failed : .answered order (.error fault) ∈ entries) :
    moment = .order order ∧ entries = [.answered order (.error fault)] ∧
      next.manager.disk = service.manager.disk ∧
      (next = service ∨
        ∃ id instruction, order = .instruct id instruction ∧ instruction.isCommand = true ∧
          fault = .notRunning id ∧ service.Collected id next) := by
  have numbered := numbered_of_run (.of_new new) ran
  cases moment with
  | happening happening =>
      obtain ⟨-, rfl⟩ := meet_happening_eq_some.mp met
      obtain ⟨id, marks, same⟩ := service.undergo_entries happening
      simp [same] at failed
  | answer =>
      obtain ⟨id, instruction, after, response, pending, concluded, -, rfl⟩ :=
        meet_answer_eq_some.mp met
      obtain ⟨reply, rfl⟩ := conclude_granted (awaited_of_run ran) pending concluded
      simp at failed
  | order given =>
      obtain ⟨free, rfl, rfl⟩ := meet_order_eq_some.mp met
      obtain ⟨rfl, alone, refused⟩ := refusal_of_obey numbered failed
      refine ⟨rfl, alone, ?_⟩
      generalize (service.obey order).1 = next at refused
      cases refused with
      | same => exact ⟨rfl, .inl rfl⟩
      | @spent id tree instruction command found finished =>
          have spent : service.Spent id := ⟨⟨tree, found, finished⟩, by simp [free]⟩
          refine ⟨rfl, .inr ⟨id, instruction, rfl, command, rfl, spent.spent, ?_, ?_⟩⟩
          · intro later unawaited
            exact view_of_spent numbered spent unawaited
          · intro early call between late plain awaits
            exact runs_apart numbered spent plain awaits between late

end Service

/-! A watch that ends by itself before it is to be paused. -/

namespace Watch

open Service Entry

/-- The watch is started for one tick, and its drive goes on to its end. -/
def brief : List Moment :=
  [.order (.load (.ok plan)), .order (.instruct (.number 0) (.start (.count 1 1))), .answer] ++
    (turns (.number 0) [false, false]).map .happening

theorem brief_possible : (run { manager := {} } brief).isSome = true := by decide +kernel

def dawn : Service × List Entry := (run { manager := {} } brief).get brief_possible

theorem brief_run : run { manager := {} } brief = some (dawn.1, dawn.2) := by
  rw [Prod.eta, dawn, Option.some_get]

/-- What a pause that comes too late leaves. -/
def late : Service := (dawn.1.obey (.instruct (.number 0) .pause)).1

theorem pause_refused : dawn.1.meet (.order (.instruct (.number 0) .pause)) =
    some (late, [.answered (.instruct (.number 0) .pause) (.error (.notRunning (.number 0)))]) := by
  have free : dawn.1.pending = none := by decide +kernel
  have answer : (dawn.1.manager.handle (.number 0)
      (Instruction.pause.takeUp dawn.1.manager.store)).2 = .error (.notRunning (.number 0)) := by
    decide +kernel
  rw [meet, free, late, obey_of_refused answer]

theorem pause_collects : dawn.1.Collected (.number 0) late := by
  have new : ({} : Manager).trees = [] := rfl
  obtain ⟨-, -, -, rest⟩ := refusal_leaves new brief_run pause_refused (List.mem_singleton_self _)
  rcases rest with same | ⟨id, instruction, own, -, -, collected⟩
  · have before : (dawn.1.manager.tree? (.number 0)).any (·.drive.isSome) = true := by
      decide +kernel
    have after : (late.manager.tree? (.number 0)).any (·.drive.isSome) = false := by
      decide +kernel
    rw [same, before] at after
    cases after
  · cases own
    exact collected

/-- Who waits for the watch is told its status, but no longer once somebody tried to pause it. -/
theorem wait_after_pause :
    run { manager := {} } brief = some (dawn.1, dawn.2) ∧
      dawn.1.meet (.order (.instruct (.number 0) .pause)) = some (late,
        [.answered (.instruct (.number 0) .pause) (.error (.notRunning (.number 0)))]) ∧
      (dawn.1.run [.order (.instruct (.number 0) .wait), .answer]).map (answers ·.2) =
        some [(.instruct (.number 0) .wait, .ok (.status .failure))] ∧
      (late.run [.order (.instruct (.number 0) .wait)]).map (answers ·.2) =
        some [(.instruct (.number 0) .wait, .error (.notRunning (.number 0)))] := by
  refine ⟨brief_run, pause_refused, ?_, ?_⟩
  · rfl
  · rfl

end Watch

end BehaviorTree
