import BehaviorTree.Proofs.Consent
import BehaviorTree.Proofs.Preemption
import BehaviorTree.Proofs.Serving
import BehaviorTree.Proofs.Staffing

/-!
Who is at work for a manager. A tree is set up when it is loaded and shut down when it is unloaded,
and nothing in between starts or stops a worker. So the actions with a worker at work are those of
the trees that are loaded, and none is left behind by a tree that was unloaded.
-/

namespace BehaviorTree

theorem Action.Staffed.toil {isSetUp : Bool} {action : Action} (staffed : action.Staffed isSetUp)
    (name : String) (shown : Status) (labours : List Labour) :
    (action.toil name shown labours).1.Staffed isSetUp := by
  induction labours generalizing action with
  | nil => exact staffed
  | cons labour rest ih => exact ih (staffed.labour name shown labour)

namespace Node

variable {holds : Leaf → Prop} {node : Node}

theorem Every.map_actions {Result : Type} {change : String → Action → Action × List Result}
    (kept : ∀ name action, holds (.action action) → holds (.action (change name action).1))
    (every : node.Every holds) : (node.mapActions change).1.Every holds := by
  induction node with
  | leaf state content =>
      cases content with
      | action action => exact every_leaf.mpr (kept _ _ (every_leaf.mp every))
      | condition | acknowledge | scripted => exact every
  | branch state rule children ih =>
      have after : (mapActions change (.branch state rule children)).1 =
          .branch state rule (mapActionsIn change children).1 := rfl
      rw [every_branch] at every
      rw [after, every_branch]
      intro child inside
      obtain ⟨index, own⟩ := List.mem_iff_getElem?.mp inside
      rw [map_actions_in_child, Option.map_eq_some_iff] at own
      obtain ⟨before, there, rfl⟩ := own
      have member := List.mem_of_getElem? there
      exact ih before member (every before member)

end Node

namespace NodePlan

variable {timing : Timing}

theorem Counterpart.staffed {part : NodePlan} {state : NodeState} {content : Leaf}
    (counterpart : Counterpart timing part (.leaf state content)) : content.Staffed false := by
  cases content with
  | condition | acknowledge => trivial
  | action act =>
      obtain ⟨off, none, own⟩ := counterpart.off
      refine ⟨own, Action.is_live_eq_false_iff.mpr off, ?_⟩
      rw [none]
      exact fun cycle inside => nomatch inside
  | scripted kind answers setupFault =>
      generalize built : Node.leaf state (.scripted kind answers setupFault) = node at counterpart
      cases counterpart with
      | serving => cases built
      | alone => cases part <;> cases built

/-- Nobody is at work in a tree as it is built. -/
theorem node_staffed (timing : Timing) (plan : NodePlan) :
    (plan.node timing).Every (Leaf.Staffed false) := by
  intro path state content found
  obtain ⟨part, counterpart⟩ := counterpart_of_at found
  exact counterpart.staffed

end NodePlan

namespace LoadedTree

/-- A loaded tree is set up, and staffed. -/
structure Staffed (tree : LoadedTree) : Prop where
  isSetUp : tree.ticker.isSetUp = true
  ticker : tree.ticker.Staffed

variable {tree : LoadedTree}

theorem Staffed.every (staffed : tree.Staffed) : tree.ticker.root.Every (Leaf.Staffed true) := by
  have every := staffed.ticker
  rwa [Ticker.Staffed, staffed.isSetUp] at every

theorem Staffed.with_root (staffed : tree.Staffed) {after : LoadedTree}
    (isSetUp : after.ticker.isSetUp = tree.ticker.isSetUp)
    (every : after.ticker.root.Every (Leaf.Staffed true)) : after.Staffed := by
  have still := isSetUp.trans staffed.isSetUp
  refine ⟨still, ?_⟩
  rw [Ticker.Staffed, still]
  exact every

theorem Staffed.same_ticker (staffed : tree.Staffed) {after : LoadedTree}
    (same : after.ticker = tree.ticker) : after.Staffed := by
  constructor
  · rw [same]
    exact staffed.isSetUp
  · rw [same]
    exact staffed.ticker

theorem Staffed.loaded (plan : TreePlan) (timing : Timing) (id : TreeId) :
    (plan.loaded timing id).Staffed := by
  have fresh : Ticker.Staffed { root := plan.root.node timing } :=
    NodePlan.node_staffed timing plan.root
  exact ⟨fresh.setup.2.1, fresh.setup.2.2⟩

theorem Staffed.tick (staffed : tree.Staffed) (store : Store) : (tree.tick store).1.Staffed := by
  have every := Node.tick_staffed ⟨tree.ticker.tickCount, store⟩ staffed.every
  refine staffed.with_root rfl (every.map_actions ?_)
  intro name action own
  rw [Action.wake_eq_labour name .invalid]
  exact Action.Staffed.labour own name .invalid .begin

theorem Staffed.take_up (staffed : tree.Staffed) (store : Store) (instruction : Instruction) :
    (instruction.takeUp store tree).tree.Staffed := by
  cases answer : (instruction.takeUp store tree).answer with
  | error fault => exact staffed.same_ticker (ticker_of_refused answer)
  | ok reply =>
      cases instruction with
      | start | pause | resume | step | stop | unload | wait =>
          exact staffed.same_ticker (by simp [Instruction.takeUp, Handled.map])
      | acknowledge node identity =>
          obtain ⟨_, granted⟩ := answer_of_map answer
          obtain ⟨every, still⟩ := staffed.ticker.acknowledge (acknowledge_granted granted)
          exact ⟨still.trans staffed.isSetUp, every⟩
      | tickOnce =>
          cases active : tree.activeDrive? with
          | some drive =>
              rw [Instruction.takeUp, tick_once_of_active active] at answer
              cases answer
          | none =>
              rw [Instruction.takeUp, tick_once_of_idle active]
              have idle : Staffed { tree with drive := none } := staffed.same_ticker rfl
              exact idle.tick store

theorem Staffed.perform (staffed : tree.Staffed) (store : Store) :
    (tree.perform store).1.Staffed := by
  cases due : tree.isDue with
  | false =>
      rw [perform_of_not_due due]
      exact staffed
  | true =>
      obtain ⟨drive, own, ticking⟩ := is_due_iff.mp due
      rw [perform_of_due own ticking]
      exact (staffed.tick store).same_ticker rfl

/-- A worker may bring an action to stand differently only by what workers do. -/
def IsLabour (tree : LoadedTree) : Motion → Prop
  | .work path action => ∀ state before,
      tree.ticker.root.at? path = some (.leaf state (.action before)) →
        ∃ labours, action = (before.toil state.name state.status labours).1
  | .ask _ | .tick | .finish => True

theorem Staffed.undergo (staffed : tree.Staffed) (store : Store) {motion : Motion}
    (labour : tree.IsLabour motion) : (tree.undergo store motion).tree.Staffed := by
  cases motion with
  | ask | finish => exact staffed.same_ticker rfl
  | tick => exact staffed.perform store
  | work path action =>
      refine staffed.with_root rfl (staffed.every.change_at fun sub found every => ?_)
      cases sub with
      | branch => exact every
      | leaf state content =>
          cases content with
          | condition | acknowledge | scripted => exact every
          | action before =>
              obtain ⟨labours, rfl⟩ := labour state before found
              exact Node.every_leaf.mpr
                (Action.Staffed.toil (Node.every_leaf.mp every) state.name state.status labours)

theorem Staffed.round (staffed : tree.Staffed) (store : Store) (expires : Bool) :
    (tree.round store expires).1.Staffed := by
  have asked : (tree.ask expires).Staffed := staffed.same_ticker rfl
  exact (asked.perform store).same_ticker rfl

theorem Staffed.advance (staffed : tree.Staffed) (store : Store) :
    (tree.advance store).1.Staffed := by
  unfold LoadedTree.advance
  generalize tree.tickLimit = count
  induction count generalizing tree with
  | zero => exact staffed
  | succ count ih => exact ih (staffed.round store false)

end LoadedTree

namespace Manager

/-- Every loaded tree is staffed, and nobody is at work in what is left of the others. -/
structure Staffed (manager : Manager) : Prop where
  trees : ∀ tree ∈ manager.trees, tree.Staffed
  orphans : ∀ orphan ∈ manager.orphans, orphan.2.Staffed false

variable {manager : Manager}

theorem Staffed.of_new (new : manager.trees = []) (clear : manager.orphans = []) :
    manager.Staffed := by
  constructor
  · simp [new]
  · simp [clear]

theorem Staffed.record_all (staffed : manager.Staffed) (events : List Event) :
    (manager.recordAll events).Staffed := by
  rw [record_all_eq]
  exact ⟨staffed.trees, staffed.orphans⟩

theorem Staffed.replace (staffed : manager.Staffed) {tree : LoadedTree} (own : tree.Staffed) :
    (manager.replace tree).Staffed := by
  refine ⟨?_, staffed.orphans⟩
  intro other inside
  obtain ⟨before, there, rfl⟩ := List.mem_map.mp inside
  split
  · exact own
  · exact staffed.trees before there

theorem Staffed.handle {Answer : Type} {act : LoadedTree → Handled Answer}
    (keeps : ∀ tree, tree.Staffed → (act tree).tree.Staffed) (staffed : manager.Staffed)
    (id : TreeId) : (manager.handle id act).1.Staffed := by
  cases found : manager.tree? id with
  | none =>
      rw [handle_unknown found]
      exact staffed
  | some tree =>
      rw [Manager.handle, found]
      exact (staffed.replace (keeps tree (staffed.trees tree (tree_mem found)))).record_all _

theorem Staffed.announce (staffed : manager.Staffed) (id : TreeId)
    (about : LoadedTree → Option Event) : (manager.announce id about).Staffed :=
  staffed.handle (fun _ own => own) id

theorem Staffed.advance (staffed : manager.Staffed) (id : TreeId) : (manager.advance id).Staffed :=
  staffed.handle (fun _ own => own.advance manager.store) id

theorem Staffed.release (staffed : manager.Staffed) (id : TreeId) :
    (manager.handle id (·.release)).1.Staffed := by
  refine staffed.handle (fun tree own => ?_) id
  unfold LoadedTree.release
  split
  · exact own
  · exact own.same_ticker rfl

theorem Staffed.load_read (staffed : manager.Staffed) (read : Except PlanFault TreePlan) :
    (manager.loadRead read).1.Staffed := by
  cases read with
  | error fault => exact staffed
  | ok plan =>
      rw [loadRead]
      cases inspected : plan.inspect with
      | error defect =>
          rw [load_of_refused inspected]
          exact staffed
      | ok =>
          obtain ⟨disk, loaded⟩ := load_of_accepted inspected manager
          rw [loaded]
          refine ⟨?_, staffed.orphans⟩
          rw [List.forall_mem_append, List.forall_mem_singleton]
          exact ⟨staffed.trees, .loaded plan manager.timing _⟩

/-- What is left of a tree that is forgotten was told to stop. -/
theorem Staffed.forget (staffed : manager.Staffed) (id : TreeId) :
    (manager.forget id).1.Staffed := by
  cases found : manager.tree? id with
  | none =>
      rw [forget_unknown found]
      exact staffed
  | some tree =>
      have gone := Node.shutdown_staffed (staffed.trees tree (tree_mem found)).every
      rw [Manager.forget, found]
      dsimp only
      rw [record_eq]
      refine ⟨fun other inside => staffed.trees other (List.mem_of_mem_filter inside), ?_⟩
      rw [List.forall_mem_append]
      exact ⟨staffed.orphans, fun orphan inside => gone.actions (List.mem_of_mem_filter inside)⟩

theorem Staffed.conclude {after : Manager} {id : TreeId} {instruction : Instruction}
    {response : Response} (staffed : manager.Staffed)
    (concluded : manager.conclude id instruction = some (after, response)) : after.Staffed := by
  cases concludes concluded with
  | announced _ about => exact staffed.announce id about
  | stopped => exact (staffed.release id).announce id _
  | waited => exact staffed.release id
  | unloaded => exact staffed.forget id

/-- A manager that stopped driving a tree and is about to forget it. -/
def dismissed (manager : Manager) (id : TreeId) : Manager :=
  (manager.handle id (·.dismiss)).1.advance id

theorem unload_eq (manager : Manager) (id : TreeId) :
    manager.unload id = (manager.dismissed id).forget id := rfl

theorem Staffed.dismissed (staffed : manager.Staffed) (id : TreeId) :
    (manager.dismissed id).Staffed := by
  apply Staffed.advance
  exact staffed.handle (fun tree own => own.same_ticker tree.dismiss_ticker) id

theorem Staffed.unload (staffed : manager.Staffed) (id : TreeId) : (manager.unload id).1.Staffed :=
  (staffed.dismissed id).forget id

theorem ids_forget (manager : Manager) (id : TreeId) :
    (manager.forget id).1.ids = manager.ids.filter (· ≠ id) := by
  cases found : manager.tree? id with
  | none =>
      rw [forget_unknown found]
      have absent := tree_eq_none_iff.mp found
      refine (List.filter_eq_self.mpr fun other inside => ?_).symm
      rw [decide_eq_true_iff]
      rintro rfl
      exact absent inside
  | some tree =>
      obtain ⟨disk, orphans, forgotten⟩ := forget_of_known found
      rw [forgotten, ids, ids, List.filter_map]
      rfl

theorem ids_unload (manager : Manager) (id : TreeId) :
    (manager.unload id).1.ids = manager.ids.filter (· ≠ id) := by
  rw [unload_eq, ids_forget, dismissed, advance, affect, ids_handle, ids_handle]

theorem ids_unload_all (ids : List TreeId) (manager : Manager) :
    (ids.foldl (fun current id => (current.unload id).1) manager).ids =
      manager.ids.filter (· ∉ ids) := by
  induction ids generalizing manager with
  | nil => simp
  | cons id rest ih =>
      rw [List.foldl_cons, ih, ids_unload, List.filter_filter]
      apply List.filter_congr
      intro other _
      simp [Bool.and_comm]

/-- A manager that is dropped has no tree any more. -/
theorem close_trees (manager : Manager) : manager.close.trees = [] := by
  have none : manager.close.ids = [] := by
    rw [close, ← ids, ids_unload_all, List.filter_eq_nil_iff]
    intro id inside
    simpa using inside
  exact List.map_eq_nil_iff.mp none

theorem Staffed.close (staffed : manager.Staffed) : manager.close.Staffed := by
  unfold Manager.close
  generalize manager.trees.map (·.id) = ids
  induction ids generalizing manager with
  | nil => exact staffed
  | cons id rest ih => exact ih (staffed.unload id)

/-- The actions with a worker at work are those of the loaded trees. Whatever tree is shut down,
none of its actions has a worker at work after that. -/
structure Manned (manager : Manager) : Prop where
  loaded : ∀ tree ∈ manager.trees, ∀ path state action,
    tree.ticker.root.at? path = some (.leaf state (.action action)) → action.liveWorkers = 1
  unloaded : ∀ orphan ∈ manager.orphans, orphan.2.liveWorkers = 0
  leaving : ∀ tree ∈ manager.trees, ∀ path state action,
    tree.ticker.shutdown.1.root.at? path = some (.leaf state (.action action)) →
      action.liveWorkers = 0

theorem Staffed.manned (staffed : manager.Staffed) : manager.Manned where
  loaded tree inside path state _ found :=
    Action.Staffed.live_workers ((staffed.trees tree inside).every path state _ found)
  unloaded orphan inside := (staffed.orphans orphan inside).live_workers
  leaving tree inside path state _ found :=
    Action.Staffed.live_workers
      (Node.shutdown_staffed (staffed.trees tree inside).every path state _ found)

end Manager

namespace Service

open Manager

/-- What happens to the workers of a service at a moment is what workers do. -/
def IsLabour (service : Service) : Moment → Prop
  | .happening (.motion id motion) =>
      ∀ tree, service.manager.tree? id = some tree → tree.IsLabour motion
  | .happening (.vary _ orphans) => ∀ orphan ∈ orphans, ∃ before ∈ service.manager.orphans,
      ∃ shown labours, orphan = (before.1, (before.2.toil before.1 shown labours).1)
  | .happening (.pass _) | .order _ | .answer => True

/-- At every moment of a run, as far as it goes. -/
def OnlyLabours : Service → List Moment → Prop
  | _, [] => True
  | service, moment :: rest =>
      service.IsLabour moment ∧
        ∀ next entries, service.meet moment = some (next, entries) → next.OnlyLabours rest

theorem staffed_of_meet {service next : Service} {moment : Moment} {entries : List Entry}
    (staffed : service.manager.Staffed) (labour : service.IsLabour moment)
    (met : service.meet moment = some (next, entries)) : next.manager.Staffed := by
  cases moment with
  | answer =>
      obtain ⟨id, instruction, after, response, -, concluded, rfl, -⟩ :=
        meet_answer_eq_some.mp met
      exact staffed.conclude concluded
  | order order =>
      obtain ⟨-, rfl, -⟩ := meet_order_eq_some.mp met
      cases order with
      | load read => exact staffed.load_read read
      | instruct id instruction =>
          rw [obey_manager]
          exact staffed.handle (fun tree own => own.take_up service.manager.store instruction) id
  | happening happening =>
      obtain ⟨rfl, -⟩ := meet_happening_eq_some.mp met
      cases happening with
      | pass now => exact ⟨staffed.trees, staffed.orphans⟩
      | vary store orphans =>
          refine ⟨staffed.trees, fun orphan inside => ?_⟩
          obtain ⟨before, there, shown, labours, rfl⟩ := labour orphan inside
          exact (staffed.orphans before there).toil before.1 shown labours
      | motion id motion =>
          rw [undergo]
          cases found : service.manager.tree? id with
          | none => exact staffed
          | some tree =>
              have own := staffed.trees tree (tree_mem found)
              exact (staffed.replace (own.undergo _ (labour tree found))).record_all _

theorem staffed_of_run {service last : Service} {moments : List Moment} {chronicle : List Entry}
    (staffed : service.manager.Staffed) (labours : service.OnlyLabours moments)
    (ran : service.run moments = some (last, chronicle)) : last.manager.Staffed := by
  induction moments generalizing service chronicle with
  | nil =>
      cases ran
      exact staffed
  | cons moment rest ih =>
      obtain ⟨next, entries, more, met, onward, -⟩ := run_cons_eq_some.mp ran
      exact ih (staffed_of_meet staffed labours.1 met) (labours.2 next entries met) onward

/-- Whatever is done to a ticker, every action of its tree, at any depth, has one worker at work
while the ticker is set up and none otherwise, and nothing meets a worker that is not as expected.
Whatever a manager is told, and whatever its drives and workers do meanwhile, the actions with a
worker at work are those of its loaded trees: neither unloading a tree nor dropping the manager
leaves one behind. -/
theorem workers_in_step :
    (∀ (plan : NodePlan) timing, (plan.node timing).Every (Leaf.Staffed false)) ∧
    (∀ root : Node, root.Every (Leaf.Staffed false) → ∀ deeds,
      (({ root } : Ticker).after deeds).Orderly) ∧
    ∀ manager : Manager, manager.trees = [] → manager.orphans = [] →
      ∀ moments service chronicle, OnlyLabours { manager } moments →
        run { manager } moments = some (service, chronicle) →
          service.manager.Manned ∧
          (∀ id after response,
            service.manager.conclude id .unload = some (after, response) →
              after.ids = service.manager.ids.filter (· ≠ id) ∧ after.Manned) ∧
          (∀ id, (service.manager.dismissed id).Manned ∧
            (service.manager.unload id).1.ids = service.manager.ids.filter (· ≠ id) ∧
            (service.manager.unload id).1.Manned) ∧
          service.manager.close.trees = [] ∧ service.manager.close.Manned := by
  refine ⟨fun plan timing => NodePlan.node_staffed timing plan, ?_, ?_⟩
  · intro root fresh deeds
    have staffed : Ticker.Staffed { root } := fresh
    exact (staffed.after deeds).orderly
  · intro manager new clear moments service chronicle labours ran
    have staffed := staffed_of_run (.of_new new clear) labours ran
    refine ⟨staffed.manned, ?_, fun id => ⟨(staffed.dismissed id).manned, ids_unload _ id,
      (staffed.unload id).manned⟩, close_trees _, staffed.close.manned⟩
    intro id after response concluded
    refine ⟨?_, (staffed.conclude concluded).manned⟩
    rw [Manager.conclude] at concluded
    split at concluded
    · cases concluded
    · cases concluded
      exact ids_forget _ id

end Service

/-! A climb that is given up. -/

namespace GivenUp
open Service

def deeds : List Ticker.Deed :=
  [.setup, .setup, .tick {}, .labour [0, 1] .begin, .shutdown, .shutdown,
    .run {} true 2 { policy := .count 2 10 }]

def loaded : Service := (obey { manager := {} } (.load (.ok TreePlan.climb))).1

def ticked : Service := (loaded.obey (.instruct (.number 0) .tickOnce)).1

/-- The action of the climb once its worker has seen that there is something to do. -/
def rising : Option Action :=
  match (ticked.manager.tree? (.number 0)).bind (·.ticker.root.at? [0, 1]) with
  | some (.leaf state (.action before)) =>
      some (before.toil state.name state.status [.held (.complete false)]).1
  | _ => none

theorem rising_known : rising.isSome = true := by decide +kernel

/-- The climb is ticked once, its worker sets to work, and it is unloaded. -/
def moments : List Moment :=
  [.order (.load (.ok TreePlan.climb)), .order (.instruct (.number 0) .tickOnce),
    .happening (.motion (.number 0) (.work [0, 1] (rising.get rising_known))),
    .order (.instruct (.number 0) .unload), .answer]

theorem only_labours : OnlyLabours { manager := {} } moments := by
  refine ⟨trivial, fun first _ met => ⟨trivial, fun second _ metNext => ⟨?_, fun _ _ _ =>
    ⟨trivial, fun _ _ _ => ⟨trivial, fun _ _ _ => trivial⟩⟩⟩⟩⟩
  obtain rfl : first = loaded := by
    cases met
    rfl
  obtain rfl : second = ticked := by
    cases metNext
    rfl
  intro tree found state before there
  have known : rising = some (before.toil state.name state.status [.held (.complete false)]).1 := by
    rw [rising, found, Option.bind_some, there]
  refine ⟨[.held (.complete false)], ?_⟩
  simp only [known, Option.get_some]

theorem possible : (run { manager := {} } moments).isSome = true := by decide +kernel

theorem nobody_left :
    (({ root := TreePlan.climb.root.node {} } : Ticker).after deeds).Orderly ∧
      ∃ service chronicle, run { manager := {} } moments = some (service, chronicle) ∧
        service.manager.orphans.length = 1 ∧ service.manager.Manned ∧
        service.manager.close.trees = [] := by
  obtain ⟨built, tickers, managers⟩ := workers_in_step
  obtain ⟨⟨service, chronicle⟩, ran⟩ := Option.isSome_iff_exists.mp possible
  have left : (run { manager := {} } moments).map (·.1.manager.orphans.length) = some 1 := by
    decide +kernel
  rw [ran, Option.map_some, Option.some_inj] at left
  obtain ⟨manned, -, -, none, -⟩ := managers {} rfl rfl _ service chronicle only_labours ran
  have fresh := built TreePlan.climb.root {}
  exact ⟨tickers _ fresh deeds, service, chronicle, ran, left, manned, none⟩

end GivenUp

end BehaviorTree
