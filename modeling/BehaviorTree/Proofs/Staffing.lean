import BehaviorTree.Proofs.Conduct
import BehaviorTree.Proofs.Incidents
import BehaviorTree.Proofs.Naming
import BehaviorTree.Ticker

/-!
Who is at work in a tree. The ticker, every action and the worker of every action keep a record
each of whether they are set up. The records agree whatever is done to the ticker and whatever the
workers do, so every action has one worker at work while the ticker is set up, and none otherwise.
-/

namespace BehaviorTree

namespace Action

/-- The threads of an action that were not told to stop: that of the worker it holds on to, and
those of cycles that it let go of. -/
def liveWorkers (action : Action) : Nat :=
  (if action.isLive then 1 else 0) + action.detached.countP (!·.stopped)

/-- Action and worker agree, and every cycle that was let go of was told to stop. -/
structure Staffed (isSetUp : Bool) (action : Action) : Prop where
  own : action.isSetUp = isSetUp
  worker : action.isLive = isSetUp
  told : ∀ cycle ∈ action.detached, cycle.stopped = true

variable {isSetUp : Bool} {action : Action}

theorem Staffed.live_workers (staffed : action.Staffed isSetUp) :
    action.liveWorkers = if isSetUp then 1 else 0 := by
  have none : action.detached.countP (!·.stopped) = 0 := by
    rw [List.countP_eq_zero]
    intro cycle inside
    rw [staffed.told cycle inside]
    decide
  rw [liveWorkers, none, staffed.worker, Nat.add_zero]

theorem is_live_eq_false_iff : action.isLive = false ↔ action.engagement = .off := by
  unfold isLive
  cases action.engagement <;> simp

/-- Nobody was started before. -/
theorem Staffed.setup (staffed : action.Staffed false) (name : String) :
    ∃ started, action.setup name = .ok started ∧ started.Staffed true := by
  have off := is_live_eq_false_iff.mp staffed.worker
  rw [Action.setup, staffed.own, start, off]
  exact ⟨_, rfl, rfl, rfl, staffed.told⟩

/-- There is somebody to stop. -/
theorem Staffed.stop (staffed : action.Staffed true) (name : String) :
    ∃ stopped, action.stop name = .ok stopped := by
  have live := staffed.worker
  unfold isLive at live
  unfold Action.stop
  cases engaged : action.engagement with
  | off =>
      rw [engaged] at live
      cases live
  | idle => exact ⟨_, rfl⟩
  | busy cycle => exact ⟨_, rfl⟩

theorem shutdown_of_off (off : action.isSetUp = false) (name : String) :
    action.shutdown name = action := by
  rw [shutdown, off]
  rfl

theorem Staffed.shutdown (staffed : action.Staffed isSetUp) (name : String) :
    (action.shutdown name).Staffed false := by
  cases isSetUp with
  | false =>
      rw [shutdown_of_off staffed.own]
      exact staffed
  | true =>
      obtain ⟨own, worker, told⟩ := staffed
      unfold isLive at worker
      rw [Action.shutdown, own, if_pos rfl, Action.stop]
      cases engaged : action.engagement with
      | off =>
          rw [engaged] at worker
          cases worker
      | idle => exact ⟨rfl, rfl, told⟩
      | busy cycle =>
          refine ⟨rfl, rfl, fun other inside => ?_⟩
          rcases List.mem_append.mp inside with before | now
          · exact told other before
          · rw [List.mem_singleton.mp now]
            rfl

theorem Staffed.initialise (staffed : action.Staffed isSetUp) :
    action.initialise.Staffed isSetUp := ⟨staffed.own, staffed.worker, staffed.told⟩

theorem Staffed.advance (staffed : action.Staffed isSetUp) (name : String) (attempt : UInt64)
    (result : Progress × List Effect) :
    (Action.advance name action attempt result).action.Staffed isSetUp := by
  rw [advance_action]
  exact ⟨staffed.own, staffed.worker, staffed.told⟩

theorem Staffed.held {advance : Advance} (staffed : advance.action.Staffed true) :
    advance.held.action.Staffed true := by
  obtain ⟨attempt, progress, action, events⟩ := advance
  cases progress <;> exact ⟨staffed.own, rfl, staffed.told⟩

theorem Staffed.of_detached {advance : Advance} {others : List Cycle}
    (staffed : advance.action.Staffed isSetUp) (told : ∀ cycle ∈ others, cycle.stopped = true)
    (onward : ∀ next, advance.progress = .waiting next → next.stopped = true) :
    (advance.detached others).action.Staffed isSetUp := by
  obtain ⟨attempt, progress, action, events⟩ := advance
  cases progress with
  | ended status exit => exact ⟨staffed.own, staffed.worker, told⟩
  | waiting next =>
      exact ⟨staffed.own, staffed.worker, List.forall_mem_cons.mpr ⟨onward next rfl, told⟩⟩

theorem live_of_engaged (engaged : action.engagement ≠ .off) : action.isLive = true := by
  rw [← Bool.not_eq_false, is_live_eq_false_iff]
  exact engaged

/-- Work hires nobody and lets nobody go. -/
theorem Staffed.labour (staffed : action.Staffed isSetUp) (name : String) (shown : Status)
    (labour : Labour) : (action.labour name shown labour).1.Staffed isSetUp := by
  have live : action.engagement ≠ .off → isSetUp = true :=
    fun engaged => staffed.worker.symm.trans (live_of_engaged engaged)
  cases labour with
  | begin =>
      rw [Action.labour]
      cases found : action.begin? name with
      | none => exact staffed
      | some begun =>
          obtain ⟨engaged, -, rfl⟩ := begin_eq_some found
          obtain rfl := live (by rw [engaged]; simp)
          have cleared : Staffed true { action with gate := action.gate.clear } :=
            ⟨staffed.own, staffed.worker, staffed.told⟩
          exact (cleared.advance name _ _).held
  | held answer =>
      rw [Action.labour]
      cases engaged : action.engagement with
      | off | idle => exact staffed
      | busy cycle =>
          obtain rfl := live (by rw [engaged]; simp)
          dsimp only
          rw [carryOn]
          split
          · exact (staffed.advance name _ _).held
          · exact staffed
  | detached place answer =>
      rw [Action.labour]
      cases found : action.detached[place]? with
      | none => exact staffed
      | some cycle =>
          dsimp only
          rw [carryOn]
          split
          next fits =>
            refine (staffed.advance name _ _).of_detached ?_ ?_
            · exact fun other inside => staffed.told other (List.mem_of_mem_eraseIdx inside)
            · intro next waiting
              rw [(Cycle.resume_stopped fits waiting).1]
              exact staffed.told cycle (List.mem_of_getElem? found)
          next => exact staffed
  | wait milliseconds =>
      refine ⟨staffed.own, ?_, ?_⟩
      · rw [← staffed.worker]
        unfold Action.labour isLive after
        cases action.engagement <;> rfl
      · intro cycle inside
        obtain ⟨before, there, rfl⟩ := List.mem_map.mp inside
        exact staffed.told before there

theorem wake_eq_labour (name : String) (shown : Status) (action : Action) :
    (action.wake name).1 = (action.labour name shown .begin).1 := by
  rw [wake, labour]
  cases action.begin? name <;> rfl

end Action

/-- The action of a leaf is staffed, and a thread can be had for whatever else is set up there. -/
def Leaf.Staffed (isSetUp : Bool) : Leaf → Prop
  | .action act => act.Staffed isSetUp
  | .scripted _ _ setupFault => setupFault = none
  | .condition _ | .acknowledge _ _ => True

namespace Node

/-! What holds of every leaf of a tree. -/

def Every (holds : Leaf → Prop) (node : Node) : Prop :=
  ∀ path state content, node.at? path = some (.leaf state content) → holds content

variable {holds later : Leaf → Prop} {node : Node}

theorem every_leaf {state : NodeState} {content : Leaf} :
    Every holds (.leaf state content) ↔ holds content := by
  constructor
  · exact fun every => every [] state content rfl
  · rintro own (_ | ⟨index, path⟩) other inner found
    · cases found
      exact own
    · simp [at_cons, children] at found

theorem every_branch {state : NodeState} {rule : Rule} {children : List Node} :
    Every holds (.branch state rule children) ↔ ∀ child ∈ children, Every holds child := by
  constructor
  · intro every child member path inner content found
    obtain ⟨index, own⟩ := List.mem_iff_getElem?.mp member
    exact every (index :: path) inner content (at_branch_eq_some.mpr ⟨child, own, found⟩)
  · rintro each (_ | ⟨index, path⟩) inner content found
    · cases found
    · obtain ⟨child, own, below⟩ := at_branch_eq_some.mp found
      exact each child (List.mem_of_getElem? own) path inner content below

theorem Every.halt (every : node.Every holds) : node.halt.node.Every holds := by
  intro path state content found
  rw [at_halt, Option.map_eq_some_iff] at found
  obtain ⟨before, there, same⟩ := found
  cases before with
  | leaf state content =>
      cases same
      exact every path _ _ there
  | branch state rule children =>
      rw [halt_branch] at same
      cases same

theorem Every.stilled (every : node.Every holds) : node.stilled.Every holds := by
  unfold Node.stilled
  split
  · exact every.halt
  · exact every

theorem Every.concluded (every : node.Every holds) (answer : Status) :
    (concluded answer node).Every holds := by
  unfold Node.concluded
  split
  · exact every
  · exact every.stilled

/-- A tick touches a leaf only by entering and updating it. -/
theorem Every.tick {surroundings : Surroundings}
    (entered : ∀ content, holds content → holds content.initialise)
    (updated : ∀ content, holds content → holds (content.update surroundings).2)
    (every : node.Every holds) : (node.tick surroundings).node.Every holds := by
  induction node with
  | leaf state content =>
      rw [every_leaf] at every
      rw [Node.tick, tickLeaf]
      refine every_leaf.mpr (updated _ ?_)
      split
      · exact entered _ every
      · exact every
  | branch state rule children ih =>
      rw [every_branch] at every
      rw [tick_branch, conclude_node, every_branch]
      intro child inside
      obtain ⟨decided, member, rfl⟩ := List.mem_map.mp inside
      obtain ⟨index, own⟩ := List.mem_iff_getElem?.mp member
      rw [decision_children, Option.map_eq_some_iff] at own
      obtain ⟨before, there, rfl⟩ := own
      have first := List.mem_of_getElem? there
      apply Every.concluded
      cases treatment surroundings (rule.atEntry state.status) children index with
      | ticked => exact ih before first (every before first)
      | stopped => exact (every before first).stilled
      | rested => exact every before first

theorem modify_every {children : List Node} {index : Nat} {change : Node → Node}
    (each : ∀ child ∈ children, Every holds child)
    (kept : ∀ child, children[index]? = some child → Every holds (change child)) :
    ∀ child ∈ children.modify index change, Every holds child := by
  intro child inside
  obtain ⟨place, own⟩ := List.mem_iff_getElem?.mp inside
  rw [List.getElem?_modify, Option.map_eq_map, Option.map_eq_some_iff] at own
  obtain ⟨before, there, rfl⟩ := own
  split
  next here => exact kept before (here ▸ there)
  next => exact each before (List.mem_of_getElem? there)

/-- A change of one node matters to the leaves only there. -/
theorem Every.change_at {change : Node → Node} {path : Path}
    (kept : ∀ sub, node.at? path = some sub → sub.Every holds → (change sub).Every holds)
    (every : node.Every holds) : (node.changeAt change path).Every holds := by
  induction path generalizing node with
  | nil => exact kept node rfl every
  | cons index path ih =>
      cases node with
      | leaf state content => exact every
      | branch state rule children =>
          rw [every_branch] at every
          rw [change_at_branch, every_branch]
          apply modify_every every
          intro child own
          apply ih _ (every child (List.mem_of_getElem? own))
          exact fun sub found => kept sub (at_branch_eq_some.mpr ⟨child, own, found⟩)

theorem Every.modify {change : Node → Node}
    (kept : ∀ sub : Node, sub.Every holds → (change sub).Every holds) (name : String)
    (every : node.Every holds) : ((node.modify? name change).getD node).Every holds := by
  rcases finds_or_misses name node with ⟨path, finds⟩ | misses
  · rw [finds.changed, Option.getD_some]
    exact every.change_at fun sub _ => kept sub
  · rw [misses.changed, Option.getD_none]
    exact every

theorem Every.acknowledge (kept : ∀ permitted before after,
    holds (.acknowledge permitted before) → holds (.acknowledge permitted after))
    (identity : String) (every : node.Every holds) : (node.acknowledge identity).Every holds := by
  cases node with
  | branch state rule children => exact every
  | leaf state content =>
      cases content with
      | acknowledge permitted acknowledgedBy =>
          rw [Node.acknowledge]
          split
          · exact every_leaf.mpr (kept _ _ _ (every_leaf.mp every))
          · exact every
      | condition | action | scripted => exact every

theorem Every.actions {name : String} {action : Action} (every : node.Every holds)
    (inside : (name, action) ∈ node.actions) : holds (.action action) := by
  have leaves : ∀ {node : Node}, node.Every holds → ∀ entry ∈ node.leaves, holds entry.2 := by
    intro node
    induction node with
    | leaf state content =>
        intro every entry member
        rw [List.mem_singleton.mp member]
        exact every_leaf.mp every
    | branch state rule children ih =>
        intro every
        rw [every_branch] at every
        rw [Node.leaves]
        induction children with
        | nil => simp [leavesIn]
        | cons child rest later =>
            rw [List.forall_mem_cons] at every ih
            rw [leavesIn, List.forall_mem_append]
            exact ⟨ih.1 every.1, later ih.2 every.2⟩
  obtain ⟨⟨state, content⟩, member, same⟩ := List.mem_filterMap.mp inside
  cases content with
  | action own =>
      cases same
      exact leaves every _ member
  | condition | acknowledge | scripted => cases same

/-! Staffed trees. -/

variable {isSetUp : Bool}

theorem tick_staffed (surroundings : Surroundings) (every : node.Every (Leaf.Staffed isSetUp)) :
    (node.tick surroundings).node.Every (Leaf.Staffed isSetUp) := by
  apply Every.tick _ _ every
  · intro content staffed
    cases content with
    | action action => exact Action.Staffed.initialise staffed
    | condition | acknowledge | scripted => exact staffed
  · intro content staffed
    cases content with
    | action | acknowledge => exact staffed
    | condition test => cases test <;> trivial
    | scripted kind answers setupFault =>
        rcases answers with _ | ⟨answer, _ | ⟨next, rest⟩⟩ <;> exact staffed

/-- Nothing is in the way of setting up, and everybody is started. -/
theorem setup_staffed (every : node.Every (Leaf.Staffed false)) :
    node.setup.fault = none ∧ node.setup.node.Every (Leaf.Staffed true) := by
  induction node with
  | leaf state content =>
      rw [every_leaf] at every
      cases content with
      | condition | acknowledge => exact ⟨rfl, every_leaf.mpr trivial⟩
      | action action =>
          obtain ⟨started, ready, staffed⟩ := Action.Staffed.setup every state.name
          rw [setup, setupLeaf, ready]
          exact ⟨rfl, every_leaf.mpr staffed⟩
      | scripted kind answers setupFault =>
          cases (every : setupFault = none)
          exact ⟨rfl, every_leaf.mpr rfl⟩
  | branch state rule children ih =>
      rw [every_branch] at every
      have all : (setupAll children).fault = none ∧
          ∀ child ∈ (setupAll children).children, child.Every (Leaf.Staffed true) := by
        induction children with
        | nil => simp [setupAll]
        | cons child rest later =>
            rw [List.forall_mem_cons] at every ih
            obtain ⟨ready, first⟩ := ih.1 every.1
            obtain ⟨others, staffed⟩ := later ih.2 every.2
            rw [setupAll, ready]
            exact ⟨others, List.forall_mem_cons.mpr ⟨first, staffed⟩⟩
      exact ⟨all.1, every_branch.mpr all.2⟩

theorem shutdown_staffed (every : node.Every (Leaf.Staffed isSetUp)) :
    node.shutdown.1.Every (Leaf.Staffed false) := by
  intro path state content found
  rw [at_shutdown, Option.map_eq_some_iff] at found
  obtain ⟨before, there, same⟩ := found
  cases before with
  | branch => cases same
  | leaf known own =>
      have staffed := every path known own there
      cases own with
      | action action =>
          cases same
          exact Action.Staffed.shutdown staffed _
      | condition | acknowledge | scripted =>
          cases same
          exact staffed

/-- Where nobody is at work nobody is stopped. -/
theorem shutdown_of_off (every : node.Every (Leaf.Staffed false)) : node.shutdown.1 = node := by
  induction node with
  | leaf state content =>
      cases content with
      | action action =>
          have off := Action.Staffed.own (every_leaf.mp every)
          rw [shutdown, shutdownLeaf, Action.shutdown_of_off off]
      | condition | acknowledge | scripted => rfl
  | branch state rule children ih =>
      rw [every_branch] at every
      have after : (shutdown (.branch state rule children)).1 =
          .branch state rule (shutdownAll children).1 := rfl
      rw [after, shutdown_all_eq_map]
      congr 1
      rw [List.map_congr_left fun child member => ih child member (every child member)]
      exact List.map_id' children

/-- The worker of an action goes on, if there is an action. -/
def labour (labour : Labour) : Node → Node
  | .leaf state (.action action) =>
      .leaf state (.action (action.labour state.name state.status labour).1)
  | other => other

theorem labour_staffed (labour : Labour) (every : node.Every (Leaf.Staffed isSetUp)) :
    (node.labour labour).Every (Leaf.Staffed isSetUp) := by
  cases node with
  | branch state rule children => exact every
  | leaf state content =>
      cases content with
      | action action =>
          exact every_leaf.mpr (Action.Staffed.labour (every_leaf.mp every) _ _ labour)
      | condition | acknowledge | scripted => exact every

end Node

namespace Ticker

/-- What a ticker is told to do, and what is done to its tree. Work goes on between any two of
these; work in the course of a tick or a run stands between the ticks. -/
inductive Deed where
  | setup
  | tick (store : Store)
  | run (store : Store) (expires : Bool) (limit : Nat) (driver : Driver)
  | shutdown
  | halt
  | haltNamed (name : String)
  | acknowledge (name identity : String)
  | labour (path : Node.Path) (labour : Labour)

def withRoot (ticker : Ticker) (root : Node) : Ticker := { ticker with root }

def undergo (ticker : Ticker) : Deed → Ticker
  | .setup => ticker.setup.ticker
  | .tick store => (ticker.tick store).ticker
  | .run store expires limit driver => (ticker.drive store expires limit driver).ticker
  | .shutdown => ticker.shutdown.1
  | .halt => ticker.withRoot ticker.root.halt.node
  | .haltNamed name =>
      ticker.withRoot ((ticker.root.modify? name (·.halt.node)).getD ticker.root)
  | .acknowledge name identity => (ticker.acknowledge name identity).toOption.getD ticker
  | .labour path labour => ticker.withRoot (ticker.root.changeAt (Node.labour labour) path)

def after (ticker : Ticker) (deeds : List Deed) : Ticker := deeds.foldl undergo ticker

/-- The record of the ticker agrees with those of its actions. -/
def Staffed (ticker : Ticker) : Prop := ticker.root.Every (Leaf.Staffed ticker.isSetUp)

variable {ticker : Ticker}

theorem Staffed.setup (staffed : ticker.Staffed) :
    ticker.setup.fault = none ∧ ticker.setup.ticker.isSetUp = true ∧
      ticker.setup.ticker.Staffed := by
  unfold Ticker.setup
  split
  next known => exact ⟨rfl, known, staffed⟩
  next unknown =>
    rw [Staffed, Bool.eq_false_iff.mpr unknown] at staffed
    obtain ⟨ready, every⟩ := Node.setup_staffed staffed
    rw [Staffed]
    dsimp only
    rw [ready]
    exact ⟨rfl, rfl, every⟩

theorem Staffed.tick (staffed : ticker.Staffed) (store : Store) :
    (ticker.tick store).ticker.Staffed :=
  Node.tick_staffed _ staffed

theorem Staffed.run (staffed : ticker.Staffed) (store : Store) (expires : Bool) (limit : Nat)
    (driver : Driver) : (run store expires limit ticker driver).ticker.Staffed ∧
      (run store expires limit ticker driver).ticker.isSetUp = ticker.isSetUp := by
  induction limit generalizing ticker driver with
  | zero => exact ⟨staffed, rfl⟩
  | succ limit ih =>
      rw [Ticker.run]
      split
      next waited _ => exact ih (staffed.tick store) waited.recordTick
      next => exact ⟨staffed, rfl⟩

theorem Staffed.drive (staffed : ticker.Staffed) (store : Store) (expires : Bool) (limit : Nat)
    (driver : Driver) :
    let driven := ticker.drive store expires limit driver
    driven.ticker.Staffed ∧ driven.ticker.isSetUp = true ∧
      driven.result = .ok driven.ticker.lastStatus := by
  obtain ⟨ready, isSetUp, every⟩ := staffed.setup
  obtain ⟨onward, still⟩ := every.run store expires limit driver
  rw [Ticker.drive, ready]
  exact ⟨onward, still.trans isSetUp, rfl⟩

theorem Staffed.shutdown (staffed : ticker.Staffed) : ticker.shutdown.1.Staffed :=
  Node.shutdown_staffed staffed

theorem Staffed.acknowledge (staffed : ticker.Staffed) {name identity : String} {after : Ticker}
    (granted : ticker.acknowledge name identity = .ok after) :
    after.Staffed ∧ after.isSetUp = ticker.isSetUp := by
  unfold Ticker.acknowledge at granted
  split at granted
  · cases granted
  · split at granted
    · cases granted
    · cases granted
      refine ⟨Node.Every.modify (fun _ every => ?_) name staffed, rfl⟩
      exact every.acknowledge (fun _ _ _ known => known) identity

theorem Staffed.undergo (staffed : ticker.Staffed) (deed : Deed) :
    (ticker.undergo deed).Staffed := by
  cases deed with
  | setup => exact staffed.setup.2.2
  | tick store => exact staffed.tick store
  | run store expires limit driver => exact (staffed.drive store expires limit driver).1
  | shutdown => exact staffed.shutdown
  | halt => exact Node.Every.halt staffed
  | haltNamed name => exact Node.Every.modify (fun _ => Node.Every.halt) name staffed
  | acknowledge name identity =>
      rw [Ticker.undergo]
      cases answer : ticker.acknowledge name identity with
      | error fault => exact staffed
      | ok after => exact (staffed.acknowledge answer).1
  | labour path labour =>
      exact Node.Every.change_at (fun _ _ => Node.labour_staffed labour) staffed

theorem Staffed.after (staffed : ticker.Staffed) (deeds : List Deed) :
    (ticker.after deeds).Staffed := by
  induction deeds generalizing ticker with
  | nil => exact staffed
  | cons deed rest ih => exact ih (staffed.undergo deed)

/-- Every action has one worker at work while the ticker is set up and none otherwise. Setting up
what is set up and shutting down what is not change nothing, and neither meets a worker that is not
as expected. -/
structure Orderly (ticker : Ticker) : Prop where
  records : ∀ path state action, ticker.root.at? path = some (.leaf state (.action action)) →
    action.isSetUp = ticker.isSetUp ∧ action.isLive = ticker.isSetUp
  workers : ∀ path state action, ticker.root.at? path = some (.leaf state (.action action)) →
    action.liveWorkers = if ticker.isSetUp then 1 else 0
  setup : ticker.setup.fault = none ∧ ticker.setup.ticker.isSetUp = true
  run : ∀ store expires limit driver, ∃ status,
    (ticker.drive store expires limit driver).result = .ok status
  shutdown : ticker.shutdown.1.isSetUp = false
  setup_again : ticker.isSetUp = true → ticker.setup = { ticker }
  shutdown_again : ticker.isSetUp = false → ticker.shutdown.1.root = ticker.root
  starts : ticker.isSetUp = false → ∀ path state action,
    ticker.root.at? path = some (.leaf state (.action action)) →
      ∃ started, action.start state.name = .ok started
  stops : ticker.isSetUp = true → ∀ path state action,
    ticker.root.at? path = some (.leaf state (.action action)) →
      ∃ stopped, action.stop state.name = .ok stopped

theorem Staffed.orderly (staffed : ticker.Staffed) : ticker.Orderly where
  records path state _ found :=
    have own := staffed path state _ found
    ⟨Action.Staffed.own own, Action.Staffed.worker own⟩
  workers path state action found := Action.Staffed.live_workers (staffed path state _ found)
  setup := ⟨staffed.setup.1, staffed.setup.2.1⟩
  run store expires limit driver := ⟨_, (staffed.drive store expires limit driver).2.2⟩
  shutdown := rfl
  setup_again isSetUp := by rw [Ticker.setup, if_pos isSetUp]
  shutdown_again off := by
    rw [Staffed, off] at staffed
    exact Node.shutdown_of_off staffed
  starts off path state action found := by
    rw [Staffed, off] at staffed
    have idle := Action.is_live_eq_false_iff.mp (Action.Staffed.worker (staffed path state _ found))
    exact ⟨_, by rw [Action.start, idle]⟩
  stops on path state action found := by
    rw [Staffed, on] at staffed
    exact Action.Staffed.stop (staffed path state _ found) state.name

end Ticker

end BehaviorTree
