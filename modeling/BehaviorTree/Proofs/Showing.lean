import BehaviorTree.Proofs.Consent
import BehaviorTree.Proofs.Stints

/-!
What a manager shows of its trees. A tree is shown in several ways: at a glance in the list of all
trees, by the snapshot of its last tick, and by the report of its nodes. However it was ticked, they
all agree on its last tick, and what happens to other trees changes none of them.
-/

namespace BehaviorTree

namespace Node

/-- How a node is recorded when a tick is done with it. -/
def badge (node : Node) : Visit := { name := node.name, status := node.status }

theorem badge_shallow : Shallow badge := fun _ _ _ _ => rfl

theorem change_at_badge {change : Node → Node}
    (below : ∀ node, (change node).children = node.children)
    (kept : ∀ node, (change node).badge = node.badge) (path : Path) (node : Node) :
    (node.changeAt change path).badge = node.badge :=
  Option.some.inj (at_change_at_kept badge_shallow below kept path node [])

theorem with_action_badge (action : Action) (node : Node) :
    (node.withAction action).badge = node.badge := by
  cases node with
  | branch state rule children => rfl
  | leaf state content => cases content <;> rfl

theorem acknowledge_badge (identity : String) (node : Node) :
    (node.acknowledge identity).badge = node.badge := by
  cases node with
  | branch state rule children => rfl
  | leaf state content =>
      cases content with
      | acknowledge permitted acknowledgedBy =>
          rw [acknowledge]
          split <;> rfl
      | condition | action | scripted => rfl

theorem map_actions_badge {Result : Type} (change : String → Action → Action × List Result)
    (node : Node) : (node.mapActions change).1.badge = node.badge := by
  cases node with
  | branch state rule children => rfl
  | leaf state content => cases content <;> rfl

theorem setup_badge (node : Node) : node.setup.node.badge = node.badge := by
  cases node with
  | branch state rule children => rfl
  | leaf state content =>
      cases content with
      | action action =>
          rw [setup, setupLeaf]
          cases action.setup state.name <;> rfl
      | condition | acknowledge | scripted => rfl

/-- The last visit of a tick is that of the root. -/
theorem visits_end_with_root (surroundings : Surroundings) (node : Node) :
    ∃ below, (tick surroundings node).journal.visits =
      below ++ [(tick surroundings node).node.badge] := by
  obtain ⟨below, shape⟩ := trail_last surroundings node
  refine ⟨below.map (·.toVisit), ?_⟩
  rw [← trail_visits, shape, List.map_append, List.map_singleton, badge, tick_name]
  rfl

end Node

namespace NodePlan

/-- What is built has not been ticked yet. -/
theorem node_badge (plan : NodePlan) (timing : Timing) :
    (plan.node timing).badge = { name := plan.label.name, status := .invalid } := by
  cases plan <;> rfl

end NodePlan

namespace Ticker

/-- A ticker and its root show what the ticks came to that were performed so far. -/
structure Shows (ticker : Ticker) (name : String) (statuses : List Status) : Prop where
  count : ticker.tickCount = statuses.length
  status : ticker.lastStatus = statuses.getLastD .invalid
  root : ticker.root.badge = { name, status := statuses.getLastD .invalid }
  unticked : statuses = [] → ticker.lastSnapshot = none
  ticked : statuses ≠ [] → ∃ below, ticker.lastSnapshot = some
    { tick := statuses.length - 1
      rootStatus := statuses.getLastD .invalid
      visited := below ++ [{ name, status := statuses.getLastD .invalid }] }

variable {ticker after : Ticker} {name : String} {statuses : List Status}

theorem Shows.of_root (shows : ticker.Shows name statuses) {root : Node}
    (same : root.badge = ticker.root.badge) : Shows { ticker with root } name statuses where
  count := shows.count
  status := shows.status
  root := same.trans shows.root
  unticked := shows.unticked
  ticked := shows.ticked

theorem Shows.tick (shows : ticker.Shows name statuses) (store : Store) :
    (ticker.tick store).ticker.Shows name
      (statuses ++ [(ticker.tick store).ticker.lastStatus]) := by
  have named : (ticker.tick store).ticker.root.badge =
      { name, status := (ticker.tick store).ticker.lastStatus } := by
    have before : ticker.root.name = name := congrArg Visit.name shows.root
    rw [← before, ← Node.tick_name { tick := ticker.tickCount, store } ticker.root]
    rfl
  constructor
  · rw [List.length_append, ← shows.count]
    rfl
  · rw [List.getLastD_concat]
  · rw [List.getLastD_concat, named]
  · intro none
    simp at none
  · intro _
    obtain ⟨below, visits⟩ :=
      Node.visits_end_with_root { tick := ticker.tickCount, store } ticker.root
    refine ⟨below, ?_⟩
    have seen : (ticker.tick store).snapshot.visited =
        below ++ [(ticker.tick store).ticker.root.badge] := visits
    rw [named] at seen
    rw [List.getLastD_concat, ← seen, List.length_append, ← shows.count]
    rfl

theorem Shows.acknowledge (shows : ticker.Shows name statuses) {node identity : String}
    (granted : ticker.acknowledge node identity = .ok after) : after.Shows name statuses := by
  unfold Ticker.acknowledge at granted
  split at granted
  · cases granted
  · split at granted
    · cases granted
    · cases granted
      apply shows.of_root
      rcases Node.finds_or_misses node ticker.root with ⟨place, finds⟩ | misses
      · rw [finds.changed, Option.getD_some]
        exact Node.change_at_badge (Node.acknowledge_children identity)
          (Node.acknowledge_badge identity) place ticker.root
      · rw [misses.changed, Option.getD_none]

end Ticker

namespace Service

open Entry Manager

theorem shows_at_first (plan : TreePlan) (timing : Timing) (id : TreeId) :
    (plan.loaded timing id).ticker.Shows plan.root.label.name [] where
  count := rfl
  status := rfl
  root := (Node.setup_badge _).trans (plan.root.node_badge timing)
  unticked := fun _ => rfl
  ticked := fun some => absurd rfl some

theorem lifelong_shows (name : String) :
    Lifelong fun tree _ marks => tree.ticker.Shows name (Mark.ticks marks) := by
  apply lifelong_of_ticker
  intro tree after told marks more others shows turns
  have quiet : Mark.ticks [] = [] := rfl
  rw [Mark.ticks_append]
  cases turns with
  | rests same mute unticked =>
      rw [unticked, List.append_nil, same]
      exact shows
  | works path action same =>
      rw [quiet, List.append_nil, same]
      exact shows.of_root (Node.change_at_badge (Node.with_action_children action)
        (Node.with_action_badge action) path tree.ticker.root)
  | hears node identity granted =>
      rw [quiet, List.append_nil]
      exact shows.acknowledge granted
  | ticks store same =>
      rw [Mark.ticks_ticked, same]
      exact (shows.tick store).of_root (Node.map_actions_badge _ _)

/-! Other trees. -/

/-- The tree that a moment is about, if it is about one. -/
def subject? (service : Service) : Moment → Option TreeId
  | .order (.instruct id _) | .happening (.motion id _) => some id
  | .answer => service.pending.map (·.1)
  | .order (.load _) | .happening (.vary _ _) | .happening (.pass _) => none

theorem tree_conclude_other {manager after : Manager} {id other : TreeId}
    {instruction : Instruction} {response : Response}
    (concluded : manager.conclude id instruction = some (after, response)) (apart : other ≠ id) :
    after.tree? other = manager.tree? other := by
  have released : (manager.handle id (·.release)).1.tree? other = manager.tree? other := by
    rw [tree_handle LoadedTree.release_id]
    simp [apart]
  cases concludes concluded with
  | announced _ about => exact tree_announce manager id other about
  | stopped =>
      rw [tree_announce]
      exact released
  | waited => exact released
  | unloaded =>
      cases found : manager.tree? id with
      | none => rw [forget_unknown found]
      | some tree => rw [tree_forget found, if_neg apart]

/-- A moment that is about another tree, or about none, leaves a tree as it is. -/
theorem tree_of_meet_other {service next : Service} {moment : Moment} {entries : List Entry}
    (numbered : service.manager.Numbered) (met : service.meet moment = some (next, entries))
    {id : TreeId} {tree : LoadedTree} (found : service.manager.tree? id = some tree)
    (apart : service.subject? moment ≠ some id) : next.manager.tree? id = some tree := by
  cases moment with
  | answer =>
      obtain ⟨other, instruction, after, response, pending, concluded, rfl, -⟩ :=
        meet_answer_eq_some.mp met
      have elsewhere : id ≠ other := by
        rintro rfl
        exact apart (by rw [subject?, pending]; rfl)
      exact (tree_conclude_other concluded elsewhere).trans found
  | order order =>
      obtain ⟨-, rfl, -⟩ := meet_order_eq_some.mp met
      cases order with
      | instruct other instruction =>
          have elsewhere : id ≠ other := by
            rintro rfl
            exact apart rfl
          rw [obey_manager, tree_handle (instruction.take_up_id service.manager.store), found]
          simp [elsewhere]
      | load read =>
          rcases change_load numbered read id with same | ⟨_, unknown, -⟩
          · exact same.trans found
          · rw [found] at unknown
            cases unknown
  | happening happening =>
      obtain ⟨rfl, -⟩ := meet_happening_eq_some.mp met
      cases happening with
      | vary | pass => exact found
      | motion other motion =>
          have elsewhere : id ≠ other := by
            rintro rfl
            exact apart rfl
          rw [undergo]
          cases there : service.manager.tree? other with
          | none => exact found
          | some moving =>
              have named := (moving.undergo_id service.manager.store motion).trans (tree_id there)
              dsimp only
              rw [tree_record_all, tree_replace_other (by rw [named]; exact elsewhere), found]

/-- Whether no moment is about the tree. -/
def elsewhere (id : TreeId) : Service → List Moment → Bool
  | _, [] => true
  | service, moment :: rest =>
      decide (service.subject? moment ≠ some id) &&
        (service.meet moment).all fun met => elsewhere id met.1 rest

theorem tree_of_run_elsewhere {service last : Service} {moments : List Moment}
    {chronicle : List Entry} (numbered : service.manager.Numbered)
    (ran : service.run moments = some (last, chronicle)) {id : TreeId} {tree : LoadedTree}
    (found : service.manager.tree? id = some tree) (apart : service.elsewhere id moments = true) :
    last.manager.tree? id = some tree := by
  induction moments generalizing service chronicle with
  | nil =>
      cases ran
      exact found
  | cons moment rest ih =>
      obtain ⟨next, entries, more, met, onward, -⟩ := run_cons_eq_some.mp ran
      rw [elsewhere, met, Option.all_some, Bool.and_eq_true] at apart
      exact ih (numbered_of_meet numbered met).1 onward
        (tree_of_meet_other numbered met found (of_decide_eq_true apart.1)) apart.2

/-! What is shown. -/

theorem filter_of_find {trees : List LoadedTree} (apart : (trees.map (·.id)).Nodup) {id : TreeId}
    {tree : LoadedTree} (found : trees.find? (·.id = id) = some tree) :
    trees.filter (·.id = id) = [tree] := by
  induction trees with
  | nil => cases found
  | cons first rest ih =>
      obtain ⟨fresh, others⟩ := List.nodup_cons.mp apart
      by_cases here : first.id = id
      · rw [List.find?_cons_of_pos (by simpa using here)] at found
        cases found
        have none : rest.filter (·.id = id) = [] := by
          rw [List.filter_eq_nil_iff]
          intro other inside same
          have named : other.id = tree.id := (of_decide_eq_true same).trans here.symm
          have member : other.id ∈ rest.map (·.id) := List.mem_map_of_mem inside
          rw [named] at member
          exact fresh member
        rw [List.filter_cons_of_pos (by simpa using here), none]
      · rw [List.find?_cons_of_neg (by simpa using here)] at found
        rw [List.filter_cons_of_neg (by simpa using here)]
        exact ih others found

/-- The line of a tree in the list of all trees. -/
theorem listed {manager : Manager} (numbered : manager.Numbered) {id : TreeId} {tree : LoadedTree}
    (found : manager.tree? id = some tree) :
    manager.list.filter (·.id = id) = [tree.summary] := by
  rw [list, List.filter_map]
  exact congrArg (List.map LoadedTree.summary) (filter_of_find numbered.apart found)

/-- However a tree was ticked, by its drives or by hand, the list, the last snapshot and the report
agree on its last tick, and as long as nothing is about the tree they stay as they are. -/
theorem shown_in_every_run {manager : Manager} (new : manager.trees = []) {moments : List Moment}
    {service : Service} {chronicle : List Entry}
    (ran : run { manager } moments = some (service, chronicle)) {id : TreeId} {tree : LoadedTree}
    (there : service.manager.tree? id = some tree) :
    let statuses := Mark.ticks (Entry.marks id chronicle)
    let last := statuses.getLastD .invalid
    (∃ summary, service.manager.list.filter (·.id = id) = [summary] ∧
      summary.ticks = statuses.length ∧ summary.status = last) ∧
    (∃ report, service.manager.report id = .ok report ∧ report.status = last ∧
      (statuses = [] → service.manager.lastSnapshot id = .ok none) ∧
      (statuses ≠ [] → ∃ snapshot below,
        service.manager.lastSnapshot id = .ok (some snapshot) ∧
          snapshot.tick = statuses.length - 1 ∧ snapshot.rootStatus = last ∧
          snapshot.visited = below ++ [{ name := report.name, status := last }])) ∧
    ∀ later final more, service.run later = some (final, more) →
      service.elsewhere id later = true →
        final.manager.list.filter (·.id = id) = service.manager.list.filter (·.id = id) ∧
          final.manager.lastSnapshot id = service.manager.lastSnapshot id ∧
          final.manager.report id = service.manager.report id := by
  have known := known_of_run (fun plan => lifelong_shows plan.root.label.name)
    (fun plan timing id _ => shows_at_first plan timing id) new ran
  obtain ⟨plan, -, shows⟩ := known.loaded id tree there
  have reported : service.manager.report id = .ok tree.ticker.report := by
    rw [report, there]
  have remembered : service.manager.lastSnapshot id = .ok tree.ticker.lastSnapshot := by
    rw [lastSnapshot, there]
  have named : tree.ticker.report.name = plan.root.label.name :=
    (Report.of_name tree.ticker.root).trans (congrArg Visit.name shows.root)
  have status : tree.ticker.report.status =
      (Mark.ticks (Entry.marks id chronicle)).getLastD .invalid :=
    (Report.of_status tree.ticker.root).trans (congrArg Visit.status shows.root)
  refine ⟨⟨tree.summary, listed known.numbered there, shows.count, shows.status⟩,
    ⟨tree.ticker.report, reported, status, ?_, ?_⟩, ?_⟩
  · intro unticked
    rw [remembered, shows.unticked unticked]
  · intro ticked
    obtain ⟨below, snapshot⟩ := shows.ticked ticked
    rw [remembered, snapshot, named]
    exact ⟨_, below, rfl, rfl, rfl, rfl⟩
  · intro later final more onward apart
    have same := tree_of_run_elsewhere known.numbered onward there apart
    refine ⟨?_, ?_, ?_⟩
    · rw [listed known.numbered there, listed (numbered_of_run known.numbered onward) same]
    · rw [remembered, lastSnapshot, same]
    · rw [reported, report, same]

end Service

/-! Two reports that are watched side by side. -/

namespace Watch

open Service

/-- The first report is ticked, confirmed, ticked again and driven for one more tick. -/
def shift : List Moment :=
  [.order (.load (.ok plan)), .order (.load (.ok plan)),
    .order (.instruct (.number 0) .tickOnce),
    .order (.instruct (.number 0) (.acknowledge "report" "operator")),
    .order (.instruct (.number 0) .tickOnce),
    .order (.instruct (.number 0) (.start (.count 1 0))), .answer] ++
  (turn (.number 0) false).map .happening

/-- Then the other one is ticked and unloaded. -/
def aside : List Moment :=
  [.order (.instruct (.number 1) .tickOnce), .order (.instruct (.number 1) .unload), .answer]

theorem shift_possible : (run { manager := {} } shift).isSome = true := by decide +kernel

def shiftEnd : Service × List Entry := (run { manager := {} } shift).get shift_possible

theorem shift_run : run { manager := {} } shift = some (shiftEnd.1, shiftEnd.2) := by
  rw [Prod.eta, shiftEnd, Option.some_get]

theorem reports_are_shown :
    ∃ tree summary snapshot final more, shiftEnd.1.manager.tree? (.number 0) = some tree ∧
      shiftEnd.1.manager.list.filter (·.id = .number 0) = [summary] ∧ summary.ticks = 3 ∧
      summary.status = .success ∧
      shiftEnd.1.manager.lastSnapshot (.number 0) = .ok (some snapshot) ∧ snapshot.tick = 2 ∧
      snapshot.rootStatus = .success ∧ shiftEnd.1.run aside = some (final, more) ∧
      shiftEnd.1.elsewhere (.number 0) aside = true ∧
      final.manager.report (.number 0) = shiftEnd.1.manager.report (.number 0) := by
  have loaded : (shiftEnd.1.manager.tree? (.number 0)).isSome = true := by decide +kernel
  obtain ⟨tree, there⟩ := Option.isSome_iff_exists.mp loaded
  have ticks : Mark.ticks (Entry.marks (.number 0) shiftEnd.2) =
      [.failure, .success, .success] := by decide +kernel
  have possible : (shiftEnd.1.run aside).isSome = true := by decide +kernel
  obtain ⟨⟨final, more⟩, onward⟩ := Option.isSome_iff_exists.mp possible
  have apart : shiftEnd.1.elsewhere (.number 0) aside = true := by decide +kernel
  obtain ⟨⟨summary, line, count, status⟩, ⟨report, -, -, -, ticked⟩, frame⟩ :=
    @shown_in_every_run {} rfl _ _ _ shift_run _ tree there
  rw [ticks] at count status ticked
  obtain ⟨snapshot, below, shown, number, root, -⟩ := ticked nofun
  exact ⟨tree, summary, snapshot, final, more, there, line, count, status, shown, number, root,
    onward, apart, (frame aside final more onward apart).2.2⟩

end Watch

end BehaviorTree
