import BehaviorTree.Proofs.Accounts
import BehaviorTree.Proofs.Places
import Mathlib.Data.List.Induction

/-!
Actions that are halted. Halting a node reaches neither its workers nor the gate. So a worker that
has taken the signal may still begin a cycle, and the signal that is left in the gate may be taken
for one more; but before the node is entered again no other cycle begins.
-/

namespace BehaviorTree

namespace Incident

/-- A cycle is due: a worker took a signal and looked up the attempt, and no cycle began on either.
Its node shows what it may show after the latest attempt was opened. -/
structure Due (log : List Incident) (attempt : UInt64) (shown : Status) : Prop where
  signal : beginnings log < log.count .took
  looked : beginningsOf attempt log < log.count (.looked attempt)
  shows : log.count .opened < UInt64.size → Shows log shown

/-- What is so whenever something befalls an action. -/
def Proper (early : List Incident) : Incident → Prop
  | .signalled => Unread early
  | .took => Waiting early
  | .looked attempt => early.count .opened < UInt64.size → attempt.toNat = early.count .opened
  | .began attempt shown => Due early attempt shown
  | .halted => ∃ owed, early.count .took = beginnings early + owed ∧
      owed ≤ early.count .shutDown + 1
  | .opened | .read _ _ | .shutDown | .answered _ _ _ | .ended _ _ _ => True

/-- What came last before some incidents that are not of its kind came last before them. -/
theorem Since.of_append {mark : Incident} {kind : Incident → Prop} {early late : List Incident}
    (since : Since mark kind (early ++ late)) (absent : mark ∉ late) :
    Since mark kind early ∧ ∀ incident ∈ late, ¬ kind incident := by
  obtain ⟨before, after, same, quiet⟩ := since
  rcases List.append_eq_append_iff.mp same with ⟨middle, rfl, rest⟩ | ⟨middle, rfl, rest⟩
  · exact absurd (by simp [rest]) absent
  · cases middle with
    | nil =>
        rw [List.nil_append] at rest
        exact absurd (by simp [← rest]) absent
    | cons first middle =>
        obtain ⟨rfl, rfl⟩ := List.cons.inj rest
        refine ⟨⟨before, middle, rfl, fun incident inside => ?_⟩, fun incident inside => ?_⟩
        · exact quiet incident (List.mem_append_left _ inside)
        · exact quiet incident (List.mem_append_right _ inside)

section Halted

variable {early middle late : List Incident}

/-- A halted node sets no signal before the next attempt is opened. -/
theorem unsignalled_after_halt (proper : Throughout Proper (early ++ .halted :: (middle ++ late)))
    (unopened : .opened ∉ middle) : .signalled ∉ middle := by
  intro inside
  obtain ⟨first, last, rfl⟩ := List.append_of_mem inside
  have unread : Unread (early ++ .halted :: first) :=
    proper _ .signalled (last ++ late) (by simp)
  have absent : .opened ∉ Incident.halted :: first := by
    intro opened
    exact unopened (List.mem_append_left _ (List.mem_of_ne_of_mem (by simp) opened))
  exact (Since.of_append unread absent).2 .halted List.mem_cons_self (.inl rfl)

/-- So at most one signal is taken, which was in the gate at the halt. -/
theorem taken_after_halt (proper : Throughout Proper (early ++ .halted :: (middle ++ late)))
    (unsignalled : .signalled ∉ middle) :
    middle.count .took ≤ 1 ∧ (¬ Waiting early → middle.count .took = 0) := by
  induction middle using List.reverseRecOn generalizing late with
  | nil => exact ⟨Nat.zero_le 1, fun _ => rfl⟩
  | append_singleton middle last ih =>
      have before : .signalled ∉ middle :=
        fun inside => unsignalled (List.mem_append_left _ inside)
      rw [List.append_assoc] at proper
      rw [List.count_append]
      by_cases took : last = .took
      · subst took
        have waiting : Waiting (early ++ .halted :: middle) := proper _ .took late (by simp)
        obtain ⟨waited, untaken⟩ := Since.of_append waiting (by simpa using before)
        have none : middle.count .took = 0 :=
          List.count_eq_zero.mpr fun inside =>
            untaken .took (List.mem_cons_of_mem _ inside) rfl
        rw [none]
        exact ⟨Nat.le_refl 1, fun unset => absurd waited unset⟩
      · have unmoved : [last].count .took = 0 :=
          List.count_eq_zero.mpr fun inside => took (List.mem_singleton.mp inside).symm
        rw [unmoved]
        exact ih proper before

/-- Each cycle that begins uses up a signal. -/
theorem begun_after_halt (proper : Throughout Proper (early ++ .halted :: (middle ++ late)))
    (owed : beginnings early ≤ early.count .took) :
    beginnings early + beginnings middle ≤ early.count .took + middle.count .took := by
  induction middle using List.reverseRecOn generalizing late with
  | nil => exact owed
  | append_singleton middle last ih =>
      rw [List.append_assoc] at proper
      have before := ih proper
      rw [beginnings_append, List.count_append]
      by_cases began : last.isBeginning = true
      · cases last with
        | began attempt shown =>
            have due : Due (early ++ .halted :: middle) attempt shown :=
              proper _ (.began attempt shown) late (by simp)
            have signal := due.signal
            have one : beginnings [.began attempt shown] = 1 := rfl
            rw [beginnings_append, List.count_append] at signal
            have skipped : beginnings (.halted :: middle) = beginnings middle := rfl
            have passed : (Incident.halted :: middle).count .took = middle.count .took :=
              List.count_cons_of_ne (by simp)
            omega
        | opened | signalled | read | halted | shutDown | took | looked | answered | ended =>
            cases began
      · have none : beginnings [last] = 0 := by simp [beginnings, began]
        omega

end Halted

end Incident

namespace Lives

open Incident

variable {name : String} {work : Work} {life : Life}

theorem proper (lives : Lives name work life) : Throughout Proper life.log := by
  induction lives with
  | fresh status => exact throughout_nil
  | opens before outside resting ih => exact ih.snoc trivial
  | signals before opened ih =>
      apply ih.snoc
      exact before.told.unread (by simp [opened])
  | read before visited ih => exact ih.snoc trivial
  | @halt life before outside ih =>
      apply ih.snoc
      refine ⟨life.post.crew.awake.length, before.told.accounted.owed, ?_⟩
      exact Nat.le_trans life.post.crew.awake_length (Nat.succ_le_succ before.told.strays)
  | @toil life before toil ih =>
      have done := Post.toil_toils name life.status life.post toil
      have told := before.told
      dsimp only
      generalize life.post.toil name life.status toil = result at done
      obtain ⟨after, incidents⟩ := result
      have later : ∀ (progress : Progress) (attempt : UInt64),
          ∀ incident ∈ progress.incidents attempt, ∀ early, Proper early incident := by
        intro progress attempt incident inside early
        cases progress with
        | waiting cycle => cases inside
        | ended status exit =>
            cases List.mem_singleton.mp inside
            trivial
      cases done with
      | quiet => exact ih.append_each nofun
      | take isSet awake => exact ih.snoc (told.accounted.signal isSet)
      | look own awake => exact ih.snoc told.accounted.latest_to_nat
      | @enter _ attempt stopped own gate carried =>
          rw [List.append_cons]
          refine Throughout.append_each (ih.snoc ?_) (later _ _)
          have owed := told.accounted.owed
          have bound := told.accounted.bound attempt
          rw [own.length_eq, List.length_cons] at owed
          rw [own.count_eq, List.count_cons_self] at bound
          refine ⟨by omega, by omega, fun few => told.shows few ?_⟩
          have taken := told.accounted.taken
          have signals := told.signals
          omega
      | @resume _ cycle answer others own fits gate carried =>
          have answered : Proper life.log (.answered cycle.attempt cycle.point answer) := trivial
          rw [List.append_cons]
          exact (ih.snoc answered).append_each (later _ _)
  | setup before outside ih => exact ih
  | shutdown before outside ih => exact ih.snoc trivial

end Lives

/-! An action in a tree. -/

/-- What can happen to a tree. Workers and cycles of the action go on while a tick is at it: after
an attempt was opened and before the gate is set, between that and the reading of the cell, and then
before the node is halted. What else goes on elsewhere in the tree only touches the contents of
other leaves. -/
inductive Occasion where
  | tick (surroundings : Surroundings) (entering meanwhile afterwards : List Toil)
  | halt
  | haltNamed (name : String)
  | toil (toil : Toil)
  | setup
  | shutdown
  | elsewhere (path : Node.Path) (content : Leaf)

/-- A tick comes to an action. -/
def Post.visit (name : String) (shown : Status) (entering meanwhile : List Toil) (post : Post) :
    Post × List Incident :=
  if shown = .running then post.toils name shown (entering ++ meanwhile)
  else
    let (opened, first) :=
      ({ post with action := post.action.openAttempt } : Post).toils name shown entering
    let (signalled, second) :=
      ({ opened with action := opened.action.signal } : Post).toils name shown meanwhile
    (signalled, .opened :: first ++ .signalled :: second)

/-- A tree, the workers of the action at some position of it, and what befell that action. -/
structure Stand where
  root : Node
  crew : Crew := {}
  log : List Incident := []

namespace Stand

open Node

/-- A halt tells by the status that it leaves. -/
def halting (path : Path) (before : Status) (root : Node) : List Incident :=
  if (root.at? path).map status = some .invalid ∧ before ≠ .invalid then [.halted] else []

def tick (path : Path) (surroundings : Surroundings) (entering meanwhile afterwards : List Toil)
    (state : NodeState) (action : Action) (stand : Stand) : Stand :=
  if visited surroundings path stand.root then
    let (worked, incidents) :=
      ({ action, crew := stand.crew } : Post).visit state.name state.status entering meanwhile
    let ticked :=
      (stand.root.put path (.leaf state.entered (.action worked.action))).tick surroundings
    let (last, more) := worked.toils state.name worked.action.cell.status afterwards
    let root := ticked.node.withLeaf (.action last.action) path
    { root
      crew := last.crew
      log := stand.log ++ incidents ++
        [.read worked.action.cell.attempt worked.action.cell.status] ++ more ++
        halting path worked.action.cell.status root }
  else
    let root := stand.root.tick surroundings
    { stand with root := root.node, log := stand.log ++ halting path state.status root.node }

def occur (path : Path) (stand : Stand) (occasion : Occasion) : Stand :=
  match stand.root.at? path with
  | some (.leaf state (.action action)) =>
      match occasion with
      | .tick surroundings entering meanwhile afterwards =>
          stand.tick path surroundings entering meanwhile afterwards state action
      | .halt =>
          let root := stand.root.halt.node
          { stand with root, log := stand.log ++ halting path state.status root }
      | .haltNamed name =>
          let root := (stand.root.modify? name (·.halt.node)).getD stand.root
          { stand with root, log := stand.log ++ halting path state.status root }
      | .toil toil =>
          let (after, incidents) :=
            ({ action, crew := stand.crew } : Post).toil state.name state.status toil
          { root := stand.root.withLeaf (.action after.action) path
            crew := after.crew
            log := stand.log ++ incidents }
      | .setup => { stand with root := stand.root.setup.node }
      | .shutdown =>
          { root := stand.root.shutdown.1
            crew := (({ action, crew := stand.crew } : Post).shutdown state.name).crew
            log := stand.log ++ [.shutDown] }
      | .elsewhere other content =>
          if other = path then stand
          else { stand with root := stand.root.withLeaf content other }
  | _ => stand

def after (path : Path) (stand : Stand) (occasions : List Occasion) : Stand :=
  occasions.foldl (occur path) stand

theorem tick_running_action (surroundings : Surroundings) {state : NodeState}
    (running : state.status = .running) (action : Action) :
    ∃ after, ((Node.leaf state (.action action)).tick surroundings).node =
        .leaf after (.action action) ∧
      after.name = state.name ∧ after.status = action.cell.status := by
  obtain ⟨name, description, status, message⟩ := state
  cases running
  exact ⟨_, rfl, rfl, rfl⟩

/-- Of a tick that comes to an action the action is left as it was read, halted or not. -/
theorem at_ticked_action (surroundings : Surroundings) {root : Node} {path : Path}
    {state : NodeState} {action : Action}
    (found : root.at? path = some (.leaf state (.action action)))
    (seen : visited surroundings path root = true) (worked : Action) :
    ∃ after, after.name = state.name ∧ after.status = worked.cell.status ∧
      (((root.put path (.leaf state.entered (.action worked))).tick surroundings).node.at? path =
          some (.leaf after (.action worked)) ∨
        ((root.put path (.leaf state.entered (.action worked))).tick surroundings).node.at? path =
          some (Node.leaf after (.action worked)).halt.node) := by
  obtain ⟨after, left, named, status⟩ :=
    tick_running_action surroundings state.entered_status worked
  have put := at_put found (.leaf state.entered (.action worked))
  have there := visited_put surroundings found seen (.leaf state.entered (.action worked))
  have known := at_tick surroundings put
  rw [carried, there, if_pos rfl, left] at known
  exact ⟨after, named.trans state.entered_name, status, known⟩

theorem visit_alone (name : String) (shown : Status) (post : Post) :
    (post.visit name shown [] []).1 = { post with action := post.action.enter shown } := by
  unfold Post.visit Action.enter
  split <;> rfl

/-- A tick in which no worker does anything is a tick. -/
theorem occur_tick (path : Path) (stand : Stand) (surroundings : Surroundings) {state : NodeState}
    {action : Action} (found : stand.root.at? path = some (.leaf state (.action action))) :
    (stand.occur path (.tick surroundings [] [] [])).root =
      (stand.root.tick surroundings).node := by
  rw [occur, found]
  dsimp only
  unfold tick
  split
  next seen =>
    obtain ⟨after, -, -, left⟩ :=
      at_ticked_action surroundings found seen (action.enter state.status)
    rw [tick_entered surroundings found seen] at left
    dsimp only [Post.toils]
    rw [visit_alone, tick_entered surroundings found seen]
    rcases left with whole | halted
    · exact with_leaf_same whole
    · exact with_leaf_same halted
  next => rfl

/-- The action at a position lives as the log tells. -/
structure Follows (path : Path) (name : String) (work : Work) (stand : Stand) : Prop where
  lives : ∃ state action, stand.root.at? path = some (.leaf state (.action action)) ∧
    state.name = name ∧
    Lives name work
      { post := { action, crew := stand.crew }, status := state.status, log := stand.log }

theorem at_elsewhere {node : Node} {path other : Path} {state : NodeState} {content : Leaf}
    (apart : other ≠ path) (found : node.at? path = some (.leaf state content)) (leaf : Leaf) :
    (node.withLeaf leaf other).at? path = some (.leaf state content) := by
  induction path generalizing node other with
  | nil =>
      cases found
      cases other with
      | nil => exact absurd rfl apart
      | cons index other => rfl
  | cons index path ih =>
      obtain ⟨above, rule, children, child, rfl, own, below⟩ := branch_of_at_cons found
      cases other with
      | nil => exact found
      | cons place other =>
          rw [withLeaf]
          by_cases here : place = index
          · subst here
            have kept := ih (by simpa using apart) below
            refine at_branch_eq_some.mpr ⟨child.withLeaf leaf other, ?_, kept⟩
            rw [List.getElem?_modify_eq, own]
            rfl
          · refine at_branch_eq_some.mpr ⟨child, ?_, below⟩
            rw [List.getElem?_modify_ne _ _ here, own]

variable {path : Path} {name : String} {work : Work}

theorem toils_lives {life : Life} (lives : Lives name work life) (toils : List Toil) :
    Lives name work
      { life with
        post := (life.post.toils name life.status toils).1
        log := life.log ++ (life.post.toils name life.status toils).2 } := by
  induction toils generalizing life with
  | nil => simpa [Post.toils] using lives
  | cons toil rest ih =>
      have onward := ih (lives.toil toil)
      simpa [Post.toils] using onward

/-- A tick has come to the action and is about to read the cell. -/
theorem visit_lives {life : Life} (lives : Lives name work life)
    (outside : life.passage = .outside) (entering meanwhile : List Toil) :
    ∃ passage,
      Lives name work
        { life with
          post := (life.post.visit name life.status entering meanwhile).1
          passage
          log := life.log ++ (life.post.visit name life.status entering meanwhile).2 } ∧
      (passage = .signalled ∨ passage = .outside ∧ life.status = .running) := by
  by_cases running : life.status = .running
  · refine ⟨.outside, ?_, .inr ⟨rfl, running⟩⟩
    have worked := toils_lives lives (entering ++ meanwhile)
    rw [Post.visit, if_pos running]
    rw [outside] at worked
    exact worked
  · refine ⟨.signalled, ?_, .inl rfl⟩
    have opened := toils_lives (lives.opens outside running) entering
    have signalled := toils_lives (opened.signals rfl) meanwhile
    rw [Post.visit, if_neg running]
    simpa using signalled

/-- Whether it was halted in between or not, the node lives on. -/
theorem halting_lives {life : Life} (lives : Lives name work life)
    (outside : life.passage = .outside) {root : Node} {state : NodeState} (own : state.name = name)
    (left : root.at? path = some (.leaf state (.action life.post.action)) ∧
        state.status = life.status ∨
      root.at? path = some (.leaf state (.action life.post.action)) ∧ state.status = .invalid) :
    Follows path name work
      { root, crew := life.post.crew, log := life.log ++ halting path life.status root } := by
  obtain ⟨⟨action, crew⟩, status, passage, log⟩ := life
  dsimp only at outside left ⊢
  subst outside
  have there : root.at? path = some (.leaf state (.action action)) := left.elim And.left And.left
  refine ⟨state, action, there, own, ?_⟩
  rw [halting, there]
  split
  next halted =>
    have invalid : state.status = .invalid := Option.some.inj halted.1
    rw [invalid]
    exact lives.halt rfl
  next same =>
    have still : state.status = status := by
      rcases left with ⟨-, still⟩ | ⟨-, invalid⟩
      · exact still
      · by_contra apart
        exact same ⟨congrArg some invalid, fun was => apart (invalid.trans was.symm)⟩
    rw [still, List.append_nil]
    exact lives

theorem halted_lives {life : Life} (lives : Lives name work life)
    (outside : life.passage = .outside) {root : Node} {state : NodeState} (own : state.name = name)
    (left : root.at? path = some (Node.leaf state (.action life.post.action)).halt.node) :
    Follows path name work
      { root, crew := life.post.crew, log := life.log ++ halting path life.status root } := by
  have there : root.at? path =
      some (.leaf { state with status := .invalid } (.action life.post.action)) := left
  refine halting_lives lives outside ?_ (.inr ⟨there, rfl⟩)
  exact own

theorem Follows.tick {stand : Stand} {state : NodeState} {action : Action}
    (found : stand.root.at? path = some (.leaf state (.action action))) (own : state.name = name)
    (lives : Lives name work
      { post := { action, crew := stand.crew }, status := state.status, log := stand.log })
    (surroundings : Surroundings) (entering meanwhile afterwards : List Toil) :
    (stand.tick path surroundings entering meanwhile afterwards state action).Follows path name
      work := by
  unfold Stand.tick
  split
  next seen =>
    obtain ⟨passage, visited, due⟩ := visit_lives lives rfl entering meanwhile
    dsimp only at visited due ⊢
    rw [own]
    generalize Post.visit name state.status entering meanwhile { action, crew := stand.crew } =
      worked at visited
    have read := toils_lives (visited.read due) afterwards
    dsimp only at read
    generalize worked.1.toils name worked.1.action.cell.status afterwards = finished at read
    obtain ⟨after, named, status, whole | halted⟩ :=
      at_ticked_action surroundings found seen worked.1.action
    · exact halting_lives read rfl (named.trans own) (.inl ⟨at_with_leaf_self whole _, status⟩)
    · exact halted_lives read rfl (named.trans own) (at_with_leaf_self halted _)
  next unseen =>
    have known := at_tick surroundings found
    rw [carried, if_neg unseen] at known
    rcases known with whole | halted
    · exact halting_lives lives rfl own (.inl ⟨whole, rfl⟩)
    · exact halted_lives lives rfl own halted

theorem Follows.occur {stand : Stand} (follows : stand.Follows path name work)
    (occasion : Occasion) : (stand.occur path occasion).Follows path name work := by
  obtain ⟨state, action, found, own, lives⟩ := follows.lives
  have halted : ∀ {root : Node},
      root.at? path = some (Node.leaf state (.action action)).halt.node →
        Follows path name work
          { stand with root, log := stand.log ++ halting path state.status root } := by
    intro root left
    exact halted_lives lives rfl own left
  rw [Stand.occur, found]
  cases occasion with
  | tick surroundings entering meanwhile afterwards =>
      exact .tick found own lives surroundings entering meanwhile afterwards
  | halt =>
      apply halted
      rw [at_halt, found]
      rfl
  | haltNamed other =>
      dsimp only
      cases modified : stand.root.modify? other (·.halt.node) with
      | none => exact halting_lives lives rfl own (.inl ⟨found, rfl⟩)
      | some after =>
          rcases at_modify_halt modified found with same | left | ⟨inner, below, left⟩
          · exact halting_lives lives rfl own (.inl ⟨same, rfl⟩)
          · exact halted left
          · rw [modify?] at below
            split at below
            · cases below
              exact halted left
            · cases below
  | toil toil =>
      dsimp only
      rw [own]
      exact ⟨state, _, at_with_leaf_self found _, own, lives.toil toil⟩
  | setup =>
      rcases at_setup found with prepared | same
      · refine ⟨state, (action.setup name).toOption.getD action, ?_, own, lives.setup rfl⟩
        rw [prepared, setup, setupLeaf, own]
        cases action.setup name <;> rfl
      · exact ⟨state, action, same, own, lives⟩
  | shutdown =>
      dsimp only
      rw [own]
      refine ⟨state, action.shutdown name, ?_, own, lives.shutdown rfl⟩
      rw [at_shutdown, found, ← own]
      rfl
  | elsewhere other content =>
      dsimp only
      split
      · exact follows
      next apart => exact ⟨state, action, at_elsewhere apart found content, own, lives⟩

theorem follows_after {root : Node} {state : NodeState}
    (found : root.at? path = some (.leaf state (.action { work }))) (occasions : List Occasion) :
    (after path { root } occasions).Follows path state.name work := by
  have begun : Follows path state.name work { root } :=
    ⟨state, { work }, found, rfl, .fresh state.status⟩
  unfold after
  generalize ({ root } : Stand) = stand at begun
  induction occasions generalizing stand with
  | nil => exact begun
  | cons occasion rest ih => exact ih _ (begun.occur occasion)

open Incident

/-- In every run of a tree, whatever workers and cycles do between two steps of a tick: there are
never more cycles of an action than signals, nor more signals than attempts; a cycle begins on a
signal of its own, for an attempt that was the latest when its worker looked it up, while the node
runs, has been halted, is not read yet or had a cycle for the latest attempt before. After a halt
and before the next attempt is opened there begin at most as many cycles as workers held signals at
the halt, and one more if a signal was in the gate; and no more than one worker holds a signal,
beside those that were told to stop. -/
theorem begins_on_signals {root : Node} {state : NodeState}
    (found : root.at? path = some (.leaf state (.action { work }))) (occasions : List Occasion) :
    let log := (after path { root } occasions).log
    (beginnings log ≤ log.count .took ∧ log.count .took ≤ log.count .signalled ∧
      log.count .signalled ≤ log.count .opened) ∧
    (∀ early attempt late, log = early ++ .looked attempt :: late →
      early.count .opened < UInt64.size → attempt.toNat = early.count .opened) ∧
    (∀ early attempt shown late, log = early ++ .began attempt shown :: late →
      Due early attempt shown) ∧
    ∀ early middle late, log = early ++ .halted :: (middle ++ late) → middle.count .opened = 0 →
      ∃ held, early.count .took = beginnings early + held ∧ held ≤ early.count .shutDown + 1 ∧
        beginnings middle ≤ held + 1 ∧ (¬ Waiting early → beginnings middle ≤ held) := by
  intro log
  obtain ⟨_, _, -, -, lives⟩ := (follows_after found occasions).lives
  have proper : Throughout Proper log := lives.proper
  have told := lives.told
  have owed : log.count .took = beginnings log + _ := told.accounted.owed
  have taken : log.count .took + _ ≤ log.count .signalled := told.accounted.taken
  have signals : log.count .opened = log.count .signalled + _ := told.signals
  refine ⟨⟨by omega, by omega, by omega⟩, ?_, ?_, ?_⟩
  · exact fun early attempt late same => proper early (.looked attempt) late same
  · exact fun early attempt shown late same => proper early (.began attempt shown) late same
  · intro early middle late same unopened
    obtain ⟨held, counted, few⟩ : Proper early .halted := proper early .halted _ same
    rw [same] at proper
    have closed : .opened ∉ middle := List.count_eq_zero.mp unopened
    obtain ⟨once, none⟩ := taken_after_halt proper (unsignalled_after_halt proper closed)
    have begun := begun_after_halt proper (by omega)
    refine ⟨held, counted, few, by omega, fun unset => ?_⟩
    have untaken := none unset
    omega

/-- A drive that is only to go on while the way is clear. -/
def guarded : Node :=
  .parallel { name := "guarded" } .successOnAll false
    [.action { name := "drive" } { completion := .external, step := .external },
      .leaf { name := "clear" } (.condition (.signal false))]

/-- The way is not clear, so the drive is halted in the tick that started it. Its worker takes the
signal only then. -/
def blocked : List Occasion :=
  [.setup, .tick ⟨0, {}⟩ [] [] [], .toil (.take .own), .toil (.look .own), .toil (.enter .own)]

theorem blocked_log : (after [0] { root := guarded } blocked).log =
    [.opened, .signalled, .read 1 .running, .halted] ++
      [.took, .looked 1, .began 1 .invalid] := by decide +kernel

theorem blocked_drive_was_due :
    guarded.at? [0] = some (.leaf { name := "drive" }
      (.action { work := { completion := .external, step := .external } })) ∧
    Due [.opened, .signalled, .read 1 .running, .halted, .took, .looked 1] 1 .invalid ∧
    beginnings [.took, .looked 1, .began 1 .invalid] ≤ 1 := by
  have found : guarded.at? [0] = some (.leaf { name := "drive" }
      (.action { work := { completion := .external, step := .external } })) := rfl
  obtain ⟨-, -, due, once⟩ := begins_on_signals found blocked
  obtain ⟨held, none, -, most, -⟩ :=
    once [.opened, .signalled, .read 1 .running] [.took, .looked 1, .began 1 .invalid] []
      blocked_log rfl
  refine ⟨found, due _ _ _ [] blocked_log, ?_⟩
  have unheld : held = 0 := by simpa [beginnings, isBeginning] using none.symm
  rw [unheld] at most
  exact most

/-- The drive was blocked once. Its worker takes the signal that was left in the gate when the next
tick has opened an attempt and not yet set the gate, and arrives before the tick reads the cell. So
there is a signal left over once more. -/
def leftOver : List Occasion :=
  [.setup, .tick ⟨0, {}⟩ [] [] [],
    .tick ⟨1, {}⟩ [.take .own, .look .own, .enter .own, .held (.complete true),
      .held (.complete true)] [] [],
    .toil (.take .own), .toil (.look .own), .toil (.enter .own)]

/-- The drive begins while its node does not run: after it was halted, and also for an attempt that
it has arrived for before. -/
theorem blocked_drive_begins :
    (∃ early late, (after [0] { root := guarded } blocked).log =
      early ++ .halted :: (late ++ [.began 1 .invalid]) ∧ .opened ∉ late) ∧
    ∃ early late, (after [0] { root := guarded } leftOver).log =
      early ++ .ended 2 .completed .success :: (late ++ [.began 2 .success]) ∧ .opened ∉ late := by
  have begun : (after [0] { root := guarded } leftOver).log =
      [.opened, .signalled, .read 1 .running, .halted, .opened, .took, .looked 2, .began 2 .invalid,
        .answered 2 .completion (.complete true),
        .answered 2 (.lastCheck .completed) (.complete true)] ++
      .ended 2 .completed .success ::
        ([.signalled, .read 2 .success, .took, .looked 2] ++ [.began 2 .success]) := by
    decide +kernel
  exact ⟨⟨[.opened, .signalled, .read 1 .running], [.took, .looked 1], blocked_log, by simp⟩,
    ⟨_, _, begun, by simp⟩⟩

end Stand

end BehaviorTree
