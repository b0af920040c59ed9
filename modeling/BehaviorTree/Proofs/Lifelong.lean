import BehaviorTree.Proofs.Service

/-!
The trees of a manager in service. A moment changes at most the tree that it is about, and in few
ways; so what every such change of a tree keeps holds of it all its life, and what every plan brings
about holds of every tree that a manager ever has.
-/

namespace BehaviorTree

/-! Managers and their trees. -/

/-- A tree as it is loaded. -/
def TreePlan.loaded (plan : TreePlan) (timing : Timing) (id : TreeId) : LoadedTree :=
  { id, name := plan.label.name, ticker := (Ticker.setup { root := plan.root.node timing }).ticker }

namespace Manager

/-- Recording changes nothing but what is on the disk. -/
theorem record_eq (manager : Manager) (event : Event) :
    manager.record event = { manager with disk := (manager.record event).disk } := by
  unfold record
  split <;> rfl

theorem record_all_eq (manager : Manager) (events : List Event) :
    manager.recordAll events = { manager with disk := (manager.recordAll events).disk } := by
  induction events generalizing manager with
  | nil => rfl
  | cons event rest ih =>
      have onward := ih (manager.record event)
      rw [record_eq manager event] at onward
      rw [recordAll, List.foldl_cons, record_eq manager event]
      exact onward

@[simp] theorem record_all_trees (manager : Manager) (events : List Event) :
    (manager.recordAll events).trees = manager.trees := by
  rw [record_all_eq]

@[simp] theorem record_all_store (manager : Manager) (events : List Event) :
    (manager.recordAll events).store = manager.store := by
  rw [record_all_eq]

@[simp] theorem record_all_loaded (manager : Manager) (events : List Event) :
    (manager.recordAll events).loaded = manager.loaded := by
  rw [record_all_eq]

@[simp] theorem tree_record_all (manager : Manager) (events : List Event) (id : TreeId) :
    (manager.recordAll events).tree? id = manager.tree? id := by
  rw [tree?, record_all_trees, tree?]

theorem tree_id {manager : Manager} {id : TreeId} {tree : LoadedTree}
    (found : manager.tree? id = some tree) : tree.id = id := by
  simpa using List.find?_some found

theorem tree_replace (manager : Manager) (tree : LoadedTree) (id : TreeId) :
    (manager.replace tree).tree? id =
      (manager.tree? id).map fun other => if other.id = tree.id then tree else other := by
  have same : ((fun other : LoadedTree => decide (other.id = id)) ∘
      fun other => if other.id = tree.id then tree else other) =
        fun other => decide (other.id = id) := by
    funext other
    dsimp only [Function.comp_apply]
    split
    next here => rw [here]
    next => rfl
  rw [tree?, replace, List.find?_map, same]
  rfl

theorem tree_replace_self {manager : Manager} {tree old : LoadedTree}
    (found : manager.tree? tree.id = some old) :
    (manager.replace tree).tree? tree.id = some tree := by
  rw [tree_replace, found, Option.map_some, if_pos (tree_id found)]

theorem tree_replace_other {manager : Manager} {tree : LoadedTree} {id : TreeId}
    (apart : id ≠ tree.id) : (manager.replace tree).tree? id = manager.tree? id := by
  rw [tree_replace]
  cases found : manager.tree? id with
  | none => rfl
  | some other => rw [Option.map_some, tree_id found, if_neg apart]

section

variable {Answer : Type} {act : LoadedTree → Handled Answer}

/-- Handling a tree leaves the others alone. -/
theorem tree_handle (keeps : ∀ tree, (act tree).tree.id = tree.id) (manager : Manager)
    (id other : TreeId) :
    (manager.handle id act).1.tree? other =
      (manager.tree? other).map fun tree => if other = id then (act tree).tree else tree := by
  unfold handle
  cases found : manager.tree? id with
  | none =>
      by_cases here : other = id
      · rw [here, found]
        rfl
      · simp [here]
  | some tree =>
      have named : (act tree).tree.id = id := (keeps tree).trans (tree_id found)
      rw [tree_record_all]
      by_cases here : other = id
      · subst here
        have known : manager.tree? (act tree).tree.id = some tree := named ▸ found
        have after := tree_replace_self known
        rw [named] at after
        simp [after, found]
      · rw [tree_replace_other (named ▸ here)]
        simp [here]

theorem handle_answer (manager : Manager) (id : TreeId) {tree : LoadedTree}
    (found : manager.tree? id = some tree) : (manager.handle id act).2 = (act tree).answer := by
  rw [handle, found]

theorem handle_unknown {manager : Manager} {id : TreeId} (unknown : manager.tree? id = none) :
    manager.handle id act = (manager, .error (.unknownTree id)) := by
  rw [handle, unknown]

@[simp] theorem handle_loaded (manager : Manager) (id : TreeId) :
    (manager.handle id act).1.loaded = manager.loaded := by
  unfold handle
  split
  · rfl
  · simp [replace]

end

/-! Names of trees. -/

def ids (manager : Manager) : List TreeId := manager.trees.map (·.id)

/-- Every tree has a number that was given out, and no two have the same. -/
structure Numbered (manager : Manager) : Prop where
  below : ∀ id ∈ manager.ids, ∃ count, count < manager.loaded ∧ id = .number count
  apart : manager.ids.Nodup

theorem tree_eq_none_iff {manager : Manager} {id : TreeId} :
    manager.tree? id = none ↔ id ∉ manager.ids := by
  simp [tree?, ids, List.find?_eq_none]

theorem Numbered.of_new {manager : Manager} (new : manager.trees = []) : manager.Numbered := by
  constructor <;> simp [ids, new]

/-- A number that was not given out is no tree's. -/
theorem Numbered.fresh {manager : Manager} (numbered : manager.Numbered) {count : Nat}
    (later : manager.loaded ≤ count) : manager.tree? (.number count) = none := by
  rw [tree_eq_none_iff]
  intro there
  obtain ⟨other, before, same⟩ := numbered.below _ there
  cases same
  omega

theorem Numbered.of_ids {before after : Manager} (numbered : before.Numbered)
    (same : after.ids = before.ids) (loaded : after.loaded = before.loaded) : after.Numbered := by
  constructor
  · rw [same, loaded]
    exact numbered.below
  · rw [same]
    exact numbered.apart

theorem ids_replace (manager : Manager) (tree : LoadedTree) :
    (manager.replace tree).ids = manager.ids := by
  rw [ids, replace, List.map_map, ids]
  apply List.map_congr_left
  intro other _
  dsimp only [Function.comp_apply]
  split
  next here => exact here.symm
  next => rfl

@[simp] theorem ids_record_all (manager : Manager) (events : List Event) :
    (manager.recordAll events).ids = manager.ids := by
  rw [ids, record_all_trees, ids]

theorem ids_handle {Answer : Type} (act : LoadedTree → Handled Answer) (manager : Manager)
    (id : TreeId) : (manager.handle id act).1.ids = manager.ids := by
  unfold handle
  split
  · rfl
  · rw [ids_record_all, ids_replace]

theorem Numbered.handle {Answer : Type} {manager : Manager} (numbered : manager.Numbered)
    (id : TreeId) (act : LoadedTree → Handled Answer) : (manager.handle id act).1.Numbered :=
  numbered.of_ids (ids_handle act manager id) (handle_loaded manager id)

/-! Loading and unloading. -/

theorem load_of_refused {manager : Manager} {plan : TreePlan} {defect : Defect}
    (refused : plan.inspect = .error defect) :
    manager.load plan = (manager, .error (.defect defect)) := by
  rw [load, TreePlan.build_eq, refused]
  rfl

theorem load_of_accepted {plan : TreePlan} (accepted : plan.inspect = .ok ())
    (manager : Manager) :
    ∃ disk, manager.load plan =
      ({ manager with
          disk, loaded := manager.loaded + 1
          trees := manager.trees ++ [plan.loaded manager.timing (.number manager.loaded)] },
        .ok (.number manager.loaded)) := by
  have ready : (Ticker.setup { root := plan.root.node manager.timing }).fault = none :=
    NodePlan.node_setup_fault manager.timing plan.root
  simp only [load, TreePlan.build_eq, accepted, Except.map, ready]
  rw [record_eq]
  exact ⟨_, rfl⟩

end Manager

/-! What one moment does to one tree. -/

namespace LoadedTree

@[simp] theorem reap_id (tree : LoadedTree) : tree.reap.id = tree.id := by
  unfold reap
  split
  · split <;> rfl
  · rfl

@[simp] theorem launch_id (tree : LoadedTree) (policy : Policy) :
    (tree.launch policy).tree.id = tree.id := by
  unfold launch
  dsimp only
  split <;> exact reap_id tree

@[simp] theorem command_id (tree : LoadedTree) (command : Command) :
    (tree.command command).tree.id = tree.id := by
  unfold LoadedTree.command
  dsimp only
  split
  · exact reap_id tree
  · split <;> exact reap_id tree

@[simp] theorem tick_once_id (tree : LoadedTree) (store : Store) :
    (tree.tickOnce store).tree.id = tree.id := by
  unfold tickOnce
  dsimp only
  split <;> exact reap_id tree

@[simp] theorem dismiss_id (tree : LoadedTree) : tree.dismiss.tree.id = tree.id := by
  unfold dismiss
  split <;> rfl

@[simp] theorem release_id (tree : LoadedTree) : tree.release.tree.id = tree.id := by
  unfold release
  split <;> rfl

@[simp] theorem acknowledge_id (tree : LoadedTree) (node identity : String) :
    (tree.acknowledge node identity).tree.id = tree.id := by
  unfold acknowledge
  split <;> rfl

@[simp] theorem perform_id (tree : LoadedTree) (store : Store) :
    (tree.perform store).1.id = tree.id := by
  unfold perform
  split
  · split <;> rfl
  · rfl

@[simp] theorem undergo_id (tree : LoadedTree) (store : Store) (motion : Motion) :
    (tree.undergo store motion).tree.id = tree.id := by
  cases motion with
  | tick => exact perform_id tree store
  | ask | finish | work => rfl

end LoadedTree

theorem Instruction.take_up_id (instruction : Instruction) (store : Store) (tree : LoadedTree) :
    (instruction.takeUp store tree).tree.id = tree.id := by
  cases instruction <;> simp [takeUp, Handled.map]

/-- What one moment may do to a tree that is there or not, with what the tree was told and did. -/
inductive Change : Option LoadedTree → List Instruction → List Mark → Option LoadedTree → Prop
  | same (tree : Option LoadedTree) : Change tree [] [] tree
  | moved (tree : LoadedTree) (store : Store) (motion : Motion) :
      Change (some tree) [] (tree.undergo store motion).marks
        (some (tree.undergo store motion).tree)
  | taken (tree : LoadedTree) (store : Store) (instruction : Instruction) (reply : Reply)
      (granted : (instruction.takeUp store tree).answer = .ok reply) :
      Change (some tree) [instruction] (instruction.marks reply)
        (some (instruction.takeUp store tree).tree)
  | refused (tree : LoadedTree) (store : Store) (instruction : Instruction) (fault : ManagerFault)
      (refused : (instruction.takeUp store tree).answer = .error fault) :
      Change (some tree) [] [] (some (instruction.takeUp store tree).tree)
  | released (tree : LoadedTree) (idle : tree.activeDrive? = none) :
      Change (some tree) [] [] (some { tree with drive := none })
  | unloaded (tree : LoadedTree) : Change (some tree) [] [] none

theorem Change.of_none {told : List Instruction} {marks : List Mark} {after : Option LoadedTree}
    (change : Change none told marks after) : told = [] ∧ marks = [] ∧ after = none := by
  cases change
  exact ⟨rfl, rfl, rfl⟩

namespace Manager

theorem tree_announce (manager : Manager) (id other : TreeId)
    (about : LoadedTree → Option Event) :
    (manager.announce id about).tree? other = manager.tree? other := by
  rw [announce, affect, tree_handle (fun _ => rfl)]
  simp

/-- A drive that is over is let go of. -/
theorem change_release (manager : Manager) {id : TreeId} (idle : manager.isDriven id = false)
    (other : TreeId) :
    Change (manager.tree? other) [] [] ((manager.handle id (·.release)).1.tree? other) := by
  rw [tree_handle LoadedTree.release_id]
  cases found : manager.tree? other with
  | none => exact .same none
  | some tree =>
      rw [Option.map_some]
      split
      next here =>
        rw [isDriven, ← here, found, Option.bind_some, Option.isSome_eq_false_iff,
          Option.isNone_iff_eq_none] at idle
        unfold LoadedTree.release
        cases tree.drive with
        | none => exact .same (some tree)
        | some drive => exact .released tree idle
      next => exact .same (some tree)

theorem forget_of_known {manager : Manager} {id : TreeId} {tree : LoadedTree}
    (found : manager.tree? id = some tree) :
    ∃ disk orphans, manager.forget id =
      ({ manager with disk, orphans, trees := manager.trees.filter (·.id ≠ id) }, .ok ()) := by
  rw [forget, found]
  rcases tree.ticker.shutdown with ⟨ticker, calls⟩
  dsimp only
  rw [record_eq]
  exact ⟨_, _, rfl⟩

theorem forget_unknown {manager : Manager} {id : TreeId} (unknown : manager.tree? id = none) :
    manager.forget id = (manager, .error (.unknownTree id)) := by
  rw [forget, unknown]

/-- A tree that was forgotten is not there any more; the others are. -/
theorem tree_forget {manager : Manager} {id : TreeId} {tree : LoadedTree}
    (found : manager.tree? id = some tree) (other : TreeId) :
    (manager.forget id).1.tree? other = if other = id then none else manager.tree? other := by
  obtain ⟨disk, orphans, forgotten⟩ := forget_of_known found
  rw [forgotten]
  by_cases here : other = id
  · have gone : (manager.trees.filter (·.id ≠ id)).find? (·.id = id) = none := by
      simp [List.find?_eq_none]
    rw [if_pos here, here, tree?, gone]
  · have left : (manager.trees.filter (·.id ≠ id)).find? (·.id = other) =
        manager.trees.find? (·.id = other) := by
      rw [List.find?_filter]
      congr 1
      funext tree
      by_cases same : tree.id = other <;> simp [same, here]
    rw [if_neg here, tree?, tree?, left]

theorem change_forget (manager : Manager) (id other : TreeId) :
    Change (manager.tree? other) [] [] ((manager.forget id).1.tree? other) := by
  cases found : manager.tree? id with
  | none =>
      rw [forget_unknown found]
      exact .same _
  | some tree =>
      rw [tree_forget found]
      by_cases here : other = id
      · rw [if_pos here, here, found]
        exact .unloaded tree
      · rw [if_neg here]
        exact .same _

/-- What the answer to an instruction that was taken up comes to. -/
inductive Concludes (manager : Manager) (id : TreeId) :
    Instruction → Manager → Response → Prop
  | announced (instruction : Instruction) (about : LoadedTree → Option Event) :
      Concludes manager id instruction (manager.announce id about) (.ok .done)
  | stopped (idle : manager.isDriven id = false) :
      Concludes manager id .stop
        ((manager.handle id (·.release)).1.announce id fun tree => some tree.stopEvent)
        ((manager.handle id (·.release)).2.map .status)
  | waited (idle : manager.isDriven id = false) :
      Concludes manager id .wait (manager.handle id (·.release)).1
        ((manager.handle id (·.release)).2.map .status)
  | unloaded (idle : manager.isDriven id = false) :
      Concludes manager id .unload (manager.forget id).1
        ((manager.forget id).2.map fun _ => .done)

theorem concludes {manager after : Manager} {id : TreeId} {instruction : Instruction}
    {response : Response} (concluded : manager.conclude id instruction = some (after, response)) :
    manager.Concludes id instruction after response := by
  cases instruction with
  | start policy | pause | resume | step =>
      cases concluded
      exact .announced _ _
  | tickOnce | acknowledge => cases concluded
  | stop | wait | unload =>
      rw [conclude] at concluded
      split at concluded
      · cases concluded
      next idle =>
        cases concluded
        constructor
        exact Bool.eq_false_iff.mpr idle

theorem change_conclude {manager after : Manager} {id : TreeId} {instruction : Instruction}
    {response : Response} (concluded : manager.conclude id instruction = some (after, response))
    (other : TreeId) : Change (manager.tree? other) [] [] (after.tree? other) := by
  cases concludes concluded with
  | announced _ about =>
      rw [tree_announce]
      exact .same _
  | stopped idle =>
      rw [tree_announce]
      exact manager.change_release idle other
  | waited idle => exact manager.change_release idle other
  | unloaded idle => exact manager.change_forget id other

end Manager

namespace Service

open Entry Manager

theorem told_did (id other : TreeId) (marks : List Mark) :
    told id (marks.map (.did other)) = [] := by
  simp [told, told?, List.filterMap_eq_nil_iff]

theorem marks_did_self (id : TreeId) (marks : List Mark) :
    Entry.marks id (marks.map (.did id)) = marks := by
  simp [Entry.marks, List.filterMap_map, Function.comp_def, mark?]

theorem marks_did_other {id other : TreeId} (apart : other ≠ id) (marks : List Mark) :
    Entry.marks id (marks.map (.did other)) = [] := by
  simp [Entry.marks, mark?, apart, List.filterMap_eq_nil_iff]

/-- A longer instruction does nothing worth telling when it is taken up. -/
theorem marks_of_long {instruction : Instruction} (long : instruction.isBrief = false)
    (reply : Reply) : instruction.marks reply = [] := by
  cases instruction <;> first | rfl | cases long

theorem change_happening (service : Service) (happening : Happening) (id : TreeId) :
    Change (service.manager.tree? id) (told id (service.undergo happening).2)
      (Entry.marks id (service.undergo happening).2)
      ((service.undergo happening).1.manager.tree? id) := by
  cases happening with
  | vary | pass => exact .same _
  | motion other motion =>
      rw [undergo]
      cases found : service.manager.tree? other with
      | none => exact .same _
      | some tree =>
          have named := (tree.undergo_id service.manager.store motion).trans (tree_id found)
          dsimp only
          rw [told_did, tree_record_all]
          by_cases here : other = id
          · subst here
            rw [marks_did_self, found, tree_replace, found, Option.map_some, tree_id found,
              if_pos named.symm]
            exact .moved tree service.manager.store motion
          · rw [marks_did_other here, tree_replace_other (by rw [named]; exact Ne.symm here)]
            exact .same _

theorem obey_of_refused {service : Service} {id : TreeId} {instruction : Instruction}
    {fault : ManagerFault}
    (refused : (service.manager.handle id (instruction.takeUp service.manager.store)).2 =
      .error fault) :
    service.obey (.instruct id instruction) =
      ({ service with
          manager := (service.manager.handle id (instruction.takeUp service.manager.store)).1 },
        [.answered (.instruct id instruction) (.error fault)]) := by
  rw [obey]
  generalize service.manager.handle id (instruction.takeUp service.manager.store) = handled
    at refused
  obtain ⟨after, answer⟩ := handled
  cases refused
  rfl

theorem obey_of_granted {service : Service} {id : TreeId} {instruction : Instruction}
    {reply : Reply}
    (granted : (service.manager.handle id (instruction.takeUp service.manager.store)).2 =
      .ok reply) :
    service.obey (.instruct id instruction) =
      if instruction.isBrief then
        ({ service with
            manager := (service.manager.handle id (instruction.takeUp service.manager.store)).1 },
          .taken id instruction :: (instruction.marks reply).map (.did id) ++
            [.answered (.instruct id instruction) (.ok reply)])
      else
        ({ manager := (service.manager.handle id (instruction.takeUp service.manager.store)).1
           pending := some (id, instruction) }, [.taken id instruction]) := by
  rw [obey]
  generalize service.manager.handle id (instruction.takeUp service.manager.store) = handled
    at granted
  obtain ⟨after, answer⟩ := handled
  cases granted
  rfl

theorem obey_manager (service : Service) (id : TreeId) (instruction : Instruction) :
    (service.obey (.instruct id instruction)).1.manager =
      (service.manager.handle id (instruction.takeUp service.manager.store)).1 := by
  cases answer : (service.manager.handle id (instruction.takeUp service.manager.store)).2 with
  | error fault => rw [obey_of_refused answer]
  | ok reply =>
      rw [obey_of_granted answer]
      split <;> rfl

/-- What is told of an instruction that was taken up. -/
theorem entries_of_granted {service : Service} {id : TreeId} {instruction : Instruction}
    {reply : Reply}
    (granted : (service.manager.handle id (instruction.takeUp service.manager.store)).2 =
      .ok reply) (other : TreeId) :
    told other (service.obey (.instruct id instruction)).2 =
        (if id = other then [instruction] else []) ∧
      Entry.marks other (service.obey (.instruct id instruction)).2 =
        if id = other then instruction.marks reply else [] := by
  rw [obey_of_granted granted]
  split
  next brief =>
    rw [List.cons_append, told_taken, marks_taken, told_append, marks_append, told_did]
    refine ⟨by simp, ?_⟩
    by_cases here : id = other
    · rw [if_pos here, here, marks_did_self, marks_answered, List.append_nil]
    · rw [if_neg here, marks_did_other here, marks_answered, List.append_nil]
  next long =>
    have none := marks_of_long (Bool.eq_false_iff.mpr long) reply
    simp [none]

theorem change_instruct (service : Service) (other : TreeId) (instruction : Instruction)
    (id : TreeId) :
    Change (service.manager.tree? id) (told id (service.obey (.instruct other instruction)).2)
      (Entry.marks id (service.obey (.instruct other instruction)).2)
      ((service.obey (.instruct other instruction)).1.manager.tree? id) := by
  rw [obey_manager, tree_handle (instruction.take_up_id service.manager.store)]
  cases answer : (service.manager.handle other (instruction.takeUp service.manager.store)).2 with
  | error fault =>
      have quiet : told id (service.obey (.instruct other instruction)).2 = [] ∧
          Entry.marks id (service.obey (.instruct other instruction)).2 = [] := by
        rw [obey_of_refused answer]
        exact ⟨rfl, rfl⟩
      rw [quiet.1, quiet.2]
      cases found : service.manager.tree? id with
      | none => exact .same none
      | some tree =>
          rw [Option.map_some]
          split
          next here =>
            subst here
            rw [handle_answer _ _ found] at answer
            exact .refused tree _ instruction fault answer
          next => exact .same _
  | ok reply =>
      obtain ⟨toldOf, did⟩ := entries_of_granted answer id
      rw [toldOf, did]
      by_cases here : other = id
      · subst here
        rw [if_pos rfl, if_pos rfl]
        cases found : service.manager.tree? other with
        | none =>
            rw [handle_unknown found] at answer
            cases answer
        | some tree =>
            rw [handle_answer _ _ found] at answer
            rw [Option.map_some, if_pos rfl]
            exact .taken tree _ instruction reply answer
      · have elsewhere : ¬id = other := fun same => here same.symm
        simp only [if_neg here, if_neg elsewhere, Option.map_id']
        exact .same _

theorem change_load {service : Service} (numbered : service.manager.Numbered)
    (read : Except PlanFault TreePlan) (id : TreeId) :
    (service.obey (.load read)).1.manager.tree? id = service.manager.tree? id ∨
      ∃ plan, service.manager.tree? id = none ∧ plan.inspect = .ok () ∧
        id = .number service.manager.loaded ∧
        (service.obey (.load read)).2 = [.answered (.load (.ok plan)) (.ok (.loaded id))] ∧
        (service.obey (.load read)).1.manager.tree? id =
          some (plan.loaded service.manager.timing id) := by
  cases read with
  | error fault => exact .inl rfl
  | ok plan =>
      rw [obey, loadRead]
      cases inspected : plan.inspect with
      | error defect =>
          rw [load_of_refused inspected]
          exact .inl rfl
      | ok =>
          obtain ⟨disk, loaded⟩ := load_of_accepted inspected service.manager
          rw [loaded]
          dsimp only [tree?]
          rw [List.find?_append]
          by_cases here : id = .number service.manager.loaded
          · have unknown := numbered.fresh (Nat.le_refl _)
            rw [← here, tree?] at unknown
            refine .inr ⟨plan, unknown, inspected, here, by rw [here]; rfl, ?_⟩
            rw [unknown, Option.none_or, here]
            simp [TreePlan.loaded]
          · have apart : ¬TreeId.number service.manager.loaded = id := fun same => here same.symm
            left
            simp [TreePlan.loaded, apart]

/-- What a possible moment does to a tree, unless it loads that tree. -/
theorem change_of_meet {service next : Service} {moment : Moment} {entries : List Entry}
    (numbered : service.manager.Numbered) (met : service.meet moment = some (next, entries))
    (id : TreeId) :
    Change (service.manager.tree? id) (told id entries) (Entry.marks id entries)
        (next.manager.tree? id) ∨
      ∃ plan, service.manager.tree? id = none ∧ plan.inspect = .ok () ∧
        id = .number service.manager.loaded ∧
        entries = [.answered (.load (.ok plan)) (.ok (.loaded id))] ∧
        next.manager.tree? id = some (plan.loaded service.manager.timing id) := by
  cases moment with
  | happening happening =>
      obtain ⟨rfl, rfl⟩ := meet_happening_eq_some.mp met
      exact .inl (service.change_happening happening id)
  | answer =>
      obtain ⟨other, instruction, after, response, -, concluded, rfl, rfl⟩ :=
        meet_answer_eq_some.mp met
      exact .inl (change_conclude concluded id)
  | order order =>
      obtain ⟨-, rfl, rfl⟩ := meet_order_eq_some.mp met
      cases order with
      | instruct other instruction => exact .inl (service.change_instruct other instruction id)
      | load read =>
          rcases change_load numbered read id with same | loaded
          · left
            rw [same]
            exact .same _
          · exact .inr loaded

theorem numbered_forget {manager : Manager} (numbered : manager.Numbered) (id : TreeId) :
    (manager.forget id).1.Numbered ∧ (manager.forget id).1.loaded = manager.loaded := by
  cases found : manager.tree? id with
  | none =>
      rw [forget_unknown found]
      exact ⟨numbered, rfl⟩
  | some tree =>
      obtain ⟨disk, orphans, forgotten⟩ := forget_of_known found
      rw [forgotten]
      refine ⟨⟨?_, ?_⟩, rfl⟩
      · intro other there
        apply numbered.below
        exact (List.filter_sublist.map _).subset there
      · exact numbered.apart.sublist (List.filter_sublist.map _)

theorem numbered_conclude {manager after : Manager} {id : TreeId} {instruction : Instruction}
    {response : Response} (numbered : manager.Numbered)
    (concluded : manager.conclude id instruction = some (after, response)) :
    after.Numbered ∧ after.loaded = manager.loaded := by
  have announced : ∀ (manager : Manager) (about : LoadedTree → Option Event),
      manager.Numbered → (manager.announce id about).Numbered ∧
        (manager.announce id about).loaded = manager.loaded :=
    fun manager about numbered => ⟨numbered.handle id _, handle_loaded manager id⟩
  have released : (manager.handle id (·.release)).1.Numbered ∧
      (manager.handle id (·.release)).1.loaded = manager.loaded :=
    ⟨numbered.handle id _, handle_loaded manager id⟩
  cases concludes concluded with
  | announced _ about => exact announced manager about numbered
  | stopped =>
      obtain ⟨still, same⟩ := announced _ (fun tree => some tree.stopEvent) released.1
      exact ⟨still, same.trans released.2⟩
  | waited => exact released
  | unloaded => exact numbered_forget numbered id

theorem numbered_load {manager : Manager} (numbered : manager.Numbered)
    (read : Except PlanFault TreePlan) :
    (manager.loadRead read).1.Numbered ∧ manager.loaded ≤ (manager.loadRead read).1.loaded := by
  cases read with
  | error fault => exact ⟨numbered, Nat.le_refl _⟩
  | ok plan =>
      rw [loadRead]
      cases inspected : plan.inspect with
      | error defect =>
          rw [load_of_refused inspected]
          exact ⟨numbered, Nat.le_refl _⟩
      | ok =>
          obtain ⟨disk, loaded⟩ := load_of_accepted inspected manager
          rw [loaded]
          refine ⟨⟨?_, ?_⟩, Nat.le_succ _⟩
          · intro id there
            rw [ids, List.map_append, List.mem_append] at there
            rcases there with old | new
            · obtain ⟨count, before, same⟩ := numbered.below id old
              exact ⟨count, Nat.lt_succ_of_lt before, same⟩
            · exact ⟨manager.loaded, Nat.lt_succ_self _, List.mem_singleton.mp new⟩
          · rw [ids, List.map_append, List.nodup_append']
            refine ⟨numbered.apart, List.nodup_singleton _, ?_⟩
            intro id old new
            obtain ⟨count, before, same⟩ := numbered.below id old
            have named : id = .number manager.loaded := List.mem_singleton.mp new
            rw [same] at named
            cases named
            omega

theorem numbered_of_meet {service next : Service} {moment : Moment} {entries : List Entry}
    (numbered : service.manager.Numbered) (met : service.meet moment = some (next, entries)) :
    next.manager.Numbered ∧ service.manager.loaded ≤ next.manager.loaded := by
  cases moment with
  | happening happening =>
      obtain ⟨rfl, -⟩ := meet_happening_eq_some.mp met
      cases happening with
      | vary | pass => exact ⟨numbered.of_ids rfl rfl, Nat.le_refl _⟩
      | motion id motion =>
          rw [undergo]
          split
          · exact ⟨numbered, Nat.le_refl _⟩
          · refine ⟨numbered.of_ids ?_ ?_, ?_⟩
            · rw [ids_record_all, ids_replace]
            · simp [replace]
            · simp [replace]
  | answer =>
      obtain ⟨id, instruction, after, response, -, concluded, rfl, -⟩ :=
        meet_answer_eq_some.mp met
      obtain ⟨still, kept⟩ := numbered_conclude numbered concluded
      exact ⟨still, Nat.le_of_eq kept.symm⟩
  | order order =>
      obtain ⟨-, rfl, -⟩ := meet_order_eq_some.mp met
      cases order with
      | load read => exact numbered_load numbered read
      | instruct id instruction =>
          rw [obey_manager]
          exact ⟨numbered.handle id _, Nat.le_of_eq (handle_loaded service.manager id).symm⟩

/-- Numbers stay what tells trees apart, in every run. -/
theorem numbered_of_run {service last : Service} {moments : List Moment}
    {chronicle : List Entry} (numbered : service.manager.Numbered)
    (ran : service.run moments = some (last, chronicle)) : last.manager.Numbered := by
  induction moments generalizing service chronicle with
  | nil =>
      cases ran
      exact numbered
  | cons moment rest ih =>
      obtain ⟨next, entries, more, met, onward, -⟩ := run_cons_eq_some.mp ran
      exact ih (numbered_of_meet numbered met).1 onward

/-! What a tree keeps all its life. -/

/-- What holds of a tree, with what it was told and did so far, keeps holding whatever it is told
and does. -/
structure Lifelong (holds : LoadedTree → List Instruction → List Mark → Prop) : Prop where
  moved : ∀ {tree told marks} store motion, holds tree told marks →
    holds (tree.undergo store motion).tree told (marks ++ (tree.undergo store motion).marks)
  taken : ∀ {tree told marks} store (instruction : Instruction) reply, holds tree told marks →
    (instruction.takeUp store tree).answer = .ok reply →
      holds (instruction.takeUp store tree).tree (told ++ [instruction])
        (marks ++ instruction.marks reply)
  refused : ∀ {tree told marks} store (instruction : Instruction) fault,
    holds tree told marks → (instruction.takeUp store tree).answer = .error fault →
      holds (instruction.takeUp store tree).tree told marks
  released : ∀ {tree told marks}, holds tree told marks → tree.activeDrive? = none →
    holds { tree with drive := none } told marks

section

variable {holds : LoadedTree → List Instruction → List Mark → Prop}

theorem Lifelong.change (lifelong : Lifelong holds) {tree last : LoadedTree}
    {told more : List Instruction} {marks others : List Mark}
    (change : Change (some tree) more others (some last)) (before : holds tree told marks) :
    holds last (told ++ more) (marks ++ others) := by
  cases change with
  | same => simpa using before
  | moved _ store motion => simpa using lifelong.moved store motion before
  | taken _ store instruction reply granted =>
      exact lifelong.taken store instruction reply before granted
  | refused _ store instruction fault refused =>
      simpa using lifelong.refused store instruction fault before refused
  | released _ idle => simpa using lifelong.released before idle

/-- A tree that is gone does not come back. -/
theorem gone_of_run {service last : Service} {moments : List Moment} {chronicle : List Entry}
    (numbered : service.manager.Numbered)
    (ran : service.run moments = some (last, chronicle)) {count : Nat}
    (given : count < service.manager.loaded)
    (gone : service.manager.tree? (.number count) = none) :
    last.manager.tree? (.number count) = none := by
  induction moments generalizing service chronicle with
  | nil =>
      cases ran
      exact gone
  | cons moment rest ih =>
      obtain ⟨next, entries, more, met, onward, -⟩ := run_cons_eq_some.mp ran
      obtain ⟨still, later⟩ := numbered_of_meet numbered met
      apply ih still onward (Nat.lt_of_lt_of_le given later)
      rcases change_of_meet numbered met (.number count) with change | ⟨_, -, -, new, -⟩
      · rw [gone] at change
        exact change.of_none.2.2
      · cases new
        omega

/-- A tree that is still there was there all the time. -/
theorem Lifelong.run (lifelong : Lifelong holds) {service last : Service}
    {moments : List Moment} {chronicle : List Entry} (numbered : service.manager.Numbered)
    (ran : service.run moments = some (last, chronicle)) {id : TreeId} {tree final : LoadedTree}
    (found : service.manager.tree? id = some tree) (there : last.manager.tree? id = some final)
    {told : List Instruction} {marks : List Mark} (before : holds tree told marks) :
    holds final (told ++ Entry.told id chronicle) (marks ++ Entry.marks id chronicle) := by
  induction moments generalizing service chronicle tree told marks with
  | nil =>
      cases ran
      cases found.symm.trans there
      simpa using before
  | cons moment rest ih =>
      obtain ⟨next, entries, more, met, onward, rfl⟩ := run_cons_eq_some.mp ran
      obtain ⟨still, later⟩ := numbered_of_meet numbered met
      rcases change_of_meet numbered met id with change | ⟨_, unknown, -⟩
      · cases after : next.manager.tree? id with
        | none =>
            -- A number is given once, so a tree that is gone on the way is not there at last.
            have member : id ∈ service.manager.ids := by
              by_contra absent
              rw [tree_eq_none_iff.mpr absent] at found
              cases found
            obtain ⟨count, given, rfl⟩ := numbered.below id member
            rw [gone_of_run still onward (Nat.lt_of_lt_of_le given later) after] at there
            cases there
        | some middle =>
            rw [found, after] at change
            have kept := ih still onward after (lifelong.change change before)
            simpa using kept
      · rw [found] at unknown
        cases unknown

/-- What the chronicle of a new manager knows of its trees: where each of them comes from, and that
it was told and did nothing before. -/
structure Known (holds : TreePlan → LoadedTree → List Instruction → List Mark → Prop)
    (service : Service) (chronicle : List Entry) : Prop where
  numbered : service.manager.Numbered
  unborn : ∀ count, service.manager.loaded ≤ count →
    Entry.told (.number count) chronicle = [] ∧ Entry.marks (.number count) chronicle = []
  loaded : ∀ id tree, service.manager.tree? id = some tree → ∃ plan : TreePlan,
    .answered (.load (.ok plan)) (.ok (.loaded id)) ∈ chronicle ∧
      holds plan tree (Entry.told id chronicle) (Entry.marks id chronicle)

end

theorem Known.meet {holds : TreePlan → LoadedTree → List Instruction → List Mark → Prop}
    (lifelong : ∀ plan, Lifelong (holds plan))
    (begins : ∀ (plan : TreePlan) timing id, plan.inspect = .ok () →
      holds plan (plan.loaded timing id) [] [])
    {service next : Service} {chronicle entries : List Entry}
    (known : Known holds service chronicle) {moment : Moment}
    (met : service.meet moment = some (next, entries)) :
    Known holds next (chronicle ++ entries) := by
  obtain ⟨still, later⟩ := numbered_of_meet known.numbered met
  refine ⟨still, ?_, ?_⟩
  · intro count unborn
    have before := known.unborn count (Nat.le_trans later unborn)
    have absent := known.numbered.fresh (Nat.le_trans later unborn)
    rw [told_append, marks_append, before.1, before.2]
    rcases change_of_meet known.numbered met (.number count) with change | ⟨_, -, -, -, -, there⟩
    · rw [absent] at change
      exact ⟨change.of_none.1, change.of_none.2.1⟩
    · rw [still.fresh unborn] at there
      cases there
  · intro id tree there
    rcases change_of_meet known.numbered met id with
      change | ⟨plan, unknown, accepted, new, told, after⟩
    · rw [there] at change
      cases found : service.manager.tree? id with
      | none =>
          rw [found] at change
          cases change.of_none.2.2
      | some before =>
          rw [found] at change
          obtain ⟨plan, brought, held⟩ := known.loaded id before found
          refine ⟨plan, List.mem_append_left _ brought, ?_⟩
          rw [told_append, marks_append]
          exact (lifelong plan).change change held
    · obtain ⟨quiet, idle⟩ := known.unborn service.manager.loaded (Nat.le_refl _)
      refine ⟨plan, List.mem_append_right _ (by simp [told]), ?_⟩
      rw [there] at after
      cases after
      rw [told_append, marks_append, told, new, quiet, idle, told_answered, marks_answered]
      exact begins plan _ _ accepted

/-- What every plan brings about holds of the trees of a manager that was new once. -/
theorem known_of_run {holds : TreePlan → LoadedTree → List Instruction → List Mark → Prop}
    (lifelong : ∀ plan, Lifelong (holds plan))
    (begins : ∀ (plan : TreePlan) timing id, plan.inspect = .ok () →
      holds plan (plan.loaded timing id) [] [])
    {manager : Manager} (new : manager.trees = []) {moments : List Moment} {service : Service}
    {chronicle : List Entry} (ran : run { manager } moments = some (service, chronicle)) :
    Known holds service chronicle := by
  have onward : ∀ {moments : List Moment} {service last : Service} {early late : List Entry},
      Known holds service early → service.run moments = some (last, late) →
        Known holds last (early ++ late) := by
    intro moments
    induction moments with
    | nil =>
        intro service last early late known ran
        cases ran
        simpa using known
    | cons moment rest ih =>
        intro service last early late known ran
        obtain ⟨next, entries, more, met, onward, rfl⟩ := run_cons_eq_some.mp ran
        have after := ih (known.meet lifelong begins met) onward
        rwa [List.append_assoc] at after
  have first : Known holds { manager } [] := by
    refine ⟨.of_new new, fun _ _ => ⟨rfl, rfl⟩, ?_⟩
    intro id tree found
    simp [tree?, new] at found
  exact onward first ran

end Service

end BehaviorTree
