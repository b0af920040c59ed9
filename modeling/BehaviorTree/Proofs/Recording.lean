import BehaviorTree.Proofs.Journal
import BehaviorTree.Proofs.Stints

/-!
What a manager in service records. A moment records events about one tree at most: that it was
loaded, that a tick changed its root status, something aside, or that it was unloaded; and what was
recorded stands in the log in that order.
-/

namespace BehaviorTree

namespace Event

def dated (now : Timestamp) (event : Event) : Event := { event with timestamp := now }

/-- An event without its moment. -/
def undated (event : Event) : Event := event.dated {}

theorem undated_dated (now : Timestamp) (event : Event) :
    (event.dated now).undated = event.undated := rfl

/-- What is asked of an event besides its moment, if it is to be read back. -/
structure Plain (event : Event) : Prop where
  faithful : event.metadata.isExact = true
  sorted : event.metadata.isOrdered = true
  shallow : event.metadata.depth < Json.maxDepth

theorem Plain.lasts {event : Event} (plain : event.Plain) {now : Timestamp}
    (moment : Timestamp.read now.write = some now) : (event.dated now).Lasts :=
  ⟨moment, plain.faithful, plain.sorted, plain.shallow⟩

/-- A name beside a text is plain enough. -/
theorem plain_of_text {event : Event} {name text : String}
    (told : event.metadata = .ofFields [(name, .text text)]) : event.Plain := by
  constructor
  · rw [told]
    rfl
  · simp [told, Datum.ofFields, Datum.isOrdered, Datum.entriesAreOrdered, Key.name?]
  · rw [told]
    exact of_decide_eq_true rfl

theorem plain_of_nothing {event : Event} (told : event.metadata = .null) : event.Plain := by
  constructor
  · rw [told]
    rfl
  · rw [told]
    rfl
  · rw [told]
    exact of_decide_eq_true rfl

/-- What is recorded about a loaded tree besides the changes of its root status. -/
structure Aside (name : String) (event : Event) : Prop where
  tree : event.tree = name
  kind : event.kind ∈ ["tree_started", "tree_paused", "tree_resumed", "tree_stopped", "acknowledge"]
  plain : event.Plain

end Event

/-- A change of a root status, with the number of the tick that brought it. -/
structure StatusChange where
  tick : Nat
  before : Status
  after : Status
  deriving DecidableEq, Repr

namespace StatusChange

def event (name : String) (change : StatusChange) : Event :=
  { kind := "root_status", tree := name
    message := s!"{change.before.name} -> {change.after.name}"
    metadata := .ofFields
      [("from", .text change.before.name), ("tick", .int change.tick),
        ("to", .text change.after.name)] }

/-- Numbers of ticks are those of JSON as long as they fit into 64 bits. -/
theorem event_plain (name : String) {change : StatusChange} (few : change.tick < UInt64.size) :
    (change.event name).Plain := by
  refine ⟨?_, ?_, of_decide_eq_true rfl⟩
  · have fits : Json.isMachineInt (change.tick : Int) = true := by
      have least : -(Nat.pow 2 63 : Int) ≤ change.tick :=
        Int.le_trans (by decide) (Int.natCast_nonneg _)
      have most : (change.tick : Int) < Nat.pow 2 64 := Int.ofNat_lt.mpr few
      rw [Json.isMachineInt, decide_eq_true least, decide_eq_true most]
      rfl
    simp [event, Datum.ofFields, Datum.isExact, Datum.entriesAreExact, Key.isName, fits]
  · rfl

/-- The change that a tick brings, if the status it comes to is another one than before. -/
def ofTick (tick : Nat) (before after : Status) : List StatusChange :=
  if after = before then [] else [⟨tick, before, after⟩]

end StatusChange

/-- What is recorded when a plan was loaded. -/
def TreePlan.loadEvent (plan : TreePlan) (id : TreeId) : Event :=
  { kind := "tree_loaded", tree := plan.label.name, message := "Tree loaded"
    metadata := .ofFields [("id", .text id.name)] }

/-! The disk of a manager. -/

namespace Disk

/-- A disk after some events were recorded, if there is a log. -/
def emitAll (disk : Disk) (path : Option String) (events : List Event) : Disk :=
  match path with
  | none => disk
  | some path => events.foldl (·.emit path) disk

theorem emit_all_append (disk : Disk) (path : Option String) (early late : List Event) :
    disk.emitAll path (early ++ late) = (disk.emitAll path early).emitAll path late := by
  cases path with
  | none => rfl
  | some path => exact List.foldl_append

end Disk

namespace Manager

variable {Answer : Type}

/-- The disk that is left when some events are recorded. -/
def written (manager : Manager) (events : List Event) : Disk :=
  manager.disk.emitAll manager.eventsPath (events.map (·.dated manager.now))

theorem written_nil (manager : Manager) : manager.written [] = manager.disk := by
  rw [written]
  cases manager.eventsPath <;> rfl

theorem record_disk (manager : Manager) (event : Event) :
    (manager.record event).disk = manager.written [event] := by
  rw [record, written]
  cases manager.eventsPath <;> rfl

theorem record_all_disk (manager : Manager) (events : List Event) :
    (manager.recordAll events).disk = manager.written events := by
  induction events generalizing manager with
  | nil => exact manager.written_nil.symm
  | cons event rest ih =>
      have same : (manager.record event).eventsPath = manager.eventsPath ∧
          (manager.record event).now = manager.now := by rw [record_eq]; exact ⟨rfl, rfl⟩
      rw [recordAll, List.foldl_cons]
      have onward := ih (manager.record event)
      rw [written, same.1, same.2, record_disk, written, ← Disk.emit_all_append] at onward
      exact onward

/-- Writing some events leaves the disk on which the next are written. -/
theorem written_append {manager after : Manager} {early : List Event}
    (disk : after.disk = manager.written early) (path : after.eventsPath = manager.eventsPath)
    (now : after.now = manager.now) (late : List Event) :
    after.written late = manager.written (early ++ late) := by
  rw [written, disk, path, now, written, written, List.map_append, Disk.emit_all_append]

end Manager

/-! What one moment records about one tree. -/

namespace LoadedTree

/-- What is the same of a tree as long as it does not tick. -/
structure Steady (tree after : LoadedTree) : Prop where
  name : after.name = tree.name
  recorded : after.recorded = tree.recorded
  tickCount : after.ticker.tickCount = tree.ticker.tickCount

namespace Steady

variable {tree middle after : LoadedTree}

theorem refl (tree : LoadedTree) : tree.Steady tree := ⟨rfl, rfl, rfl⟩

theorem trans (first : tree.Steady middle) (second : middle.Steady after) : tree.Steady after :=
  ⟨second.name.trans first.name, second.recorded.trans first.recorded,
    second.tickCount.trans first.tickCount⟩

/-- Whatever becomes of the drive. -/
theorem drive (tree : LoadedTree) (drive : Option Drive) : tree.Steady { tree with drive } :=
  ⟨rfl, rfl, rfl⟩

theorem reap (tree : LoadedTree) : tree.Steady tree.reap := by
  rw [reap_eq]
  exact drive tree _

theorem launch (tree : LoadedTree) (policy : Policy) : tree.Steady (tree.launch policy).tree := by
  unfold LoadedTree.launch
  dsimp only
  split
  · exact reap tree
  · exact (reap tree).trans (drive _ _)

theorem command (tree : LoadedTree) (command : Command) :
    tree.Steady (tree.command command).tree := by
  unfold LoadedTree.command
  dsimp only
  split
  · exact reap tree
  · split
    · exact reap tree
    · exact (reap tree).trans (drive _ _)

theorem dismiss (tree : LoadedTree) : tree.Steady tree.dismiss.tree := by
  unfold LoadedTree.dismiss
  split <;> exact drive tree _

theorem release (tree : LoadedTree) : tree.Steady tree.release.tree := by
  unfold LoadedTree.release
  split <;> exact drive tree _

theorem acknowledge (tree : LoadedTree) (node identity : String) :
    tree.Steady (tree.acknowledge node identity).tree := by
  unfold LoadedTree.acknowledge
  split
  · exact refl tree
  next granted => exact ⟨rfl, rfl, (Ticker.acknowledge_ticks granted).1⟩

end Steady

/-- Only what was granted is recorded about an acknowledgement. -/
theorem acknowledge_asides (tree : LoadedTree) (node identity : String) :
    ∀ event ∈ (tree.acknowledge node identity).events, event.Aside tree.name := by
  unfold acknowledge
  split
  · intro event inside
    cases inside
  · intro event inside
    obtain rfl := List.mem_singleton.mp inside
    exact ⟨rfl, by simp, rfl, rfl, of_decide_eq_true rfl⟩

/-- What one moment may do to a tree that is there or not, with what the tree did and what is
recorded about it. -/
inductive Noted : Option LoadedTree → List Mark → List Event → Option LoadedTree → Prop
  | same (tree : Option LoadedTree) : Noted tree [] [] tree
  | rests {tree after : LoadedTree} {marks : List Mark} {events : List Event}
      (steady : tree.Steady after) (unticked : Mark.ticks marks = [])
      (asides : ∀ event ∈ events, event.Aside tree.name) :
      Noted (some tree) marks events (some after)
  | ticks {tree after : LoadedTree} {marks : List Mark} (status : Status)
      (ticked : Mark.ticks marks = [status]) (name : after.name = tree.name)
      (recorded : after.recorded = status)
      (counted : after.ticker.tickCount = tree.ticker.tickCount + 1) :
      Noted (some tree) marks
        ((StatusChange.ofTick tree.ticker.tickCount tree.recorded status).map
          (·.event tree.name))
        (some after)
  | unloaded (tree : LoadedTree) : Noted (some tree) [] [tree.unloadEvent] none

theorem Noted.of_none {marks : List Mark} {events : List Event} {after : Option LoadedTree}
    (noted : Noted none marks events after) : marks = [] ∧ events = [] ∧ after = none := by
  cases noted
  exact ⟨rfl, rfl, rfl⟩

/-- What is recorded about a tree bears its name. -/
theorem Noted.names {tree : LoadedTree} {marks : List Mark} {events : List Event}
    {after : Option LoadedTree} (noted : Noted (some tree) marks events after) :
    ∀ event ∈ events, event.tree = tree.name := by
  intro event inside
  cases noted with
  | same => cases inside
  | rests _ _ asides => exact (asides event inside).tree
  | ticks =>
      obtain ⟨change, -, rfl⟩ := List.mem_map.mp inside
      rfl
  | unloaded =>
      obtain rfl := List.mem_singleton.mp inside
      rfl

/-- What is recorded about a tree can be read back, as long as its ticks can be counted in 64
bits. -/
theorem Noted.plain {tree : LoadedTree} {marks : List Mark} {events : List Event}
    {after : Option LoadedTree} (noted : Noted (some tree) marks events after)
    (few : tree.ticker.tickCount < UInt64.size) : ∀ event ∈ events, event.Plain := by
  intro event inside
  cases noted with
  | same => cases inside
  | rests _ _ asides => exact (asides event inside).plain
  | ticks =>
      obtain ⟨change, changed, rfl⟩ := List.mem_map.mp inside
      apply StatusChange.event_plain
      unfold StatusChange.ofTick at changed
      split at changed
      · cases changed
      · obtain rfl := List.mem_singleton.mp changed
        exact few
  | unloaded =>
      obtain rfl := List.mem_singleton.mp inside
      exact Event.plain_of_nothing rfl

theorem Noted.after_rest {tree middle : LoadedTree} {events : List Event}
    {after : Option LoadedTree} (noted : Noted (some middle) [] events after)
    (steady : tree.Steady middle) (there : after.isSome = true) :
    Noted (some tree) [] events after := by
  cases noted with
  | same => exact .rests steady rfl (by simp)
  | rests onward _ asides =>
      rw [steady.name] at asides
      exact .rests (steady.trans onward) rfl asides
  | ticks _ ticked => cases ticked
  | unloaded => cases there

theorem tick_events (tree : LoadedTree) (store : Store) :
    (tree.tick store).2 =
      (StatusChange.ofTick tree.ticker.tickCount tree.recorded
        (tree.tick store).1.ticker.lastStatus).map (·.event tree.name) := by
  rw [tick, StatusChange.ofTick]
  dsimp only
  split
  next same => exact (if_pos same) ▸ rfl
  next other => exact (if_neg other) ▸ rfl

theorem noted_undergo (tree : LoadedTree) (store : Store) (motion : Motion) :
    Noted (some tree) (tree.undergo store motion).marks (tree.undergo store motion).events
      (some (tree.undergo store motion).tree) := by
  have nothing : ∀ event ∈ ([] : List Event), event.Aside tree.name := by simp
  cases motion with
  | work path action => exact .rests ⟨rfl, rfl, rfl⟩ rfl nothing
  | finish => exact .rests (.drive tree _) rfl nothing
  | ask expires =>
      refine .rests (.drive tree _) ?_ nothing
      rw [undergo]
      cases tree.question? expires <;> rfl
  | tick =>
      rw [undergo]
      cases due : tree.isDue with
      | false =>
          rw [perform_of_not_due due]
          exact .rests (.refl tree) rfl nothing
      | true =>
          obtain ⟨drive, own, ticking⟩ := is_due_iff.mp due
          rw [perform_of_due own ticking, tick_events]
          exact .ticks _ rfl rfl rfl rfl

@[simp] theorem launch_events (tree : LoadedTree) (policy : Policy) :
    (tree.launch policy).events = [] := by
  unfold launch
  dsimp only
  split <;> rfl

@[simp] theorem command_events (tree : LoadedTree) (command : Command) :
    (tree.command command).events = [] := by
  unfold LoadedTree.command
  dsimp only
  split
  · rfl
  · split <;> rfl

@[simp] theorem dismiss_events (tree : LoadedTree) : tree.dismiss.events = [] := by
  unfold dismiss
  split <;> rfl

@[simp] theorem release_events (tree : LoadedTree) : tree.release.events = [] := by
  unfold release
  split <;> rfl

end LoadedTree

namespace Instruction

open LoadedTree (Noted Steady)

/-- What a tree did because of an instruction that was answered so when it was taken up. -/
def did (instruction : Instruction) : Response → List Mark
  | .ok reply => instruction.marks reply
  | .error _ => []

theorem did_of_long {instruction : Instruction} (long : instruction.isBrief = false)
    (response : Response) : instruction.did response = [] := by
  cases response with
  | error fault => rfl
  | ok reply => exact Service.marks_of_long long reply

/-- What an instruction leaves when it is taken up, or is not. -/
theorem noted_take_up (instruction : Instruction) (store : Store) (tree : LoadedTree) :
    Noted (some tree) (instruction.did (instruction.takeUp store tree).answer)
      (instruction.takeUp store tree).events (some (instruction.takeUp store tree).tree) := by
  have long : ∀ {after : LoadedTree} {marks : List Mark}, tree.Steady after → marks = [] →
      Noted (some tree) marks [] (some after) := by
    rintro after _ steady rfl
    exact .rests steady rfl (by simp)
  cases instruction with
  | start policy =>
      rw [takeUp, Handled.map, tree.launch_events]
      exact long (.launch tree policy) (did_of_long rfl _)
  | pause | resume | step =>
      rw [takeUp, Handled.map, tree.command_events]
      exact long (.command tree _) (did_of_long rfl _)
  | stop =>
      rw [takeUp, Handled.map, tree.dismiss_events]
      exact long (.dismiss tree) (did_of_long rfl _)
  | wait => exact long (.refl tree) (did_of_long rfl _)
  | unload => exact long (.dismiss tree) rfl
  | acknowledge node identity =>
      refine .rests (.acknowledge tree node identity) ?_ (tree.acknowledge_asides node identity)
      generalize (takeUp store tree (.acknowledge node identity)).answer = response
      cases response <;> rfl
  | tickOnce =>
      cases active : tree.activeDrive? with
      | some drive =>
          rw [takeUp, LoadedTree.tick_once_of_active active]
          exact .same (some tree)
      | none =>
          rw [takeUp, LoadedTree.tick_once_of_idle active, Handled.map, LoadedTree.tick_events]
          exact @Noted.ticks tree _ _ _ rfl rfl rfl rfl

end Instruction

/-! What one moment records. -/

namespace Manager

open LoadedTree (Noted)

/-- Some events are recorded, and nothing changes in any tree but one. -/
structure Notes (manager after : Manager) (subject : TreeId) (events : List Event) : Prop where
  disk : after.disk = manager.written events
  eventsPath : after.eventsPath = manager.eventsPath
  others : ∀ other, other ≠ subject → after.tree? other = manager.tree? other

theorem Notes.of_same {manager after : Manager} (disk : after.disk = manager.disk)
    (path : after.eventsPath = manager.eventsPath) (trees : after.trees = manager.trees)
    (subject : TreeId) : manager.Notes after subject [] := by
  refine ⟨disk.trans manager.written_nil.symm, path, ?_⟩
  intro other _
  rw [tree?, tree?, trees]

theorem notes_handle {Answer : Type} {act : LoadedTree → Handled Answer}
    (keeps : ∀ tree, (act tree).tree.id = tree.id) (manager : Manager) {id : TreeId}
    {tree : LoadedTree} (found : manager.tree? id = some tree) :
    manager.Notes (manager.handle id act).1 id (act tree).events := by
  refine ⟨?_, ?_, ?_⟩
  · rw [handle, found]
    dsimp only
    rw [← replace_record_all]
    exact manager.record_all_disk (act tree).events
  · rw [handle, found]
    dsimp only
    rw [record_all_eq]
    rfl
  · intro other apart
    rw [tree_handle keeps]
    simp [apart]

theorem notes_announce (manager : Manager) (id : TreeId) {about : LoadedTree → Option Event}
    (asides : ∀ tree, ∀ event ∈ about tree, event.Aside tree.name) :
    ∃ events, manager.Notes (manager.announce id about) id events ∧
      Noted (manager.tree? id) [] events ((manager.announce id about).tree? id) := by
  rw [tree_announce]
  cases found : manager.tree? id with
  | none =>
      rw [announce, affect, handle_unknown found]
      exact ⟨[], .of_same rfl rfl rfl id, .same none⟩
  | some tree =>
      refine ⟨(about tree).toList, notes_handle (fun _ => rfl) manager found, ?_⟩
      apply Noted.rests (.refl tree) rfl
      intro event inside
      exact asides tree event (Option.mem_toList.mp inside)

/-! Clocks. -/

theorem record_all_now (manager : Manager) (events : List Event) :
    (manager.recordAll events).now = manager.now := by
  rw [record_all_eq]

theorem handle_now {Answer : Type} (manager : Manager) (id : TreeId)
    (act : LoadedTree → Handled Answer) : (manager.handle id act).1.now = manager.now := by
  unfold handle
  split
  · rfl
  · exact record_all_now _ _

/-- Letting go of a drive is not recorded. -/
theorem notes_release (manager : Manager) (id : TreeId) :
    manager.Notes (manager.handle id (·.release)).1 id [] ∧
      Noted (manager.tree? id) [] [] ((manager.handle id (·.release)).1.tree? id) := by
  cases found : manager.tree? id with
  | none =>
      rw [handle_unknown found, found]
      exact ⟨.of_same rfl rfl rfl id, .same none⟩
  | some tree =>
      have notes := notes_handle LoadedTree.release_id manager found
      rw [tree.release_events] at notes
      refine ⟨notes, ?_⟩
      rw [tree_handle LoadedTree.release_id, found, Option.map_some, if_pos rfl]
      exact .rests (.release tree) rfl (by simp)

theorem Notes.and_then {manager middle after : Manager} {id : TreeId} {events : List Event}
    (first : manager.Notes middle id []) (now : middle.now = manager.now)
    (second : middle.Notes after id events) : manager.Notes after id events := by
  refine ⟨?_, second.eventsPath.trans first.eventsPath, ?_⟩
  · rw [second.disk, written_append first.disk first.eventsPath now, List.nil_append]
  · intro other apart
    rw [second.others other apart, first.others other apart]

theorem notes_forget (manager : Manager) (id : TreeId) :
    ∃ events, manager.Notes (manager.forget id).1 id events ∧
      Noted (manager.tree? id) [] events ((manager.forget id).1.tree? id) := by
  cases found : manager.tree? id with
  | none =>
      rw [forget_unknown found, found]
      exact ⟨[], .of_same rfl rfl rfl id, .same none⟩
  | some tree =>
      have gone := tree_forget found
      refine ⟨[tree.unloadEvent], ⟨?_, ?_, ?_⟩, ?_⟩
      · rw [forget, found]
        rcases tree.ticker.shutdown with ⟨ticker, calls⟩
        exact record_disk _ _
      · rw [forget, found]
        rcases tree.ticker.shutdown with ⟨ticker, calls⟩
        dsimp only
        rw [record_eq]
      · intro other apart
        rw [gone, if_neg apart]
      · rw [gone, if_pos rfl]
        exact .unloaded tree

/-- Who stops a tree lets go of its drive first. -/
theorem notes_stop (manager : Manager) (id : TreeId) :
    ∃ events,
      manager.Notes ((manager.handle id (·.release)).1.announce id fun tree => some tree.stopEvent)
        id events ∧
      Noted (manager.tree? id) [] events
        (((manager.handle id (·.release)).1.announce id fun tree => some tree.stopEvent).tree?
          id) := by
  have stopped : ∀ tree, ∀ event ∈ some (LoadedTree.stopEvent tree), event.Aside tree.name := by
    intro tree event inside
    cases inside
    exact ⟨rfl, by simp [LoadedTree.stopEvent], Event.plain_of_text rfl⟩
  obtain ⟨first, -⟩ := manager.notes_release id
  obtain ⟨events, second, noted⟩ := (manager.handle id (·.release)).1.notes_announce id stopped
  refine ⟨events, first.and_then (handle_now manager id _) second, ?_⟩
  rw [tree_announce, tree_handle LoadedTree.release_id] at noted ⊢
  cases found : manager.tree? id with
  | none => rwa [found] at noted
  | some tree =>
      rw [found, Option.map_some, if_pos rfl] at noted
      rw [Option.map_some, if_pos rfl]
      exact noted.after_rest (.release tree) rfl

/-- What the answer to an instruction records. -/
theorem notes_conclude {manager after : Manager} {id : TreeId} {instruction : Instruction}
    {response : Response} (concluded : manager.conclude id instruction = some (after, response)) :
    ∃ events, manager.Notes after id events ∧
      Noted (manager.tree? id) [] events (after.tree? id) := by
  have spoken : ∀ command tree, ∀ event ∈ LoadedTree.commandEvent? command tree,
      event.Aside tree.name := by
    intro command tree event inside
    cases command <;> cases inside <;> exact ⟨rfl, by simp, Event.plain_of_nothing rfl⟩
  cases instruction with
  | start policy =>
      cases concluded
      apply notes_announce
      intro tree event inside
      cases inside
      exact ⟨rfl, by simp [LoadedTree.startEvent], Event.plain_of_text rfl⟩
  | pause =>
      cases concluded
      exact manager.notes_announce id (spoken .pause)
  | resume =>
      cases concluded
      exact manager.notes_announce id (spoken .resume)
  | step =>
      cases concluded
      exact manager.notes_announce id (spoken .step)
  | tickOnce | acknowledge => cases concluded
  | stop =>
      cases driven : manager.isDriven id with
      | true =>
          rw [conclude, if_pos driven] at concluded
          cases concluded
      | false =>
          rw [Stint.conclude_stop driven] at concluded
          cases concluded
          exact manager.notes_stop id
  | wait =>
      rw [conclude] at concluded
      split at concluded
      · cases concluded
      · cases concluded
        obtain ⟨first, released⟩ := manager.notes_release id
        exact ⟨[], first, released⟩
  | unload =>
      rw [conclude] at concluded
      split at concluded
      · cases concluded
      · cases concluded
        exact manager.notes_forget id

/-- Loading a plan is recorded. -/
theorem load_written {plan : TreePlan} (accepted : plan.inspect = .ok ()) (manager : Manager) :
    manager.load plan =
      ({ manager with
          disk := manager.written [plan.loadEvent (.number manager.loaded)]
          loaded := manager.loaded + 1
          trees := manager.trees ++ [plan.loaded manager.timing (.number manager.loaded)] },
        .ok (.number manager.loaded)) := by
  have ready : (Ticker.setup { root := plan.root.node manager.timing }).fault = none :=
    NodePlan.node_setup_fault manager.timing plan.root
  simp only [load, TreePlan.build_eq, accepted, Except.map, ready]
  rw [record_eq, record_disk]
  rfl

end Manager

namespace Service

open Entry Manager
open LoadedTree (Noted)

/-- What a moment does to the log: something is recorded about a tree that was there before, or a
plan was loaded. -/
inductive Records (service next : Service) (entries : List Entry) : TreeId → List Event → Prop
  | noted {subject : TreeId} {events : List Event}
      (elsewhere : ∀ other, other ≠ subject → Entry.marks other entries = [])
      (noted : Noted (service.manager.tree? subject) (Entry.marks subject entries) events
        (next.manager.tree? subject))
      (nothing : ∀ (plan : TreePlan) id,
        .answered (.load (.ok plan)) (.ok (.loaded id)) ∉ entries) :
      Records service next entries subject events
  | loaded {subject : TreeId} (plan : TreePlan)
      (new : subject = .number service.manager.loaded)
      (unknown : service.manager.tree? subject = none)
      (told : entries = [.answered (.load (.ok plan)) (.ok (.loaded subject))])
      (there : next.manager.tree? subject =
        some (plan.loaded service.manager.timing subject)) :
      Records service next entries subject [plan.loadEvent subject]

theorem records_happening (service : Service) (happening : Happening) :
    ∃ subject events,
      service.manager.Notes (service.undergo happening).1.manager subject events ∧
        service.Records (service.undergo happening).1 (service.undergo happening).2 subject
          events := by
  have nothing : ∀ (plan : TreePlan) id,
      .answered (.load (.ok plan)) (.ok (.loaded id)) ∉ (service.undergo happening).2 := by
    intro plan id told
    obtain ⟨other, marks, same⟩ := service.undergo_entries happening
    rw [same] at told
    simp at told
  cases happening with
  | vary store orphans =>
      refine ⟨.none, [], ?_, .noted (fun _ _ => rfl) (.same _) nothing⟩
      apply Notes.of_same <;> rfl
  | pass now =>
      refine ⟨.none, [], ?_, .noted (fun _ _ => rfl) (.same _) nothing⟩
      apply Notes.of_same <;> rfl
  | motion id motion =>
      cases found : service.manager.tree? id with
      | none =>
          have same : service.undergo (.motion id motion) = (service, []) := by
            rw [undergo, found]
          rw [same] at nothing ⊢
          exact ⟨id, [], .of_same rfl rfl rfl id, .noted (fun _ _ => rfl) (.same _) nothing⟩
      | some tree =>
          have same : service.undergo (.motion id motion) =
              ({ service with
                  manager := (service.manager.handle id fun tree =>
                    ({ tree := (tree.undergo service.manager.store motion).tree
                       events := (tree.undergo service.manager.store motion).events
                       answer := .ok () } : Handled Unit)).1 },
                (tree.undergo service.manager.store motion).marks.map (.did id)) := by
            rw [undergo, handle, found]
          have named : ∀ tree : LoadedTree,
              (tree.undergo service.manager.store motion).tree.id = tree.id :=
            fun tree => tree.undergo_id service.manager.store motion
          rw [same] at nothing ⊢
          refine ⟨id, _, notes_handle named service.manager found, .noted ?_ ?_ nothing⟩
          · intro other apart
            exact marks_did_other apart.symm _
          · rw [tree_handle named, marks_did_self, found, Option.map_some, if_pos rfl]
            exact tree.noted_undergo service.manager.store motion

/-- What a tree did because of an instruction, whether it was taken up or not. -/
theorem marks_of_instruct (service : Service) (id : TreeId) (instruction : Instruction)
    (other : TreeId) :
    Entry.marks other (service.obey (.instruct id instruction)).2 =
      if other = id then
        instruction.did
          (service.manager.handle id (instruction.takeUp service.manager.store)).2
      else [] := by
  cases answer : (service.manager.handle id (instruction.takeUp service.manager.store)).2 with
  | error fault =>
      rw [obey_of_refused answer, Instruction.did]
      exact (ite_self _).symm
  | ok reply =>
      rw [(entries_of_granted answer other).2, Instruction.did]
      simp only [eq_comm]

theorem obey_loads_nothing (service : Service) (id : TreeId) (instruction : Instruction)
    (plan : TreePlan) (other : TreeId) :
    .answered (.load (.ok plan)) (.ok (.loaded other)) ∉
      (service.obey (.instruct id instruction)).2 := by
  cases answer : (service.manager.handle id (instruction.takeUp service.manager.store)).2 with
  | error fault =>
      rw [obey_of_refused answer]
      simp
  | ok reply =>
      rw [obey_of_granted answer]
      split <;> simp

theorem records_instruct (service : Service) (id : TreeId) (instruction : Instruction) :
    ∃ subject events,
      service.manager.Notes (service.obey (.instruct id instruction)).1.manager subject events ∧
        service.Records (service.obey (.instruct id instruction)).1
          (service.obey (.instruct id instruction)).2 subject events := by
  have nothing := service.obey_loads_nothing id instruction
  have elsewhere : ∀ other, other ≠ id →
      Entry.marks other (service.obey (.instruct id instruction)).2 = [] := by
    intro other apart
    rw [marks_of_instruct, if_neg apart]
  have marked := service.marks_of_instruct id instruction id
  rw [if_pos rfl] at marked
  cases found : service.manager.tree? id with
  | none =>
      have same : service.manager.handle id (instruction.takeUp service.manager.store) =
          (service.manager, .error (.unknownTree id)) := handle_unknown found
      rw [same] at marked
      refine ⟨id, [], ?_, .noted elsewhere ?_ nothing⟩
      · rw [obey_manager, same]
        exact .of_same rfl rfl rfl id
      · rw [obey_manager, same, marked]
        exact .same _
  | some tree =>
      have named := instruction.take_up_id service.manager.store
      refine ⟨id, (instruction.takeUp service.manager.store tree).events, ?_,
        .noted elsewhere ?_ nothing⟩
      · rw [obey_manager]
        exact notes_handle named service.manager found
      · rw [obey_manager, tree_handle named, marked, handle_answer _ _ found, found,
          Option.map_some, if_pos rfl]
        exact instruction.noted_take_up service.manager.store tree

theorem records_load {service : Service} (numbered : service.manager.Numbered)
    (read : Except PlanFault TreePlan) :
    ∃ subject events,
      service.manager.Notes (service.obey (.load read)).1.manager subject events ∧
        service.Records (service.obey (.load read)).1 (service.obey (.load read)).2 subject
          events := by
  have refused : ∀ fault : ManagerFault, service.manager.loadRead read =
      (service.manager, .error fault) →
      ∃ subject events,
        service.manager.Notes (service.obey (.load read)).1.manager subject events ∧
          service.Records (service.obey (.load read)).1 (service.obey (.load read)).2 subject
            events := by
    intro fault same
    rw [obey, same]
    exact ⟨.none, [], .of_same rfl rfl rfl .none, .noted (fun _ _ => rfl) (.same _)
      (by simp [Except.map])⟩
  cases read with
  | error fault => exact refused (.plan fault) rfl
  | ok plan =>
      cases inspected : plan.inspect with
      | error defect => exact refused (.defect defect) (load_of_refused inspected)
      | ok =>
          have loaded : service.manager.loadRead (.ok plan) = _ := load_written inspected _
          have unknown := numbered.fresh (Nat.le_refl _)
          rw [obey, loaded]
          refine ⟨_, _, ⟨rfl, rfl, ?_⟩, .loaded plan rfl unknown rfl ?_⟩
          · intro other apart
            have last : (plan.loaded service.manager.timing
                (.number service.manager.loaded)).id ≠ other := apart.symm
            dsimp only [tree?]
            rw [List.find?_append, List.find?_singleton, if_neg (by simpa using last),
              Option.or_none]
          · dsimp only [tree?]
            rw [tree?] at unknown
            rw [List.find?_append, unknown, Option.none_or, List.find?_singleton,
              if_pos (by simp [TreePlan.loaded])]

/-- What a moment records can be read back, as long as ticks can be counted in 64 bits. -/
theorem Records.plain {service next : Service} {entries : List Entry} {subject : TreeId}
    {events : List Event} (records : service.Records next entries subject events)
    (few : ∀ tree, service.manager.tree? subject = some tree →
      tree.ticker.tickCount < UInt64.size) : ∀ event ∈ events, event.Plain := by
  intro event inside
  cases records with
  | noted elsewhere noted =>
      cases found : service.manager.tree? subject with
      | none =>
          rw [found] at noted
          rw [noted.of_none.2.1] at inside
          cases inside
      | some tree =>
          rw [found] at noted
          exact noted.plain (few tree found) event inside
  | loaded plan =>
      obtain rfl := List.mem_singleton.mp inside
      exact Event.plain_of_text rfl

theorem records_of_meet {service next : Service} {moment : Moment} {entries : List Entry}
    (numbered : service.manager.Numbered) (met : service.meet moment = some (next, entries)) :
    ∃ subject events, service.manager.Notes next.manager subject events ∧
      service.Records next entries subject events := by
  cases moment with
  | happening happening =>
      obtain ⟨rfl, rfl⟩ := meet_happening_eq_some.mp met
      exact service.records_happening happening
  | answer =>
      obtain ⟨id, instruction, after, response, -, concluded, rfl, rfl⟩ :=
        meet_answer_eq_some.mp met
      obtain ⟨events, notes, noted⟩ := notes_conclude concluded
      exact ⟨id, events, notes, .noted (fun _ _ => rfl) noted (by simp)⟩
  | order order =>
      obtain ⟨-, rfl, rfl⟩ := meet_order_eq_some.mp met
      cases order with
      | instruct id instruction => exact service.records_instruct id instruction
      | load read => exact records_load numbered read

end Service

end BehaviorTree
