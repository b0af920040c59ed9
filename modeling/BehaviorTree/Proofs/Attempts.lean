import BehaviorTree.Proofs.Consent
import BehaviorTree.Proofs.Serving

/-!
Attempts to acknowledge by those who may not. They leave a line in the log of events and nothing
else: a run goes on as it would have without them, whatever else it does.
-/

namespace BehaviorTree

namespace Manager

/-! A manager without its log. -/

/-- The manager as it would be if it recorded nothing. -/
def silent (manager : Manager) : Manager := { manager with eventsPath := none, disk := {} }

theorem record_silent (manager : Manager) (event : Event) :
    (manager.record event).silent = manager.silent := by
  rw [record_eq]
  rfl

theorem record_all_silent (manager : Manager) (events : List Event) :
    (manager.recordAll events).silent = manager.silent := by
  rw [record_all_eq]
  rfl

theorem silent_record_all (manager : Manager) (events : List Event) :
    manager.silent.recordAll events = manager.silent := by
  induction events with
  | nil => rfl
  | cons event rest ih => exact ih

theorem silent_replace (manager : Manager) (tree : LoadedTree) (events : List Event) :
    (manager.silent.replace tree).recordAll events =
      ((manager.replace tree).recordAll events).silent := by
  rw [record_all_silent]
  exact silent_record_all (manager.replace tree) events

theorem silent_handle {Answer : Type} (manager : Manager) (id : TreeId)
    (act : LoadedTree → Handled Answer) :
    manager.silent.handle id act =
      ((manager.handle id act).1.silent, (manager.handle id act).2) := by
  have same : manager.silent.tree? id = manager.tree? id := rfl
  rw [handle, handle, same]
  cases manager.tree? id with
  | none => rfl
  | some tree =>
      dsimp only
      rw [silent_replace]

theorem silent_affect (manager : Manager) (id : TreeId)
    (act : LoadedTree → LoadedTree × List Event) :
    manager.silent.affect id act = (manager.affect id act).silent := by
  rw [affect, silent_handle]
  rfl

theorem silent_announce (manager : Manager) (id : TreeId) (about : LoadedTree → Option Event) :
    manager.silent.announce id about = (manager.announce id about).silent :=
  manager.silent_affect id _

theorem silent_advance (manager : Manager) (id : TreeId) :
    manager.silent.advance id = (manager.advance id).silent := manager.silent_affect id _

theorem silent_load (manager : Manager) (plan : TreePlan) :
    manager.silent.load plan = ((manager.load plan).1.silent, (manager.load plan).2) := by
  have same : manager.silent.timing = manager.timing := rfl
  rw [load, load, same]
  cases plan.build manager.timing with
  | error defect => rfl
  | ok root =>
      dsimp only
      cases (Ticker.setup { root }).fault with
      | some fault => rfl
      | none =>
          dsimp only
          rw [record_eq manager]
          rfl

theorem silent_load_read (manager : Manager) (read : Except PlanFault TreePlan) :
    manager.silent.loadRead read =
      ((manager.loadRead read).1.silent, (manager.loadRead read).2) := by
  cases read with
  | error fault => rfl
  | ok plan => exact manager.silent_load plan

theorem silent_forget (manager : Manager) (id : TreeId) :
    manager.silent.forget id = ((manager.forget id).1.silent, (manager.forget id).2) := by
  have same : manager.silent.tree? id = manager.tree? id := rfl
  rw [forget, forget, same]
  cases manager.tree? id with
  | none => rfl
  | some tree =>
      rcases tree.ticker.shutdown with ⟨ticker, calls⟩
      dsimp only
      rw [record_silent]
      rfl

theorem silent_conclude (manager : Manager) (id : TreeId) (instruction : Instruction) :
    manager.silent.conclude id instruction =
      (manager.conclude id instruction).map fun result => (result.1.silent, result.2) := by
  cases instruction with
  | tickOnce | acknowledge => rfl
  | start | pause | resume | step =>
      rw [conclude, conclude, silent_announce]
      rfl
  | stop | wait | unload =>
      have same : manager.silent.isDriven id = manager.isDriven id := rfl
      rw [conclude, conclude, same]
      cases manager.isDriven id with
      | true => rfl
      | false => simp [silent_handle, silent_announce, silent_forget]

theorem silent_and_then {Answer : Type} {next : Manager → Manager × Except ManagerFault Answer}
    (quiet : ∀ manager : Manager, next manager.silent =
      ((next manager).1.silent, (next manager).2))
    (handled : Manager × Except ManagerFault Unit) :
    andThen (handled.1.silent, handled.2) next =
      ((andThen handled next).1.silent, (andThen handled next).2) := by
  rcases handled with ⟨after, fault | granted⟩
  · rfl
  · exact quiet after

theorem silent_send (manager : Manager) (id : TreeId) (command : Command) :
    manager.silent.send id command =
      ((manager.send id command).1.silent, (manager.send id command).2) := by
  rw [send_eq, send_eq, silent_handle]
  apply silent_and_then
  simp [silent_announce, silent_advance]

/-- At its own pace too the manager does what it would do without its log. -/
theorem silent_follow (manager : Manager) (id : TreeId) (instruction : Instruction) :
    manager.silent.follow id instruction =
      ((manager.follow id instruction).1.silent, (manager.follow id instruction).2) := by
  cases instruction with
  | start policy =>
      rw [follow, follow, start_eq, start_eq, silent_handle, silent_and_then]
      · rfl
      · simp [silent_announce, silent_advance]
  | pause | resume | step =>
      have sent := manager.silent_send id
      simp [follow, done, pause, resume, step, sent]
  | stop =>
      rw [follow, follow, stop_eq, stop_eq, silent_handle, silent_and_then]
      · rfl
      · simp [silent_handle, silent_announce, silent_advance]
  | unload =>
      simp [follow, done, unload, silent_handle, silent_advance, silent_forget]
  | wait | acknowledge =>
      simp [follow, status, done, wait, acknowledge, silent_handle]
  | tickOnce =>
      have same : manager.silent.store = manager.store := rfl
      simp [follow, status, tickOnce, silent_handle, same]

/-- What managers share that differ in nothing but their logs: what they show of their trees, and
what they answer to whatever they are told next. -/
structure Indistinct (first second : Manager) : Prop where
  listed : first.list = second.list
  reported : ∀ id, first.report id = second.report id
  pictured : ∀ id, first.lastSnapshot id = second.lastSnapshot id
  answered : ∀ id instruction,
    (first.follow id instruction).2 = (second.follow id instruction).2

theorem indistinct_of_silent {first second : Manager} (alike : first.silent = second.silent) :
    first.Indistinct second := by
  have listed : first.silent.list = second.silent.list := by rw [alike]
  have reported : ∀ id, first.silent.report id = second.silent.report id := by simp [alike]
  have pictured : ∀ id, first.silent.lastSnapshot id = second.silent.lastSnapshot id := by
    simp [alike]
  refine ⟨listed, reported, pictured, ?_⟩
  intro id instruction
  have same := congrArg (fun manager => (manager.follow id instruction).2) alike
  rwa [silent_follow, silent_follow] at same

end Manager

namespace Service

open Entry Manager

def silent (service : Service) : Service := { service with manager := service.manager.silent }

theorem silent_undergo (service : Service) (happening : Happening) :
    service.silent.undergo happening =
      ((service.undergo happening).1.silent, (service.undergo happening).2) := by
  cases happening with
  | vary | pass => rfl
  | motion id motion =>
      have same : service.silent.manager.tree? id = service.manager.tree? id := rfl
      rw [undergo, undergo, same]
      cases service.manager.tree? id with
      | none => rfl
      | some tree =>
          have moved := service.manager.silent_replace
            (tree.undergo service.manager.store motion).tree
            (tree.undergo service.manager.store motion).events
          exact Prod.ext (congrArg (Service.mk · service.pending) moved) rfl

theorem silent_obey (service : Service) (order : Order) :
    service.silent.obey order = ((service.obey order).1.silent, (service.obey order).2) := by
  cases order with
  | load read =>
      have loaded : service.silent.manager.loadRead read =
          ((service.manager.loadRead read).1.silent, (service.manager.loadRead read).2) :=
        service.manager.silent_load_read read
      rw [obey, obey, loaded]
      rfl
  | instruct id instruction =>
      have handled : service.silent.manager.handle id
          (instruction.takeUp service.silent.manager.store) =
            ((service.manager.handle id (instruction.takeUp service.manager.store)).1.silent,
              (service.manager.handle id (instruction.takeUp service.manager.store)).2) :=
        service.manager.silent_handle id _
      rw [obey, obey, handled]
      rcases service.manager.handle id (instruction.takeUp service.manager.store) with
        ⟨after, fault | reply⟩
      · rfl
      · dsimp only
        split <;> rfl

/-- The log plays no part in what a service does. -/
theorem silent_meet (service : Service) (moment : Moment) :
    service.silent.meet moment =
      (service.meet moment).map fun result => (result.1.silent, result.2) := by
  have same : service.silent.pending = service.pending := rfl
  cases moment with
  | happening happening => exact congrArg some (service.silent_undergo happening)
  | answer =>
      rw [meet, meet, same]
      rcases service.pending with _ | ⟨id, instruction⟩
      · rfl
      · have concluded : service.silent.manager.conclude id instruction =
            (service.manager.conclude id instruction).map fun result =>
              (result.1.silent, result.2) := service.manager.silent_conclude id instruction
        dsimp only
        rw [concluded]
        cases service.manager.conclude id instruction <;> rfl
  | order order =>
      rw [meet, meet, same]
      cases service.pending with
      | some pending => rfl
      | none => exact congrArg some (service.silent_obey order)

/-- Services that differ in nothing but their logs go on alike. -/
theorem meet_of_silent {first second next : Service} (alike : first.silent = second.silent)
    {moment : Moment} {entries : List Entry} (met : first.meet moment = some (next, entries)) :
    ∃ other, second.meet moment = some (other, entries) ∧ next.silent = other.silent := by
  have one := first.silent_meet moment
  rw [alike, second.silent_meet, met, Option.map_some] at one
  obtain ⟨⟨other, same⟩, there, both⟩ := Option.map_eq_some_iff.mp one
  obtain ⟨quiet, rfl⟩ := Prod.mk.inj both
  exact ⟨other, there, quiet.symm⟩

end Service

/-! Attempts. -/

/-- A call of somebody to acknowledge a node. -/
structure Attempt where
  id : TreeId
  node : String
  identity : String
  deriving DecidableEq, Repr

def Attempt.order (attempt : Attempt) : Order :=
  .instruct attempt.id (.acknowledge attempt.node attempt.identity)

/-- The moments of a run, with attempts in between. -/
abbrev Script := List (Moment ⊕ Attempt)

namespace Script

/-- The run without the attempts. -/
def plain (script : Script) : List Moment := script.filterMap Sum.getLeft?

/-- The run with the attempts. -/
def full (script : Script) : List Moment :=
  script.map (Sum.elim id fun attempt => .order attempt.order)

end Script

namespace Service

open Entry Manager

/-- Whether the attempt is that of somebody who may acknowledge the node. -/
def permits (service : Service) (attempt : Attempt) : Bool :=
  (service.manager.tree? attempt.id).any (·.permits attempt.node attempt.identity)

/-- Every attempt comes when the manager is free to hear it, and from somebody who may not. -/
def Rejects : Service → Script → Prop
  | _, [] => True
  | service, .inl moment :: rest =>
      ∀ next entries, service.meet moment = some (next, entries) → next.Rejects rest
  | service, .inr attempt :: rest =>
      service.pending = none ∧ service.permits attempt = false ∧ service.Rejects rest

/-- A run with attempts, and what is told of it besides the attempts. -/
def runAmid (service : Service) : Script → Option (Service × List Entry)
  | [] => some (service, [])
  | .inl moment :: rest => do
      let (next, entries) ← service.meet moment
      let (last, more) ← next.runAmid rest
      return (last, entries ++ more)
  | .inr attempt :: rest => do
      let (next, _) ← service.meet (.order attempt.order)
      next.runAmid rest

/-- What is answered at once leaves nothing pending. -/
theorem brief_pending (service : Service) (id : TreeId) {instruction : Instruction}
    (brief : instruction.isBrief = true) :
    (service.obey (.instruct id instruction)).1.pending = service.pending := by
  cases answer : (service.manager.handle id (instruction.takeUp service.manager.store)).2 with
  | error fault => rw [obey_of_refused answer]
  | ok reply => rw [obey_of_granted answer, if_pos brief]

/-- An attempt of somebody who may not leaves everything but the log. -/
theorem meet_attempt {service : Service} (numbered : service.manager.Numbered)
    {attempt : Attempt} (idle : service.pending = none)
    (refused : service.permits attempt = false) :
    ∃ next entries, service.meet (.order attempt.order) = some (next, entries) ∧
      next.silent = service.silent := by
  refine ⟨_, _, meet_order_eq_some.mpr ⟨idle, rfl, rfl⟩, ?_⟩
  have kept : (service.obey attempt.order).1.pending = none :=
    (service.brief_pending attempt.id rfl).trans idle
  have same : (service.obey attempt.order).1.manager.silent = service.manager.silent := by
    rw [Attempt.order, obey_manager, handle]
    cases found : service.manager.tree? attempt.id with
    | none => rfl
    | some tree =>
        have unchanged : (tree.acknowledge attempt.node attempt.identity).tree = tree := by
          apply LoadedTree.acknowledge_unpermitted
          simpa [permits, found] using refused
        dsimp only [Instruction.takeUp, Handled.map]
        rw [record_all_silent, unchanged, numbered.replace_same found]
  rw [silent, silent, same, kept, idle]

/-- Whatever is put into a run of attempts by those who may not, it goes on as it would without. -/
theorem run_amid {service : Service} {script : Script} {last : Service} {chronicle : List Entry}
    (rejects : service.Rejects script) (ran : service.run script.plain = some (last, chronicle))
    {other : Service} (numbered : other.manager.Numbered) (alike : service.silent = other.silent) :
    ∃ final longer, other.runAmid script = some (final, chronicle) ∧
      other.run script.full = some (final, longer) ∧ last.silent = final.silent := by
  -- The run without the attempts and the one with them go side by side, alike but for their logs.
  induction script generalizing service other chronicle with
  | nil =>
      cases ran
      exact ⟨other, [], rfl, rfl, alike⟩
  | cons step rest ih =>
      cases step with
      | inl moment =>
          obtain ⟨next, entries, more, met, onward, rfl⟩ := run_cons_eq_some.mp ran
          obtain ⟨after, there, same⟩ := meet_of_silent alike met
          obtain ⟨final, longer, amid, full, quiet⟩ :=
            ih (rejects next entries met) onward (numbered_of_meet numbered there).1 same
          refine ⟨final, entries ++ longer, ?_, ?_, quiet⟩
          · simp [runAmid, there, amid]
          · exact run_cons_eq_some.mpr ⟨after, entries, longer, there, full, rfl⟩
      | inr attempt =>
          -- Here the run without the attempts stands still.
          obtain ⟨idle, refused, others⟩ := rejects
          have free : other.pending = none := by
            have pending := congrArg Service.pending alike
            exact pending.symm.trans idle
          have apart : other.permits attempt = false := by
            have trees := congrArg (fun service : Service => service.permits attempt) alike
            exact trees.symm.trans refused
          obtain ⟨next, entries, met, unchanged⟩ := meet_attempt numbered free apart
          obtain ⟨final, longer, amid, full, quiet⟩ :=
            ih others ran (numbered_of_meet numbered met).1 (alike.trans unchanged.symm)
          refine ⟨final, entries ++ longer, ?_, ?_, quiet⟩
          · simp [runAmid, met, amid]
          · exact run_cons_eq_some.mpr ⟨next, entries, longer, met, full, rfl⟩

end Service

end BehaviorTree
