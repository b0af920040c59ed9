import BehaviorTree.Worker

/-!
The flags of a worker's runs. However a worker is started, stopped and given up, and whatever its
bodies do meanwhile, every run has a flag of its own. The flag of the latest run is raised as long
as the worker holds on to that run; a flag that was lowered is never raised again.
-/

namespace BehaviorTree

/-- A body comes to its end by itself. -/
def Run.ended (panics : Bool) (run : Run) : Run :=
  match run.state with
  | .alive => { run with state := if panics then .panicked else .returned }
  | .returned | .panicked => run

@[simp] theorem Run.ended_flag (panics : Bool) (run : Run) :
    (run.ended panics).flag = run.flag := by
  unfold ended
  split <;> rfl

namespace Worker

/-- What happens to a worker: it is started, stopped or given up for a new one, its grace and its
hook are changed, or one of its bodies ends. -/
inductive Act where
  | start
  | stop
  | drop
  | adjust (grace : Nat) (hooked : Bool)
  | ends (number : Nat) (panics : Bool)
  deriving DecidableEq, Repr

/-- What is left after an attempt that may be refused. -/
def attempt (worker : Worker) : Except WorkerFault Worker → Worker × Except WorkerFault Unit
  | .ok after => (after, .ok ())
  | .error fault => (worker, .error fault)

def act (worker : Worker) : Act → Worker × Except WorkerFault Unit
  | .start => worker.attempt worker.start
  | .stop => worker.attempt worker.stop
  | .drop => (worker.replace, .ok ())
  | .adjust grace hooked => ({ worker with grace, hooked }, .ok ())
  | .ends number panics =>
      ({ worker with runs := worker.runs.modify number (Run.ended panics) }, .ok ())

def after (worker : Worker) (acts : List Act) : Worker :=
  acts.foldl (fun current act => (current.act act).1) worker

theorem after_cons (worker : Worker) (act : Act) (acts : List Act) :
    worker.after (act :: acts) = (worker.act act).1.after acts := rfl

/-- The acts of a history, and whether each of them was granted. -/
def answers (worker : Worker) : List Act → List (Act × Bool)
  | [] => []
  | act :: rest => (act, (worker.act act).2.isOk) :: answers (worker.act act).1 rest

/-- The flags that the runs were given, the oldest first. -/
def given (worker : Worker) : List Nat := worker.runs.map Run.flag

theorem is_raised_iff (worker : Worker) (run : Run) :
    worker.isRaised run = true ↔ worker.flags[run.flag]? = some true := beq_iff_eq

/-! What may become of the flags. -/

/-- One change of the flags: a run begins with a flag of its own, or the flag in hand is lowered, or
one is made that no run was given; states of runs and settings may change with it. -/
inductive Shift (before next : Worker) : Prop
  | rests (given : next.given = before.given) (flags : next.flags = before.flags)
      (inHand : next.keepWorking = before.keepWorking) (held : next.held = before.held)
  | begins (idle : before.held = none) (given : next.given = before.given ++ [before.flags.length])
      (flags : next.flags = before.flags ++ [true])
      (inHand : next.keepWorking = before.flags.length)
      (held : next.held = some before.given.length)
  | lowers (given : next.given = before.given)
      (flags : next.flags = before.flags.set before.keepWorking false) (held : next.held = none)
  | makes (idle : before.held = none) (given : next.given = before.given)
      (flags : next.flags = before.flags ++ [false]) (held : next.held = none)

theorem given_modify (worker : Worker) (number : Nat) {change : Run → Run}
    (kept : ∀ run, (change run).flag = run.flag) :
    given { worker with runs := worker.runs.modify number change } = worker.given := by
  apply List.ext_getElem?
  intro place
  rw [given, given, List.getElem?_map, List.getElem?_map, List.getElem?_modify]
  split
  · cases worker.runs[place]? with
    | none => rfl
    | some run => exact congrArg some (kept run)
  · simp

theorem start_of_running {worker : Worker} (running : worker.isRunning = true) :
    worker.start = .error (.alreadyStarted worker.name) := by
  obtain ⟨number, held⟩ := Option.isSome_iff_exists.mp running
  rw [start, held]

theorem start_of_idle {worker : Worker} (idle : worker.isRunning = false) :
    worker.start = .ok (worker.makeFlag.setFlag true).begin := by
  rw [start, Option.not_isSome_iff_eq_none.mp (Bool.eq_false_iff.mp idle)]

theorem stop_of_idle {worker : Worker} (idle : worker.isRunning = false) :
    worker.stop = .error (.notRunning worker.name) := by
  rw [stop, Option.not_isSome_iff_eq_none.mp (Bool.eq_false_iff.mp idle)]

theorem shift_start {worker : Worker} (idle : worker.isRunning = false) :
    Shift worker (worker.makeFlag.setFlag true).begin := by
  have none := Option.not_isSome_iff_eq_none.mp (Bool.eq_false_iff.mp idle)
  refine .begins none ?_ ?_ rfl ?_
  · simp [given, begin, setFlag, makeFlag]
  · simp [begin, setFlag, makeFlag]
  · simp [given, begin, setFlag, makeFlag]

/-- What a stop leaves of a running worker. -/
theorem stop_of_running {worker : Worker} (running : worker.isRunning = true) :
    ∃ stopped, worker.stop = .ok stopped ∧ Shift worker stopped ∧ stopped.held = none ∧
      stopped.given = worker.given ∧
      stopped.hookCalls = worker.hookCalls + if worker.hooked then 1 else 0 := by
  obtain ⟨number, held⟩ := Option.isSome_iff_exists.mp running
  rw [stop, held]
  have given : (({ worker with held := none }.setFlag false).callHook.waitFor number).given =
      worker.given := by
    apply given_modify
    intro run
    rfl
  exact ⟨_, rfl, .lowers given rfl rfl, rfl, given, rfl⟩

theorem shift_make {worker : Worker} (idle : worker.held = none) (grace : Nat) (hooked : Bool) :
    Shift worker { worker.makeFlag with grace, hooked } :=
  .makes idle rfl rfl idle

/-- Every act comes down to such changes; a worker that is given up is stopped first. -/
theorem shifts_of_act (worker : Worker) (act : Act) :
    ∃ middle, Shift worker middle ∧ Shift middle (worker.act act).1 := by
  have still : Shift worker worker := .rests rfl rfl rfl rfl
  cases act with
  | adjust grace hooked => exact ⟨worker, still, .rests rfl rfl rfl rfl⟩
  | ends number panics =>
      exact ⟨worker, still, .rests (worker.given_modify number (Run.ended_flag panics)) rfl rfl rfl⟩
  | start =>
      refine ⟨worker, still, ?_⟩
      cases running : worker.isRunning with
      | true =>
          rw [Worker.act, start_of_running running]
          exact still
      | false =>
          rw [Worker.act, start_of_idle running]
          exact shift_start running
  | stop =>
      refine ⟨worker, still, ?_⟩
      cases running : worker.isRunning with
      | true =>
          obtain ⟨stopped, stops, shift, -⟩ := stop_of_running running
          rw [Worker.act, stops]
          exact shift
      | false =>
          rw [Worker.act, stop_of_idle running]
          exact still
  | drop =>
      rw [Worker.act, replace]
      cases running : worker.isRunning with
      | true =>
          obtain ⟨stopped, stops, shift, idle, -⟩ := stop_of_running running
          rw [stops]
          exact ⟨stopped, shift, shift_make idle 200 false⟩
      | false =>
          rw [stop_of_idle running]
          have none := Option.not_isSome_iff_eq_none.mp (Bool.eq_false_iff.mp running)
          exact ⟨worker, still, shift_make none 200 false⟩

/-! What is known of the flags. -/

/-- A flag is raised exactly if it was given to the run in hand, which is the latest. -/
structure Sound (worker : Worker) : Prop where
  known : ∀ flag ∈ worker.given, flag < worker.flags.length
  own : worker.given.Nodup
  latest : ∀ number, worker.held = some number →
    number + 1 = worker.given.length ∧ worker.given[number]? = some worker.keepWorking
  raised : ∀ (number : Nat) flag, worker.given[number]? = some flag →
    (worker.flags[flag]? = some true ↔ worker.held = some number)

variable {worker next : Worker}

theorem new_sound (name : String) (body : Body) (grace : Nat) (hooked : Bool) :
    Sound { name, body, grace, hooked } := by
  constructor <;> simp [given]

/-- The flag of a new run is one that no earlier run was given. -/
theorem Sound.fresh (sound : worker.Sound) : worker.flags.length ∉ worker.given :=
  fun member => Nat.lt_irrefl _ (sound.known _ member)

theorem Sound.begins (sound : worker.Sound) (idle : worker.held = none)
    (given : next.given = worker.given ++ [worker.flags.length])
    (flags : next.flags = worker.flags ++ [true]) (inHand : next.keepWorking = worker.flags.length)
    (held : next.held = some worker.given.length) : next.Sound := by
  constructor
  · rw [given, flags]
    intro flag member
    rw [List.length_append, List.length_singleton]
    rcases List.mem_append.mp member with old | new
    · exact Nat.lt_succ_of_lt (sound.known flag old)
    · rw [List.mem_singleton.mp new]
      exact Nat.lt_succ_self _
  · rw [given, List.nodup_append]
    refine ⟨sound.own, by simp, ?_⟩
    intro flag old other new same
    rw [same, List.mem_singleton.mp new] at old
    exact sound.fresh old
  · rw [given, held, inHand]
    rintro number ⟨⟩
    exact ⟨by simp, List.getElem?_concat_length⟩
  · rw [given, flags, held]
    intro number flag there
    by_cases old : number < worker.given.length
    · rw [List.getElem?_append_left old] at there
      have before := sound.known flag (List.mem_of_getElem? there)
      have lowered := sound.raised number flag there
      rw [idle] at lowered
      rw [List.getElem?_append_left before, lowered, Option.some_inj]
      exact iff_of_false (by simp) (Nat.ne_of_gt old)
    · have place : number = worker.given.length := by
        have bound := (List.getElem?_eq_some_iff.mp there).1
        rw [List.length_append, List.length_singleton] at bound
        omega
      subst place
      rw [List.getElem?_concat_length] at there
      cases there
      rw [List.getElem?_concat_length]
      exact iff_of_true rfl rfl

/-- The flag in hand is the only one raised, so none is once it is lowered. -/
theorem Sound.lowers (sound : worker.Sound) (given : next.given = worker.given)
    (flags : next.flags = worker.flags.set worker.keepWorking false) (held : next.held = none) :
    next.Sound := by
  constructor
  · rw [given, flags, List.length_set]
    exact sound.known
  · rw [given]
    exact sound.own
  · rw [held]
    intro number impossible
    cases impossible
  · rw [given, flags, held]
    intro number flag there
    refine iff_of_false ?_ (by simp)
    rw [List.getElem?_set]
    split
    · simp
    next apart =>
      intro raised
      have same := (sound.raised number flag there).mp raised
      have own := (sound.latest number same).2
      exact apart (Option.some.inj (own.symm.trans there))

theorem Sound.makes (sound : worker.Sound) (idle : worker.held = none)
    (given : next.given = worker.given) (flags : next.flags = worker.flags ++ [false])
    (held : next.held = none) : next.Sound := by
  constructor
  · rw [given, flags]
    intro flag member
    rw [List.length_append]
    exact Nat.lt_add_right _ (sound.known flag member)
  · rw [given]
    exact sound.own
  · rw [held]
    intro number impossible
    cases impossible
  · rw [given, flags, held, ← idle]
    intro number flag there
    rw [List.getElem?_append_left (sound.known flag (List.mem_of_getElem? there))]
    exact sound.raised number flag there

theorem Sound.shift (sound : worker.Sound) (shift : Shift worker next) : next.Sound := by
  cases shift with
  | begins idle given flags inHand held => exact sound.begins idle given flags inHand held
  | lowers given flags held => exact sound.lowers given flags held
  | makes idle given flags held => exact sound.makes idle given flags held
  | rests given flags inHand held =>
      constructor
      · rw [given, flags]
        exact sound.known
      · rw [given]
        exact sound.own
      · rw [given, inHand, held]
        exact sound.latest
      · rw [given, flags, held]
        exact sound.raised

/-- What was given to a run stays with it, and what is lowered stays lowered. -/
theorem Sound.lasts (sound : worker.Sound) (shift : Shift worker next) {number flag : Nat}
    (there : worker.given[number]? = some flag) :
    next.given[number]? = some flag ∧
      (next.flags[flag]? = some true → worker.flags[flag]? = some true) := by
  have inside := (List.getElem?_eq_some_iff.mp there).1
  have before := sound.known flag (List.mem_of_getElem? there)
  cases shift with
  | rests given flags =>
      rw [given, flags]
      exact ⟨there, id⟩
  | begins idle given flags =>
      rw [given, flags, List.getElem?_append_left inside, List.getElem?_append_left before]
      exact ⟨there, id⟩
  | makes idle given flags =>
      rw [given, flags, List.getElem?_append_left before]
      exact ⟨there, id⟩
  | lowers given flags =>
      rw [given, flags, List.getElem?_set]
      refine ⟨there, ?_⟩
      split
      · simp
      · exact id

theorem Sound.act (sound : worker.Sound) (act : Act) : (worker.act act).1.Sound := by
  obtain ⟨middle, first, second⟩ := worker.shifts_of_act act
  exact (sound.shift first).shift second

theorem Sound.after (sound : worker.Sound) (acts : List Act) : (worker.after acts).Sound := by
  induction acts generalizing worker with
  | nil => exact sound
  | cons act rest ih => exact ih (sound.act act)

theorem Sound.lasts_after (sound : worker.Sound) (acts : List Act) {number flag : Nat}
    (there : worker.given[number]? = some flag) :
    (worker.after acts).given[number]? = some flag ∧
      ((worker.after acts).flags[flag]? = some true → worker.flags[flag]? = some true) := by
  induction acts generalizing worker with
  | nil => exact ⟨there, id⟩
  | cons act rest ih =>
      obtain ⟨middle, first, second⟩ := worker.shifts_of_act act
      have early := sound.lasts first there
      have late := (sound.shift first).lasts second early.1
      have onward := ih (sound.act act) late.1
      exact ⟨onward.1, fun raised => early.2 (late.2 (onward.2 raised))⟩

/-! How a worker answers. -/

/-- What an act comes to: a refusal changes nothing, a start begins one run with a flag that no run
was given before, a stop calls the hook, and so does giving up a running worker. -/
structure Obliging (worker : Worker) : Prop where
  start_refused : worker.isRunning = true →
    worker.act .start = (worker, .error (.alreadyStarted worker.name))
  begins : worker.isRunning = false → ∃ next run, worker.act .start = (next, .ok ()) ∧
    next.isRunning = true ∧ next.runs = worker.runs ++ [run] ∧ run.flag ∉ worker.given ∧
    run.state = worker.body.afterStart ∧ next.isRaised run = true ∧
    next.hookCalls = worker.hookCalls
  stop_refused : worker.isRunning = false →
    worker.act .stop = (worker, .error (.notRunning worker.name))
  stops : worker.isRunning = true → ∃ next, worker.act .stop = (next, .ok ()) ∧
    next.isRunning = false ∧ next.given = worker.given ∧
    next.hookCalls = worker.hookCalls + if worker.hooked then 1 else 0
  gives_up : ∃ next, worker.act .drop = (next, .ok ()) ∧
    next.isRunning = false ∧ next.given = worker.given ∧
    next.hookCalls = worker.hookCalls + if worker.isRunning && worker.hooked then 1 else 0
  elsewise : ∀ act, act ≠ .start → act ≠ .stop → act ≠ .drop → ∃ next,
    worker.act act = (next, .ok ()) ∧ next.isRunning = worker.isRunning ∧
      next.given = worker.given ∧ next.hookCalls = worker.hookCalls

theorem Sound.obliging (sound : worker.Sound) : worker.Obliging where
  start_refused running := by rw [Worker.act, start_of_running running, attempt]
  begins idle := by
    rw [Worker.act, start_of_idle idle]
    refine ⟨_, ⟨worker.flags.length, worker.body.afterStart⟩, rfl, rfl, rfl, sound.fresh, rfl, ?_,
      rfl⟩
    simp [isRaised, begin, setFlag, makeFlag]
  stop_refused idle := by rw [Worker.act, stop_of_idle idle, attempt]
  stops running := by
    obtain ⟨next, stops, -, idle, given, hook⟩ := stop_of_running running
    rw [Worker.act, stops]
    exact ⟨next, rfl, congrArg Option.isSome idle, given, hook⟩
  gives_up := by
    rw [Worker.act, replace]
    cases running : worker.isRunning with
    | true =>
        obtain ⟨next, stops, -, idle, given, hook⟩ := stop_of_running running
        rw [stops]
        exact ⟨_, rfl, congrArg Option.isSome idle, given, hook⟩
    | false =>
        rw [stop_of_idle running]
        exact ⟨_, rfl, running, rfl, rfl⟩
  elsewise act := by
    cases act with
    | start | stop | drop => simp
    | adjust grace hooked => exact fun _ _ _ => ⟨_, rfl, rfl, rfl, rfl⟩
    | ends number panics =>
        exact fun _ _ _ =>
          ⟨_, rfl, rfl, worker.given_modify number (Run.ended_flag panics), rfl⟩

/-- The flag that is raised is that of the latest run while the worker is running. -/
theorem Sound.raised_iff (sound : worker.Sound) {number : Nat} {run : Run}
    (there : worker.runs[number]? = some run) :
    worker.isRaised run = true ↔ worker.isRunning = true ∧ number + 1 = worker.runs.length := by
  have given : worker.given[number]? = some run.flag := by
    rw [Worker.given, List.getElem?_map, there, Option.map_some]
  rw [is_raised_iff, sound.raised number run.flag given]
  constructor
  · intro held
    refine ⟨Option.isSome_iff_exists.mpr ⟨number, held⟩, ?_⟩
    have latest := (sound.latest number held).1
    rwa [Worker.given, List.length_map] at latest
  · rintro ⟨running, last⟩
    obtain ⟨other, held⟩ := Option.isSome_iff_exists.mp running
    have latest := (sound.latest other held).1
    rw [Worker.given, List.length_map, ← last] at latest
    rw [held, Nat.succ.inj latest]

/-- A run whose flag is lowered is told to stop for good. -/
theorem Sound.lowered_for_good (sound : worker.Sound) {number : Nat} {run : Run}
    (there : worker.runs[number]? = some run) (lowered : worker.isRaised run = false)
    (acts : List Act) :
    ∃ later, (worker.after acts).runs[number]? = some later ∧ later.flag = run.flag ∧
      (worker.after acts).isRaised later = false := by
  have given : worker.given[number]? = some run.flag := by
    rw [Worker.given, List.getElem?_map, there, Option.map_some]
  obtain ⟨kept, raised⟩ := sound.lasts_after acts given
  rw [Worker.given, List.getElem?_map] at kept
  obtain ⟨later, found, flag⟩ := Option.map_eq_some_iff.mp kept
  refine ⟨later, found, flag, Bool.eq_false_iff.mpr fun again => ?_⟩
  rw [is_raised_iff, flag] at again
  rw [(worker.is_raised_iff run).mpr (raised again)] at lowered
  cases lowered

theorem Obliging.length_given (obliging : worker.Obliging) (act : Act) :
    (worker.act act).1.given.length = worker.given.length +
      [(act, (worker.act act).2.isOk)].count (.start, true) := by
  by_cases starts : act = .start
  · subst starts
    cases running : worker.isRunning with
    | true =>
        rw [obliging.start_refused running]
        rfl
    | false =>
        obtain ⟨next, run, granted, -, runs, -⟩ := obliging.begins running
        rw [granted, given, given, runs, List.map_append, List.length_append]
        rfl
  · have apart : (act, (worker.act act).2.isOk) ≠ (.start, true) :=
      fun same => starts (congrArg Prod.fst same)
    have kept : (worker.act act).1.given = worker.given := by
      cases act with
      | start => exact absurd rfl starts
      | stop =>
          cases running : worker.isRunning with
          | true =>
              obtain ⟨next, granted, -, given, -⟩ := obliging.stops running
              rw [granted, given]
          | false => rw [obliging.stop_refused running]
      | drop =>
          obtain ⟨next, granted, -, given, -⟩ := obliging.gives_up
          rw [granted, given]
      | adjust grace hooked => rfl
      | ends number panics => exact worker.given_modify number (Run.ended_flag panics)
    rw [kept, List.count_singleton, beq_false_of_ne apart]
    rfl

/-- Every start that was granted began one run, and nothing else begins one. -/
theorem Sound.length_given_after (sound : worker.Sound) (acts : List Act) :
    (worker.after acts).given.length =
      worker.given.length + (worker.answers acts).count (.start, true) := by
  induction acts generalizing worker with
  | nil => rfl
  | cons act rest ih =>
      have split : (worker.answers (act :: rest)) =
          [(act, (worker.act act).2.isOk)] ++ (worker.act act).1.answers rest := rfl
      rw [after_cons, ih (sound.act act), sound.obliging.length_given act, split,
        List.count_append, Nat.add_assoc]

/-- Whatever a worker went through, it obliges; each of its runs has a flag of its own, and the one
raised is that of the latest run while the worker is running; a run whose flag was lowered never
sees it raised again; and there are as many runs as starts were granted. A thread can always be
had. -/
theorem flags_in_every_run (name : String) (body : Body) (grace : Nat) (hooked : Bool)
    (acts : List Act) :
    let new : Worker := { name, body, grace, hooked }
    let worker := new.after acts
    worker.Obliging ∧
    (worker.runs.map Run.flag).Nodup ∧
    (∀ (number : Nat) run, worker.runs[number]? = some run →
      (worker.isRaised run = true ↔ worker.isRunning = true ∧ number + 1 = worker.runs.length)) ∧
    (∀ (number : Nat) run, worker.runs[number]? = some run → worker.isRaised run = false →
      ∀ further, ∃ later, (worker.after further).runs[number]? = some later ∧
        later.flag = run.flag ∧ (worker.after further).isRaised later = false) ∧
    worker.runs.length = (new.answers acts).count (.start, true) := by
  intro new worker
  have fresh : new.Sound := new_sound name body grace hooked
  have sound : worker.Sound := fresh.after acts
  refine ⟨sound.obliging, sound.own, fun _ _ => sound.raised_iff,
    fun _ _ there lowered further => sound.lowered_for_good there lowered further, ?_⟩
  have total := fresh.length_given_after acts
  rwa [given, List.length_map, show new.given = [] from rfl, List.length_nil, Nat.zero_add] at total

/-- A body that outlives its stop goes on beside the one begun anew, with its flag lowered. -/
example :
    let worker := ({ name := "slow", body := .outliving 150, grace := 20 } : Worker).after
      [.start, .stop, .start]
    worker.runs.map (fun run => (run.state, worker.isRaised run)) =
      [(.alive, false), (.alive, true)] := by
  decide

end Worker

end BehaviorTree
