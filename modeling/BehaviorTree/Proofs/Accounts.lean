import BehaviorTree.Proofs.Incidents

/-!
The books of an action. Every signal that a worker took is still with that worker or had its cycle,
and every cycle that began is in progress or has ended. What the node shows follows from what befell
it since the latest attempt was opened.
-/

namespace BehaviorTree

namespace Incident

/-- Something befell the action, and nothing of a kind did since. -/
def Since (mark : Incident) (kind : Incident → Prop) (log : List Incident) : Prop :=
  ∃ before since, log = before ++ mark :: since ∧ ∀ incident ∈ since, ¬ kind incident

theorem since_now (mark : Incident) (kind : Incident → Prop) (log : List Incident) :
    Since mark kind (log ++ [mark]) := ⟨log, [], rfl, by simp⟩

theorem Since.append {mark : Incident} {kind : Incident → Prop} {log : List Incident}
    (since : Since mark kind log) {more : List Incident}
    (none : ∀ incident ∈ more, ¬ kind incident) : Since mark kind (log ++ more) := by
  obtain ⟨before, after, rfl, quiet⟩ := since
  refine ⟨before, after ++ more, by simp, fun incident inside => ?_⟩
  rcases List.mem_append.mp inside with early | late
  · exact quiet incident early
  · exact none incident late

/-- The signal is still to be taken. -/
def Waiting : List Incident → Prop := Since .signalled (· = .took)

/-- The node was halted since the latest attempt was opened. -/
def Abandoned : List Incident → Prop := Since .halted (· = .opened)

def isReading : Incident → Prop
  | .read _ _ => True
  | _ => False

/-- What concerns neither signals nor attempts nor cycles. -/
def isPlain : Incident → Bool
  | .read _ _ | .halted | .shutDown => true
  | _ => false

/-- What workers and cycles do by themselves. -/
def isToil : Incident → Bool
  | .took | .looked _ | .began _ _ | .answered _ _ _ | .ended _ _ _ => true
  | .opened | .signalled | .read _ _ | .halted | .shutDown => false

/-- Of what is plain nothing else is counted. -/
theorem count_plain {more : List Incident} (plain : ∀ incident ∈ more, incident.isPlain = true)
    {kind : Incident → Bool} (other : ∀ incident, incident.isPlain = true → kind incident = false) :
    more.countP kind = 0 := by
  apply List.countP_eq_zero.mpr
  intro incident inside
  rw [other incident (plain incident inside)]
  exact Bool.false_ne_true

/-- A tick has just opened the latest attempt, and has neither read the cell nor halted the node. -/
def Unread : List Incident → Prop :=
  Since .opened fun incident => incident = .halted ∨ isReading incident

/-- A cycle began for the latest attempt before. -/
def Served (log : List Incident) : Prop :=
  ∃ attempt shown, attempt.toNat = log.count .opened ∧ .began attempt shown ∈ log

/-- What a node may show after an attempt was opened. -/
def Shows (log : List Incident) (shown : Status) : Prop :=
  shown = .running ∨ shown = .invalid ∧ Abandoned log ∨ Unread log ∨ Served log

theorem Served.append {log more : List Incident} (served : Served log)
    (closed : more.count .opened = 0) : Served (log ++ more) := by
  obtain ⟨attempt, shown, latest, began⟩ := served
  refine ⟨attempt, shown, ?_, List.mem_append_left _ began⟩
  rw [List.count_append, closed]
  exact latest

end Incident

open Incident

theorem Progress.count_incidents (progress : Progress) (attempt : UInt64)
    {kind : Incident → Bool} (other : ∀ exit status, kind (.ended attempt exit status) = false) :
    (progress.incidents attempt).countP kind = 0 := by
  cases progress with
  | waiting cycle => rfl
  | ended status exit => simp [Progress.incidents, other]

/-- A cycle is in progress, or the log tells of its end. -/
theorem Progress.count_stands {attempt : UInt64} {result : Progress × List Effect}
    (abiding : Cycle.Abiding attempt result) (other : UInt64) :
    (result.1.stands.map (·.1)).count other + endingsOf other (result.1.incidents attempt) =
      if attempt = other then 1 else 0 := by
  obtain ⟨progress, effects⟩ := result
  cases progress with
  | waiting cycle =>
      have same : cycle.attempt = attempt := abiding
      simp [Progress.stands, Progress.cycles, Cycle.stand, Progress.incidents, endingsOf, same,
        List.count_singleton]
  | ended status exit =>
      simp [Progress.stands, Progress.cycles, Progress.incidents, endingsOf, isEndingOf,
        List.countP_singleton]

namespace Post

open BehaviorTree.Action

/-- The books of a post: every signal that was taken is with a worker or had its cycle, and every
cycle that began is in progress or has ended. -/
structure Accounted (post : Post) (log : List Incident) : Prop where
  latest : post.action.cell.attempt = UInt64.ofNat (log.count .opened)
  owed : log.count .took = beginnings log + post.crew.awake.length
  bound : ∀ attempt, log.count (.looked attempt) =
    beginningsOf attempt log + post.crew.awake.count (.bound attempt)
  signal : post.action.gate.isSet = true → Waiting log
  taken : log.count .took + (if post.action.gate.isSet then 1 else 0) ≤ log.count .signalled
  cycles : ∀ attempt, (post.action.stands.map (·.1)).count attempt + endingsOf attempt log =
    beginningsOf attempt log

theorem fresh_accounted (work : Work) : Accounted { action := { work } } [] where
  latest := rfl
  owed := rfl
  bound := fun _ => rfl
  signal := nofun
  taken := Nat.le_refl _
  cycles := fun _ => rfl

namespace Accounted

variable {before after : Post} {log more incidents : List Incident}

/-- The books are kept by what happens next alone. -/
theorem next (accounted : before.Accounted log)
    (latest : after.action.cell.attempt =
      before.action.cell.attempt + UInt64.ofNat (more.count .opened))
    (owed : before.crew.awake.length + more.count .took =
      after.crew.awake.length + beginnings more)
    (bound : ∀ attempt, before.crew.awake.count (.bound attempt) + more.count (.looked attempt) =
      after.crew.awake.count (.bound attempt) + beginningsOf attempt more)
    (signal : after.action.gate.isSet = true → Waiting (log ++ more))
    (taken : more.count .took + (if after.action.gate.isSet then 1 else 0) ≤
      more.count .signalled + if before.action.gate.isSet then 1 else 0)
    (cycles : ∀ attempt, (after.action.stands.map (·.1)).count attempt + endingsOf attempt more =
      (before.action.stands.map (·.1)).count attempt + beginningsOf attempt more) :
    after.Accounted (log ++ more) where
  latest := by rw [latest, accounted.latest, List.count_append, UInt64.ofNat_add]
  owed := by
    have before := accounted.owed
    rw [List.count_append, beginnings_append]
    omega
  bound := by
    intro attempt
    have before := accounted.bound attempt
    have now := bound attempt
    rw [List.count_append, beginnings_of_append]
    omega
  signal := signal
  taken := by
    have before := accounted.taken
    rw [List.count_append, List.count_append]
    omega
  cycles := by
    intro attempt
    have before := accounted.cycles attempt
    have now := cycles attempt
    rw [endings_of_append, beginnings_of_append]
    omega

/-- What concerns neither signals nor attempts nor cycles. -/
theorem frame (accounted : before.Accounted log)
    (cell : after.action.cell.attempt = before.action.cell.attempt)
    (gate : after.action.gate = before.action.gate)
    (stands : after.action.stands.Perm before.action.stands)
    (awake : after.crew.awake = before.crew.awake)
    (plain : ∀ incident ∈ more, incident.isPlain = true) : after.Accounted (log ++ more) := by
  have absent : ∀ incident : Incident, incident.isPlain = false → more.count incident = 0 := by
    intro incident other
    apply List.count_eq_zero.mpr
    intro inside
    exact absurd (plain incident inside) (by simp [other])
  have unopened : more.count .opened = 0 := absent _ rfl
  have untaken : more.count .took = 0 := absent _ rfl
  have unsignalled : more.count .signalled = 0 := absent _ rfl
  have unbegun : beginnings more = 0 := by
    apply count_plain plain
    intro incident here
    cases incident <;> first | rfl | cases here
  have unbegunOf : ∀ attempt, beginningsOf attempt more = 0 := by
    intro attempt
    apply count_plain plain
    intro incident here
    cases incident <;> first | rfl | cases here
  have unended : ∀ attempt, endingsOf attempt more = 0 := by
    intro attempt
    apply count_plain plain
    intro incident here
    cases incident <;> first | rfl | cases here
  apply accounted.next
  · rw [cell, unopened]
    exact (UInt64.add_zero _).symm
  · rw [awake, untaken, unbegun]
  · intro attempt
    rw [awake, absent _ rfl, unbegunOf]
  · intro isSet
    apply (accounted.signal (gate ▸ isSet)).append
    rintro _ inside rfl
    exact absurd (plain _ inside) Bool.false_ne_true
  · exact Nat.le_of_eq (by rw [gate, untaken, unsignalled])
  · intro attempt
    rw [(stands.map _).count_eq, unended, unbegunOf]

theorem opens (accounted : before.Accounted log) :
    Accounted { before with action := before.action.openAttempt } (log ++ [.opened]) := by
  apply accounted.next
  · rfl
  · rfl
  · exact fun attempt => rfl
  · exact fun isSet => (accounted.signal isSet).append (by simp)
  · exact Nat.le_refl _
  · exact fun attempt => rfl

theorem signals (accounted : before.Accounted log) :
    Accounted { before with action := before.action.signal } (log ++ [.signalled]) := by
  apply accounted.next
  · exact (UInt64.add_zero _).symm
  · rfl
  · exact fun attempt => rfl
  · exact fun _ => since_now _ _ _
  · simp [Action.signal, Gate.set]
  · exact fun attempt => rfl

/-- A cycle that is entered or resumed, whether it waits again or ends. -/
theorem carry (accounted : before.Accounted log) {attempt : UInt64}
    {result : Progress × List Effect} {others : List (UInt64 × Point)} {first : Incident}
    (abiding : Cycle.Abiding attempt result)
    (carried : Action.Carried before.action after.action attempt result others)
    (gate : after.action.gate = before.action.gate)
    (told : (∃ shown, first = .began attempt shown) ∨
      ∃ point answer, first = .answered attempt point answer)
    (owed : before.crew.awake.length = after.crew.awake.length + beginnings [first])
    (bound : ∀ other, before.crew.awake.count (.bound other) =
      after.crew.awake.count (.bound other) + beginningsOf other [first])
    (cycles : ∀ other, (others.map (·.1)).count other + (if attempt = other then 1 else 0) =
      (before.action.stands.map (·.1)).count other + beginningsOf other [first]) :
    after.Accounted (log ++ first :: result.1.incidents attempt) := by
  have alone : ∀ kind : Incident → Bool,
      (∀ exit status, kind (.ended attempt exit status) = false) →
        (first :: result.1.incidents attempt).countP kind = [first].countP kind := by
    intro kind other
    rw [List.countP_cons, result.1.count_incidents attempt other, List.countP_singleton,
      Nat.zero_add]
  have absent : ∀ incident : Incident, first ≠ incident →
      (∀ exit status, incident ≠ .ended attempt exit status) →
        (first :: result.1.incidents attempt).count incident = 0 := by
    intro incident apart unended
    refine (alone _ fun exit status => ?_).trans ?_
    · exact beq_false_of_ne (unended exit status).symm
    · simp [apart]
  have plain : first ≠ .opened ∧ first ≠ .took ∧ first ≠ .signalled ∧
      (∀ other, first ≠ .looked other) ∧ ∀ other, isEndingOf other first = false := by
    rcases told with ⟨shown, rfl⟩ | ⟨point, answer, rfl⟩ <;> simp [isEndingOf]
  obtain ⟨unopened, untaken, unsignalled, unlooked, unended⟩ := plain
  apply accounted.next
  · rw [carried.cell, Action.written_attempt, absent _ unopened (by simp)]
    exact (UInt64.add_zero _).symm
  · rw [absent _ untaken (by simp), beginnings, alone _ fun _ _ => rfl]
    exact owed
  · intro other
    rw [absent _ (unlooked other) (by simp), beginningsOf, alone _ fun _ _ => rfl]
    exact bound other
  · intro isSet
    apply (accounted.signal (gate ▸ isSet)).append
    rintro _ inside rfl
    have counted := List.count_pos_iff.mpr inside
    rw [absent _ untaken (by simp)] at counted
    exact absurd counted (Nat.lt_irrefl 0)
  · exact Nat.le_of_eq (by rw [gate, absent _ untaken (by simp), absent _ unsignalled (by simp)])
  · intro other
    have told := Progress.count_stands abiding other
    have still := cycles other
    rw [(carried.stands.map _).count_eq, List.map_append, List.count_append, beginningsOf,
      alone _ fun _ _ => rfl, endingsOf, List.countP_cons_of_neg (by simp [unended other])]
    change _ = _ + beginningsOf other [first]
    change _ + endingsOf other _ = _ at told
    change _ + endingsOf other _ = _
    omega

theorem toils {shown : Status} (accounted : before.Accounted log)
    (done : Toils shown before after incidents) : after.Accounted (log ++ incidents) := by
  cases done with
  | quiet work cell gate stands =>
      exact accounted.frame (congrArg Cell.attempt cell) gate (.of_eq stands) rfl (by simp)
  | take isSet awake =>
      apply accounted.next
      · exact (UInt64.add_zero _).symm
      · exact awake.length_eq.symm
      · intro attempt
        rw [awake.count_eq]
        rfl
      · exact nofun
      · rw [isSet]
        exact Nat.le_refl 1
      · exact fun attempt => rfl
  | @look crew others own awake =>
      apply accounted.next
      · exact (UInt64.add_zero _).symm
      · rw [own.length_eq, awake.length_eq]
        rfl
      · intro attempt
        rw [own.count_eq, awake.count_eq, List.count_cons, List.count_cons, List.count_cons]
        simp [beginningsOf, isBeginningOf]
      · exact fun isSet => (accounted.signal isSet).append (by simp)
      · exact Nat.le_refl _
      · exact fun attempt => rfl
  | @enter _ attempt stopped own gate carried =>
      apply accounted.carry (Cycle.enter_abiding _ _ _) carried gate (.inl ⟨shown, rfl⟩)
      · exact own.length_eq
      · intro other
        rw [own.count_eq, List.count_cons]
        simp [beginningsOf, isBeginningOf, List.countP_singleton]
      · intro other
        simp [beginningsOf, isBeginningOf, List.countP_singleton]
  | resume own fits gate carried =>
      apply accounted.carry (Cycle.resume_abiding _ _ _) carried gate (.inr ⟨_, _, rfl⟩)
      · rfl
      · exact fun other => rfl
      · intro other
        rw [(own.map _).count_eq, List.map_cons, List.count_cons]
        simp [beginningsOf, isBeginningOf, Cycle.stand]

end Accounted

theorem Accounted.latest_to_nat {post : Post} {log : List Incident} (accounted : post.Accounted log)
    (few : log.count .opened < UInt64.size) :
    post.action.cell.attempt.toNat = log.count .opened := by
  rw [accounted.latest, UInt64.toNat_ofNat', Nat.mod_eq_of_lt few]

/-- What the attempts of cycles and workers tell of the cell, as long as attempts are told apart. -/
structure Accord (post : Post) (log : List Incident) : Prop where
  bound : ∀ attempt, .bound attempt ∈ post.crew.awake → attempt.toNat ≤ log.count .opened
  stands : ∀ stand ∈ post.action.stands, stand.1.toNat ≤ log.count .opened ∧
    (stand.1.toNat = log.count .opened → Served log)
  shown : log.count .opened ≠ 0 → post.action.cell.status = .running ∨ Served log

theorem fresh_accord (work : Work) : Accord { action := { work } } [] where
  bound := by simp [Crew.awake]
  stands := by simp [stands, Action.cycles]
  shown := fun opened => absurd rfl opened

namespace Accord

variable {before after : Post} {log more incidents : List Incident}

/-- What leaves cycles, workers and what the cell says alone, and opens no attempt. -/
theorem frame (accord : before.Accord log)
    (status : after.action.cell.status = before.action.cell.status)
    (stands : after.action.stands.Perm before.action.stands)
    (awake : ∀ attempt, .bound attempt ∈ after.crew.awake → .bound attempt ∈ before.crew.awake)
    (closed : more.count .opened = 0) : after.Accord (log ++ more) := by
  have opened : (log ++ more).count .opened = log.count .opened := by
    rw [List.count_append, closed, Nat.add_zero]
  refine ⟨?_, ?_, ?_⟩
  · intro attempt inside
    rw [opened]
    exact accord.bound attempt (awake attempt inside)
  · intro stand inside
    rw [opened]
    obtain ⟨known, served⟩ := accord.stands stand (stands.mem_iff.mp inside)
    exact ⟨known, fun latest => (served latest).append closed⟩
  · rw [opened, status]
    exact fun some => (accord.shown some).imp_right fun served => served.append closed

/-- No cycle has the new attempt, nor has a worker looked it up. -/
theorem opens (accord : before.Accord log) :
    Accord { before with action := before.action.openAttempt } (log ++ [.opened]) := by
  have opened : (log ++ [Incident.opened]).count .opened = log.count .opened + 1 := by
    rw [List.count_append, List.count_singleton_self]
  refine ⟨?_, ?_, fun _ => .inl rfl⟩
  · intro attempt inside
    rw [opened]
    exact Nat.le_succ_of_le (accord.bound attempt inside)
  · intro stand inside
    rw [opened]
    have known := (accord.stands stand inside).1
    exact ⟨Nat.le_succ_of_le known, fun latest => by omega⟩

/-- A cycle that is entered or resumed, whether it waits again or ends. -/
theorem carry (accord : before.Accord log) (accounted : before.Accounted log)
    (few : log.count .opened < UInt64.size) {attempt : UInt64} {result : Progress × List Effect}
    {others : List (UInt64 × Point)} (abiding : Cycle.Abiding attempt result)
    (carried : Carried before.action after.action attempt result others)
    (rest : ∀ stand ∈ others, stand ∈ before.action.stands)
    (awake : ∀ attempt, .bound attempt ∈ after.crew.awake → .bound attempt ∈ before.crew.awake)
    (closed : more.count .opened = 0) (known : attempt.toNat ≤ log.count .opened)
    (served : attempt.toNat = log.count .opened → Served (log ++ more)) :
    after.Accord (log ++ more) := by
  have opened : (log ++ more).count .opened = log.count .opened := by
    rw [List.count_append, closed, Nat.add_zero]
  refine ⟨?_, ?_, ?_⟩
  · intro other inside
    rw [opened]
    exact accord.bound other (awake other inside)
  · intro stand inside
    rw [opened]
    rcases List.mem_append.mp (carried.stands.mem_iff.mp inside) with here | beside
    · have own : stand.1 = attempt := by
        obtain ⟨progress, effects⟩ := result
        cases progress with
        | ended status exit => cases here
        | waiting next =>
            cases List.mem_singleton.mp here
            exact abiding
      rw [own]
      exact ⟨known, served⟩
    · obtain ⟨bounded, before⟩ := accord.stands stand (rest stand beside)
      exact ⟨bounded, fun latest => (before latest).append closed⟩
  · rw [opened, carried.cell]
    intro some
    by_cases latest : attempt = before.action.cell.attempt
    · exact .inr (served (latest ▸ accounted.latest_to_nat few))
    · rw [written_superseded latest]
      exact (accord.shown some).imp_right fun before => before.append closed

theorem toils {shown : Status} (accord : before.Accord log) (accounted : before.Accounted log)
    (few : log.count .opened < UInt64.size) (done : Toils shown before after incidents) :
    after.Accord (log ++ incidents) := by
  have unopened : ∀ (progress : Progress) (attempt : UInt64) {first : Incident},
      first ≠ .opened → (first :: progress.incidents attempt).count .opened = 0 := by
    intro progress attempt first apart
    rw [List.count_cons_of_ne apart]
    exact progress.count_incidents attempt fun _ _ => rfl
  cases done with
  | quiet work cell gate stands =>
      exact accord.frame (congrArg Cell.status cell) (.of_eq stands) (fun _ inside => inside) rfl
  | take isSet awake =>
      refine accord.frame rfl (.refl _) (fun attempt inside => ?_) rfl
      simpa using awake.mem_iff.mp inside
  | look own awake =>
      have framed : before.Accord (log ++ [.looked before.action.cell.attempt]) :=
        accord.frame rfl (.refl _) (fun _ inside => inside) rfl
      refine ⟨?_, framed.stands, framed.shown⟩
      intro attempt inside
      rcases List.mem_cons.mp (awake.mem_iff.mp inside) with same | beside
      · cases same
        rw [List.count_append, accounted.latest_to_nat few]
        exact Nat.le_add_right _ _
      · exact framed.bound attempt (own.mem_iff.mpr (List.mem_cons_of_mem _ beside))
  | @enter _ attempt stopped own gate carried =>
      have closed := @unopened (Cycle.enter before.action.work attempt stopped).1 attempt
        (.began attempt shown) nofun
      apply accord.carry accounted few (Cycle.enter_abiding _ _ _) carried (fun _ inside => inside)
        (fun _ inside => own.mem_iff.mpr (List.mem_cons_of_mem _ inside)) closed
      · exact accord.bound attempt (own.mem_iff.mpr List.mem_cons_self)
      · intro latest
        refine ⟨attempt, shown, ?_, by simp⟩
        rw [List.count_append, closed]
        exact latest
  | @resume _ cycle answer others own fits gate carried =>
      have closed := @unopened (cycle.resume before.action.work answer).1 cycle.attempt
        (.answered cycle.attempt cycle.point answer) nofun
      obtain ⟨known, served⟩ := accord.stands cycle.stand (own.mem_iff.mpr List.mem_cons_self)
      refine accord.carry accounted few (Cycle.resume_abiding _ _ _) carried
        (fun _ inside => own.mem_iff.mpr (List.mem_cons_of_mem _ inside)) ?_ closed known ?_
      · exact fun _ inside => inside
      · exact fun latest => (served latest).append closed

end Accord

end Post

/-! The life of an action. -/

/-- How far a tick has come with an action that it enters. -/
inductive Passage where
  | outside
  | opened
  | signalled
  deriving DecidableEq

/-- An action and its workers, what its node shows, and what befell all of them so far. -/
structure Life where
  post : Post
  status : Status
  passage : Passage := .outside
  log : List Incident := []

/-- All that can happen to an action. Ticks, halts, setups and shutdowns come one after the other,
and workers and cycles go on in between. -/
inductive Lives (name : String) (work : Work) : Life → Prop
  | fresh (status : Status) : Lives name work { post := { action := { work } }, status }
  | opens {life : Life} (before : Lives name work life) (outside : life.passage = .outside)
      (resting : life.status ≠ .running) :
      Lives name work
        { life with
          post.action := life.post.action.openAttempt
          passage := .opened
          log := life.log ++ [.opened] }
  | signals {life : Life} (before : Lives name work life) (opened : life.passage = .opened) :
      Lives name work
        { life with
          post.action := life.post.action.signal
          passage := .signalled
          log := life.log ++ [.signalled] }
  | read {life : Life} (before : Lives name work life)
      (visited : life.passage = .signalled ∨ life.passage = .outside ∧ life.status = .running) :
      Lives name work
        { life with
          status := life.post.action.cell.status
          passage := .outside
          log := life.log ++ [.read life.post.action.cell.attempt life.post.action.cell.status] }
  | halt {life : Life} (before : Lives name work life) (outside : life.passage = .outside) :
      Lives name work { life with status := .invalid, log := life.log ++ [.halted] }
  | toil {life : Life} (before : Lives name work life) (toil : Toil) :
      Lives name work
        { life with
          post := (life.post.toil name life.status toil).1
          log := life.log ++ (life.post.toil name life.status toil).2 }
  | setup {life : Life} (before : Lives name work life) (outside : life.passage = .outside) :
      Lives name work
        { life with
          post.action := (life.post.action.setup name).toOption.getD life.post.action }
  | shutdown {life : Life} (before : Lives name work life) (outside : life.passage = .outside) :
      Lives name work
        { life with post := life.post.shutdown name, log := life.log ++ [.shutDown] }

/-- The log agrees with the life that it tells of. -/
structure Life.Told (life : Life) : Prop where
  accounted : life.post.Accounted life.log
  strays : life.post.crew.strays.length ≤ life.log.count .shutDown
  unread : life.passage ≠ .outside → Unread life.log
  signals : life.log.count .opened =
    life.log.count .signalled + if life.passage = .opened then 1 else 0
  accord : life.log.count .opened < UInt64.size → life.post.Accord life.log
  shows : life.log.count .opened < UInt64.size → life.log.count .opened ≠ 0 →
    Shows life.log life.status

namespace Post

/-- Workers and cycles open no attempts, and neither read nor halt the node. -/
theorem Toils.toiled {shown : Status} {before after : Post} {incidents : List Incident}
    (done : Toils shown before after incidents) :
    ∀ incident ∈ incidents, incident.isToil = true := by
  have ends : ∀ (progress : Progress) (attempt : UInt64),
      ∀ incident ∈ progress.incidents attempt, incident.isToil = true := by
    intro progress attempt incident inside
    cases progress with
    | waiting cycle => cases inside
    | ended status exit =>
        cases List.mem_singleton.mp inside
        rfl
  intro incident inside
  cases done with
  | quiet => cases inside
  | take | look =>
      cases List.mem_singleton.mp inside
      rfl
  | enter | resume =>
      rcases List.mem_cons.mp inside with rfl | later
      · rfl
      · exact ends _ _ incident later

end Post

namespace Incident

variable {log more : List Incident}

theorem count_toiled (toiled : ∀ incident ∈ more, incident.isToil = true) {incident : Incident}
    (other : incident.isToil = false) : more.count incident = 0 := by
  apply List.count_eq_zero.mpr
  intro inside
  exact absurd (toiled incident inside) (by simp [other])

theorem Since.toiled {mark : Incident} {kind : Incident → Prop} (since : Since mark kind log)
    (toiled : ∀ incident ∈ more, incident.isToil = true)
    (other : ∀ incident, incident.isToil = true → ¬ kind incident) :
    Since mark kind (log ++ more) :=
  since.append fun incident inside => other incident (toiled incident inside)

theorem Unread.toiled (unread : Unread log)
    (toiled : ∀ incident ∈ more, incident.isToil = true) : Unread (log ++ more) := by
  apply Since.toiled unread toiled
  rintro incident toil (rfl | read)
  · cases toil
  · cases incident <;> first | exact read | cases toil

theorem Shows.toiled {shown : Status} (shows : Shows log shown)
    (toiled : ∀ incident ∈ more, incident.isToil = true) : Shows (log ++ more) shown := by
  rcases shows with running | ⟨invalid, abandoned⟩ | unread | served
  · exact .inl running
  · refine .inr (.inl ⟨invalid, abandoned.toiled toiled ?_⟩)
    rintro incident toil rfl
    cases toil
  · exact .inr (.inr (.inl (unread.toiled toiled)))
  · exact .inr (.inr (.inr (served.append (count_toiled toiled rfl))))

end Incident

namespace Life.Told

variable {life : Life}

theorem fresh (work : Work) (status : Status) :
    Told { post := { action := { work } }, status } where
  accounted := Post.fresh_accounted work
  strays := Nat.le_refl 0
  unread := fun inside => absurd rfl inside
  signals := rfl
  accord := fun _ => Post.fresh_accord work
  shows := fun _ opened => absurd rfl opened

theorem opens (told : life.Told) (outside : life.passage = .outside) :
    Told
      { life with
        post.action := life.post.action.openAttempt
        passage := .opened
        log := life.log ++ [.opened] } := by
  have unread : Unread (life.log ++ [.opened]) := since_now _ _ _
  refine ⟨told.accounted.opens, ?_, fun _ => unread, ?_, ?_, fun _ _ => .inr (.inr (.inl unread))⟩
  · rw [List.count_append]
    exact told.strays
  · have same := told.signals
    rw [outside] at same
    rw [List.count_append, List.count_append]
    exact congrArg (· + 1) same
  · intro few
    rw [List.count_append] at few
    exact (told.accord (Nat.lt_of_succ_lt few)).opens

theorem signalled (told : life.Told) (opened : life.passage = .opened) :
    Told
      { life with
        post.action := life.post.action.signal
        passage := .signalled
        log := life.log ++ [.signalled] } := by
  have unread : Unread (life.log ++ [.signalled]) :=
    (told.unread (by simp [opened])).append (by simp [isReading])
  refine ⟨told.accounted.signals, ?_, fun _ => unread, ?_, ?_, fun _ _ => .inr (.inr (.inl unread))⟩
  · rw [List.count_append]
    exact told.strays
  · have same := told.signals
    rw [opened] at same
    rw [List.count_append, List.count_append]
    exact same
  · intro few
    rw [List.count_append] at few
    exact (told.accord few).frame rfl (.refl _) (fun _ inside => inside) rfl

/-- An incident outside of a tick that opens no attempt and leaves cycles and workers alone. -/
theorem aside (told : life.Told) {next : Life} {incident : Incident}
    (plain : incident.isPlain = true) (log : next.log = life.log ++ [incident])
    (cell : next.post.action.cell = life.post.action.cell)
    (gate : next.post.action.gate = life.post.action.gate)
    (stands : next.post.action.stands.Perm life.post.action.stands)
    (awake : next.post.crew.awake = life.post.crew.awake) (outside : next.passage = .outside)
    (closed : life.passage ≠ .opened)
    (strays : next.post.crew.strays.length ≤ next.log.count .shutDown)
    (shows : life.log.count .opened < UInt64.size → life.log.count .opened ≠ 0 →
      Shows next.log next.status) : next.Told := by
  have unopened : [incident].count .opened = 0 := by
    apply List.count_eq_zero.mpr
    rintro inside
    cases List.mem_singleton.mp inside
    cases plain
  have unsignalled : [incident].count .signalled = 0 := by
    apply List.count_eq_zero.mpr
    rintro inside
    cases List.mem_singleton.mp inside
    cases plain
  have same : next.log.count .opened = life.log.count .opened := by
    rw [log, List.count_append, unopened, Nat.add_zero]
  refine ⟨?_, strays, fun inside => absurd outside inside, ?_, ?_, ?_⟩
  · rw [log]
    refine told.accounted.frame (congrArg Cell.attempt cell) gate stands awake ?_
    simp [plain]
  · have before := told.signals
    rw [if_neg closed] at before
    rw [same, before, outside, log, List.count_append, unsignalled]
    rfl
  · rw [same]
    intro few
    rw [log]
    exact (told.accord few).frame (congrArg Cell.status cell) stands
      (fun attempt inside => awake ▸ inside) unopened
  · rw [same]
    exact shows

theorem read (told : life.Told)
    (visited : life.passage = .signalled ∨ life.passage = .outside ∧ life.status = .running) :
    Told
      { life with
        status := life.post.action.cell.status
        passage := .outside
        log := life.log ++
          [.read life.post.action.cell.attempt life.post.action.cell.status] } := by
  refine told.aside rfl rfl rfl rfl (.refl _) rfl rfl ?_ ?_ ?_
  · rcases visited with signalled | ⟨outside, -⟩ <;> simp [*]
  · rw [List.count_append]
    exact told.strays
  · intro few opened
    rcases (told.accord few).shown opened with running | served
    · exact .inl running
    · exact .inr (.inr (.inr (served.append rfl)))

theorem halt (told : life.Told) (outside : life.passage = .outside) :
    Told { life with status := .invalid, log := life.log ++ [.halted] } := by
  refine told.aside rfl rfl rfl rfl (.refl _) rfl outside (by simp [outside]) ?_ ?_
  · rw [List.count_append]
    exact told.strays
  · exact fun _ _ => .inr (.inl ⟨rfl, since_now _ _ _⟩)

theorem shutdown (told : life.Told) (outside : life.passage = .outside) (name : String) :
    Told { life with post := life.post.shutdown name, log := life.log ++ [.shutDown] } := by
  obtain ⟨-, cell, gate, stands⟩ := life.post.action.shutdown_frame name
  have crew : (life.post.shutdown name).crew.awake = life.post.crew.awake ∧
      (life.post.shutdown name).crew.strays.length ≤ life.post.crew.strays.length + 1 := by
    rw [Post.shutdown]
    cases life.post.action.engagement with
    | idle => exact ⟨rfl, Nat.le_refl _⟩
    | off | busy => exact ⟨rfl, Nat.le_succ _⟩
  refine told.aside rfl rfl cell gate stands crew.1 outside (by simp [outside]) ?_ ?_
  · rw [List.count_append, List.count_singleton_self]
    have before := told.strays
    exact Nat.le_trans crew.2 (Nat.succ_le_succ before)
  · intro few opened
    rcases told.shows few opened with running | ⟨invalid, abandoned⟩ | unread | served
    · exact .inl running
    · exact .inr (.inl ⟨invalid, abandoned.append (by simp)⟩)
    · exact .inr (.inr (.inl (unread.append (by simp [isReading]))))
    · exact .inr (.inr (.inr (served.append rfl)))

theorem setup (told : life.Told) (name : String) :
    Told
      { life with
        post.action := (life.post.action.setup name).toOption.getD life.post.action } := by
  obtain ⟨-, cell, gate, stands⟩ := life.post.action.setup_frame name
  obtain ⟨accounted, strays, unread, signals, accord, shows⟩ := told
  refine ⟨?_, strays, unread, signals, fun few => ?_, shows⟩
  · dsimp only
    rw [← List.append_nil life.log]
    exact accounted.frame (congrArg Cell.attempt cell) gate (.of_eq stands) rfl (by simp)
  · dsimp only
    rw [← List.append_nil life.log]
    exact (accord few).frame (congrArg Cell.status cell) (.of_eq stands)
      (fun _ inside => inside) rfl

theorem toil (told : life.Told) (name : String) (toil : Toil) :
    Told
      { life with
        post := (life.post.toil name life.status toil).1
        log := life.log ++ (life.post.toil name life.status toil).2 } := by
  have done := Post.toil_toils name life.status life.post toil
  have toiled := done.toiled
  have few := Post.toil_strays name life.status life.post toil
  generalize life.post.toil name life.status toil = result at done toiled few
  obtain ⟨after, incidents⟩ := result
  have same : (life.log ++ incidents).count .opened = life.log.count .opened := by
    rw [List.count_append, count_toiled toiled rfl, Nat.add_zero]
  refine ⟨told.accounted.toils done, ?_, ?_, ?_, ?_, ?_⟩
  · rw [List.count_append, count_toiled toiled rfl]
    exact Nat.le_trans few told.strays
  · exact fun inside => (told.unread inside).toiled toiled
  · dsimp only
    rw [same, List.count_append, count_toiled toiled rfl]
    exact told.signals
  · dsimp only
    rw [same]
    exact fun few => (told.accord few).toils told.accounted few done
  · dsimp only
    rw [same]
    exact fun few opened => (told.shows few opened).toiled toiled

end Life.Told

namespace Lives

variable {name : String} {work : Work} {life : Life}

theorem told (lives : Lives name work life) : life.Told := by
  induction lives with
  | fresh status => exact .fresh work status
  | opens before outside resting ih => exact ih.opens outside
  | signals before opened ih => exact ih.signalled opened
  | read before visited ih => exact ih.read visited
  | halt before outside ih => exact ih.halt outside
  | toil before toil ih => exact ih.toil name toil
  | setup before outside ih => exact ih.setup name
  | shutdown before outside ih => exact ih.shutdown outside name

theorem has_work (lives : Lives name work life) : life.post.action.work = work := by
  induction lives with
  | fresh status => rfl
  | opens before outside resting ih => exact ih
  | signals before opened ih => exact ih
  | read before visited ih => exact ih
  | halt before outside ih => exact ih
  | @toil life before toil ih =>
      have done := Post.toil_toils name life.status life.post toil
      dsimp only
      generalize life.post.toil name life.status toil = result at done
      obtain ⟨after, incidents⟩ := result
      cases done with
      | quiet same => exact same.trans ih
      | take | look => exact ih
      | enter _ _ carried => exact carried.work.trans ih
      | resume _ _ _ carried => exact carried.work.trans ih
  | @setup life before outside ih => exact (life.post.action.setup_frame name).1.trans ih
  | @shutdown life before outside ih => exact (life.post.action.shutdown_frame name).1.trans ih

end Lives

end BehaviorTree
