import BehaviorTree.Timer

/-!
Timers while the clock runs. A timer and the copies taken of it are started and questioned in any
order and at any time. What each of them answers is settled by its own past alone: the period
counts from the latest start, for a periodic timer from the latest alarm if that is later, and
before the first start every question is refused. A copy begins with the past of what it was taken
from, and from then on neither can tell what is done with the other.
-/

namespace BehaviorTree

namespace Timer

/-- What can be done with a timer. -/
inductive Use where
  | start
  | query
  | elapsed
  deriving DecidableEq, Repr

inductive Reply where
  | started
  | passed (answer : Bool)
  | elapsed (span : Nat)
  | refused (fault : TimerFault)
  deriving DecidableEq, Repr

/-- The reply to a use at `now`, and the timer that is left. -/
def use (timer : Timer) (now : Nat) : Use → Reply × Timer
  | .start => (.started, timer.start now)
  | .query =>
      match timer.query now with
      | .ok (answer, after) => (.passed answer, after)
      | .error fault => (.refused fault, timer)
  | .elapsed =>
      match timer.elapsed now with
      | .ok span => (.elapsed span, timer)
      | .error fault => (.refused fault, timer)

/-- A use, when it was made and what the reply was. -/
structure Entry where
  time : Nat
  use : Use
  reply : Reply
  deriving DecidableEq, Repr

def Entry.isStart (entry : Entry) : Bool := entry.use == .start

/-- An alarm is the answer that the period has passed. -/
def Entry.isAlarm (entry : Entry) : Bool := entry.reply == .passed true

/-! What a past says. It has the latest entry first. -/

def lastStart? (past : List Entry) : Option Nat := (past.find? Entry.isStart).map Entry.time

def alarms (past : List Entry) : List Nat := (past.filter Entry.isAlarm).map Entry.time

/-- The time from which the period counts: the latest start, or for a periodic timer the latest
alarm if that is later. -/
def since? (periodic : Bool) (past : List Entry) : Option Nat :=
  (lastStart? past).map fun start =>
    if periodic then max start ((alarms past).headD start) else start

/-- The reply that is right at `time` when the period counts from `origin`. -/
def Use.expected (period : Nat) (origin : Option Nat) (time : Nat) : Use → Reply
  | .start => .started
  | .query =>
      match origin with
      | none => .refused .uninitialized
      | some since => .passed (decide (since + period ≤ time))
  | .elapsed =>
      match origin with
      | none => .refused .uninitialized
      | some since => .elapsed (time - since)

/-- An entry has the reply that the earlier ones call for. -/
def Proper (period : Nat) (periodic : Bool) (earlier : List Entry) (entry : Entry) : Prop :=
  entry.reply = entry.use.expected period (since? periodic earlier) entry.time

def Answered (period : Nat) (periodic : Bool) (past : List Entry) : Prop :=
  ∀ entry earlier, entry :: earlier <:+ past → Proper period periodic earlier entry

def InOrder (past : List Entry) : Prop :=
  past.Pairwise fun later earlier => earlier.time ≤ later.time

/-- Any two of the times, the latest first, are a period apart. -/
def Spaced (period : Nat) (times : List Nat) : Prop :=
  times.Pairwise fun later earlier => earlier + period ≤ later

/-! The timers of a program. -/

/-- A timer with what it has been through, the latest first. -/
structure Life where
  timer : Timer
  past : List Entry
  deriving DecidableEq, Repr

def Life.use (now : Nat) (use : Use) (life : Life) : Life where
  timer := (life.timer.use now use).2
  past := ⟨now, use, (life.timer.use now use).1⟩ :: life.past

/-- Timers under one clock, known by their numbers. -/
structure Shelf where
  now : Nat
  lives : List Life
  deriving DecidableEq, Repr

inductive Deed where
  | wait (span : Nat)
  | use (number : Nat) (use : Use)
  | copy (number : Nat)
  deriving DecidableEq, Repr

namespace Shelf

def fresh (now period : Nat) (periodic : Bool) : Shelf := ⟨now, [⟨{ period, periodic }, []⟩]⟩

/-- A copy goes to the end of the shelf, with the past of what it was taken from. -/
def meet (shelf : Shelf) : Deed → Shelf
  | .wait span => { shelf with now := shelf.now + span }
  | .use number use => { shelf with lives := shelf.lives.modify number (Life.use shelf.now use) }
  | .copy number => { shelf with lives := shelf.lives ++ shelf.lives[number]?.toList }

def after (shelf : Shelf) (deeds : List Deed) : Shelf := deeds.foldl meet shelf

end Shelf

/-! What one use does. -/

/-- Everything that a use at `now` can come to, with the timer that is left. -/
inductive Reacts (timer : Timer) (now : Nat) : Use → Reply × Timer → Prop
  | starts : Reacts timer now .start (.started, timer.start now)
  | refuses {use : Use} (question : use ≠ .start) (idle : timer.started = none) :
      Reacts timer now use (.refused .uninitialized, timer)
  | early {since : Nat} (started : timer.started = some since)
      (before : now - since < timer.period) : Reacts timer now .query (.passed false, timer)
  | stays {since : Nat} (once : timer.periodic = false) (started : timer.started = some since)
      (due : timer.period ≤ now - since) : Reacts timer now .query (.passed true, timer)
  | alarms {since : Nat} (again : timer.periodic = true) (started : timer.started = some since)
      (due : timer.period ≤ now - since) : Reacts timer now .query (.passed true, timer.start now)
  | measures {since : Nat} (started : timer.started = some since) :
      Reacts timer now .elapsed (.elapsed (now - since), timer)

theorem reacts (timer : Timer) (now : Nat) (use : Use) :
    Reacts timer now use (timer.use now use) := by
  cases use with
  | start => exact .starts
  | query =>
      rw [Timer.use, query]
      cases started : timer.started with
      | none => exact .refuses (by decide) started
      | some since =>
          by_cases before : now - since < timer.period
          · simp only [if_pos before]
            exact .early started before
          · have due := Nat.le_of_not_lt before
            simp only [if_neg before]
            cases periodic : timer.periodic with
            | false => exact .stays periodic started due
            | true => exact .alarms periodic started due
  | elapsed =>
      rw [Timer.use, elapsed]
      cases started : timer.started with
      | none => exact .refuses (by decide) started
      | some since => exact .measures started

theorem use_settings (timer : Timer) (now : Nat) (use : Use) :
    (timer.use now use).2.period = timer.period ∧
      (timer.use now use).2.periodic = timer.periodic := by
  have reaction := timer.reacts now use
  generalize timer.use now use = result at reaction ⊢
  cases reaction <;> exact ⟨rfl, rfl⟩

/-- Nothing changes a timer but a start, and the alarm of a periodic one. -/
theorem use_leaves (timer : Timer) (now : Nat) (use : Use) :
    (timer.use now use).2 = timer ∨ use = .start ∨
      use = .query ∧ timer.periodic = true ∧ (timer.use now use).1 = .passed true := by
  have reaction := timer.reacts now use
  generalize timer.use now use = result at reaction ⊢
  cases reaction with
  | starts => exact .inr (.inl rfl)
  | alarms again started due => exact .inr (.inr ⟨rfl, again, rfl⟩)
  | refuses | early | stays | measures => exact .inl rfl

/-! What one more entry makes of a past. -/

section Past

variable {period now since : Nat} {periodic : Bool} {past earlier : List Entry} {entry : Entry}

theorem latest_alarm_le (bounded : ∀ other ∈ past, other.time ≤ now) {start : Nat}
    (before : start ≤ now) : (alarms past).headD start ≤ now := by
  cases found : alarms past with
  | nil => exact before
  | cons first rest =>
      have member : first ∈ alarms past := by
        rw [found]
        exact List.mem_cons_self
      rcases List.mem_map.mp member with ⟨other, there, same⟩
      rw [List.headD_cons, ← same]
      exact bounded other (List.mem_filter.mp there).1

theorem since_le (bounded : ∀ other ∈ past, other.time ≤ now)
    (counted : since? periodic past = some since) : since ≤ now := by
  rcases Option.map_eq_some_iff.mp counted with ⟨start, started, same⟩
  rcases Option.map_eq_some_iff.mp started with ⟨other, found, time⟩
  have before : start ≤ now := by
    rw [← time]
    exact bounded other (List.mem_of_find?_eq_some found)
  have latest := latest_alarm_le bounded before
  subst same
  split
  · exact Nat.max_le.mpr ⟨before, latest⟩
  · exact before

theorem since_of_start (begins : entry.isStart = true) (silent : entry.isAlarm = false)
    (bounded : ∀ other ∈ past, other.time ≤ entry.time) :
    since? periodic (entry :: past) = some entry.time := by
  have latest := latest_alarm_le bounded (Nat.le_refl _)
  rw [since?, lastStart?, alarms, List.find?_cons_of_pos begins,
    List.filter_cons_of_neg (by simp [silent])]
  cases periodic with
  | false => rfl
  | true => exact congrArg some (Nat.max_eq_left latest)

theorem since_of_alarm (goes : entry.isStart = false) (rings : entry.isAlarm = true)
    (counted : since? true past = some since) (order : since ≤ entry.time) :
    since? true (entry :: past) = some entry.time := by
  rcases Option.map_eq_some_iff.mp counted with ⟨start, started, same⟩
  have before : start ≤ entry.time := by
    rw [if_pos rfl] at same
    omega
  rw [since?, lastStart?, alarms, List.find?_cons_of_neg (by simp [goes]),
    List.filter_cons_of_pos rings, ← lastStart?, started]
  exact congrArg some (Nat.max_eq_right before)

theorem since_of_other (goes : entry.isStart = false)
    (silent : periodic = true → entry.isAlarm = false) :
    since? periodic (entry :: past) = since? periodic past := by
  rw [since?, since?, lastStart?, lastStart?, List.find?_cons_of_neg (by simp [goes])]
  cases periodic with
  | false => rfl
  | true => rw [alarms, alarms, List.filter_cons_of_neg (by simp [silent rfl])]

/-! What follows for a past of proper entries. -/

theorem start_le_last (ordered : InOrder past) (member : entry ∈ past)
    (starts : entry.use = .start) {latest : Nat} (last : lastStart? past = some latest) :
    entry.time ≤ latest := by
  induction past with
  | nil => exact absurd member List.not_mem_nil
  | cons head rest ih =>
      rcases List.pairwise_cons.mp ordered with ⟨before, rest_ordered⟩
      rw [lastStart?] at last
      cases begins : head.isStart with
      | true =>
          rw [List.find?_cons_of_pos begins, Option.map_some, Option.some_inj] at last
          rw [← last]
          rcases List.mem_cons.mp member with rfl | old
          · exact Nat.le_refl _
          · exact before entry old
      | false =>
          rw [List.find?_cons_of_neg (by simp [begins])] at last
          rcases List.mem_cons.mp member with rfl | old
          · rw [Entry.isStart, starts] at begins
            cases begins
          · exact ih rest_ordered old last

theorem start_le_since (ordered : InOrder past) (member : entry ∈ past)
    (starts : entry.use = .start) (counted : since? periodic past = some since) :
    entry.time ≤ since := by
  rcases Option.map_eq_some_iff.mp counted with ⟨latest, last, same⟩
  have bound := start_le_last ordered member starts last
  split at same <;> omega

theorem alarms_ordered (ordered : InOrder past) :
    (alarms past).Pairwise fun later earlier => earlier ≤ later :=
  List.pairwise_map.mpr (ordered.filter _)

theorem alarm_le_since (ordered : InOrder past) {alarm : Nat} (member : alarm ∈ alarms past)
    (counted : since? true past = some since) : alarm ≤ since := by
  rcases Option.map_eq_some_iff.mp counted with ⟨start, -, same⟩
  have sorted := alarms_ordered ordered
  rw [if_pos rfl] at same
  cases found : alarms past with
  | nil =>
      rw [found] at member
      exact absurd member List.not_mem_nil
  | cons head rest =>
      rw [found] at member sorted same
      rw [List.headD_cons] at same
      have latest : alarm ≤ head := by
        rcases List.mem_cons.mp member with rfl | old
        · exact Nat.le_refl _
        · exact (List.pairwise_cons.mp sorted).1 alarm old
      omega

/-- An alarm answers a query that came when the period had passed. -/
theorem Proper.due (proper : Proper period periodic earlier entry)
    (passed : entry.reply = .passed true) :
    entry.use = .query ∧ ∃ since, since? periodic earlier = some since ∧
      since + period ≤ entry.time := by
  rw [Proper, passed] at proper
  cases asked : entry.use with
  | start =>
      rw [asked] at proper
      cases proper
  | query =>
      rw [asked] at proper
      cases counted : since? periodic earlier with
      | none =>
          rw [counted] at proper
          cases proper
      | some since =>
          rw [counted] at proper
          refine ⟨rfl, since, rfl, ?_⟩
          exact of_decide_eq_true (Reply.passed.inj proper).symm
  | elapsed =>
      rw [asked] at proper
      cases counted : since? periodic earlier with
      | none | some since =>
          rw [counted] at proper
          cases proper

/-- Between two starts a timer that goes off once keeps saying that the period has passed. -/
theorem passed_of_passed {between : List Entry} {later : Entry} (ordered : InOrder past)
    (answered : Answered period false past)
    (part : later :: (between ++ entry :: earlier) <:+ past) (passed : entry.reply = .passed true)
    (unstarted : ∀ other ∈ between, other.use ≠ .start) (asked : later.use = .query) :
    later.reply = .passed true := by
  have inner : entry :: earlier <:+ past :=
    ((List.suffix_append between _).trans (List.suffix_cons later _)).trans part
  rcases (answered entry earlier inner).due passed with ⟨query, since, counted, due⟩
  -- Neither of the two queries is a start, so they count from the same one.
  have goes : ∀ other ∈ between ++ [entry], ¬other.isStart = true := by
    intro other member
    rw [Entry.isStart, beq_iff_eq]
    rcases List.mem_append.mp member with amid | same
    · exact unstarted other amid
    · rw [List.mem_singleton.mp same, query]
      decide
  have again : since? false (between ++ entry :: earlier) = some since := by
    rw [← counted, since?, since?, lastStart?, lastStart?,
      show between ++ entry :: earlier = (between ++ [entry]) ++ earlier by simp,
      List.find?_append, List.find?_eq_none.mpr goes, Option.none_or]
    rfl
  have time : entry.time ≤ later.time := by
    have whole := ordered.sublist part.sublist
    exact (List.pairwise_cons.mp whole).1 entry (by simp)
  have replied := answered later _ part
  rw [Proper, again, asked] at replied
  rw [replied]
  simp only [Use.expected, Reply.passed.injEq, decide_eq_true_iff]
  omega

theorem alarms_spaced (ordered : InOrder past) (answered : Answered period true past) :
    Spaced period (alarms past) := by
  induction past with
  | nil => exact List.Pairwise.nil
  | cons head rest ih =>
      rcases List.pairwise_cons.mp ordered with ⟨before, rest_ordered⟩
      have spaced := ih rest_ordered fun entry earlier part =>
        answered entry earlier (part.trans (List.suffix_cons head rest))
      cases rings : head.isAlarm with
      | false =>
          rw [alarms, List.filter_cons_of_neg (by simp [rings])]
          exact spaced
      | true =>
          rw [alarms, List.filter_cons_of_pos rings]
          refine List.pairwise_cons.mpr ⟨?_, spaced⟩
          -- The new alarm is a period behind where the count began, and no alarm is behind that.
          intro alarm member
          have passed : head.reply = .passed true := beq_iff_eq.mp rings
          rcases (answered head rest (List.suffix_refl _)).due passed with ⟨-, since, counted, due⟩
          have latest := alarm_le_since rest_ordered member counted
          omega

/-- Times that keep the period apart, from each other and from where they begin, need room. -/
theorem room_of_spaced {first span : Nat} {times : List Nat} (spaced : Spaced period times)
    (above : ∀ time ∈ times, first + period ≤ time) (within : ∀ time ∈ times, time ≤ first + span) :
    times.length * period ≤ span := by
  induction times generalizing span with
  | nil => simp
  | cons head rest ih =>
      rcases List.pairwise_cons.mp spaced with ⟨apart, rest_spaced⟩
      have reached := above head List.mem_cons_self
      have bound := within head List.mem_cons_self
      have room : rest.length * period ≤ head - period - first := by
        apply ih rest_spaced
        · intro time member
          exact above time (List.mem_cons_of_mem head member)
        · intro time member
          have gap := apart time member
          omega
      rw [List.length_cons, Nat.succ_mul]
      omega

theorem alarms_counted {after before : List Entry} {start : Entry} (positive : 0 < period)
    (ordered : InOrder past) (answered : Answered period true past)
    (parts : past = after ++ start :: before) (starts : start.use = .start) (span : Nat) :
    ((alarms after).filter (· ≤ start.time + span)).length ≤ span / period := by
  have above : ∀ alarm ∈ alarms after, start.time + period ≤ alarm := by
    intro alarm member
    rcases List.mem_map.mp member with ⟨entry, there, rfl⟩
    rcases List.mem_filter.mp there with ⟨among, rings⟩
    rcases List.append_of_mem among with ⟨front, back, whole⟩
    have part : entry :: (back ++ start :: before) <:+ past := by
      rw [parts, whole, List.append_assoc]
      exact List.suffix_append front _
    have passed : entry.reply = .passed true := beq_iff_eq.mp rings
    rcases (answered entry _ part).due passed with ⟨-, since, counted, due⟩
    have back_ordered := (List.pairwise_cons.mp (ordered.sublist part.sublist)).2
    have begun := start_le_since back_ordered (by simp) starts counted
    omega
  have spaced : Spaced period (alarms after) := by
    have whole := alarms_spaced ordered answered
    rw [parts, alarms, List.filter_append, List.map_append] at whole
    exact (List.pairwise_append.mp whole).1
  rw [Nat.le_div_iff_mul_le positive]
  apply room_of_spaced (spaced.filter _)
  · intro alarm member
    exact above alarm (List.mem_filter.mp member).1
  · intro alarm member
    exact of_decide_eq_true (List.mem_filter.mp member).2

end Past

/-! What is known of a timer with its past. -/

/-- The past of a timer is in order, each of its entries is proper, and the timer counts from where
its past says. -/
structure Life.Sound (period : Nat) (periodic : Bool) (now : Nat) (life : Life) : Prop where
  kept : life.timer.period = period ∧ life.timer.periodic = periodic
  started : life.timer.started = since? periodic life.past
  bounded : ∀ entry ∈ life.past, entry.time ≤ now
  ordered : InOrder life.past
  answered : Answered period periodic life.past

section Sound

variable {period now : Nat} {periodic : Bool} {life : Life}

theorem Life.fresh_sound (period now : Nat) (periodic : Bool) :
    Life.Sound period periodic now ⟨{ period, periodic }, []⟩ := by
  constructor <;> simp [since?, lastStart?, InOrder, Answered]

theorem Life.Sound.wait (sound : life.Sound period periodic now) (span : Nat) :
    life.Sound period periodic (now + span) :=
  { sound with
    bounded := fun entry member => Nat.le_add_right_of_le (sound.bounded entry member) }

theorem Life.Sound.use_proper (sound : life.Sound period periodic now) (use : Use) :
    Proper period periodic life.past ⟨now, use, (life.timer.use now use).1⟩ := by
  have reaction := life.timer.reacts now use
  generalize life.timer.use now use = result at reaction ⊢
  rw [Proper, ← sound.started]
  -- A difference of times stops at nought, so it tells something only of a start in the past.
  have order : ∀ since, life.timer.started = some since → since ≤ now := by
    intro since started
    rw [sound.started] at started
    exact since_le sound.bounded started
  have period_kept := sound.kept.1
  cases reaction with
  | starts => rfl
  | refuses question idle =>
      rw [idle]
      cases use with
      | start => exact absurd rfl question
      | query | elapsed => rfl
  | early started before =>
      have waits := order _ started
      simp only [Use.expected, started, Reply.passed.injEq, Bool.false_eq, decide_eq_false_iff_not]
      omega
  | stays once started due | alarms again started due =>
      have waits := order _ started
      simp only [Use.expected, started, Reply.passed.injEq, Bool.true_eq, decide_eq_true_iff]
      omega
  | measures started =>
      rw [started]
      rfl

/-- After a use the timer counts from where its longer past says. -/
theorem Life.Sound.use_started (sound : life.Sound period periodic now) (use : Use) :
    (life.use now use).timer.started = since? periodic (life.use now use).past := by
  rw [Life.use]
  have reaction := life.timer.reacts now use
  generalize life.timer.use now use = result at reaction ⊢
  have started := sound.started
  have periodic_kept := sound.kept.2
  cases reaction with
  | starts =>
      symm
      exact since_of_start rfl rfl sound.bounded
  | refuses question idle =>
      rw [since_of_other (beq_false_of_ne question) fun _ => rfl]
      exact started
  | early known before =>
      rw [since_of_other rfl fun _ => rfl]
      exact started
  | stays once known due =>
      rw [since_of_other rfl fun again => absurd again (by simp [← periodic_kept, once])]
      exact started
  | alarms again known due =>
      rw [known] at started
      have order := since_le sound.bounded started.symm
      rw [← periodic_kept, again] at started ⊢
      symm
      exact since_of_alarm rfl rfl started.symm order
  | measures known =>
      rw [since_of_other rfl fun _ => rfl]
      exact started

theorem Life.Sound.use (sound : life.Sound period periodic now) (use : Use) :
    (life.use now use).Sound period periodic now := by
  constructor
  · have settings := use_settings life.timer now use
    exact ⟨settings.1.trans sound.kept.1, settings.2.trans sound.kept.2⟩
  · exact sound.use_started use
  · intro entry member
    rcases List.mem_cons.mp member with rfl | old
    · exact Nat.le_refl now
    · exact sound.bounded entry old
  · exact List.pairwise_cons.mpr ⟨sound.bounded, sound.ordered⟩
  · intro entry earlier part
    rcases List.suffix_cons_iff.mp part with same | old
    · cases same
      exact sound.use_proper use
    · exact sound.answered entry earlier old

/-- What a timer that has been through a run shows. -/
structure Life.Lawful (period : Nat) (periodic : Bool) (life : Life) : Prop where
  kept : life.timer.period = period ∧ life.timer.periodic = periodic
  ordered : InOrder life.past
  answered : Answered period periodic life.past
  lasting : periodic = false → ∀ later between first earlier,
    later :: (between ++ first :: earlier) <:+ life.past → first.reply = .passed true →
      (∀ entry ∈ between, entry.use ≠ .start) → later.use = .query → later.reply = .passed true
  spaced : periodic = true → Spaced period (alarms life.past)
  counted : periodic = true → 0 < period → ∀ after start before span,
    life.past = after ++ start :: before → start.use = .start →
      ((alarms after).filter (· ≤ start.time + span)).length ≤ span / period

theorem Life.Sound.lawful (sound : life.Sound period periodic now) :
    life.Lawful period periodic where
  kept := sound.kept
  ordered := sound.ordered
  answered := sound.answered
  lasting once := by
    subst once
    intro later between first earlier part passed unstarted asked
    exact passed_of_passed sound.ordered sound.answered part passed unstarted asked
  spaced again := by
    subst again
    exact alarms_spaced sound.ordered sound.answered
  counted again positive := by
    subst again
    intro after start before span parts starts
    exact alarms_counted positive sound.ordered sound.answered parts starts span

end Sound

/-! What is known of all timers in a run. -/

namespace Shelf

variable {period : Nat} {periodic : Bool} {shelf : Shelf}

def Sound (period : Nat) (periodic : Bool) (shelf : Shelf) : Prop :=
  ∀ life ∈ shelf.lives, life.Sound period periodic shelf.now

theorem Sound.meet (sound : shelf.Sound period periodic) (deed : Deed) :
    (shelf.meet deed).Sound period periodic := by
  intro life member
  cases deed with
  | wait span => exact (sound life member).wait span
  | use number use =>
      rcases List.getElem?_of_mem member with ⟨place, there⟩
      rw [Shelf.meet, List.getElem?_modify] at there
      rcases Option.map_eq_some_iff.mp there with ⟨before, found, same⟩
      have known := sound before (List.mem_of_getElem? found)
      subst same
      split
      · exact known.use use
      · exact known
  | copy number =>
      rcases List.mem_append.mp member with old | new
      · exact sound life old
      · exact sound life (List.mem_of_getElem? (Option.mem_toList.mp new))

theorem Sound.after (sound : shelf.Sound period periodic) (deeds : List Deed) :
    (shelf.after deeds).Sound period periodic := by
  induction deeds generalizing shelf with
  | nil => exact sound
  | cons deed rest ih => exact ih (sound.meet deed)

theorem fresh_sound (now period : Nat) (periodic : Bool) :
    (fresh now period periodic).Sound period periodic := by
  intro life member
  rw [List.mem_singleton.mp member]
  exact Life.fresh_sound period now periodic

/-! What a deed leaves alone. -/

variable {number : Nat} {life : Life}

theorem meet_aside (there : shelf.lives[number]? = some life) {deed : Deed}
    (aside : ∀ use, .use number use ≠ deed) : (shelf.meet deed).lives[number]? = some life := by
  cases deed with
  | wait span => exact there
  | use other use =>
      have apart : other ≠ number := by
        intro same
        subst same
        exact aside use rfl
      rw [Shelf.meet, List.getElem?_modify_ne _ _ apart]
      exact there
  | copy other =>
      have bound := (List.getElem?_eq_some_iff.mp there).1
      rw [Shelf.meet, List.getElem?_append_left bound]
      exact there

theorem after_aside {deeds : List Deed} (there : shelf.lives[number]? = some life)
    (aside : ∀ use, .use number use ∉ deeds) :
    (shelf.after deeds).lives[number]? = some life := by
  induction deeds generalizing shelf with
  | nil => exact there
  | cons deed rest ih =>
      apply ih
      · apply meet_aside there
        intro use same
        exact aside use (by simp [same])
      · intro use member
        exact aside use (List.mem_cons_of_mem deed member)

/-- A timer is changed by a start, and by an alarm if it is periodic, and by nothing else: not by
another question, nor by anything that is done with other timers, be they copies of it or what it
is a copy of. -/
structure Steady (shelf : Shelf) : Prop where
  aside : ∀ number life deeds, shelf.lives[number]? = some life →
    (∀ use, .use number use ∉ deeds) → (shelf.after deeds).lives[number]? = some life
  copied : ∀ number life, shelf.lives[number]? = some life →
    (shelf.meet (.copy number)).lives = shelf.lives ++ [life]
  used : ∀ number life use, shelf.lives[number]? = some life → ∃ timer reply,
    (shelf.meet (.use number use)).lives[number]? =
      some ⟨timer, ⟨shelf.now, use, reply⟩ :: life.past⟩ ∧
    (timer = life.timer ∨ use = .start ∨
      use = .query ∧ life.timer.periodic = true ∧ reply = .passed true)

theorem steady (shelf : Shelf) : shelf.Steady where
  aside _ _ _ there aside := after_aside there aside
  copied number life there := by
    rw [Shelf.meet, there]
    rfl
  used number life use there := by
    refine ⟨_, _, ?_, life.timer.use_leaves shelf.now use⟩
    rw [Shelf.meet, List.getElem?_modify_eq, there]
    rfl

end Shelf

/-- Whatever is done with a new timer and its copies while the clock runs, each of them gives the
answers that its own past calls for, and nothing else changes it. -/
theorem timers_in_every_run (now period : Nat) (periodic : Bool) (deeds : List Deed) :
    let shelf := (Shelf.fresh now period periodic).after deeds
    shelf.Steady ∧ ∀ life ∈ shelf.lives, life.Lawful period periodic := by
  intro shelf
  refine ⟨shelf.steady, ?_⟩
  intro life member
  have sound := (Shelf.fresh_sound now period periodic).after deeds
  exact (sound life member).lawful

/-- A periodic timer is asked too early, and late after that; a copy of it is asked in between. -/
def lateDeeds : List Deed :=
  [.use 0 .query, .use 0 .start, .wait 2, .use 0 .query, .copy 0, .wait 1, .use 1 .query, .wait 1,
    .use 0 .query, .wait 2, .use 0 .query, .use 1 .query, .wait 1, .use 0 .elapsed, .use 0 .query]

/-- After a late alarm the period counts from the alarm, and not from when it was due. -/
theorem late_timer_is_lawful : ∃ life copy,
    ((Shelf.fresh 10 3 true).after lateDeeds).lives = [life, copy] ∧
      life ∈ ((Shelf.fresh 10 3 true).after lateDeeds).lives ∧
      life.past.reverse.map (fun entry => (entry.time, entry.reply)) =
        [(10, .refused .uninitialized), (10, .started), (12, .passed false), (14, .passed true),
          (16, .passed false), (17, .elapsed 3), (17, .passed true)] ∧
      alarms copy.past = [16, 13] ∧ life.Lawful 3 true := by
  have here : _ ∈ ((Shelf.fresh 10 3 true).after lateDeeds).lives := List.mem_cons_self
  exact ⟨_, _, rfl, here, rfl, rfl, (timers_in_every_run 10 3 true lateDeeds).2 _ here⟩

end Timer

end BehaviorTree
