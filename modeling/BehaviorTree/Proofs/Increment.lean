import BehaviorTree.Proofs.Footprint
import Mathlib.Order.Bounds.Basic
import Mathlib.Data.Nat.Find

/-!
Adding again and again. A cycle that adds to its variable goes through the terms of a series, and
ends at the first of them that its check holds of, or before the first that is no machine integer;
where the variable holds no number it fails before it writes anything.
-/

namespace BehaviorTree

/-- A start, and what is added to it again and again. -/
structure Series where
  start : Int64
  amount : Int64

namespace Series

/-- What has come of the start after some additions, in numbers without bounds. -/
def term (series : Series) (count : Nat) : Int :=
  series.start.toInt + count * series.amount.toInt

/-- The term is in the range of machine integers. -/
def Fits (series : Series) (count : Nat) : Prop :=
  Int64.minValue.toInt ≤ series.term count ∧ series.term count ≤ Int64.maxValue.toInt

instance (series : Series) (count : Nat) : Decidable (series.Fits count) :=
  inferInstanceAs (Decidable (_ ∧ _))

def value (series : Series) (count : Nat) : Value := .int (.ofInt (series.term count))

/-- The check holds of the term. -/
def Admits (series : Series) (check : Check) (count : Nat) : Prop :=
  check.operator.holds (series.value count) check.value = true

instance (series : Series) (check : Check) (count : Nat) : Decidable (series.Admits check count) :=
  inferInstanceAs (Decidable (_ = _))

/-- The first term that is out of range. -/
def Overflows (series : Series) : Nat → Prop := IsLeast {count | ¬series.Fits count}

/-- The first term that the check holds of, unless one before it is out of range. -/
def Arrives (series : Series) (check : Check) : Nat → Prop :=
  IsLeast {count | (∀ past, series.Overflows past → count < past) ∧ series.Admits check count}

/-- The first terms were written one after the other, none of them wrapped around, and the last of
them is there. -/
structure Tally (series : Series) (pv : String) (count : Nat) (store : Store)
    (writes : List (String × Value)) : Prop where
  exact : ∀ index ≤ count, (Int64.ofInt (series.term index)).toInt = series.term index
  writes : writes = (List.range count).map fun index => (pv, series.value (index + 1))
  reads : store.read pv = .ok (series.value count)

variable {series : Series} {check : Check} {pv : String} {count : Nat} {store : Store}
  {writes : List (String × Value)}

theorem term_zero (series : Series) : series.term 0 = series.start.toInt := by
  rw [term]
  omega

theorem term_succ (series : Series) (count : Nat) :
    series.term (count + 1) = series.term count + series.amount.toInt := by
  rw [term, term, Int.natCast_succ, Int.add_mul]
  omega

theorem exact_of_fits (fits : series.Fits count) :
    (Int64.ofInt (series.term count)).toInt = series.term count :=
  Int64.toInt_ofInt_of_le fits.1 (Int.lt_of_le_of_lt fits.2 (by decide))

theorem fits_of_exact (exact : (Int64.ofInt (series.term count)).toInt = series.term count) :
    series.Fits count := by
  rw [Fits, ← exact]
  exact ⟨Int64.minValue_le_toInt _, Int64.toInt_le _⟩

theorem Tally.fits (tally : series.Tally pv count store writes) {index : Nat}
    (inside : index ≤ count) : series.Fits index := fits_of_exact (tally.exact index inside)

/-- The checked sum gives the next term as long as that is in range. -/
theorem sum_of_fits (exact : (Int64.ofInt (series.term count)).toInt = series.term count)
    (fits : series.Fits (count + 1)) :
    (series.value count).sum? (.int series.amount) = some (series.value (count + 1)) := by
  rw [Fits, term_succ] at fits
  rw [value, Value.sum?, sumInRange?, exact, if_pos fits, value, term_succ]
  rfl

theorem sum_of_not_fits (exact : (Int64.ofInt (series.term count)).toInt = series.term count)
    (leaves : ¬series.Fits (count + 1)) :
    (series.value count).sum? (.int series.amount) = none := by
  rw [Fits, term_succ] at leaves
  rw [value, Value.sum?, sumInRange?, exact, if_neg leaves]
  rfl

/-! First terms. -/

theorem exists_least {holds : Nat → Prop} {count : Nat} (here : holds count) :
    ∃ first ≤ count, IsLeast {count | holds count} first := by
  classical
  have found : ∃ count, holds count := ⟨count, here⟩
  exact ⟨Nat.find found, Nat.find_min' found here, Nat.find_spec found,
    fun other there => Nat.find_min' found there⟩

theorem overflows_of_not_fits (leaves : ¬series.Fits count) :
    ∃ past ≤ count, series.Overflows past := exists_least leaves

/-- Where all terms are in range, the overflow is yet to come. -/
theorem Tally.before (tally : series.Tally pv count store writes) {past : Nat}
    (overflows : series.Overflows past) : count < past := by
  by_contra late
  exact overflows.1 (tally.fits (Nat.not_lt.mp late))

theorem arrives_of_admits (before : ∀ past, series.Overflows past → count < past)
    (admits : series.Admits check count) : ∃ first ≤ count, series.Arrives check first :=
  @exists_least (fun count => (∀ past, series.Overflows past → count < past) ∧
    series.Admits check count) count ⟨before, admits⟩

end Series

namespace Solo

/-! Series of writes. -/

section

variable {plan : ActionPlan} {goal : Option Check} {timing : Timing} {check : Check}
  {series : Series} {first store : Store} {count : Nat} {writes : List (String × Value)}

theorem met_iff_admits (checks : plan.check? goal = some check) (own : check.pv = plan.pv)
    (reads : store.read plan.pv = .ok (series.value count)) :
    (plan.work timing goal).IsMet store ↔ series.Admits check count := by
  have looked : check.read store =
      .ok (check.operator.holds (series.value count) check.value) := by
    rw [Check.read, own, reads]
    rfl
  rw [ActionPlan.work_met_iff, checks, Series.Admits]
  constructor
  · rintro ⟨_, ⟨⟩, holds⟩
    rw [looked] at holds
    exact Except.ok.inj holds
  · intro holds
    refine ⟨check, rfl, ?_⟩
    rw [looked, holds]

/-- What an increment writes is the next term, as long as that is in range. -/
theorem written_of_term (goal : Option Check) (timing : Timing)
    (adds : plan.task = .increment (.int series.amount))
    (reads : store.read plan.pv = .ok (series.value count))
    (exact : (Int64.ofInt (series.term count)).toInt = series.term count) :
    (series.Fits (count + 1) ∧ (plan.work timing goal).written store =
        .ok (some (plan.pv, series.value (count + 1)))) ∨
      ¬series.Fits (count + 1) ∧ ∃ fault, (plan.work timing goal).written store = .error fault := by
  rw [Work.written, ActionPlan.step_of_increment adds]
  dsimp only
  rw [reads]
  dsimp only
  by_cases fits : series.Fits (count + 1)
  · left
    rw [Series.sum_of_fits exact fits]
    exact ⟨fits, rfl⟩
  · right
    rw [Series.sum_of_not_fits exact fits]
    exact ⟨fits, _, rfl⟩

/-- Steps that are taken while the check does not hold write the terms that it does not hold of. -/
theorem Strides.tally (adds : plan.task = .increment (.int series.amount))
    (checks : plan.check? goal = some check) (own : check.pv = plan.pv)
    (begins : first.read plan.pv = .ok (.int series.start))
    (strides : Strides (plan.work timing goal) first count store writes) :
    series.Tally plan.pv count store writes ∧
      ∀ index < count, ¬series.Admits check index := by
  induction strides with
  | none =>
      refine ⟨⟨?_, rfl, ?_⟩, nofun⟩
      · intro index least
        rw [Nat.le_zero.mp least, Series.term_zero, Int64.ofInt_toInt]
      · rw [begins, Series.value, Series.term_zero, Int64.ofInt_toInt]
  | @more count store writes pv value before unmet written answers ih =>
      obtain ⟨tally, passed⟩ := ih
      have here := tally.exact count (Nat.le_refl count)
      rcases written_of_term goal timing adds tally.reads here with
        ⟨fits, next⟩ | ⟨-, fault, fails⟩
      · rw [next] at written
        cases written
        refine ⟨⟨?_, ?_, Store.read_insert answers _⟩, ?_⟩
        · intro index inside
          rcases Nat.le_succ_iff.mp inside with old | rfl
          · exact tally.exact index old
          · exact Series.exact_of_fits fits
        · rw [tally.writes, List.range_succ, List.map_append]
          rfl
        · intro index inside
          rcases Nat.lt_succ_iff_lt_or_eq.mp inside with old | rfl
          · exact passed index old
          · exact mt (met_iff_admits checks own tally.reads).mpr unmet
      · rw [fails] at written
        cases written

theorem Series.not_fits_of_stuck (adds : plan.task = .increment (.int series.amount))
    (tally : series.Tally plan.pv count store writes) (answers : store.answers plan.pv = true)
    (stuck : (plan.work timing goal).Stuck store) : ¬series.Fits (count + 1) := by
  rcases written_of_term goal timing adds tally.reads
    (tally.exact count (Nat.le_refl count)) with ⟨-, next⟩ | ⟨leaves, -⟩
  · exact absurd stuck (Work.not_stuck_of_written next answers)
  · exact leaves

/-- How far an increment has come after some answers. -/
structure Mounts (work : Work) (series : Series) (check : Check) (pv : String) (count answers : Nat)
    (solo : Solo) : Prop where
  tally : series.Tally pv count solo.store solo.writes
  passed : ∀ index < count, ¬series.Admits check index
  reaches : Reaches work solo.store count solo.conduct.progress answers
  admits : work.IsMet solo.store → series.Admits check count
  unmet : ¬work.IsMet solo.store → ¬series.Admits check count
  leaves : work.Stuck solo.store → ¬series.Fits (count + 1)

theorem mounts_unhindered (adds : plan.task = .increment (.int series.amount))
    (checks : plan.check? goal = some check) (own : check.pv = plan.pv) (timing : Timing)
    (attempt : UInt64) (answers : store.answers plan.pv = true)
    (begins : store.read plan.pv = .ok (.int series.start)) {beats : List Beat}
    (unstopped : .stop ∉ beats)
    (timely : .timedOut ∉
      (after (plan.work timing goal) attempt false store beats).conduct.record) :
    ∃ count, Mounts (plan.work timing goal) series check plan.pv count (beats.count .answer)
      (after (plan.work timing goal) attempt false store beats) := by
  have footprint := after_footprint plan goal timing attempt false store beats
  obtain ⟨count, strides, reaches⟩ := reaches_unhindered (ActionPlan.independent checks timing)
    attempt store unstopped timely
  obtain ⟨tally, passed⟩ := strides.tally adds checks own begins
  have still : (after (plan.work timing goal) attempt false store beats).store.answers plan.pv =
      true := by
    rw [footprint.store, Store.answers_overwritten, answers]
  exact ⟨count, {
    tally, passed, reaches
    admits := (met_iff_admits checks own tally.reads).mp
    unmet := mt (met_iff_admits checks own tally.reads).mpr
    leaves := Series.not_fits_of_stuck adds tally still }⟩

variable {work : Work} {pv : String} {answers : Nat} {solo : Solo}

/-- The first term that the check holds of is where an increment ends. -/
theorem Mounts.arrives (mounts : Mounts work series check pv count answers solo) {goal : Nat}
    (arrives : series.Arrives check goal) (enough : 2 * goal + 2 ≤ answers) :
    solo.conduct.progress = .ended .success .completed ∧ count = goal := by
  have within : count ≤ goal := by
    by_contra beyond
    exact mounts.passed goal (Nat.not_le.mp beyond) arrives.1.2
  have stays : work.Stuck solo.store → work.IsMet solo.store := by
    intro stuck
    -- Only an overflow is in the way of a step, and the goal comes before that.
    obtain ⟨past, soon, overflows⟩ := Series.overflows_of_not_fits (mounts.leaves stuck)
    have late := arrives.1.1 past overflows
    obtain rfl : count = goal := by omega
    by_contra unmet
    exact mounts.unmet unmet arrives.1.2
  have reaches := mounts.reaches
  generalize solo.conduct.progress = progress at reaches ⊢
  cases reaches with
  | checking | stepping | completed => omega
  | failing _ unmet stuck => exact absurd (stays stuck) unmet
  | failed unmet stuck => exact absurd (stays stuck) unmet
  | succeeded met =>
      have here := mounts.admits met
      have first := arrives.2 ⟨fun past overflows => mounts.tally.before overflows, here⟩
      exact ⟨rfl, Nat.le_antisymm within first⟩

/-- Where the check holds of no term, an increment fails at the last one in range. -/
theorem Mounts.overflows (mounts : Mounts work series check pv count answers solo) {past : Nat}
    (overflows : series.Overflows past) (unreached : ∀ goal, ¬series.Arrives check goal)
    (enough : 2 * past + 1 ≤ answers) :
    solo.conduct.progress = .ended .failure .stepFailed ∧ count = past - 1 := by
  have within : count < past := mounts.tally.before overflows
  have unmet : ¬work.IsMet solo.store := by
    intro met
    obtain ⟨first, -, arrives⟩ := Series.arrives_of_admits
      (fun past overflows => mounts.tally.before overflows) (mounts.admits met)
    exact unreached first arrives
  have reaches := mounts.reaches
  generalize solo.conduct.progress = progress at reaches ⊢
  cases reaches with
  | checking | stepping | failing => omega
  | completed _ met => exact absurd met unmet
  | succeeded met => exact absurd met unmet
  | failed _ stuck =>
      have last := overflows.2 (mounts.leaves stuck)
      exact ⟨rfl, by omega⟩

end

/-! Where there is nothing to add to. -/

section

variable {plan : ActionPlan} {goal : Option Check} {timing : Timing} {check : Check}
  {amount : Int64} {store : Store}

theorem stuck_without_number (adds : plan.task = .increment (.int amount))
    (without : store.get? plan.pv = none ∨ (∃ holds, store.get? plan.pv = some (.bool holds)) ∨
      ∃ chars, store.get? plan.pv = some (.text chars)) : (plan.work timing goal).Stuck store := by
  have fails : ∃ fault, (plan.work timing goal).written store = .error fault := by
    rw [Work.written, ActionPlan.step_of_increment adds]
    dsimp only
    by_cases answers : store.answers plan.pv = true
    · rw [Store.read, if_pos answers]
      rcases without with none | ⟨holds, found⟩ | ⟨chars, found⟩
      · rw [none]
        exact ⟨_, rfl⟩
      · rw [found]
        exact ⟨_, rfl⟩
      · rw [found]
        exact ⟨_, rfl⟩
    · rw [Store.read, if_neg answers]
      exact ⟨_, rfl⟩
  obtain ⟨fault, fails⟩ := fails
  exact Work.stuck_of_fault fails

end

/-- An increment whose check is about its own variable goes through the terms of its series. It
succeeds at the first of them that the check holds of, fails at the last one in range if the check
holds of none, and fails without a write where the variable holds no number. -/
theorem increment_ends (plan : ActionPlan) (goal : Option Check) (timing : Timing)
    (attempt : UInt64) (told : Bool) (store : Store) (beats : List Beat) (solo : Solo)
    (series : Series) (check : Check)
    (ran : solo = .after (plan.work timing goal) attempt told store beats)
    (adds : plan.task = .increment (.int series.amount)) (checks : plan.check? goal = some check)
    (own : check.pv = plan.pv) (answers : store.answers plan.pv = true) :
    (store.get? plan.pv = some (.int series.start) → told = false → .stop ∉ beats →
        .timedOut ∉ solo.conduct.record →
      (∃ count, series.Tally plan.pv count solo.store solo.writes) ∧
      (∀ first, series.Arrives check first → 2 * first + 2 ≤ beats.count .answer →
        solo.conduct.progress = .ended .success .completed ∧
          series.Tally plan.pv first solo.store solo.writes) ∧
      ∀ past, series.Overflows past → (∀ first, ¬series.Arrives check first) →
        2 * past + 1 ≤ beats.count .answer →
        solo.conduct.progress = .ended .failure .stepFailed ∧
          series.Tally plan.pv (past - 1) solo.store solo.writes) ∧
    ((store.get? plan.pv = none ∨ (∃ holds, store.get? plan.pv = some (.bool holds)) ∨
        ∃ chars, store.get? plan.pv = some (.text chars)) → check.holds store = false →
      (solo.store = store ∧ solo.writes = []) ∧
        (3 ≤ beats.count .answer →
          ∃ exit, solo.conduct.progress = .ended .failure exit ∧
            (told = false → .stop ∉ beats → .timedOut ∉ solo.conduct.record →
              exit = .stepFailed))) := by
  subst ran
  have independent : (plan.work timing goal).Independent :=
    ActionPlan.independent checks timing
  constructor
  · intro found untold unstopped timely
    subst untold
    have begins : store.read plan.pv = .ok (.int series.start) := by
      rw [Store.read, if_pos answers, found]
    obtain ⟨count, mounts⟩ :=
      mounts_unhindered adds checks own timing attempt answers begins unstopped timely
    refine ⟨⟨count, mounts.tally⟩, ?_, ?_⟩
    · intro first arrives enough
      obtain ⟨ended, rfl⟩ := mounts.arrives arrives enough
      exact ⟨ended, mounts.tally⟩
    · intro past overflows unreached enough
      obtain ⟨ended, rfl⟩ := mounts.overflows overflows unreached enough
      exact ⟨ended, mounts.tally⟩
  · intro without refused
    have stuck : (plan.work timing goal).Stuck store := stuck_without_number adds without
    have unmet : ¬(plan.work timing goal).IsMet store := by
      rw [ActionPlan.work_met_iff, checks]
      rintro ⟨_, ⟨⟩, holds⟩
      rw [Check.holds, holds] at refused
      cases refused
    exact ⟨(after_stuck independent unmet stuck attempt told beats).1,
      fails_when_stuck independent unmet stuck attempt told⟩

/-- A counter that knows when it is done. -/
def counting (amount : Int64) (done : Check) : ActionPlan where
  label := { name := "count" }
  pv := "counter"
  task := .increment (.int amount)
  termination := some { label := { name := "done" }, check := done }

/-- A counter arrives, one runs into the end of the range, and one has no number to add to. -/
theorem increment_ends_in_three_ways :
    ∃ (rising topping : Series) (reached never : Check) (low high text : Store) (beats : List Beat),
      (rising.Arrives reached 3 ∧
        ∃ solo : Solo, solo = .after ((counting rising.amount reached).work {} none) 1 false low
            beats ∧
          solo.conduct.progress = .ended .success .completed ∧
          rising.Tally "counter" 3 solo.store solo.writes) ∧
      (topping.Overflows 2 ∧ (∀ first, ¬topping.Arrives never first) ∧
        ∃ solo : Solo, solo = .after ((counting topping.amount never).work {} none) 1 false high
            beats ∧
          solo.conduct.progress = .ended .failure .stepFailed ∧
          topping.Tally "counter" 1 solo.store solo.writes) ∧
      ∃ solo : Solo, solo = .after ((counting rising.amount reached).work {} none) 1 false text
          beats ∧
        (solo.store = text ∧ solo.writes = []) ∧
        solo.conduct.progress = .ended .failure .stepFailed := by
  let rising : Series := { start := 0, amount := 2 }
  let topping : Series := { start := 9223372036854775804, amount := 2 }
  let reached : Check := { pv := "counter", operator := .ge, value := .int 5 }
  let never : Check := { pv := "counter", operator := .lt, value := .int 0 }
  let low : Store := .ofList [("counter", .int 0)]
  let high : Store := .ofList [("counter", .int 9223372036854775804)]
  let text : Store := .ofList [("counter", .text "none")]
  let beats : List Beat := List.replicate 8 .answer
  have arrives : rising.Arrives reached 3 := by
    refine ⟨⟨?_, by decide⟩, ?_⟩
    · intro past overflows
      by_contra early
      have fits : ∀ count ≤ 3, rising.Fits count := by decide
      exact overflows.1 (fits past (Nat.not_lt.mp early))
    · rintro count ⟨-, admits⟩
      by_contra early
      have refused : ∀ count < 3, ¬rising.Admits reached count := by decide
      exact refused count (Nat.not_le.mp early) admits
  have overflows : topping.Overflows 2 := by
    refine ⟨by decide, ?_⟩
    intro count leaves
    by_contra early
    have fits : ∀ count < 2, topping.Fits count := by decide
    exact leaves (fits count (Nat.not_le.mp early))
  have unreached : ∀ first, ¬topping.Arrives never first := by
    intro first arrives
    have refused : ∀ count < 2, ¬topping.Admits never count := by decide
    exact refused first (arrives.1.1 2 overflows) arrives.1.2
  refine ⟨rising, topping, reached, never, low, high, text, beats, ⟨arrives, ?_⟩,
    ⟨overflows, unreached, ?_⟩, ?_⟩
  · let solo : Solo := .after ((counting 2 reached).work {} none) 1 false low beats
    have counts := increment_ends (counting 2 reached) none {} 1 false low beats solo rising reached
      rfl rfl rfl rfl (by decide)
    obtain ⟨-, arriving, -⟩ := counts.1 rfl rfl (by decide) (by decide +kernel)
    exact ⟨solo, rfl, arriving 3 arrives (by decide)⟩
  · let solo : Solo := .after ((counting 2 never).work {} none) 1 false high beats
    have counts := increment_ends (counting 2 never) none {} 1 false high beats solo topping never
      rfl rfl rfl rfl (by decide)
    obtain ⟨-, -, overflowing⟩ := counts.1 rfl rfl (by decide) (by decide +kernel)
    exact ⟨solo, rfl, overflowing 2 overflows unreached (by decide)⟩
  · let solo : Solo := .after ((counting 2 reached).work {} none) 1 false text beats
    have fails := increment_ends (counting 2 reached) none {} 1 false text beats solo rising reached
      rfl rfl rfl rfl (by decide)
    obtain ⟨still, ends⟩ := fails.2 (.inr (.inr ⟨"none", rfl⟩)) (by decide)
    obtain ⟨exit, ended, exactly⟩ := ends (by decide)
    obtain rfl := exactly rfl (by decide) (by decide +kernel)
    exact ⟨solo, rfl, still, ended⟩

end Solo

end BehaviorTree
