import BehaviorTree.CommandLine
import BehaviorTree.Proofs.Prompting
import BehaviorTree.Proofs.Settling

/-!
Interactive runs. Whoever runs a tree by hand releases a tick by every line of the input, waits for
it and is shown the report, until a farewell or the end of the input; meanwhile the drive and the
workers go on in any way. What is shown is what the ticks left, and in the end the last of it.
-/

namespace BehaviorTree

namespace Service

/-- An order about a tree is given, taken up and granted; before, in between and afterwards anything
may happen. -/
inductive Exchange (id : TreeId) (instruction : Instruction) (before : Service) :
    List Moment → Reply → Service → Prop
  | of (early middle late : List Happening) {taken answered : Service} {reply : Reply}
      (takes : (before.undergoAll early).1.meet (.order (.instruct id instruction)) =
        some (taken, [.taken id instruction]))
      (answers : (taken.undergoAll middle).1.meet .answer =
        some (answered, [.answered (.instruct id instruction) (.ok reply)])) :
      Exchange id instruction before
        (early.map .happening ++ .order (.instruct id instruction) :: (middle.map .happening ++
          .answer :: late.map .happening)) reply (answered.undergoAll late).1

/-- How many ticks of a tree are shown. -/
def ticksShown (service : Service) (id : TreeId) : Nat :=
  ((service.manager.list.find? (·.id = id)).map (·.ticks)).getD 0

end Service

open CommandLine.Session (isFarewell)

/-- Every line but a farewell has one step released and its tick waited for, and the report is shown
then. -/
inductive Dialogue (id : TreeId) :
    Service → List String → List Moment → List Report → Service → Prop
  | ends {service : Service} {lines : List String}
      (farewell : ∀ line ∈ lines.head?, isFarewell line = true) :
      Dialogue id service lines [] [] service
  | steps {service ticked last : Service} {line : String} {rest : List String}
      {first more : List Moment} {report : Report} {reports : List Report}
      (goesOn : isFarewell line = false)
      (exchange : service.Exchange id .step first .done ticked)
      (waited : service.ticksShown id < ticked.ticksShown id)
      (shown : ticked.manager.report id = .ok report)
      (onward : Dialogue id ticked rest more reports last) :
      Dialogue id service (line :: rest) (first ++ more) (report :: reports) last

/-- A drive of a tree is started, has a dialogue and is stopped, and its last status and report are
shown. -/
inductive Sitting (id : TreeId) (before : Service) (lines : List String) :
    List Moment → List Report → Sight → Prop
  | of {begun left ended : Service} {opening course closing : List Moment}
      {reports : List Report} {status : Status} {report : Report}
      (starts : before.Exchange id (.start .interactive) opening .done begun)
      (talks : Dialogue id begun lines course reports left)
      (stops : left.Exchange id .stop closing (.status status) ended)
      (shown : ended.manager.report id = .ok report) :
      Sitting id before lines (opening ++ course ++ closing) reports (status, report)

namespace Service

open Entry Manager

variable {before after : Service} {id : TreeId} {moments : List Moment} {reply : Reply}
  {instruction : Instruction} {phase : Phase} {count : Nat} {sight : Sight}

theorem list_find (manager : Manager) (id : TreeId) :
    manager.list.find? (·.id = id) = (manager.tree? id).map (·.summary) := by
  rw [list, List.find?_map]
  rfl

theorem Poised.shown (poised : before.Poised id phase count sight) :
    before.ticksShown id = count := by
  obtain ⟨tree, found, -, counted, -⟩ := poised.there
  rw [ticksShown, list_find, found]
  exact counted

theorem Poised.report (poised : before.Poised id phase count sight) :
    before.manager.report id = .ok sight.2 := by
  obtain ⟨tree, found, -, -, seen⟩ := poised.there
  rw [Manager.report, found, ← seen]
  rfl

/-! Exchanges. -/

/-- The stages of an exchange, with the ticks to see before, in between and afterwards. -/
theorem Exchange.parts (exchange : before.Exchange id instruction moments reply after) :
    ∃ ready taken waited answered early middle late, Passes id before ready early ∧
      ready.meet (.order (.instruct id instruction)) = some (taken, [.taken id instruction]) ∧
      Passes id taken waited middle ∧
      waited.meet .answer =
        some (answered, [.answered (.instruct id instruction) (.ok reply)]) ∧
      Passes id answered after late ∧
      before.sights id moments = early ++ (middle ++ late) := by
  obtain ⟨early, middle, late, takes, answers⟩ := exchange
  refine ⟨_, _, _, _, _, _, _, passes_undergo_all id before early, takes,
    passes_undergo_all id _ middle, answers, passes_undergo_all id _ late, ?_⟩
  rw [sights_append (run_happenings before early), sights_met takes,
    sights_append (run_happenings _ middle), sights_met answers]
  rfl

/-- An exchange is a run. -/
theorem Exchange.runs (exchange : before.Exchange id instruction moments reply after) :
    ∃ chronicle, before.run moments = some (after, chronicle) := by
  obtain ⟨early, middle, late, takes, answers⟩ := exchange
  have taking := run_then (run_happenings before early) (run_one takes)
  have answering := run_then (run_happenings _ middle) (run_one answers)
  have whole := run_then taking (run_then answering (run_happenings _ late))
  simp only [List.append_assoc, List.singleton_append] at whole
  exact ⟨_, whole⟩

/-- After an exchange nothing is pending. -/
theorem Exchange.idle (exchange : before.Exchange id instruction moments reply after) :
    after.pending = none := by
  obtain ⟨early, middle, late, takes, answers⟩ := exchange
  obtain ⟨_, _, _, _, -, -, rfl, -⟩ := meet_answer_eq_some.mp answers
  exact (undergo_all_quiet _ late).1

/-- To grant a start or a step changes nothing about the tree. -/
theorem answer_same {waited answered : Service}
    (answers : waited.meet .answer =
      some (answered, [.answered (.instruct id instruction) (.ok reply)]))
    (kept : instruction = .start .interactive ∨ instruction = .step) :
    Passes id waited answered [] := by
  apply passes_same
  obtain ⟨other, given, manager, response, -, concluded, rfl, entries⟩ :=
    meet_answer_eq_some.mp answers
  cases entries
  rcases kept with rfl | rfl
  · cases concluded
    exact tree_announce ..
  · cases concluded
    exact tree_announce ..

theorem Exchange.of_start (poised : before.Poised id phase count sight) (paid : phase.owed = 0)
    (exchange : before.Exchange id (.start .interactive) moments reply after) :
    before.sights id moments = [] ∧ after.Poised id .waiting count sight := by
  obtain ⟨ready, taken, waited, answered, early, middle, late, first, takes, second, answers, third,
    seen⟩ := exchange.parts
  obtain ⟨rfl, next, prepared, -, -⟩ := first.unowed poised paid
  obtain ⟨none, onward⟩ :=
    ((second.trans (answer_same answers (.inl rfl))).trans third).waiting (prepared.started takes)
  rw [List.append_nil] at none
  rw [seen, none]
  exact ⟨rfl, onward⟩

/-- A step that is granted comes to one tick; it has come to it once there is one more to see. -/
theorem Exchange.of_step (poised : before.Poised id .waiting count sight)
    (exchange : before.Exchange id .step moments reply after)
    (waited : before.ticksShown id < after.ticksShown id) :
    ∃ seen, before.sights id moments = [seen] ∧ after.Poised id .waiting (count + 1) seen := by
  obtain ⟨ready, taken, waiting, answered, early, middle, late, first, takes, second, answers,
    third, seen⟩ := exchange.parts
  obtain ⟨rfl, prepared⟩ := first.waiting poised
  obtain ⟨next, onward, ticked, opened⟩ :=
    ((second.trans (answer_same answers (.inr rfl))).trans third) _ _ _ (prepared.prompted takes)
  rw [List.append_nil] at onward ticked
  rw [poised.shown, onward.shown] at waited
  have one : (middle ++ late).length = 1 := by
    have owed : (middle ++ late).length + next.owed = 1 := ticked
    omega
  obtain ⟨last, same⟩ := List.length_eq_one_iff.mp one
  rw [same] at onward ticked
  have paid : next.owed = 0 := by
    have owed : 1 + next.owed = 1 := ticked
    omega
  cases Phase.waiting_of_open opened paid
  exact ⟨last, by rw [seen, same]; rfl, onward⟩

/-- A stop that is granted is answered with the last status, and there is no tick any more. -/
theorem Exchange.of_stop (poised : before.Poised id .waiting count sight)
    (exchange : before.Exchange id .stop moments reply after) :
    before.sights id moments = [] ∧ reply = .status sight.1 ∧
      ∃ next, after.Poised id next count sight := by
  obtain ⟨ready, taken, waited, answered, early, middle, late, first, takes, second, answers, third,
    seen⟩ := exchange.parts
  obtain ⟨rfl, prepared⟩ := first.waiting poised
  obtain ⟨rfl, next, ending, -⟩ := second.unowed (prepared.stopped takes) rfl
  obtain ⟨answer, released⟩ := ending.released answers
  obtain ⟨rfl, last, onward, -⟩ := third.unowed released rfl
  exact ⟨seen, answer, last, onward⟩

end Service

/-! Dialogues. -/

namespace Dialogue

open Service Manager

variable {id : TreeId} {service last : Service} {lines : List String} {moments : List Moment}
  {reports : List Report} {count : Nat} {sight : Sight}

theorem runs (talks : Dialogue id service lines moments reports last) :
    ∃ chronicle, service.run moments = some (last, chronicle) := by
  induction talks with
  | ends => exact ⟨[], rfl⟩
  | steps _ exchange _ _ _ ih =>
      obtain ⟨first, ran⟩ := exchange.runs
      obtain ⟨more, onward⟩ := ih
      exact ⟨_, run_then ran onward⟩

theorem idle (talks : Dialogue id service lines moments reports last)
    (before : service.pending = none) : last.pending = none := by
  induction talks with
  | ends => exact before
  | steps _ exchange _ _ _ ih => exact ih exchange.idle

/-- A dialogue shows what its ticks left, one for each line up to the farewell. -/
theorem sights (poised : service.Poised id .waiting count sight)
    (talks : Dialogue id service lines moments reports last) :
    (service.sights id moments).map (·.2) = reports ∧
      (service.sights id moments).length = (lines.takeWhile (!isFarewell ·)).length ∧
      ∃ total, last.Poised id .waiting total ((service.sights id moments).getLastD sight) := by
  induction talks generalizing count sight with
  | @ends service lines farewell =>
      refine ⟨rfl, ?_, count, poised⟩
      cases lines with
      | nil => rfl
      | cons line rest =>
          have said := farewell line (by simp)
          simp [sights, said]
  | @steps service ticked last line rest first more report reports goesOn exchange waited shown
      onward ih =>
      obtain ⟨seen, one, next⟩ := exchange.of_step poised waited
      obtain ⟨first, ran⟩ := exchange.runs
      obtain ⟨told, counted, total, ended⟩ := ih next
      cases next.report.symm.trans shown
      rw [sights_append ran, one]
      refine ⟨?_, ?_, total, ?_⟩
      · rw [List.map_append, told]
        rfl
      · simp [goesOn, counted]
      · rwa [last_of_append]

end Dialogue

/-- A whole sitting shows what its ticks left, and in the end the last of it, or what there was to
see before if there was no tick. -/
theorem Sitting.sights {id : TreeId} {before : Service} {lines : List String}
    {moments : List Moment} {reports : List Report} {final sight : Sight} {phase : Phase}
    {count : Nat} (poised : before.Poised id phase count sight) (paid : phase.owed = 0)
    (sits : Sitting id before lines moments reports final) :
    reports = (before.sights id moments).map (·.2) ∧
      (before.sights id moments).length = (lines.takeWhile (!isFarewell ·)).length ∧
      final = (before.sights id moments).getLastD sight := by
  obtain ⟨starts, talks, stops, shown⟩ := sits
  obtain ⟨unticked, begun⟩ := starts.of_start poised paid
  obtain ⟨told, counted, total, left⟩ := talks.sights begun
  obtain ⟨still, answer, next, ended⟩ := stops.of_stop left
  obtain ⟨_, opened⟩ := starts.runs
  obtain ⟨_, talked⟩ := talks.runs
  cases answer
  cases ended.report.symm.trans shown
  rw [Service.sights_append (Manager.run_then opened talked), Service.sights_append opened,
    unticked, still, List.nil_append, List.append_nil]
  exact ⟨told.symm, counted, rfl⟩

end BehaviorTree
