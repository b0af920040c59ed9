import BehaviorTree.Proofs.Turns

/-!
Parallels. Every turn ticks all children, but for those that have succeeded in the cycle if the
parallel synchronises. Its answer depends on nothing but the latest answers of its children in the
cycle, and a failure outweighs every success.
-/

namespace BehaviorTree

namespace Node

/-- The last that a child answered in some turns. -/
def latest? (child : Nat) (turns : List Turn) : Option Status := (answersOf child turns).getLast?

theorem latest_append (child : Nat) (first second : List Turn) :
    latest? child (first ++ second) = (latest? child second).or (latest? child first) := by
  rw [latest?, answers_of_append, List.getLast?_append]
  rfl

/-- Whether the answers of that many children are successes enough for a parallel. -/
def Suffice (policy : ParallelPolicy) (count : Nat) (answers : Nat → Option Status) : Prop :=
  match policy with
  | .successOnAll => ∀ child < count, answers child = some .success
  | .successOnOne => ∃ child < count, answers child = some .success

theorem suffice_congr {policy : ParallelPolicy} {count : Nat} {answers others : Nat → Option Status}
    (alike : ∀ child < count, answers child = others child) :
    Suffice policy count answers ↔ Suffice policy count others := by
  cases policy with
  | successOnAll => exact forall₂_congr fun child inside => by rw [alike child inside]
  | successOnOne =>
      exact exists_congr fun child => and_congr_right fun inside => by rw [alike child inside]

/-! Verdicts. -/

section Verdict

variable {policy : ParallelPolicy} {answers : List Status}

theorem exists_answer_iff {status : Status} :
    (∃ child < answers.length, answers[child]? = some status) ↔ status ∈ answers := by
  rw [List.mem_iff_getElem?]
  constructor
  · rintro ⟨child, _, known⟩
    exact ⟨child, known⟩
  · rintro ⟨child, known⟩
    exact ⟨child, (List.getElem?_eq_some_iff.mp known).1, known⟩

/-- Whether a parallel with these answers succeeds if nobody has failed. -/
def succeeds (policy : ParallelPolicy) (answers : List Status) : Bool :=
  match policy with
  | .successOnAll => answers.all (· == .success)
  | .successOnOne => answers.contains .success

theorem succeeds_iff :
    succeeds policy answers = true ↔
      Suffice policy answers.length fun child => answers[child]? := by
  cases policy with
  | successOnOne =>
      rw [succeeds, List.contains_iff_mem, ← exists_answer_iff]
      rfl
  | successOnAll =>
      rw [succeeds, List.all_eq_true]
      constructor
      · intro all child inside
        dsimp only
        rw [List.getElem?_eq_getElem inside, beq_iff_eq.mp (all _ (List.getElem_mem inside))]
      · intro all answer member
        obtain ⟨child, known⟩ := List.mem_iff_getElem?.mp member
        have own := all child (List.getElem?_eq_some_iff.mp known).1
        dsimp only at own
        rw [known] at own
        exact beq_iff_eq.mpr (Option.some.inj own)

theorem verdict_eq : parallelVerdict policy answers =
    if .failure ∈ answers then .failure
    else if succeeds policy answers then .success else .running := by
  simp only [← List.contains_iff_mem]
  cases policy <;> rfl

theorem verdict_failure_iff : parallelVerdict policy answers = .failure ↔ .failure ∈ answers := by
  rw [verdict_eq]
  by_cases failed : .failure ∈ answers
  · rw [if_pos failed]
    exact iff_of_true rfl failed
  · rw [if_neg failed]
    refine iff_of_false ?_ failed
    split <;> simp

theorem verdict_success_iff : parallelVerdict policy answers = .success ↔
    .failure ∉ answers ∧ succeeds policy answers = true := by
  rw [verdict_eq]
  by_cases failed : .failure ∈ answers
  · simp [failed]
  · simp [failed]

theorem verdict_cases : parallelVerdict policy answers = .failure ∨
    parallelVerdict policy answers = .success ∨ parallelVerdict policy answers = .running := by
  rw [verdict_eq]
  split
  · exact .inl rfl
  · split
    · exact .inr (.inl rfl)
    · exact .inr (.inr rfl)

end Verdict

/-! Turns. -/

/-- A turn of a parallel that comes behind others of the same cycle: which children it ticks, and
how its answer comes from the latest answers. -/
structure Concert (policy : ParallelPolicy) (synchronise : Bool) (count : Nat)
    (earlier : List Turn) (turn : Turn) : Prop where
  places : turn.answers.map (·.1) = (List.range count).filter fun child =>
    !(synchronise && (answersOf child earlier).contains .success)
  result : ∃ answers : List Status, answers.length = count ∧
    (∀ child < count, latest? child (earlier ++ [turn]) = answers[child]?) ∧
    turn.result = parallelVerdict policy answers

variable (surroundings : Surroundings)

theorem gathered_answers (synchronise : Bool) (settled : List Bool) (children : List Node)
    (length : settled.length = children.length) :
    (gather surroundings synchronise settled children).answers =
      children.mapIdx fun index child =>
        if gatherTreatment synchronise settled index = .ticked then answer surroundings child
        else .success := by
  induction children generalizing settled with
  | nil => simp [gather]
  | cons child rest ih =>
      cases settled with
      | nil => simp at length
      | cons done settled =>
          have later := ih settled (Nat.succ.inj length)
          rw [gather, List.mapIdx_cons]
          simp only [gather_treatment_succ]
          rw [← later]
          split
          next resting => simp [gatherTreatment, resting]
          next working => simp [gatherTreatment, working, answer]

/-- What the flags of a parallel say about its cycle: who answered last that it had succeeded; and
with synchronisation that is the last word of who has ever succeeded. -/
structure Settled (synchronise : Bool) (count : Nat) (cycle : List Turn) (flags : List Bool) :
    Prop where
  length : flags.length = count
  flag : ∀ child < count, flags[child]? = some (decide (latest? child cycle = some .success))
  lasting : synchronise = true → ∀ child < count, .success ∈ answersOf child cycle →
    latest? child cycle = some .success

section Settled

variable {synchronise : Bool} {count : Nat} {cycle : List Turn} {flags : List Bool}
  (settled : Settled synchronise count cycle flags)

include settled

/-- A child rests if the parallel synchronises and the child has succeeded in the cycle. -/
theorem Settled.treatment {child : Nat} (inside : child < count) :
    gatherTreatment synchronise flags child =
      if synchronise && (answersOf child cycle).contains .success then .rested else .ticked := by
  rw [gatherTreatment, settled.flag child inside]
  dsimp only
  cases sync : synchronise with
  | false => rfl
  | true =>
      have same : latest? child cycle = some .success ↔ .success ∈ answersOf child cycle :=
        ⟨fun last => List.mem_of_getLast? last, settled.lasting sync child inside⟩
      simp only [Bool.true_and, decide_eq_true_iff, List.contains_iff_mem, same]

end Settled

section Next

variable {policy : ParallelPolicy} {synchronise : Bool} {count : Nat} {cycle : List Turn}
  {state : NodeState} {settled flags : List Bool} {children : List Node}
  (entry : (Rule.parallel policy synchronise settled).atEntry state.status =
    .parallel policy synchronise flags)
  (length : children.length = count) (before : Settled synchronise count cycle flags)

include entry in
theorem parallel_answers :
    (turn surroundings (.branch state (.parallel policy synchronise settled) children)).answers =
      answersBelow surroundings (gatherTreatment synchronise flags) 0 children := by
  rw [turn_branch, entry]
  rfl

include entry in
theorem parallel_answers_of (children : List Node) (child : Nat) :
    answersOf child
        [turn surroundings (.branch state (.parallel policy synchronise settled) children)] =
      match children[child]? with
      | none => []
      | some node =>
          if gatherTreatment synchronise flags child = .ticked then [answer surroundings node]
          else [] := by
  have below := answers_of_below surroundings (gatherTreatment synchronise flags) 0 child children
  rw [Nat.zero_add] at below
  rw [answers_of_single, parallel_answers surroundings entry]
  exact below

include length before

theorem Settled.gathered_length :
    (gather surroundings synchronise flags children).answers.length = count := by
  rw [gathered_answers surroundings synchronise flags children (before.length.trans length.symm),
    List.length_mapIdx, length]

include entry

/-- A child that is not ticked counts with the success that it has answered before. -/
theorem Settled.latest_next {child : Nat} (inside : child < count) :
    latest? child (cycle ++
        [turn surroundings (.branch state (.parallel policy synchronise settled) children)]) =
      (gather surroundings synchronise flags children).answers[child]? := by
  have own : children[child]? = some (children.get ⟨child, length ▸ inside⟩) :=
    List.getElem?_eq_getElem _
  rw [latest_append, latest?, parallel_answers_of surroundings entry, own,
    gathered_answers surroundings synchronise flags children (before.length.trans length.symm),
    List.getElem?_mapIdx, own, before.treatment inside]
  dsimp only
  split
  next resting =>
    rw [Bool.and_eq_true, List.contains_iff_mem] at resting
    rw [before.lasting resting.1 child inside resting.2]
    rfl
  next => rfl

theorem Settled.concert :
    Concert policy synchronise count cycle
      (turn surroundings (.branch state (.parallel policy synchronise settled) children)) where
  places := by
    rw [parallel_answers surroundings entry, places_below, length, ← List.range_eq_range']
    apply List.filter_congr
    intro child member
    rw [before.treatment (List.mem_range.mp member)]
    cases synchronise && (answersOf child cycle).contains .success <;> rfl
  result := by
    refine ⟨(gather surroundings synchronise flags children).answers, ?_, ?_, ?_⟩
    · exact before.gathered_length surroundings length
    · exact fun child inside => before.latest_next surroundings entry length inside
    · rw [turn_result, answer_branch, entry]
      rfl

theorem Settled.flags_next :
    Settled synchronise count
      (cycle ++
        [turn surroundings (.branch state (.parallel policy synchronise settled) children)])
      ((gather surroundings synchronise flags children).answers.map (· == .success)) where
  length := (List.length_map _).trans (before.gathered_length surroundings length)
  flag child inside := by
    have bound := inside
    rw [← before.gathered_length surroundings length] at bound
    rw [before.latest_next surroundings entry length inside, List.getElem?_map,
      List.getElem?_eq_getElem bound, Option.map_some]
    congr 1
    rw [Bool.eq_iff_iff, beq_iff_eq, decide_eq_true_iff, Option.some.injEq]
  lasting sync child inside member := by
    have own : children[child]? = some (children.get ⟨child, length ▸ inside⟩) :=
      List.getElem?_eq_getElem _
    subst sync
    have next := parallel_answers_of surroundings entry children child
    rw [own, before.treatment inside, Bool.true_and] at next
    rw [answers_of_append, List.mem_append] at member
    rw [latest_append]
    by_cases succeeded : .success ∈ answersOf child cycle
    · rw [if_pos (List.contains_iff_mem.mpr succeeded)] at next
      rw [latest?, next, before.lasting rfl child inside succeeded]
      rfl
    · rw [if_neg (mt List.contains_iff_mem.mp succeeded)] at next
      rcases member with early | late
      · exact absurd early succeeded
      · rw [latest?]
        rw [next] at late ⊢
        dsimp only at late ⊢
        rw [if_pos rfl, List.mem_singleton] at late
        rw [← late]
        rfl

end Next

/-! Runs. -/

/-- A parallel and the cycle it is in: as long as it is running its flags tell what the children
answered in the cycle, and once it has answered otherwise none of them is running. -/
structure Abreast (policy : ParallelPolicy) (synchronise : Bool) (count : Nat)
    (cycle : List Turn) (node : Node) : Prop where
  concerts : ∀ earlier turn later, cycle = earlier ++ turn :: later →
    Concert policy synchronise count earlier turn
  quiet : ∀ last, cycle.getLast? = some last → last.result ≠ .running →
    ∀ child ∈ node.children, child.status ≠ .running
  branch : ∃ state settled children,
    node = .branch state (.parallel policy synchronise settled) children ∧
    children.length = count ∧ settled.length = count ∧
    (state.status = .running → Settled synchronise count cycle settled)

variable {policy : ParallelPolicy} {synchronise : Bool} {count : Nat} {cycle : List Turn}

theorem settled_anew {settled : List Bool} (length : settled.length = count) :
    Settled synchronise count [] (settled.map fun _ => false) where
  length := (List.length_map _).trans length
  flag child inside := by
    rw [List.getElem?_map, List.getElem?_eq_getElem (length ▸ inside)]
    rfl
  lasting _ child _ member := by simp [answersOf] at member

/-- With which flags a parallel goes into a turn, and which turns of the cycle they tell of. -/
theorem Abreast.entry {state : NodeState} {settled : List Bool} {children : List Node}
    (abreast : Abreast policy synchronise count cycle
      (.branch state (.parallel policy synchronise settled) children)) :
    ∃ before flags, Turn.follow cycle
        (turn surroundings (.branch state (.parallel policy synchronise settled) children)) =
        before ++
          [turn surroundings (.branch state (.parallel policy synchronise settled) children)] ∧
      (∀ earlier turn later, before = earlier ++ turn :: later →
        Concert policy synchronise count earlier turn) ∧
      Settled synchronise count before flags ∧
      (Rule.parallel policy synchronise settled).atEntry state.status =
        .parallel policy synchronise flags := by
  obtain ⟨concerts, _, _, _, _, same, _, length, running⟩ := abreast
  cases same
  by_cases goes : state.status = .running
  · refine ⟨cycle, settled, ?_, concerts, running goes, ?_⟩
    · simp [Turn.follow, status, Node.state, goes]
    · rw [Rule.atEntry, if_pos goes]
  · refine ⟨[], settled.map fun _ => false, ?_, ?_, settled_anew length, ?_⟩
    · simp [Turn.follow, status, Node.state, goes]
    · intro earlier turn later same
      simp at same
    · rw [Rule.atEntry, if_neg goes]
      rfl

theorem concluded_parallel (answer : Status) (policy : ParallelPolicy) (synchronise : Bool)
    (flags : List Bool) :
    concludedRule answer (.parallel policy synchronise flags) =
      .parallel policy synchronise flags := by
  unfold concludedRule
  split <;> rfl

theorem tick_parallel {state : NodeState} {settled flags : List Bool} {children : List Node}
    (entry : (Rule.parallel policy synchronise settled).atEntry state.status =
      .parallel policy synchronise flags) :
    ∃ after rows,
      (Node.tick surroundings
        (.branch state (.parallel policy synchronise settled) children)).node =
        .branch after (.parallel policy synchronise
          ((gather surroundings synchronise flags children).answers.map (· == .success))) rows ∧
      rows.length = children.length := by
  have ticked : (Node.tick surroundings
      (.branch state (.parallel policy synchronise settled) children)).node =
        (conclude state (decideParallel policy synchronise
          (gather surroundings synchronise flags children))).node := by
    rw [tick_branch, entry]
    rfl
  have length :=
    tick_children_length surroundings state (.parallel policy synchronise settled) children
  rw [ticked, conclude_node] at length ⊢
  exact ⟨_, _, congrArg (Node.branch _ · _) (concluded_parallel _ policy synchronise _), length⟩

theorem Abreast.follow {node : Node} (abreast : Abreast policy synchronise count cycle node) :
    Abreast policy synchronise count (Turn.follow cycle (turn surroundings node))
      (Node.tick surroundings node).node := by
  obtain ⟨state, settled, children, rfl, length, _⟩ := abreast.branch
  obtain ⟨before, flags, follows, concerts, now, entry⟩ := abreast.entry surroundings
  obtain ⟨after, rows, ticked, kept⟩ := tick_parallel surroundings entry
  have next := now.flags_next surroundings entry length
  rw [follows]
  refine ⟨?_, ?_, after, _, rows, ticked, kept.trans length, next.length, fun _ => next⟩
  · intro earlier each later same
    rcases split_snoc same with ⟨rfl, rfl, rfl⟩ | ⟨middle, _, front⟩
    · exact now.concert surroundings entry length
    · exact concerts earlier each middle front
  · intro last known ended
    rw [List.getLast?_concat] at known
    cases known
    exact quiet_after_tick surroundings ended

theorem abreast_kept (policy : ParallelPolicy) (synchronise : Bool) (count : Nat) :
    Kept (Abreast policy synchronise count) where
  ticked surroundings _ _ abreast := abreast.follow surroundings
  halted cycle node abreast := by
    obtain ⟨concerts, quiet, state, settled, children, rfl, length, flags, running⟩ := abreast
    have rule : haltedRule state.status (.parallel policy synchronise settled) =
        .parallel policy synchronise settled := by
      unfold haltedRule
      split <;> rfl
    rw [halt_branch, rule]
    refine ⟨concerts, fun _ _ _ child member => ?_, { state with status := .invalid }, settled,
      children.map (·.halt.node), rfl, (List.length_map _).trans length, flags, ?_⟩
    · obtain ⟨before, _, rfl⟩ := List.mem_map.mp member
      rw [halt_status]
      decide
    · intro impossible
      cases impossible
  aside cycle node other same abreast := by
    obtain ⟨concerts, quiet, state, settled, children, rfl, length, flags, running⟩ := abreast
    obtain ⟨after, rows, rfl, shown, statuses⟩ := branch_of_skeleton same
    refine ⟨concerts, fun last known ended child member => ?_, after, settled, rows, rfl, ?_,
      flags, ?_⟩
    · have own : child.status ∈ rows.map status := List.mem_map_of_mem member
      rw [statuses] at own
      obtain ⟨twin, inside, alike⟩ := List.mem_map.mp own
      rw [← alike]
      exact quiet last known ended twin inside
    · exact (length_of_same statuses).trans length
    · rwa [shown]

/-- In every run of a tree the turns of a parallel tick its children in order, all of them but
those that have succeeded in the cycle if it synchronises. It fails if the latest answer of any
child in the cycle is a failure, succeeds if nobody failed and enough of them are successes, and
goes on running otherwise; and once it has ended no child is running. -/
theorem parallel_answers_by_cycle {root : Node} {path : Path} {state : NodeState}
    {policy : ParallelPolicy} {synchronise : Bool} {children : List Node}
    (found : root.at? path = some (.parallel state policy synchronise children))
    (resting : state.status ≠ .running) (moves : List Move) :
    (∀ earlier turn later, root.cycle path moves = earlier ++ turn :: later →
      let latest := fun child => latest? child (earlier ++ [turn])
      (turn.entered = true ↔ earlier = []) ∧ (later ≠ [] → turn.result = .running) ∧
      turn.answers.map (·.1) = (List.range children.length).filter (fun child =>
        !(synchronise && (answersOf child earlier).contains .success)) ∧
      (∀ child < children.length, (latest child).isSome) ∧
      (turn.result = .failure ↔ ∃ child < children.length, latest child = some .failure) ∧
      (turn.result = .success ↔ (¬ ∃ child < children.length, latest child = some .failure) ∧
        Suffice policy children.length latest) ∧
      (turn.result = .failure ∨ turn.result = .success ∨ turn.result = .running)) ∧
    (∃ now settled rows,
      (root.after moves).at? path =
        some (.branch now (.parallel policy synchronise settled) rows) ∧
      rows.length = children.length ∧
      ∀ last, (root.cycle path moves).getLast? = some last → last.result ≠ .running →
        ∀ child ∈ rows, child.status ≠ .running) ∧
    (∀ surroundings now, (root.after moves).at? path = some now → now.status ≠ .running →
      visited surroundings path (root.after moves) = true →
        ∃ turn, turnAt? path (trail surroundings (root.after moves)) = some turn ∧
          root.cycle path (moves ++ [.tick surroundings]) = [turn] ∧
          turn.answers.map (·.1) = List.range children.length) := by
  have start : Abreast policy synchronise children.length []
      (.parallel state policy synchronise children) := by
    refine ⟨?_, ?_, state, _, children, rfl, rfl, List.length_map _,
      fun running => absurd running resting⟩
    · intro earlier turn later same
      simp at same
    · intro last none
      cases none
  have kept := cyclic_kept.and (abreast_kept policy synchronise children.length)
  have holds := fun moves => kept.after found ⟨cyclic_at_rest resting, start⟩ moves
  obtain ⟨now, known, cyclic, concerts, quiet, shown, settled, rows, rfl, length, _⟩ := holds moves
  refine ⟨?_, ⟨shown, settled, rows, known, length, quiet⟩, ?_⟩
  · intro earlier turn later same
    obtain ⟨entered, going⟩ := cyclic.turns earlier turn later same
    obtain ⟨places, answers, count, latest, result⟩ := concerts earlier turn later same
    have failures : (∃ child < children.length,
        latest? child (earlier ++ [turn]) = some .failure) ↔ .failure ∈ answers := by
      rw [← exists_answer_iff, count]
      exact exists_congr fun child => and_congr_right fun inside => by rw [latest child inside]
    dsimp only
    rw [failures, suffice_congr latest, result]
    refine ⟨entered, result ▸ going, places, ?_, verdict_failure_iff, ?_, verdict_cases⟩
    · intro child inside
      rw [latest child inside, List.getElem?_eq_getElem (count ▸ inside)]
      rfl
    · rw [verdict_success_iff, succeeds_iff, count]
  · intro surroundings now before rested seen
    cases known.symm.trans before
    obtain ⟨_, _, _, ahead, _⟩ := holds (moves ++ [.tick surroundings])
    have anew := cycle_anew surroundings known rested seen
    refine ⟨_, ?_, anew, ?_⟩
    · rw [turn_at surroundings known, if_pos seen]
    · rw [(ahead [] _ [] anew).places, List.filter_eq_self]
      intro child _
      simp [answersOf]

/-- The first child succeeds at once and rests until the second has caught up; entered anew, it
fails. -/
def sounding : Node :=
  .parallel { name := "sounding" } .successOnAll true
    [.leaf { name := "depth" } (.scripted .action [.success, .failure] none),
      .leaf { name := "draught" } (.scripted .action [.running, .success] none)]

def soundings : List Move := [.tick ⟨0, {}⟩, .tick ⟨1, {}⟩, .tick ⟨2, {}⟩]

theorem sounding_answers_by_cycle :
    (∃ state children, sounding.at? [] =
      some (.parallel state .successOnAll true children) ∧ state.status ≠ .running) ∧
    (turns [] sounding soundings).map (fun turn => (turn.answers, turn.result)) =
      [([(0, .success), (1, .running)], .running), ([(1, .success)], .success),
        ([(0, .failure), (1, .success)], .failure)] ∧
    ∃ turn, sounding.cycle [] soundings = [turn] ∧ turn.answers.map (·.1) = [0, 1] ∧
      (turn.result = .failure ↔ ∃ child < 2, latest? child [turn] = some .failure) := by
  have once : sounding.cycle [] soundings =
      [⟨true, [(0, .failure), (1, .success)], .failure⟩] := by decide
  refine ⟨⟨_, _, rfl, by decide⟩, by decide, _, once, rfl, ?_⟩
  have answers := @parallel_answers_by_cycle sounding [] { name := "sounding" } .successOnAll true
    _ rfl (by decide) soundings
  obtain ⟨_, _, _, _, failed, _⟩ := answers.1 [] _ [] once
  exact failed

end Node

end BehaviorTree
