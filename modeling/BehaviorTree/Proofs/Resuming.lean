import BehaviorTree.Proofs.Turns

/-!
Rows with memory. In a cycle such a row walks along its children, one stretch in every turn: past
those that answer as it needs to go on, up to the first that answers otherwise. The next stretch
starts at that child, so every child behind the row has answered in its favour once, at the end of
what it answered in the cycle; and a row that was passed through, held up or halted starts anew.
-/

namespace BehaviorTree.Node

/-- The children that answered as a row needs to go on, in the order in which they did. -/
def passers (flow : Flow) (turns : List Turn) : List Nat :=
  ((turns.flatMap (·.answers)).filter (·.2 == flow.onward)).map (·.1)

theorem passers_append (flow : Flow) (first second : List Turn) :
    passers flow (first ++ second) = passers flow first ++ passers flow second := by
  rw [passers, List.flatMap_append, List.filter_append, List.map_append]
  rfl

theorem passers_single (flow : Flow) (turn : Turn) :
    passers flow [turn] = (turn.answers.filter (·.2 == flow.onward)).map (·.1) := by
  rw [passers, List.flatMap_singleton]

/-- A turn that starts at a child, passes some and is decided by another one, if it does not come
to the end of the row. -/
structure Stretch (flow : Flow) (count start passed : Nat) (verdict : Option Status)
    (turn : Turn) : Prop where
  answers : turn.answers = (List.range' start passed).map (fun index => (index, flow.onward)) ++
    (verdict.map fun answer => (start + passed, answer)).toList
  result : turn.result = verdict.getD flow.onward
  through : verdict = none → start + passed = count
  held : ∀ answer, verdict = some answer → answer ≠ flow.onward ∧ start + passed < count

section Stretch

variable {flow : Flow} {count start passed : Nat} {verdict : Option Status} {turn : Turn}
  (stretch : Stretch flow count start passed verdict turn)

include stretch

theorem Stretch.passers_eq : passers flow [turn] = List.range' start passed := by
  have walked : ((List.range' start passed).map fun index => (index, flow.onward)).filter
      (·.2 == flow.onward) = (List.range' start passed).map fun index => (index, flow.onward) := by
    apply List.filter_eq_self.mpr
    intro answer member
    obtain ⟨index, _, rfl⟩ := List.mem_map.mp member
    exact beq_self_eq_true _
  have decided : (verdict.map fun answer => (start + passed, answer)).toList.filter
      (·.2 == flow.onward) = [] := by
    cases known : verdict with
    | none => rfl
    | some answer => simp [(stretch.held answer known).1]
  rw [passers_single, stretch.answers, List.filter_append, walked, decided, List.append_nil,
    List.map_map]
  exact List.map_id _

/-- The children of a turn follow each other from where it starts. -/
theorem Stretch.places :
    turn.answers.map (·.1) = List.range' start turn.answers.length := by
  rw [stretch.answers, List.map_append, List.map_map]
  cases verdict with
  | none => simp [Function.comp_def]
  | some answer => simp [Function.comp_def, List.range'_concat]

theorem Stretch.within : start + passed ≤ count := by
  cases known : verdict with
  | none => exact Nat.le_of_eq (stretch.through known)
  | some answer => exact Nat.le_of_lt (stretch.held answer known).2

/-- A row answers as it needs to go on when it has come to its end, and only then. -/
theorem Stretch.result_onward_iff : turn.result = flow.onward ↔ start + passed = count := by
  rw [stretch.result]
  cases known : verdict with
  | none => exact iff_of_true rfl (stretch.through known)
  | some answer =>
      obtain ⟨other, inside⟩ := stretch.held answer known
      exact iff_of_false other (Nat.ne_of_lt inside)

/-- Otherwise it answers what the child answered that decides the turn. -/
theorem Stretch.decided (other : turn.result ≠ flow.onward) :
    turn.answers.getLast?.map (·.2) = some turn.result := by
  rw [stretch.result] at other ⊢
  rw [stretch.answers]
  cases verdict with
  | none => exact absurd rfl other
  | some answer => simp

theorem Stretch.answers_ne_nil (inside : start < count) : turn.answers ≠ [] := by
  rw [stretch.answers]
  cases known : verdict with
  | none =>
      have ended := stretch.through known
      obtain ⟨passed, rfl⟩ : ∃ before, passed = before + 1 := ⟨passed - 1, by omega⟩
      simp [List.range'_succ]
  | some answer => simp

omit stretch in
theorem answers_of_walked (child : Nat) (answer : Status) (start passed : Nat) :
    ((List.range' start passed).map fun index => (index, answer)).filterMap
        (fun known => if known.1 = child then some known.2 else none) =
      if start ≤ child ∧ child < start + passed then [answer] else [] := by
  induction passed generalizing start with
  | zero => rw [if_neg (by omega), List.range'_zero, List.map_nil, List.filterMap_nil]
  | succ passed ih =>
      rw [List.range'_succ, List.map_cons, List.filterMap_cons, ih]
      by_cases here : start = child
      · rw [if_pos here, if_neg (by omega), if_pos (by omega)]
      · have same : start + 1 ≤ child ∧ child < start + 1 + passed ↔
            start ≤ child ∧ child < start + (passed + 1) := by omega
        simp only [if_neg here, same]

/-- In a stretch a child is passed, or decides it, or is not ticked. -/
theorem Stretch.answers_of_child (child : Nat) :
    answersOf child [turn] =
      (if start ≤ child ∧ child < start + passed then [flow.onward] else []) ++
        if child = start + passed then verdict.toList else [] := by
  rw [answers_of_single, stretch.answers, List.filterMap_append, answers_of_walked]
  congr 1
  cases verdict with
  | none => simp
  | some answer =>
      by_cases here : child = start + passed
      · simp [here]
      · simp [here, Ne.symm here]

end Stretch

/-! Cycles. -/

/-- Every turn is a stretch that starts behind the children passed before. -/
def Stretches (flow : Flow) (count : Nat) (cycle : List Turn) : Prop :=
  ∀ earlier turn later, cycle = earlier ++ turn :: later →
    ∃ passed verdict, Stretch flow count (passers flow earlier).length passed verdict turn

section Stretches

variable {flow : Flow} {count : Nat} {cycle : List Turn} {turn : Turn}

theorem stretches_nil : Stretches flow count [] := by
  intro earlier turn later same
  simp at same

theorem Stretches.last (stretches : Stretches flow count (cycle ++ [turn])) :
    ∃ passed verdict, Stretch flow count (passers flow cycle).length passed verdict turn :=
  stretches cycle turn [] rfl

theorem Stretches.front {more : List Turn} (stretches : Stretches flow count (cycle ++ more)) :
    Stretches flow count cycle := by
  rintro earlier each later rfl
  apply stretches earlier each (later ++ more)
  rw [List.append_assoc, List.cons_append]

theorem Stretches.snoc (stretches : Stretches flow count cycle) {passed : Nat}
    {verdict : Option Status}
    (stretch : Stretch flow count (passers flow cycle).length passed verdict turn) :
    Stretches flow count (cycle ++ [turn]) := by
  intro earlier each later same
  rcases split_snoc same with ⟨rfl, rfl, rfl⟩ | ⟨middle, _, before⟩
  · exact ⟨passed, verdict, stretch⟩
  · exact stretches earlier each middle before

/-- The children are passed in their order, from the first on. -/
theorem Stretches.passers_eq (stretches : Stretches flow count cycle) :
    passers flow cycle = List.range (passers flow cycle).length := by
  induction cycle using List.reverseRecOn with
  | nil => rfl
  | append_singleton earlier turn ih =>
      obtain ⟨passed, verdict, stretch⟩ := stretches.last
      have before := ih stretches.front
      rw [passers_append, stretch.passers_eq, List.length_append, List.length_range']
      generalize (passers flow earlier).length = count at before ⊢
      rw [before, List.range_eq_range', List.range_eq_range', ← List.range'_append_1,
        Nat.zero_add]

theorem Stretches.result_onward_iff (stretches : Stretches flow count (cycle ++ [turn])) :
    turn.result = flow.onward ↔ passers flow (cycle ++ [turn]) = List.range count := by
  obtain ⟨passed, verdict, stretch⟩ := stretches.last
  have length : (passers flow (cycle ++ [turn])).length =
      (passers flow cycle).length + passed := by
    rw [passers_append, stretch.passers_eq, List.length_append, List.length_range']
  rw [stretch.result_onward_iff, ← length, stretches.passers_eq, List.length_range]
  constructor
  · intro same
    rw [same]
  · intro same
    simpa using congrArg List.length same

/-- As long as the cycle goes on, a child has answered that it is running, some times, and then in
favour of the row if the row has passed it. -/
theorem Stretches.answers_going (stretches : Stretches flow count cycle)
    (going : ∀ turn ∈ cycle, turn.result = .running) (child : Nat) :
    ∃ before, answersOf child cycle = List.replicate before .running ++
        (if child < (passers flow cycle).length then [flow.onward] else []) ∧
      ((passers flow cycle).length < child → before = 0) := by
  induction cycle using List.reverseRecOn with
  | nil => exact ⟨0, by simp [answersOf, passers], fun _ => rfl⟩
  | append_singleton earlier turn ih =>
      obtain ⟨passed, verdict, stretch⟩ := stretches.last
      obtain ⟨before, known, untouched⟩ := ih stretches.front fun each member =>
        going each (by simp [member])
      have running : verdict = some .running := by
        have last := going turn (by simp)
        rw [stretch.result] at last
        cases verdict with
        | none => exact absurd last flow.onward_ne_running
        | some answer => exact congrArg some last
      rw [answers_of_append, known, stretch.answers_of_child, passers_append, stretch.passers_eq,
        List.length_append, List.length_range', running]
      rcases Nat.lt_trichotomy child ((passers flow earlier).length + passed) with
        inside | rfl | outside
      · refine ⟨before, ?_, fun late => absurd late (by omega)⟩
        rw [if_pos inside, if_neg (Nat.ne_of_lt inside)]
        split
        next passed => rw [if_neg (by omega)]; simp
        next => rw [if_pos (by omega)]; simp
      · refine ⟨before + 1, ?_, fun late => absurd late (Nat.lt_irrefl _)⟩
        rw [if_neg (by omega), if_neg (by omega), if_pos rfl, if_neg (Nat.lt_irrefl _),
          List.replicate_succ']
        simp
      · refine ⟨0, ?_, fun _ => rfl⟩
        rw [untouched (by omega), if_neg (by omega), if_neg (by omega), if_neg (by omega),
          if_neg (by omega)]
        rfl

/-- A child that was passed answered in favour of the row once, and after that it was not asked
again. -/
theorem Stretches.answers_passed (stretches : Stretches flow count cycle)
    (going : ∀ earlier turn later, cycle = earlier ++ turn :: later → later ≠ [] →
      turn.result = .running) {child : Nat} (inside : child < (passers flow cycle).length) :
    ∃ before, answersOf child cycle = List.replicate before .running ++ [flow.onward] := by
  cases cycle using List.reverseRecOn with
  | nil => simp [passers] at inside
  | append_singleton earlier turn =>
      obtain ⟨passed, verdict, stretch⟩ := stretches.last
      obtain ⟨before, known, _⟩ := stretches.front.answers_going (fun each member => by
        obtain ⟨front, back, rfl⟩ := List.append_of_mem member
        exact going front each (back ++ [turn]) (by simp) (by simp)) child
      rw [passers_append, stretch.passers_eq, List.length_append, List.length_range'] at inside
      refine ⟨before, ?_⟩
      rw [answers_of_append, known, stretch.answers_of_child, if_neg (Nat.ne_of_lt inside)]
      by_cases early : child < (passers flow earlier).length
      · rw [if_pos early, if_neg (by omega)]
        simp
      · rw [if_neg early, if_pos (by omega)]
        simp

end Stretches

/-! Ticks. -/

variable (surroundings : Surroundings)

theorem memory_stretch {state : NodeState} {flow : Flow} {index start : Nat}
    {children : List Node}
    (entry : (Rule.memory flow index).atEntry state.status = .memory flow start)
    (inside : start ≤ children.length) :
    Stretch flow children.length start
      (sweep surroundings flow.onward start children).passed
      (sweep surroundings flow.onward start children).verdict
      (turn surroundings (.branch state (.memory flow index) children)) where
  answers := by
    have row := @row_answers_below surroundings flow.onward start 0 children
      (treatment surroundings (.memory flow start) children)
      (fun index => by rw [Nat.zero_add, treatment])
    rw [turn_branch, entry, row, Nat.zero_add]
  result := by
    rw [turn_result, answer_branch, entry]
    rfl
  through undecided := by
    have far := sweep_undecided surroundings undecided
    by_cases none : (sweep surroundings flow.onward start children).passed = 0
    · omega
    · have last := @sweep_passed surroundings flow.onward start children
        (start + (sweep surroundings flow.onward start children).passed - 1) (by omega) (by omega)
      obtain ⟨child, known, _⟩ := Option.map_eq_some_iff.mp last
      have bound := (List.getElem?_eq_some_iff.mp known).1
      omega
  held answer decided := by
    obtain ⟨other, known⟩ := sweep_decider surroundings decided
    obtain ⟨child, found, _⟩ := Option.map_eq_some_iff.mp known
    exact ⟨other, (List.getElem?_eq_some_iff.mp found).1⟩

theorem concluded_memory (answer : Status) (flow : Flow) (index : Nat) :
    concludedRule answer (.memory flow index) =
      .memory flow (if answer = .running then index else 0) := by
  unfold concludedRule
  split <;> rfl

/-- A row that goes on running keeps its place, and otherwise it goes back to the first child. -/
theorem tick_memory {state : NodeState} {flow : Flow} {index start : Nat} {children : List Node}
    (entry : (Rule.memory flow index).atEntry state.status = .memory flow start) :
    ∃ after rows,
      (Node.tick surroundings (.branch state (.memory flow index) children)).node =
        .branch after (.memory flow (if after.status = .running then
          start + (sweep surroundings flow.onward start children).passed else 0)) rows ∧
      rows.length = children.length ∧
      after.status = (turn surroundings (.branch state (.memory flow index) children)).result := by
  have ticked : (Node.tick surroundings (.branch state (.memory flow index) children)).node =
      (conclude state
        (decideMemory flow start (sweep surroundings flow.onward start children))).node := by
    rw [tick_branch, entry]
    rfl
  have length := tick_children_length surroundings state (.memory flow index) children
  rw [turn_result, answer]
  rw [ticked, conclude_node] at length ⊢
  exact ⟨_, _, congrArg (branch _ · _) (concluded_memory _ flow _), length, rfl⟩

/-- A row with memory and the cycle it is in: while it is running its index is the number of the
children that it has passed. -/
structure Resumes (flow : Flow) (count : Nat) (cycle : List Turn) (node : Node) : Prop where
  stretches : Stretches flow count cycle
  row : ∃ state index children, node = .branch state (.memory flow index) children ∧
    children.length = count ∧
    (state.status = .running → index = (passers flow cycle).length ∧ index ≤ count) ∧
    (state.status ≠ .running → index = 0)

/-- Where a turn starts: the children passed in the cycle that it goes on with, if it does. -/
theorem Resumes.entry {flow : Flow} {count : Nat} {cycle : List Turn} {state : NodeState}
    {index : Nat} {children : List Node}
    (resumes : Resumes flow count cycle (.branch state (.memory flow index) children)) :
    ∃ before, Turn.follow cycle (turn surroundings (.branch state (.memory flow index) children)) =
        before ++ [turn surroundings (.branch state (.memory flow index) children)] ∧
      Stretches flow count before ∧ (passers flow before).length ≤ count ∧
      (Rule.memory flow index).atEntry state.status =
        .memory flow (passers flow before).length := by
  obtain ⟨stretches, _, _, _, same, _, running, _⟩ := resumes
  cases same
  by_cases goes : state.status = .running
  · obtain ⟨place, inside⟩ := running goes
    refine ⟨cycle, ?_, stretches, place ▸ inside, ?_⟩
    · simp [Turn.follow, status, Node.state, goes]
    · rw [Rule.atEntry, if_pos goes, place]
  · refine ⟨[], ?_, stretches_nil, Nat.zero_le _, ?_⟩
    · simp [Turn.follow, status, Node.state, goes]
    · rw [Rule.atEntry, if_neg goes]
      rfl

theorem Resumes.follow {flow : Flow} {count : Nat} {cycle : List Turn} {node : Node}
    (resumes : Resumes flow count cycle node) :
    Resumes flow count (Turn.follow cycle (turn surroundings node))
      (Node.tick surroundings node).node := by
  obtain ⟨state, index, children, rfl, length, _⟩ := resumes.row
  obtain ⟨before, follows, front, inside, entry⟩ := resumes.entry surroundings
  have stretch := memory_stretch surroundings entry (length ▸ inside)
  obtain ⟨after, rows, ticked, kept, result⟩ := tick_memory surroundings entry
  rw [length] at stretch kept
  rw [follows, ticked]
  refine ⟨front.snoc stretch, after, _, rows, rfl, kept, fun running => ?_, fun resting => ?_⟩
  · rw [if_pos running, passers_append, stretch.passers_eq, List.length_append,
      List.length_range']
    exact ⟨rfl, stretch.within⟩
  · rw [if_neg resting]

theorem resumes_kept (flow : Flow) (count : Nat) : Kept (Resumes flow count) where
  ticked surroundings _ _ resumes := resumes.follow surroundings
  halted cycle node resumes := by
    obtain ⟨stretches, state, index, children, rfl, length, running, resting⟩ := resumes
    have rule : haltedRule state.status (.memory flow index) = .memory flow 0 := by
      unfold haltedRule
      split
      · rfl
      next still => rw [resting still]
    rw [halt_branch, rule]
    refine ⟨stretches, { state with status := .invalid }, 0, children.map (·.halt.node), rfl,
      (List.length_map _).trans length, ?_, fun _ => rfl⟩
    intro impossible
    cases impossible
  aside cycle node other same resumes := by
    obtain ⟨stretches, state, index, children, rfl, length, running, resting⟩ := resumes
    obtain ⟨after, rows, rfl, shown, statuses⟩ := branch_of_skeleton same
    refine ⟨stretches, after, index, rows, rfl, ?_, ?_, ?_⟩
    · exact (length_of_same statuses).trans length
    · rwa [shown]
    · rwa [shown]

/-- In every run of a tree a row with memory walks along its children in cycles. Its index is the
number of the children that it has passed in the cycle, as long as it is running, and zero
otherwise; so it does not decrease. Every turn ticks the children from there on, one after another,
and answers as the row needs to go on when all children have done so, in order, and what the last
of them answered otherwise. A child that was passed did so once and was not ticked again, and after
the cycle the row starts at the first child. -/
theorem memory_row_resumes {root : Node} {path : Path} {state : NodeState} {flow : Flow}
    {children : List Node} (found : root.at? path = some (.row state flow true children))
    (resting : state.status ≠ .running) (moves : List Move) :
    (∃ now index rows, (root.after moves).at? path = some (.branch now (.memory flow index) rows) ∧
      rows.length = children.length ∧
      (now.status = .running → index = (passers flow (root.cycle path moves)).length) ∧
      (now.status ≠ .running → index = 0)) ∧
    (∀ step now index rows later further others,
      (root.after moves).at? path = some (.branch now (.memory flow index) rows) →
      (root.after (moves ++ [step])).at? path = some (.branch later (.memory flow further) others) →
      now.status = .running → later.status = .running → index ≤ further) ∧
    (∀ earlier turn later, root.cycle path moves = earlier ++ turn :: later →
      (turn.entered = true ↔ earlier = []) ∧ (later ≠ [] → turn.result = .running) ∧
      turn.answers.map (·.1) =
        List.range' (passers flow earlier).length turn.answers.length ∧
      (turn.result = flow.onward ↔
        passers flow (earlier ++ [turn]) = List.range children.length) ∧
      (turn.result ≠ flow.onward → turn.answers.getLast?.map (·.2) = some turn.result)) ∧
    (∀ child < (passers flow (root.cycle path moves)).length, ∃ before,
      answersOf child (root.cycle path moves) =
        List.replicate before .running ++ [flow.onward]) ∧
    (∀ surroundings now, (root.after moves).at? path = some now → now.status ≠ .running →
      visited surroundings path (root.after moves) = true →
        ∃ turn, turnAt? path (trail surroundings (root.after moves)) = some turn ∧
          root.cycle path (moves ++ [.tick surroundings]) = [turn] ∧ turn.entered = true ∧
          turn.answers.map (·.1) = List.range turn.answers.length ∧
          (children ≠ [] → turn.answers ≠ [])) := by
  have start : Resumes flow children.length [] (.row state flow true children) :=
    ⟨stretches_nil, state, 0, children, rfl, rfl, fun running => absurd running resting,
      fun _ => rfl⟩
  have kept := cyclic_kept.and (resumes_kept flow children.length)
  have holds := fun moves => kept.after found ⟨cyclic_at_rest resting, start⟩ moves
  obtain ⟨now, known, cyclic, stretches, shown, index, rows, rfl, length, running, idle⟩ :=
    holds moves
  refine ⟨⟨shown, index, rows, known, length, fun goes => (running goes).1, idle⟩, ?_, ?_, ?_, ?_⟩
  · intro step now index rows later further others before behind goes still
    obtain ⟨_, after, _, _, _, _, _, rfl, _, ahead, _⟩ := holds (moves ++ [step])
    cases known.symm.trans before
    cases after.symm.trans behind
    obtain ⟨more, grown⟩ := cycle_grows known goes step
    rw [(running goes).1, (ahead still).1, ← grown, passers_append, List.length_append]
    exact Nat.le_add_right _ _
  · intro earlier turn later same
    obtain ⟨entered, going⟩ := cyclic.turns earlier turn later same
    rw [same, List.append_cons] at stretches
    have front := stretches.front
    obtain ⟨passed, verdict, stretch⟩ := front.last
    exact ⟨entered, going, stretch.places, front.result_onward_iff, stretch.decided⟩
  · intro child inside
    exact stretches.answers_passed (fun earlier turn later same =>
      (cyclic.turns earlier turn later same).2) inside
  · intro surroundings now before rested seen
    cases known.symm.trans before
    obtain ⟨_, _, _, ahead, _⟩ := holds (moves ++ [.tick surroundings])
    have anew := cycle_anew surroundings known rested seen
    rw [anew] at ahead
    obtain ⟨passed, verdict, stretch⟩ := ahead [] _ [] rfl
    have places := stretch.places.trans List.range_eq_range'.symm
    refine ⟨_, ?_, anew, bne_iff_ne.mpr rested, places, fun some => ?_⟩
    · rw [turn_at surroundings known, if_pos seen]
    · exact stretch.answers_ne_nil (List.length_pos_iff.mpr some)

/-- An excursion that is driving for two ticks, arrives in the third, and cannot report. -/
def lateArrival : List Move :=
  [.tick ⟨0, {}⟩, .tick ⟨1, {}⟩, .outside [1, 0] (.condition (.signal true)), .tick ⟨2, {}⟩]

theorem late_arrival_resumes :
    (∃ state children, excursion.at? [] = some (.row state .sequence true children) ∧
      state.status ≠ .running) ∧
    (excursion.cycle [] lateArrival).map (·.answers) =
      [[(0, .success), (1, .running)], [(1, .running)], [(1, .success), (2, .failure)]] ∧
    ∃ before, answersOf 1 (excursion.cycle [] lateArrival) =
      List.replicate before .running ++ [.success] := by
  refine ⟨⟨_, _, rfl, by decide⟩, by decide, ?_⟩
  have resumes := @memory_row_resumes excursion [] { name := "excursion" } .sequence _ rfl
    (by decide) lateArrival
  exact resumes.2.2.2.1 1 (by decide)

end BehaviorTree.Node
