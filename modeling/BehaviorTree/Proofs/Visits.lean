import BehaviorTree.Proofs.Continuity
import BehaviorTree.Ticker
import Mathlib.Data.List.Nodup

/-!
The visit list of a tick. It is the post-order of the tree with the positions left out that the
tick did not reach. What a position shows afterwards is what was recorded for it, unless it lies in
a running part of the tree above which the tick came to an end: such a part is halted.
-/

namespace BehaviorTree

namespace Node

variable (surroundings : Surroundings)

theorem visited_root (node : Node) : visited surroundings [] node = true := by
  rw [visited, steps_at_root]
  rfl

/-- A tick comes to a position if it comes to one above it and would come on from there. -/
theorem visited_append {node sub : Node} {upper : Path} (found : node.at? upper = some sub)
    (lower : Path) :
    visited surroundings (upper ++ lower) node =
      (visited surroundings upper node && visited surroundings lower sub) := by
  induction upper generalizing node with
  | nil =>
      cases found
      rw [List.nil_append, visited_root, Bool.true_and]
  | cons index upper induction =>
      obtain ⟨state, rule, children, child, rfl, own, below⟩ := branch_of_at_cons found
      rw [List.cons_append, visited_branch surroundings state rule own,
        visited_branch surroundings state rule own, induction below, Bool.and_assoc]

theorem steps_at_visited {node sub : Node} {path : Path} (found : node.at? path = some sub)
    (seen : visited surroundings path node = true) :
    stepsAt path (trail surroundings node) = [footstep surroundings path sub] := by
  rcases steps_at_cases surroundings found with none | once
  · simp [visited, none] at seen
  · exact once

/-! What a tick leaves at a position. -/

theorem at_stilled {child sub : Node} {path : Path} (found : child.at? path = some sub) :
    child.stilled.at? path = some sub ∨ child.stilled.at? path = some sub.halt.node := by
  unfold stilled
  split
  · right
    rw [at_halt, found]
    rfl
  · exact Or.inl found

theorem at_concluded (answer : Status) {child sub : Node} {path : Path}
    (found : child.at? path = some sub) :
    (concluded answer child).at? path = some sub ∨
      (concluded answer child).at? path = some sub.halt.node := by
  unfold concluded
  split
  · exact Or.inl found
  · exact at_stilled found

/-- A node after its own tick, if the tick of the tree reaches it. -/
def carried (path : Path) (node sub : Node) : Node :=
  if visited surroundings path node then (tick surroundings sub).node else sub

/-- At every position the node was ticked or not, and then halted or not. -/
theorem at_tick {node sub : Node} {path : Path} (found : node.at? path = some sub) :
    (tick surroundings node).node.at? path = some (carried surroundings path node sub) ∨
      (tick surroundings node).node.at? path =
        some (carried surroundings path node sub).halt.node := by
  induction path generalizing node with
  | nil =>
      cases found
      left
      rw [at_nil, carried, visited_root, if_pos rfl]
  | cons index path induction =>
      obtain ⟨state, rule, children, child, rfl, own, below⟩ := branch_of_at_cons found
      have after := tick_children surroundings state rule children index
      rw [own, Option.map_some] at after
      rw [at_cons, after, Option.bind_some]
      have settled : ∀ {middle : Node} {final : Node},
          middle.at? path = some final ∨ middle.at? path = some final.halt.node →
            (concluded (answer surroundings (.branch state rule children)) middle).at? path =
                some final ∨
              (concluded (answer surroundings (.branch state rule children)) middle).at? path =
                some final.halt.node := by
        intro middle final known
        rcases known with whole | halted
        · exact at_concluded _ whole
        · exact Or.inr (at_concluded_of_halted halted)
      have reached := visited_branch surroundings state rule own path
      cases treat : treatment surroundings (rule.atEntry state.status) children index with
      | ticked =>
          have same : carried surroundings (index :: path) (.branch state rule children) sub =
              carried surroundings path child sub := by
            rw [carried, carried, reached, treat]
            simp
          rw [same]
          exact settled (induction below)
      | stopped =>
          rw [carried, reached, treat]
          exact settled (at_stilled below)
      | rested =>
          rw [carried, reached, treat]
          exact settled (Or.inl below)

/-! Post-order. -/

mutual

/-- The positions of a tree, those below a node right before the node itself. -/
def postorder : Node → List Path
  | .leaf _ _ => [[]]
  | .branch _ _ children => postorderBelow 0 children ++ [[]]

def postorderBelow : Nat → List Node → List Path
  | _, [] => []
  | index, child :: rest =>
      (postorder child).map (index :: ·) ++ postorderBelow (index + 1) rest

end

theorem mem_postorder_below {start : Nat} {children : List Node} {path : Path} :
    path ∈ postorderBelow start children ↔
      ∃ index child lower, children[index]? = some child ∧ lower ∈ postorder child ∧
        path = (start + index) :: lower := by
  induction children generalizing start with
  | nil => simp [postorderBelow]
  | cons child rest induction =>
      rw [postorderBelow, List.mem_append, List.mem_map, induction]
      constructor
      · rintro (⟨lower, member, rfl⟩ | ⟨index, other, lower, own, member, rfl⟩)
        · exact ⟨0, child, lower, rfl, member, rfl⟩
        · exact ⟨index + 1, other, lower, own, member, by rw [Nat.add_right_comm, Nat.add_assoc]⟩
      · rintro ⟨index, other, lower, own, member, rfl⟩
        cases index with
        | zero =>
            cases own
            exact Or.inl ⟨lower, member, rfl⟩
        | succ index =>
            exact Or.inr ⟨index, other, lower, own, member, by
              rw [Nat.add_right_comm, Nat.add_assoc]⟩

/-- The post-order has every position of the tree. -/
theorem mem_postorder_iff {node : Node} {path : Path} :
    path ∈ postorder node ↔ ∃ sub, node.at? path = some sub := by
  induction node generalizing path with
  | leaf state content =>
      rw [postorder, List.mem_singleton]
      constructor
      · rintro rfl
        exact ⟨_, rfl⟩
      · rintro ⟨sub, found⟩
        cases path with
        | nil => rfl
        | cons index path => simp [at_cons, children] at found
  | branch state rule children induction =>
      rw [postorder, List.mem_append, List.mem_singleton, mem_postorder_below]
      constructor
      · rintro (⟨index, child, lower, own, member, rfl⟩ | rfl)
        · obtain ⟨sub, found⟩ := (induction child (List.mem_of_getElem? own)).mp member
          rw [Nat.zero_add]
          exact ⟨sub, at_branch_eq_some.mpr ⟨child, own, found⟩⟩
        · exact ⟨_, rfl⟩
      · rintro ⟨sub, found⟩
        cases path with
        | nil => exact Or.inr rfl
        | cons index lower =>
            obtain ⟨child, own, below⟩ := at_branch_eq_some.mp found
            have member := (induction child (List.mem_of_getElem? own)).mpr ⟨sub, below⟩
            exact Or.inl ⟨index, child, lower, own, member, by rw [Nat.zero_add]⟩

theorem postorder_below_nodup {children : List Node}
    (each : ∀ child ∈ children, (postorder child).Nodup) (start : Nat) :
    (postorderBelow start children).Nodup := by
  induction children generalizing start with
  | nil => exact List.nodup_nil
  | cons child rest induction =>
      have first := each child (by simp)
      have others := induction (fun other own => each other (List.mem_cons_of_mem child own))
        (start + 1)
      rw [postorderBelow, List.nodup_append']
      refine ⟨?_, others, ?_⟩
      · exact first.map fun _ _ same => (List.cons.inj same).2
      · intro path own other
        obtain ⟨lower, _, rfl⟩ := List.mem_map.mp own
        obtain ⟨index, _, _, _, _, same⟩ := mem_postorder_below.mp other
        have apart := (List.cons.inj same).1
        omega

/-- The post-order has no position twice. -/
theorem postorder_nodup (node : Node) : (postorder node).Nodup := by
  induction node with
  | leaf state content => exact List.nodup_singleton _
  | branch state rule children induction =>
      rw [postorder, List.nodup_append']
      refine ⟨postorder_below_nodup induction 0, List.nodup_singleton _, ?_⟩
      intro path own last
      rw [List.mem_singleton] at last
      subst last
      obtain ⟨_, _, _, _, _, same⟩ := mem_postorder_below.mp own
      cases same

/-- The children from `start` on are visited in post-order if each of them is. Whether a child is
ticked at all is decided by the whole row. -/
theorem trail_below_paths (state : NodeState) (rule : Rule) {children : List Node}
    (each : ∀ child ∈ children, (trail surroundings child).map (·.path) =
      (postorder child).filter fun path => visited surroundings path child)
    {start : Nat} {rest : List Node} (known : children.drop start = rest) :
    (trailBelow surroundings (treatment surroundings (rule.atEntry state.status) children) start
        rest).map (·.path) =
      (postorderBelow start rest).filter fun path =>
        visited surroundings path (.branch state rule children) := by
  induction rest generalizing start with
  | nil => rfl
  | cons child rest induction =>
      have own : children[start]? = some child := by
        rw [← List.head?_drop, known]
        rfl
      have others : children.drop (start + 1) = rest := by
        rw [← List.tail_drop, known]
        rfl
      have first := each child (List.mem_of_getElem? own)
      have seen := fun path => visited_branch surroundings state rule own path
      rw [trailBelow, postorderBelow, List.map_append, List.filter_append, induction others,
        List.filter_map]
      congr 1
      have shown : ((fun path => visited surroundings path (.branch state rule children)) ∘
          (start :: ·)) = fun path =>
            (decide (treatment surroundings (rule.atEntry state.status) children start =
              .ticked) && visited surroundings path child) := funext seen
      rw [shown]
      split
      next ticked =>
        simp only [ticked, decide_true, Bool.true_and]
        rw [← first, List.map_map, List.map_map]
        rfl
      next other => simp [other]

/-- The footsteps of a tick follow the post-order of the tree. -/
theorem trail_paths (node : Node) :
    (trail surroundings node).map (·.path) =
      (postorder node).filter fun path => visited surroundings path node := by
  induction node with
  | leaf state content =>
      rw [trail, postorder, List.filter_singleton, visited_root]
      rfl
  | branch state rule children induction =>
      have below := trail_below_paths surroundings state rule induction List.drop_zero
      rw [trail, postorder, List.map_append, List.filter_append, below, List.map_singleton,
        List.filter_singleton, visited_root]
      rfl

theorem trail_last (node : Node) :
    ∃ below, trail surroundings node = below ++ [footstep surroundings [] node] := by
  cases node with
  | leaf state content => exact ⟨[], rfl⟩
  | branch state rule children => exact ⟨_, rfl⟩

/-- The tick comes to a node through all the nodes above it. -/
theorem visited_above {node sub : Node} {upper lower : Path}
    (found : node.at? (upper ++ lower) = some sub)
    (seen : visited surroundings (upper ++ lower) node = true) :
    (∃ above, node.at? upper = some above) ∧ visited surroundings upper node = true := by
  rw [at_append, Option.bind_eq_some_iff] at found
  obtain ⟨above, known, _⟩ := found
  rw [visited_append surroundings known, Bool.and_eq_true] at seen
  exact ⟨⟨above, known⟩, seen.1⟩

/-! Contiguity. -/

/-- Whatever was stepped on below a position was stepped on right before the position itself. -/
def Gathers (steps : List Footstep) (step : Footstep) : Prop :=
  ∃ earlier block later, steps = earlier ++ block ++ step :: later ∧
    (∀ other ∈ block, step.path <+: other.path) ∧
    (∀ other ∈ earlier, ¬ step.path <+: other.path) ∧
    ∀ other ∈ later, ¬ step.path <+: other.path

theorem Gathers.below {steps : List Footstep} {step : Footstep} (gathers : Gathers steps step)
    (index : Nat) : Gathers (steps.map (·.below index)) (step.below index) := by
  obtain ⟨earlier, block, later, rfl, inside, before, behind⟩ := gathers
  refine ⟨earlier.map (·.below index), block.map (·.below index), later.map (·.below index),
    by simp, ?_, ?_, ?_⟩
  · intro other member
    obtain ⟨inner, known, rfl⟩ := List.mem_map.mp member
    exact (List.prefix_cons_inj index).mpr (inside inner known)
  · intro other member under
    obtain ⟨inner, known, rfl⟩ := List.mem_map.mp member
    exact before inner known ((List.prefix_cons_inj index).mp under)
  · intro other member under
    obtain ⟨inner, known, rfl⟩ := List.mem_map.mp member
    exact behind inner known ((List.prefix_cons_inj index).mp under)

theorem Gathers.between {steps : List Footstep} {step : Footstep} (gathers : Gathers steps step)
    {front back : List Footstep} (before : ∀ other ∈ front, ¬ step.path <+: other.path)
    (behind : ∀ other ∈ back, ¬ step.path <+: other.path) :
    Gathers (front ++ steps ++ back) step := by
  obtain ⟨earlier, block, later, rfl, inside, ahead, after⟩ := gathers
  refine ⟨front ++ earlier, block, later ++ back, by simp, inside, ?_, ?_⟩
  · intro other member
    rcases List.mem_append.mp member with first | second
    · exact before other first
    · exact ahead other second
  · intro other member
    rcases List.mem_append.mp member with first | second
    · exact after other first
    · exact behind other second

theorem mem_trail_below {treatments : Nat → Treatment} {start : Nat} {children : List Node}
    {step : Footstep} (member : step ∈ trailBelow surroundings treatments start children) :
    ∃ index lower, start ≤ index ∧ step.path = index :: lower := by
  induction children generalizing start with
  | nil => simp [trailBelow] at member
  | cons child rest induction =>
      rw [trailBelow, List.mem_append] at member
      rcases member with first | later
      · split at first
        · obtain ⟨inner, _, rfl⟩ := List.mem_map.mp first
          exact ⟨start, inner.path, Nat.le_refl start, rfl⟩
        · simp at first
      · obtain ⟨index, lower, bound, same⟩ := induction later
        exact ⟨index, lower, Nat.le_of_succ_le bound, same⟩

theorem gathers_below {children : List Node}
    (each : ∀ child ∈ children, ∀ step ∈ trail surroundings child,
      Gathers (trail surroundings child) step)
    {treatments : Nat → Treatment} {start : Nat} {step : Footstep}
    (member : step ∈ trailBelow surroundings treatments start children) :
    Gathers (trailBelow surroundings treatments start children) step := by
  induction children generalizing start with
  | nil => simp [trailBelow] at member
  | cons child rest induction =>
      rw [trailBelow, List.mem_append] at member
      rw [trailBelow]
      rcases member with first | behind
      · split at first
        next ticked =>
          rw [if_pos ticked]
          obtain ⟨inner, known, rfl⟩ := List.mem_map.mp first
          have inside := (each child (by simp) inner known).below start
          refine @Gathers.between _ _ inside [] _ (by simp) ?_
          intro other later under
          obtain ⟨index, lower, bound, same⟩ := mem_trail_below surroundings later
          rw [same, Footstep.below, List.cons_prefix_cons] at under
          omega
        next => simp at first
      · obtain ⟨index, lower, bound, same⟩ := mem_trail_below surroundings behind
        have inside := induction (fun other own => each other (List.mem_cons_of_mem child own))
          behind
        rw [← List.append_nil (_ ++ _)]
        refine inside.between ?_ (by simp)
        intro other earlier under
        split at earlier
        · obtain ⟨inner, _, rfl⟩ := List.mem_map.mp earlier
          rw [same, Footstep.below, List.cons_prefix_cons] at under
          omega
        · simp at earlier

/-- Every footstep has those below it in one block right before itself. -/
theorem trail_gathers {node : Node} {step : Footstep} (member : step ∈ trail surroundings node) :
    Gathers (trail surroundings node) step := by
  induction node generalizing step with
  | leaf state content =>
      rw [trail, List.mem_singleton] at member
      subst member
      exact ⟨[], [], [], rfl, by simp, by simp, by simp⟩
  | branch state rule children induction =>
      rw [trail, List.mem_append, List.mem_singleton] at member
      rw [trail]
      rcases member with below | rfl
      · have gathers := gathers_below surroundings
          (fun child own step inside => induction child own inside) below
        refine @Gathers.between _ _ gathers [] _ (by simp) ?_
        intro other last under
        rw [List.mem_singleton] at last
        subst last
        obtain ⟨index, lower, _, same⟩ := mem_trail_below surroundings below
        rw [same] at under
        simp [footstep] at under
      · refine ⟨[], _, [], rfl, ?_, by simp, by simp⟩
        intro other _
        exact List.nil_prefix

/-! Statuses afterwards. -/

theorem mem_trail_iff {path : Path} {node : Node} {step : Footstep} (own : step.path = path) :
    step ∈ trail surroundings node ↔ step ∈ stepsAt path (trail surroundings node) := by
  simp [stepsAt, own]

/-- A footstep tells the name of the node at its position, and what that node answered as it stood
before the tick. -/
theorem footstep_of_mem {node : Node} {step : Footstep} (member : step ∈ trail surroundings node) :
    ∃ sub, node.at? step.path = some sub ∧ step = footstep surroundings step.path sub ∧
      visited surroundings step.path node = true := by
  have reached : step.path ∈ (trail surroundings node).map (·.path) :=
    List.mem_map_of_mem member
  rw [trail_paths, List.mem_filter] at reached
  obtain ⟨known, seen⟩ := reached
  obtain ⟨sub, found⟩ := mem_postorder_iff.mp known
  have own := (mem_trail_iff surroundings rfl).mp member
  rw [steps_at_visited surroundings found seen] at own
  exact ⟨sub, found, List.mem_singleton.mp own, seen⟩

/-- The tick recorded that answer at that position. -/
def Recorded (steps : List Footstep) (path : Path) (answer : Status) : Prop :=
  ∃ step ∈ steps, step.path = path ∧ step.status = answer

/-- The child of that number answered that it was running, while the node above answered
otherwise. -/
def CutOff (steps : List Footstep) (upper : Path) (index : Nat) : Prop :=
  (∃ answer, answer ≠ .running ∧ Recorded steps upper answer) ∧
    Recorded steps (upper ++ [index]) .running

/-- The position, or one above it, was cut off. -/
def Abandoned (steps : List Footstep) (path : Path) : Prop :=
  ∃ upper index, upper ++ [index] <+: path ∧ CutOff steps upper index

/-- What a tick records at a position is the answer of the node there, if the tick comes to it. -/
theorem recorded_iff {node sub : Node} {path : Path} (found : node.at? path = some sub)
    (status : Status) :
    Recorded (trail surroundings node) path status ↔
      visited surroundings path node = true ∧ answer surroundings sub = status := by
  constructor
  · rintro ⟨step, member, own, rfl⟩
    rw [mem_trail_iff surroundings own] at member
    have seen : visited surroundings path node = true := by
      rw [visited, Bool.not_eq_true', List.isEmpty_eq_false_iff]
      exact List.ne_nil_of_mem member
    rw [steps_at_visited surroundings found seen, List.mem_singleton] at member
    exact ⟨seen, congrArg (·.status) member.symm⟩
  · rintro ⟨seen, rfl⟩
    refine ⟨footstep surroundings path sub, ?_, rfl, rfl⟩
    rw [mem_trail_iff surroundings rfl]
    have place : (footstep surroundings path sub).path = path := rfl
    rw [place, steps_at_visited surroundings found seen]
    exact List.mem_singleton_self _

theorem recorded_root {node : Node} {status : Status} :
    Recorded (trail surroundings node) [] status ↔ status = answer surroundings node := by
  have root : node.at? [] = some node := rfl
  rw [recorded_iff surroundings root, and_iff_right (visited_root surroundings node), eq_comm]

theorem recorded_branch {state : NodeState} {rule : Rule} {children : List Node} {index : Nat}
    {child : Node} (own : children[index]? = some child)
    (ticked : treatment surroundings (rule.atEntry state.status) children index = .ticked)
    (path : Path) (status : Status) :
    Recorded (trail surroundings (.branch state rule children)) (index :: path) status ↔
      Recorded (trail surroundings child) path status := by
  have steps := steps_at_branch surroundings state rule own path
  rw [if_pos ticked] at steps
  constructor
  · rintro ⟨step, member, place, rfl⟩
    rw [mem_trail_iff surroundings place, steps, List.mem_map] at member
    obtain ⟨inner, known, rfl⟩ := member
    have lower : inner.path = path := (List.cons.inj place).2
    exact ⟨inner, (mem_trail_iff surroundings lower).mpr known, lower, rfl⟩
  · rintro ⟨inner, member, lower, rfl⟩
    refine ⟨inner.below index, ?_, congrArg (index :: ·) lower, rfl⟩
    rw [mem_trail_iff surroundings (congrArg (index :: ·) lower), steps]
    exact List.mem_map_of_mem ((mem_trail_iff surroundings lower).mp member)

/-- A position below a ticked child is abandoned by the tick of that child, or together with it. -/
theorem abandoned_branch {state : NodeState} {rule : Rule} {children : List Node} {index : Nat}
    {child : Node} (own : children[index]? = some child)
    (ticked : treatment surroundings (rule.atEntry state.status) children index = .ticked)
    (path : Path) :
    Abandoned (trail surroundings (.branch state rule children)) (index :: path) ↔
      (answer surroundings (.branch state rule children) ≠ .running ∧
        answer surroundings child = .running) ∨ Abandoned (trail surroundings child) path := by
  have inside := recorded_branch surroundings own ticked
  constructor
  · rintro ⟨upper, place, above, ⟨status, other, known⟩, running⟩
    cases upper with
    | nil =>
        rw [List.nil_append, List.cons_prefix_cons] at above
        rw [List.nil_append, above.1, inside, recorded_root] at running
        rw [recorded_root] at known
        exact Or.inl ⟨known ▸ other, running.symm⟩
    | cons first upper =>
        rw [List.cons_append, List.cons_prefix_cons] at above
        obtain ⟨rfl, above⟩ := above
        rw [inside] at known
        rw [List.cons_append, inside] at running
        exact Or.inr ⟨upper, place, above, ⟨status, other, known⟩, running⟩
  · rintro (⟨other, running⟩ | ⟨upper, place, above, ⟨status, other, known⟩, running⟩)
    · refine ⟨[], index, by simp, ⟨_, other, (recorded_root surroundings).mpr rfl⟩, ?_⟩
      rw [List.nil_append, inside, recorded_root]
      exact running.symm
    · refine ⟨index :: upper, place, ?_, ⟨status, other, (inside _ _).mpr known⟩, ?_⟩
      · rw [List.cons_append, List.cons_prefix_cons]
        exact ⟨rfl, above⟩
      · rw [List.cons_append, inside]
        exact running

/-- Of what was recorded, only the abandoned is lost. -/
theorem status_after_tick {node : Node} {path : Path} {status : Status}
    (recorded : Recorded (trail surroundings node) path status) :
    ∃ final, (tick surroundings node).node.at? path = some final ∧
      (Abandoned (trail surroundings node) path → final.status = .invalid) ∧
      (¬ Abandoned (trail surroundings node) path → final.status = status) := by
  induction path generalizing node with
  | nil =>
      rw [recorded_root] at recorded
      refine ⟨_, rfl, ?_, fun _ => recorded.symm⟩
      rintro ⟨upper, index, above, _⟩
      simp at above
  | cons index path induction =>
      obtain ⟨step, member, place, _⟩ := recorded
      obtain ⟨sub, found, _, seen⟩ := footstep_of_mem surroundings member
      rw [place] at found seen
      obtain ⟨state, rule, children, child, rfl, own, below⟩ := branch_of_at_cons found
      rw [visited_branch surroundings state rule own, Bool.and_eq_true, decide_eq_true_iff] at seen
      have ticked := seen.1
      have recorded : Recorded (trail surroundings (.branch state rule children)) (index :: path)
          status := ⟨step, member, place, by assumption⟩
      rw [recorded_branch surroundings own ticked] at recorded
      obtain ⟨final, known, lost, kept⟩ := induction recorded
      have after := tick_children surroundings state rule children index
      rw [own, Option.map_some, ticked, treated] at after
      rw [at_cons, after, Option.bind_some, abandoned_branch surroundings own ticked]
      by_cases running : answer surroundings (.branch state rule children) = .running
      · rw [concluded_of_running running]
        refine ⟨final, known, ?_, ?_⟩
        · rintro (⟨other, _⟩ | inside)
          · exact absurd running other
          · exact lost inside
        · exact fun stays => kept fun inside => stays (Or.inr inside)
      · rw [concluded_of_ended running]
        by_cases going : answer surroundings child = .running
        · rw [stilled_of_running going, at_halt, known]
          refine ⟨_, rfl, fun _ => halt_status final, ?_⟩
          exact fun stays => absurd (Or.inl ⟨running, going⟩) stays
        · rw [stilled_of_resting going]
          refine ⟨final, known, ?_, ?_⟩
          · rintro (⟨_, going'⟩ | inside)
            · exact absurd going' going
            · exact lost inside
          · exact fun stays => kept fun inside => stays (Or.inr inside)

end Node

namespace Ticker

/-- The positions that the next tick reaches, in the order in which it is done with them, each with
the name and the answer of its node. -/
def footsteps (ticker : Ticker) (store : Store) : List Node.Footstep :=
  Node.trail { tick := ticker.tickCount, store } ticker.root

/-- What a tick records is the post-order of the positions it reached, each of them once, with all
that was reached below a position right before it and the root with the answer of the tick at the
end. Afterwards a position shows what was recorded for it, or is invalid if it was abandoned, and a
position that was not reached shows what it showed before, or is invalid. -/
theorem visits_in_postorder (ticker : Ticker) (store : Store) :
    let steps := ticker.footsteps store
    let performed := ticker.tick store
    performed.snapshot.visited = steps.map (·.toVisit) ∧
    (∀ step ∈ steps, ∃ node, ticker.root.at? step.path = some node ∧ step.name = node.name ∧
      step.status = (node.tick { tick := ticker.tickCount, store }).node.status) ∧
    (steps.map (·.path)).Sublist ticker.root.postorder ∧
    (steps.map (·.path)).Nodup ∧
    (∀ step ∈ steps, ∀ upper, upper <+: step.path → upper ∈ steps.map (·.path)) ∧
    (∀ step ∈ steps, Node.Gathers steps step) ∧
    (∃ below root, steps = below ++ [root] ∧ root.path = [] ∧
      root.status = performed.ticker.lastStatus ∧
      performed.snapshot.rootStatus = performed.ticker.lastStatus ∧
      performed.ticker.root.status = performed.ticker.lastStatus) ∧
    (∀ step ∈ steps, ∃ final, performed.ticker.root.at? step.path = some final ∧
      (Node.Abandoned steps step.path → final.status = .invalid) ∧
      (¬ Node.Abandoned steps step.path → final.status = step.status)) ∧
    (∀ path before, ticker.root.at? path = some before → path ∉ steps.map (·.path) →
      ∃ final, performed.ticker.root.at? path = some final ∧
        (final.status = before.status ∨ final.status = .invalid)) := by
  intro steps performed
  have paths : steps.map (·.path) = ticker.root.postorder.filter fun path =>
      Node.visited { tick := ticker.tickCount, store } path ticker.root :=
    Node.trail_paths _ ticker.root
  refine ⟨(Node.trail_visits _ ticker.root).symm, ?_, ?_, ?_, ?_, ?_, ?_, ?_, ?_⟩
  · intro step member
    obtain ⟨node, found, same, _⟩ := Node.footstep_of_mem _ member
    exact ⟨node, found, congrArg (·.name) same, congrArg (·.status) same⟩
  · rw [paths]
    exact List.filter_sublist
  · rw [paths]
    exact (Node.postorder_nodup ticker.root).filter _
  · intro step member upper above
    obtain ⟨node, found, _, seen⟩ := Node.footstep_of_mem _ member
    obtain ⟨lower, same⟩ := above
    rw [← same] at found seen
    rw [paths, List.mem_filter, Node.mem_postorder_iff]
    exact Node.visited_above _ found seen
  · exact fun step member => Node.trail_gathers _ member
  · obtain ⟨below, shape⟩ := Node.trail_last { tick := ticker.tickCount, store } ticker.root
    exact ⟨below, _, shape, rfl, rfl, rfl, rfl⟩
  · intro step member
    exact Node.status_after_tick _ ⟨step, member, rfl, rfl⟩
  · intro path before found unreached
    have unseen : ¬ Node.visited { tick := ticker.tickCount, store } path ticker.root = true := by
      intro seen
      rw [paths, List.mem_filter, Node.mem_postorder_iff] at unreached
      exact unreached ⟨⟨before, found⟩, seen⟩
    have left := Node.at_tick { tick := ticker.tickCount, store } found
    rw [Node.carried, if_neg unseen] at left
    rcases left with whole | halted
    · exact ⟨before, whole, Or.inl rfl⟩
    · exact ⟨before.halt.node, halted, Or.inr (Node.halt_status before)⟩

example : (Ticker.tick { root := Node.excursion } {}).snapshot.visited.map (·.name) =
    ["ready", "arrived", "drive", "arrive", "excursion"] := by decide

end Ticker

end BehaviorTree
