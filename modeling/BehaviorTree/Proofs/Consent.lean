import BehaviorTree.Proofs.Counterpart
import BehaviorTree.Proofs.Driving

/-!
Acknowledgements over the life of a tree. An acknowledge node knows who may acknowledge it and who
did so last. Ticks, halts and workers leave that alone; only an acknowledgement of that very node by
somebody who may changes it.
-/

namespace BehaviorTree

/-- What identifies a node to those who acknowledge: its name and, if it is an acknowledge node, who
may acknowledge it and who did so last. -/
structure Plate where
  name : String
  consent : Option (List String × Option String)
  deriving DecidableEq, Repr

/-- The plate after an acknowledgement. -/
def Plate.acknowledged (identity : String) (plate : Plate) : Plate :=
  { plate with
    consent := plate.consent.map fun (permitted, acknowledgedBy) =>
      (permitted, if permitted.contains identity then some identity else acknowledgedBy) }

namespace Node

def consent? : Node → Option (List String × Option String)
  | .leaf _ (.acknowledge permitted acknowledgedBy) => some (permitted, acknowledgedBy)
  | _ => none

def plate (node : Node) : Plate := ⟨node.name, node.consent?⟩

/-- Whether somebody may acknowledge the node. -/
def permits (identity : String) (node : Node) : Bool :=
  node.consent?.any (·.1.contains identity)

theorem consent_eq_some {node : Node} {permitted : List String} {acknowledgedBy : Option String} :
    node.consent? = some (permitted, acknowledgedBy) ↔
      ∃ state, node = .leaf state (.acknowledge permitted acknowledgedBy) := by
  constructor
  · intro known
    cases node with
    | branch state rule children => cases known
    | leaf state content =>
        cases content with
        | acknowledge allowed last =>
            cases known
            exact ⟨state, rfl⟩
        | condition | action | scripted => cases known
  · rintro ⟨state, rfl⟩
    rfl

theorem acknowledgement_eq (node : Node) : node.acknowledgement? = node.consent?.map Prod.snd := by
  cases node with
  | branch state rule children => rfl
  | leaf state content => cases content <;> rfl

theorem plate_shallow : Shallow plate := fun _ _ _ _ => rfl

@[simp] theorem tick_consent (surroundings : Surroundings) (node : Node) :
    (tick surroundings node).node.consent? = node.consent? := by
  cases node with
  | leaf state content =>
      rw [tick, tickLeaf]
      cases content with
      | acknowledge permitted acknowledgedBy => cases state.status <;> rfl
      | condition test => cases test <;> cases state.status <;> rfl
      | action action => cases state.status <;> rfl
      | scripted kind answers fault =>
          rcases answers with _ | ⟨first, _ | ⟨second, rest⟩⟩ <;> cases state.status <;> rfl
  | branch state rule children =>
      rw [tick_branch, conclude_node]
      rfl

@[simp] theorem halt_consent (node : Node) : node.halt.node.consent? = node.consent? := by
  cases node with
  | leaf state content => cases content <;> rfl
  | branch state rule children =>
      rw [halt_branch]
      rfl

@[simp] theorem setup_consent (node : Node) : node.setup.node.consent? = node.consent? := by
  cases node with
  | branch state rule children => rfl
  | leaf state content =>
      cases content with
      | action action =>
          rw [setup, setupLeaf]
          cases action.setup state.name <;> rfl
      | condition | acknowledge | scripted => rfl

@[simp] theorem shutdown_consent (node : Node) : node.shutdown.1.consent? = node.consent? := by
  cases node with
  | leaf state content => cases content <;> rfl
  | branch state rule children => rfl

theorem plate_lasting : Lasting plate := by
  constructor
  · intro surroundings node
    simp [plate]
  all_goals
    intro node
    simp [plate]

/-! Workers. -/

theorem map_actions_in_child {Result : Type} (change : String → Action → Action × List Result)
    (children : List Node) (index : Nat) :
    (mapActionsIn change children).1[index]? =
      children[index]?.map fun child => (mapActions change child).1 := by
  induction children generalizing index with
  | nil => rfl
  | cons child rest ih =>
      cases index with
      | zero => rfl
      | succ index => exact ih index

/-- What is done to the actions of a tree leaves all plates where they are. -/
theorem at_map_actions {Result : Type} (change : String → Action → Action × List Result)
    (node : Node) (path : Path) :
    ((node.mapActions change).1.at? path).map plate = (node.at? path).map plate := by
  induction path generalizing node with
  | nil =>
      cases node with
      | branch state rule children => rfl
      | leaf state content => cases content <;> rfl
  | cons index path ih =>
      cases node with
      | leaf state content => cases content <;> rfl
      | branch state rule children =>
          have after : (mapActions change (.branch state rule children)).1 =
              .branch state rule (mapActionsIn change children).1 := rfl
          rw [after, at_cons, at_cons, Node.children, Node.children, map_actions_in_child]
          cases children[index]? with
          | none => rfl
          | some child => exact ih child

theorem with_action_plate (action : Action) (node : Node) :
    (node.withAction action).plate = node.plate := by
  cases node with
  | branch state rule children => rfl
  | leaf state content => cases content <;> rfl

theorem with_action_children (action : Action) (node : Node) :
    (node.withAction action).children = node.children := by
  cases node with
  | branch state rule children => rfl
  | leaf state content => cases content <;> rfl

/-! Acknowledgements. -/

theorem acknowledge_plate (identity : String) (node : Node) :
    (node.acknowledge identity).plate = node.plate.acknowledged identity := by
  cases node with
  | branch state rule children => rfl
  | leaf state content =>
      cases content with
      | condition | action | scripted => rfl
      | acknowledge permitted acknowledgedBy =>
          by_cases allowed : permitted.contains identity = true
          · rw [acknowledge, if_pos allowed]
            simp only [plate, consent?, Plate.acknowledged, Option.map_some, if_pos allowed]
            rfl
          · rw [acknowledge, if_neg allowed]
            simp only [plate, consent?, Plate.acknowledged, Option.map_some, if_neg allowed]

theorem acknowledge_of_unpermitted {identity : String} {node : Node}
    (refused : node.permits identity = false) : node.acknowledge identity = node := by
  cases node with
  | branch state rule children => rfl
  | leaf state content =>
      cases content with
      | condition | action | scripted => rfl
      | acknowledge permitted acknowledgedBy =>
          have apart : ¬permitted.contains identity = true := by
            simpa [permits, consent?] using refused
          rw [acknowledge, if_neg apart]

/-- A change that leaves the node at its position as it is changes nothing. -/
theorem change_at_same {change : Node → Node} {path : Path} {node : Node}
    (same : ∀ sub, node.at? path = some sub → change sub = sub) :
    node.changeAt change path = node := by
  induction path generalizing node with
  | nil => exact same node rfl
  | cons index path ih =>
      cases node with
      | leaf state content => rfl
      | branch state rule children =>
          have kept : children.modify index (changeAt change path) = children := by
            apply List.ext_getElem?
            intro place
            rw [List.getElem?_modify]
            cases own : children[place]? with
            | none => rfl
            | some child =>
                by_cases here : index = place
                · subst here
                  have inner : child.changeAt change path = child := by
                    apply ih
                    intro sub found
                    apply same
                    rw [at_cons, Node.children, own, Option.bind_some, found]
                  simp [inner]
                · simp [here]
          rw [change_at_branch, kept]

end Node

/-! What an acknowledgement comes to. -/

namespace Ticker

variable {ticker : Ticker} {name : String}

theorem acknowledge_unknown (misses : Node.Misses name ticker.root) (identity : String) :
    ticker.acknowledge name identity = .error (.nodeNotFound name) := by
  rw [acknowledge, misses.looked]

variable {path : Node.Path} {node : Node}

theorem acknowledge_of_other (finds : Node.Finds name ticker.root path)
    (found : ticker.root.at? path = some node) (other : node.consent? = none)
    (identity : String) :
    ticker.acknowledge name identity = .error (.notAcknowledgeable name) := by
  have none : node.acknowledgement? = none := by
    rw [Node.acknowledgement_eq, other, Option.map_none]
  rw [acknowledge, finds.looked, found]
  simp only [none]

theorem acknowledge_of_known (finds : Node.Finds name ticker.root path)
    (found : ticker.root.at? path = some node) {consent : List String × Option String}
    (known : node.consent? = some consent) (identity : String) :
    ticker.acknowledge name identity =
      .ok { ticker with root := ticker.root.changeAt (Node.acknowledge identity) path } := by
  have last : node.acknowledgement? = some consent.2 := by
    rw [Node.acknowledgement_eq, known, Option.map_some]
  rw [acknowledge, finds.looked, found, finds.changed, Option.getD_some]
  simp only [last]

end Ticker

namespace LoadedTree

variable {tree : LoadedTree} {name : String}

theorem acknowledge_of_fault {identity : String} {fault : TreeFault}
    (refused : tree.ticker.acknowledge name identity = .error fault) :
    tree.acknowledge name identity = { tree, answer := .error (.tree fault) } := by
  rw [acknowledge, refused]

/-- The event that an acknowledgement is. -/
def acknowledgeEvent (tree : LoadedTree) (node identity : String) (accepted : Bool) : Event :=
  { kind := "acknowledge", tree := tree.name, node := some node
    message := s!"Acknowledgement from {identity}"
    metadata := .ofFields [("accepted", .bool accepted), ("identity", .text identity)] }

/-- The tree after an acknowledgement of the node at a position. -/
def acknowledgedAt (tree : LoadedTree) (path : Node.Path) (identity : String) : LoadedTree :=
  { tree with ticker.root := tree.ticker.root.changeAt (Node.acknowledge identity) path }

variable {path : Node.Path} {node : Node}

theorem acknowledge_of_consent (finds : Node.Finds name tree.ticker.root path)
    (found : tree.ticker.root.at? path = some node) {consent : List String × Option String}
    (known : node.consent? = some consent) (identity : String) :
    tree.acknowledge name identity =
      { tree := tree.acknowledgedAt path identity
        events := [tree.acknowledgeEvent name identity
          ((tree.acknowledgedAt path identity).ticker.acknowledgement? name ==
            some (some identity))]
        answer := .ok () } := by
  rw [acknowledge, Ticker.acknowledge_of_known finds found known]
  rfl

/-- What is recorded as accepted: afterwards the node shows the identity as the last one. That is so
if it was permitted, as long as nobody else was ever shown. -/
theorem accepted_eq_permitted (distinct : tree.ticker.root.Distinct)
    (finds : Node.Finds name tree.ticker.root path)
    (found : tree.ticker.root.at? path = some node) {permitted : List String}
    {acknowledgedBy : Option String} (known : node.consent? = some (permitted, acknowledgedBy))
    (genuine : ∀ other, acknowledgedBy = some other → permitted.contains other = true)
    (identity : String) :
    ((tree.acknowledgedAt path identity).ticker.acknowledgement? name == some (some identity)) =
      permitted.contains identity := by
  have names : ∀ place, ((tree.acknowledgedAt path identity).ticker.root.at? place).map Node.name =
      (tree.ticker.root.at? place).map Node.name :=
    Node.at_change_at_kept Node.name_shallow (Node.acknowledge_children identity)
      (Node.acknowledge_name identity) path tree.ticker.root
  have bears : ((tree.acknowledgedAt path identity).ticker.root.at? path).map Node.name =
      some name := (names path).trans finds.bears
  have looked := ((distinct.of_names names).finds bears).looked
  have after : (tree.acknowledgedAt path identity).ticker.root.at? path =
      some (node.acknowledge identity) := by
    have changed := Node.at_change_at (Node.acknowledge identity) path tree.ticker.root
    rwa [found] at changed
  have shown : (node.acknowledge identity).consent? =
      some (permitted, if permitted.contains identity then some identity else acknowledgedBy) := by
    have plate := congrArg Plate.consent (node.acknowledge_plate identity)
    simpa [Node.plate, Plate.acknowledged, known] using plate
  rw [Ticker.acknowledgement?, looked, after, Option.bind_some, Node.acknowledgement_eq, shown,
    Option.map_some]
  by_cases allowed : permitted.contains identity = true
  · rw [if_pos allowed, allowed]
    exact beq_self_eq_true _
  · -- Who is refused is not shown: only those who are permitted ever were.
    have apart : acknowledgedBy ≠ some identity := by
      intro same
      exact allowed (genuine identity same)
    rw [if_neg allowed, Bool.eq_false_iff.mpr allowed]
    simpa using apart

/-- Whether somebody may acknowledge the node of that name. -/
def permits (tree : LoadedTree) (name identity : String) : Bool :=
  (tree.ticker.root.find? name).any (·.permits identity)

/-- Somebody who is not permitted changes nothing at all. -/
theorem acknowledge_unpermitted {identity : String} (refused : tree.permits name identity = false) :
    (tree.acknowledge name identity).tree = tree := by
  rcases Node.finds_or_misses name tree.ticker.root with ⟨path, finds⟩ | misses
  · obtain ⟨node, found, -⟩ := Option.map_eq_some_iff.mp finds.bears
    cases known : node.consent? with
    | none =>
        rw [acknowledge_of_fault (Ticker.acknowledge_of_other finds found known identity)]
    | some consent =>
        have apart : node.permits identity = false := by
          simpa [permits, finds.looked, found] using refused
        have same : tree.ticker.root.changeAt (Node.acknowledge identity) path =
            tree.ticker.root := by
          apply Node.change_at_same
          intro sub there
          cases found.symm.trans there
          exact Node.acknowledge_of_unpermitted apart
        rw [acknowledge_of_consent finds found known]
        simp only [acknowledgedAt, same]
  · rw [acknowledge_of_fault (Ticker.acknowledge_unknown misses identity)]

end LoadedTree

/-! What a tree was told of acknowledgements. -/

namespace Instruction

/-- The identity with which an instruction acknowledges the node of that name, if permitted. -/
def consent? (name : String) (permitted : List String) : Instruction → Option String
  | .acknowledge node identity =>
      if node = name ∧ permitted.contains identity = true then some identity else none
  | .start _ | .pause | .resume | .step | .tickOnce | .stop | .wait | .unload => none

/-- The last of these identities. -/
def lastConsent? (name : String) (permitted : List String) (told : List Instruction) :
    Option String := (told.filterMap (consent? name permitted)).getLast?

variable {name : String} {permitted : List String}

theorem consent_eq_some {instruction : Instruction} {identity : String} :
    instruction.consent? name permitted = some identity ↔
      instruction = .acknowledge name identity ∧ permitted.contains identity = true := by
  constructor
  · intro consents
    cases instruction with
    | acknowledge node other =>
        obtain ⟨⟨rfl, allowed⟩, same⟩ := Option.ite_none_right_eq_some.mp consents
        cases same
        exact ⟨rfl, allowed⟩
    | start | pause | resume | step | tickOnce | stop | wait | unload => cases consents
  · rintro ⟨rfl, allowed⟩
    exact if_pos ⟨rfl, allowed⟩

theorem last_consent_concat (told : List Instruction) (instruction : Instruction) :
    lastConsent? name permitted (told ++ [instruction]) =
      (instruction.consent? name permitted).or (lastConsent? name permitted told) := by
  rw [lastConsent?, List.filterMap_append]
  cases consents : instruction.consent? name permitted with
  | none =>
      rw [List.filterMap_cons_none consents, List.filterMap_nil, List.append_nil, Option.none_or,
        lastConsent?]
  | some identity =>
      rw [List.filterMap_cons_some consents, List.filterMap_nil, List.getLast?_concat,
        Option.some_or]

theorem last_consent_append_mute {more : List Instruction}
    (mute : ∀ node identity, .acknowledge node identity ∉ more) (told : List Instruction) :
    lastConsent? name permitted (told ++ more) = lastConsent? name permitted told := by
  have none : more.filterMap (consent? name permitted) = [] := by
    rw [List.filterMap_eq_nil_iff]
    intro instruction member
    cases consents : instruction.consent? name permitted with
    | none => rfl
    | some identity =>
        obtain ⟨rfl, -⟩ := consent_eq_some.mp consents
        exact absurd member (mute name identity)
  rw [lastConsent?, List.filterMap_append, none, List.append_nil, lastConsent?]

theorem consent_of_acknowledge (node identity : String) :
    (Instruction.acknowledge node identity).consent? name permitted =
      if node = name ∧ permitted.contains identity = true then some identity else none := rfl

theorem last_consent_permitted {told : List Instruction} {identity : String}
    (last : lastConsent? name permitted told = some identity) :
    permitted.contains identity = true := by
  obtain ⟨instruction, -, consents⟩ := List.mem_filterMap.mp (List.mem_of_getLast? last)
  exact (consent_eq_some.mp consents).2

theorem last_consent_isSome {told : List Instruction} :
    (lastConsent? name permitted told).isSome = true ↔
      ∃ identity, .acknowledge name identity ∈ told ∧ permitted.contains identity = true := by
  rw [lastConsent?, List.getLast?_isSome]
  constructor
  · intro some
    obtain ⟨identity, inside⟩ := List.exists_mem_of_ne_nil _ some
    obtain ⟨instruction, member, consents⟩ := List.mem_filterMap.mp inside
    obtain ⟨rfl, allowed⟩ := consent_eq_some.mp consents
    exact ⟨identity, member, allowed⟩
  · rintro ⟨identity, member, allowed⟩
    apply List.ne_nil_of_mem
    exact List.mem_filterMap.mpr ⟨_, member, consent_eq_some.mpr ⟨rfl, allowed⟩⟩

end Instruction

open Instruction (lastConsent?)

namespace NodePlan

/-- The plate of the node that is built for a part of a plan, after its tree was told something. -/
def plate (told : List Instruction) : NodePlan → Plate
  | .acknowledge label permitted =>
      ⟨label.name, some (permitted, lastConsent? label.name permitted told)⟩
  | part => ⟨part.name, none⟩

theorem plate_name (told : List Instruction) (part : NodePlan) :
    (part.plate told).name = part.name := by
  cases part <;> rfl

theorem plate_consent {told : List Instruction} {part : NodePlan} {permitted : List String}
    {acknowledgedBy : Option String}
    (known : (part.plate told).consent = some (permitted, acknowledgedBy)) :
    ∃ label, part = .acknowledge label permitted ∧
      acknowledgedBy = lastConsent? label.name permitted told := by
  cases part with
  | acknowledge label allowed =>
      cases known
      exact ⟨label, rfl, rfl⟩
  | condition | action | row | parallel | checkAndDo => cases known

theorem plate_of_unrelated {more : List Instruction}
    (mute : ∀ node identity, .acknowledge node identity ∉ more) (told : List Instruction)
    (part : NodePlan) : part.plate (told ++ more) = part.plate told := by
  cases part with
  | acknowledge label permitted => rw [plate, plate, Instruction.last_consent_append_mute mute]
  | condition | action | row | parallel | checkAndDo => rfl

theorem plate_acknowledged {name : String} {part : NodePlan} (same : part.name = name)
    (told : List Instruction) (identity : String) :
    part.plate (told ++ [.acknowledge name identity]) =
      (part.plate told).acknowledged identity := by
  cases part with
  | acknowledge label permitted =>
      have own : name = label.name := same.symm
      rw [plate, plate, Instruction.last_consent_concat, Instruction.consent_of_acknowledge,
        Plate.acknowledged, Option.map_some]
      dsimp only
      by_cases allowed : permitted.contains identity = true
      · rw [if_pos ⟨own, allowed⟩, Option.some_or, if_pos allowed]
      · rw [if_neg fun both => allowed both.2, Option.none_or, if_neg allowed]
  | condition | action | row | parallel | checkAndDo => rfl

theorem plate_elsewhere {name : String} {part : NodePlan} (apart : part.name ≠ name)
    (told : List Instruction) (identity : String) :
    part.plate (told ++ [.acknowledge name identity]) = part.plate told := by
  cases part with
  | acknowledge label permitted =>
      rw [plate, plate, Instruction.last_consent_concat, Instruction.consent_of_acknowledge,
        if_neg fun both => apart both.1.symm, Option.none_or]
  | condition | action | row | parallel | checkAndDo => rfl

theorem Counterpart.plate_eq {timing : Timing} {part : NodePlan} {node : Node}
    (counterpart : Counterpart timing part node) : node.plate = part.plate [] := by
  cases counterpart with
  | serving act goal => rfl
  | alone => cases part <;> rfl

theorem plate_at (timing : Timing) (plan : NodePlan) (path : Node.Path) :
    ((plan.node timing).at? path).map Node.plate = (plan.at? path).map (plate []) := by
  generalize plan.at? path = part, (plan.node timing).at? path = sub,
    counterpart_at (.alone plan : Counterpart timing plan (plan.node timing)) path = known
  cases known with
  | none => rfl
  | some counterpart => exact congrArg some counterpart.plate_eq

end NodePlan

/-! The plates of a tree all its life. -/

/-- The plates of a loaded tree are those of its plan, with what the tree was told. -/
structure TreePlan.Plated (plan : TreePlan) (tree : LoadedTree) (told : List Instruction) :
    Prop where
  accepted : plan.inspect = .ok ()
  plates : ∀ path,
    (tree.ticker.root.at? path).map Node.plate = (plan.root.at? path).map (NodePlan.plate told)

namespace TreePlan.Plated

variable {plan : TreePlan} {tree after : LoadedTree} {told : List Instruction}

theorem carry (plated : plan.Plated tree told)
    (same : ∀ path, (after.ticker.root.at? path).map Node.plate =
      (tree.ticker.root.at? path).map Node.plate) : plan.Plated after told :=
  ⟨plated.accepted, fun path => (same path).trans (plated.plates path)⟩

theorem same_root (plated : plan.Plated tree told)
    (same : after.ticker.root = tree.ticker.root) : plan.Plated after told :=
  plated.carry fun _ => by rw [same]

theorem unrelated (plated : plan.Plated tree told) {more : List Instruction}
    (mute : ∀ node identity, .acknowledge node identity ∉ more) :
    plan.Plated tree (told ++ more) := by
  refine ⟨plated.accepted, ?_⟩
  intro path
  rw [plated.plates]
  congr 1
  funext part
  exact (part.plate_of_unrelated mute told).symm

theorem names (plated : plan.Plated tree told) (path : Node.Path) :
    (tree.ticker.root.at? path).map Node.name = (plan.root.at? path).map NodePlan.name := by
  have same := congrArg (Option.map Plate.name) (plated.plates path)
  rw [Option.map_map, Option.map_map] at same
  have part : Plate.name ∘ NodePlan.plate told = NodePlan.name := funext (NodePlan.plate_name told)
  rw [part] at same
  exact same

theorem distinct (plated : plan.Plated tree told) : tree.ticker.root.Distinct := by
  intro first second text one other
  rw [plated.names] at one other
  have sound := (TreePlan.inspect_eq_ok_iff plan).mp plated.accepted
  exact NodePlan.position_unique sound.distinct one other

/-- The node that was built for a part of the plan. -/
theorem node_at (plated : plan.Plated tree told) {path : Node.Path} {part : NodePlan}
    (found : plan.root.at? path = some part) :
    ∃ node, tree.ticker.root.at? path = some node ∧ node.plate = part.plate told ∧
      Node.Finds part.name tree.ticker.root path := by
  have plates := plated.plates path
  rw [found, Option.map_some] at plates
  obtain ⟨node, here, plate⟩ := Option.map_eq_some_iff.mp plates
  refine ⟨node, here, plate, plated.distinct.finds ?_⟩
  rw [plated.names, found, Option.map_some]

/-- The part of the plan that a node was built for. -/
theorem part_at (plated : plan.Plated tree told) {path : Node.Path} {node : Node}
    (found : tree.ticker.root.at? path = some node) :
    ∃ part, plan.root.at? path = some part ∧ part.plate told = node.plate := by
  have plates := plated.plates path
  rw [found, Option.map_some] at plates
  exact Option.map_eq_some_iff.mp plates.symm

/-- A part at another position has another name. -/
theorem name_elsewhere (plated : plan.Plated tree told) {path place : Node.Path}
    (apart : path ≠ place) {part other : NodePlan} (found : plan.root.at? path = some part)
    (there : plan.root.at? place = some other) : part.name ≠ other.name := by
  intro same
  have sound := (TreePlan.inspect_eq_ok_iff plan).mp plated.accepted
  have first : (plan.root.at? path).map NodePlan.name = some other.name := by
    rw [found, Option.map_some, same]
  have second : (plan.root.at? place).map NodePlan.name = some other.name := by
    rw [there, Option.map_some]
  exact apart (NodePlan.position_unique sound.distinct first second)

theorem acknowledged (plated : plan.Plated tree told) {name identity : String}
    (granted : tree.ticker.acknowledge name identity = .ok after.ticker) :
    plan.Plated after (told ++ [.acknowledge name identity]) := by
  rcases Node.finds_or_misses name tree.ticker.root with ⟨place, finds⟩ | misses
  · obtain ⟨node, found, named⟩ := Option.map_eq_some_iff.mp finds.bears
    cases known : node.consent? with
    | none =>
        rw [Ticker.acknowledge_of_other finds found known identity] at granted
        cases granted
    | some consent =>
        rw [Ticker.acknowledge_of_known finds found known identity] at granted
        have root := congrArg Ticker.root (Except.ok.inj granted)
        refine ⟨plated.accepted, ?_⟩
        intro path
        obtain ⟨target, planned, -⟩ := plated.part_at found
        have own : target.name = name := by
          have bears := plated.names place
          rw [finds.bears, planned] at bears
          exact (Option.some.inj bears).symm
        subst own
        rw [← root]
        -- Only the plate at this place follows what was told: other parts have other names.
        by_cases here : path = place
        · have plates := plated.plates place
          rw [planned, found, Option.map_some, Option.map_some, Option.some_inj] at plates
          rw [here, Node.at_change_at, planned, found, Option.map_some, Option.map_some,
            Option.map_some, Node.acknowledge_plate, plates, NodePlan.plate_acknowledged rfl]
        · rw [Node.at_change_at_other Node.plate_shallow
            (Node.acknowledge_children identity) here, plated.plates]
          cases elsewhere : plan.root.at? path with
          | none => rfl
          | some part =>
              have apart := plated.name_elsewhere here elsewhere planned
              rw [Option.map_some, Option.map_some, NodePlan.plate_elsewhere apart]
  · rw [Ticker.acknowledge_unknown misses identity] at granted
    cases granted

end TreePlan.Plated

namespace LoadedTree

theorem tick_plates (tree : LoadedTree) (store : Store) (path : Node.Path) :
    ((tree.tick store).1.ticker.root.at? path).map Node.plate =
      (tree.ticker.root.at? path).map Node.plate := by
  have woken := Node.at_map_actions (fun name action => action.wake name)
    (tree.ticker.tick store).ticker.root path
  exact woken.trans (Node.plate_lasting.at_tick _ _ path)

end LoadedTree

namespace Service

theorem lifelong_plated (plan : TreePlan) :
    Lifelong fun tree told _ => plan.Plated tree told := by
  apply lifelong_of_ticker
  intro tree after told marks more others plated turns
  cases turns with
  | rests same mute => exact (plated.same_root (congrArg (·.root) same)).unrelated mute
  | ticks store same mute =>
      have ticked : plan.Plated after told := by
        apply plated.carry
        intro path
        rw [same]
        exact tree.tick_plates store path
      exact ticked.unrelated mute
  | works path action same =>
      rw [List.append_nil]
      apply plated.carry
      intro place
      rw [same]
      exact Node.at_change_at_kept Node.plate_shallow (Node.with_action_children action)
        (Node.with_action_plate action) path tree.ticker.root place
  | hears node identity granted => exact plated.acknowledged granted

end Service

end BehaviorTree
