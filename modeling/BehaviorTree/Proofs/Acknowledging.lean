import BehaviorTree.Proofs.Attempts

/-!
Acknowledgements in service. In every run of a manager an acknowledge node succeeds from the first
acknowledgement by somebody who may on, and for good; every call is answered, recorded and carried
out for what it is; and attempts by those who may not change nothing.
-/

namespace BehaviorTree

open Instruction (lastConsent?)

namespace Node

/-- A node without what is below it. -/
def bare : Node → Node
  | .leaf state content => .leaf state content
  | .branch state rule _ => .branch state rule []

theorem bare_shallow : Shallow bare := fun _ _ _ _ => rfl

theorem answer_of_acknowledge (surroundings : Surroundings) (state : NodeState)
    (permitted : List String) (acknowledgedBy : Option String) :
    answer surroundings (.leaf state (.acknowledge permitted acknowledgedBy)) =
      .ofBool acknowledgedBy.isSome := by
  rw [answer, tick, tickLeaf]
  cases state.status <;> rfl

end Node

/-- How an acknowledge node stands in a tree that was told something: it knows the last who could
acknowledge it, and answers a tick by whether there was anybody. -/
structure LoadedTree.Gated (tree : LoadedTree) (told : List Instruction) (path : Node.Path)
    (name : String) (permitted : List String) : Prop where
  stands : ∃ state, tree.ticker.root.at? path =
    some (.leaf state (.acknowledge permitted (lastConsent? name permitted told)))
  shown : tree.ticker.acknowledgement? name = some (lastConsent? name permitted told)
  answers : ∀ store, ∀ visit ∈ (tree.ticker.tick store).snapshot.visited, visit.name = name →
    visit.status = .success ∨ visit.status = .failure
  succeeds : ∀ store, ∀ visit ∈ (tree.ticker.tick store).snapshot.visited, visit.name = name →
    (visit.status = .success ↔
      ∃ identity, .acknowledge name identity ∈ told ∧ permitted.contains identity = true)

/-- What an acknowledgement of the node at a position does to its tree: to the node if the identity
is permitted, and otherwise nothing. -/
structure LoadedTree.Acknowledged (before after : LoadedTree) (path : Node.Path)
    (permitted : List String) (identity : String) : Prop where
  around : after = { before with ticker.root := after.ticker.root }
  elsewhere : ∀ place, place ≠ path →
    (after.ticker.root.at? place).map Node.bare = (before.ticker.root.at? place).map Node.bare
  allowed : permitted.contains identity = true →
    after.ticker.root.at? path = (before.ticker.root.at? path).map fun node =>
      .leaf { node.state with message := s!"Acknowledged by {identity}" }
        (.acknowledge permitted (some identity))
  denied : permitted.contains identity = false → after = before

/-- What a manager makes of an acknowledgement in a tree that was built from a plan. -/
structure Manager.Hears (manager : Manager) (plan : TreePlan) (tree : LoadedTree)
    (name identity : String) : Prop where
  absent : (∀ path, (plan.root.at? path).map NodePlan.name ≠ some name) →
    manager.acknowledge tree.id name identity = (manager, .error (.tree (.nodeNotFound name)))
  other : ∀ path part, plan.root.at? path = some part → part.name = name →
    (∀ label permitted, part ≠ .acknowledge label permitted) →
      manager.acknowledge tree.id name identity =
        (manager, .error (.tree (.notAcknowledgeable name)))
  heard : ∀ path label permitted, plan.root.at? path = some (.acknowledge label permitted) →
    label.name = name → ∃ after, tree.Acknowledged after path permitted identity ∧
      manager.acknowledge tree.id name identity =
        ((manager.replace after).record
          (tree.acknowledgeEvent name identity (permitted.contains identity)), .ok ())
  refused : (∃ fault, (manager.acknowledge tree.id name identity).2 = .error fault) ↔
    ¬∃ path label permitted, plan.root.at? path = some (.acknowledge label permitted) ∧
      label.name = name
  others : ∀ id, id ≠ tree.id →
    (manager.acknowledge tree.id name identity).1.tree? id = manager.tree? id

namespace TreePlan.Plated

variable {plan : TreePlan} {tree : LoadedTree} {told : List Instruction}

/-- The tree of an accepted plan, as it is loaded, was told nothing. -/
theorem at_first {plan : TreePlan} (accepted : plan.inspect = .ok ()) (timing : Timing)
    (id : TreeId) : plan.Plated (plan.loaded timing id) [] := by
  refine ⟨accepted, ?_⟩
  intro path
  have prepared : (plan.loaded timing id).ticker.root = (plan.root.node timing).setup.node := rfl
  rw [prepared, Node.plate_lasting.at_setup, NodePlan.plate_at]

/-- The acknowledge node that was built for a part of the plan. -/
theorem acknowledge_at (plated : plan.Plated tree told) {path : Node.Path} {label : Label}
    {permitted : List String} (found : plan.root.at? path = some (.acknowledge label permitted)) :
    Node.Finds label.name tree.ticker.root path ∧ ∃ state, tree.ticker.root.at? path =
      some (.leaf state (.acknowledge permitted (lastConsent? label.name permitted told))) := by
  obtain ⟨node, here, plate, finds⟩ := plated.node_at found
  have consent : node.consent? = some (permitted, lastConsent? label.name permitted told) :=
    congrArg Plate.consent plate
  obtain ⟨state, rfl⟩ := Node.consent_eq_some.mp consent
  exact ⟨finds, state, here⟩

/-- Every visit of an acknowledge node tells whether anybody who may has acknowledged it. -/
theorem visit_status (plated : plan.Plated tree told) {path : Node.Path} {label : Label}
    {permitted : List String} (found : plan.root.at? path = some (.acknowledge label permitted))
    (store : Store) {visit : Visit} (member : visit ∈ (tree.ticker.tick store).snapshot.visited)
    (named : visit.name = label.name) :
    visit.status = .ofBool (lastConsent? label.name permitted told).isSome := by
  obtain ⟨finds, state, here⟩ := plated.acknowledge_at found
  have recorded : (tree.ticker.tick store).snapshot.visited =
      (Node.trail ⟨tree.ticker.tickCount, store⟩ tree.ticker.root).map (·.toVisit) :=
    (Node.trail_visits _ _).symm
  rw [recorded] at member
  obtain ⟨step, walked, rfl⟩ := List.mem_map.mp member
  obtain ⟨sub, there, same, -⟩ := Node.footstep_of_mem _ walked
  have bears : (tree.ticker.root.at? step.path).map Node.name = some label.name := by
    rw [there, ← named, same]
    rfl
  -- Names are distinct, so this is a visit of the acknowledge node itself.
  have place : step.path = path := plated.distinct bears finds.bears
  rw [place, here] at there
  cases there
  rw [same]
  exact Node.answer_of_acknowledge _ state permitted _

/-! What is made of an acknowledgement. -/

theorem acknowledge_absent (plated : plan.Plated tree told) {name : String}
    (absent : ∀ path, (plan.root.at? path).map NodePlan.name ≠ some name) (identity : String) :
    tree.acknowledge name identity = { tree, answer := .error (.tree (.nodeNotFound name)) } := by
  rcases Node.finds_or_misses name tree.ticker.root with ⟨path, finds⟩ | misses
  · exact absurd ((plated.names path).symm.trans finds.bears) (absent path)
  · exact LoadedTree.acknowledge_of_fault (Ticker.acknowledge_unknown misses identity)

theorem acknowledge_other (plated : plan.Plated tree told) {path : Node.Path} {part : NodePlan}
    (found : plan.root.at? path = some part)
    (other : ∀ label permitted, part ≠ .acknowledge label permitted) (identity : String) :
    tree.acknowledge part.name identity =
      { tree, answer := .error (.tree (.notAcknowledgeable part.name)) } := by
  obtain ⟨node, here, plate, finds⟩ := plated.node_at found
  have silent : node.consent? = none := by
    have same : node.consent? = (part.plate told).consent := congrArg Plate.consent plate
    cases known : (part.plate told).consent with
    | none => rw [same, known]
    | some consent =>
        obtain ⟨label, own, -⟩ := NodePlan.plate_consent known
        exact absurd own (other label consent.1)
  exact LoadedTree.acknowledge_of_fault
    (Ticker.acknowledge_of_other finds here silent identity)

theorem acknowledge_heard (plated : plan.Plated tree told) {path : Node.Path} {label : Label}
    {permitted : List String} (found : plan.root.at? path = some (.acknowledge label permitted))
    (identity : String) :
    tree.acknowledge label.name identity =
      { tree := tree.acknowledgedAt path identity
        events := [tree.acknowledgeEvent label.name identity (permitted.contains identity)]
        answer := .ok () } := by
  obtain ⟨finds, state, here⟩ := plated.acknowledge_at found
  have genuine : ∀ other, lastConsent? label.name permitted told = some other →
      permitted.contains other = true := fun _ => Instruction.last_consent_permitted
  have accepted := LoadedTree.accepted_eq_permitted plated.distinct finds here rfl genuine identity
  rw [LoadedTree.acknowledge_of_consent finds here rfl, accepted]

theorem gated (plated : plan.Plated tree told) {path : Node.Path} {label : Label}
    {permitted : List String} (found : plan.root.at? path = some (.acknowledge label permitted)) :
    tree.Gated told path label.name permitted := by
  obtain ⟨finds, state, here⟩ := plated.acknowledge_at found
  refine ⟨⟨state, here⟩, ?_, ?_, ?_⟩
  · rw [Ticker.acknowledgement?, finds.looked, here]
    rfl
  · intro store visit member named
    rw [plated.visit_status found store member named]
    cases (lastConsent? label.name permitted told).isSome
    · exact .inr rfl
    · exact .inl rfl
  · intro store visit member named
    rw [plated.visit_status found store member named, ← Instruction.last_consent_isSome]
    cases (lastConsent? label.name permitted told).isSome <;> simp [Status.ofBool]

theorem acknowledged_at (plated : plan.Plated tree told) {path : Node.Path} {label : Label}
    {permitted : List String} (found : plan.root.at? path = some (.acknowledge label permitted))
    (identity : String) :
    tree.Acknowledged (tree.acknowledgedAt path identity) path permitted identity := by
  obtain ⟨finds, state, here⟩ := plated.acknowledge_at found
  refine ⟨rfl, ?_, ?_, ?_⟩
  · intro place apart
    exact Node.at_change_at_other Node.bare_shallow (Node.acknowledge_children identity) apart
      tree.ticker.root
  · intro allowed
    rw [LoadedTree.acknowledgedAt, Node.at_change_at, here, Option.map_some, Option.map_some,
      Node.acknowledge, if_pos allowed]
    rfl
  · intro denied
    have refused : tree.permits label.name identity = false := by
      rw [LoadedTree.permits, finds.looked, here]
      exact denied
    have same := LoadedTree.acknowledge_unpermitted refused
    rwa [plated.acknowledge_heard found] at same

theorem hears (plated : plan.Plated tree told) {manager : Manager} (numbered : manager.Numbered)
    (known : manager.tree? tree.id = some tree) (name identity : String) :
    manager.Hears plan tree name identity := by
  have result : manager.acknowledge tree.id name identity =
      ((manager.replace (tree.acknowledge name identity).tree).recordAll
        (tree.acknowledge name identity).events, (tree.acknowledge name identity).answer) := by
    rw [Manager.acknowledge, Manager.handle, known]
  have failing : ∀ {fault}, tree.acknowledge name identity = { tree, answer := .error fault } →
      manager.acknowledge tree.id name identity = (manager, .error fault) := by
    intro fault refused
    rw [result, refused, numbered.replace_same known]
    rfl
  have absent : (∀ path, (plan.root.at? path).map NodePlan.name ≠ some name) →
      manager.acknowledge tree.id name identity = (manager, .error (.tree (.nodeNotFound name))) :=
    fun absent => failing (plated.acknowledge_absent absent identity)
  have other : ∀ path part, plan.root.at? path = some part → part.name = name →
      (∀ label permitted, part ≠ .acknowledge label permitted) →
        manager.acknowledge tree.id name identity =
          (manager, .error (.tree (.notAcknowledgeable name))) := by
    rintro path part found rfl other
    exact failing (plated.acknowledge_other found other identity)
  have heard : ∀ path label permitted, plan.root.at? path = some (.acknowledge label permitted) →
      label.name = name → manager.acknowledge tree.id name identity =
        ((manager.replace (tree.acknowledgedAt path identity)).record
          (tree.acknowledgeEvent name identity (permitted.contains identity)), .ok ()) := by
    rintro path label permitted found rfl
    rw [result, plated.acknowledge_heard found]
    rfl
  refine ⟨absent, other, ?_, ?_, ?_⟩
  · intro path label permitted found named
    exact ⟨_, plated.acknowledged_at found identity, heard path label permitted found named⟩
  · constructor
    · rintro ⟨fault, refused⟩ ⟨path, label, permitted, found, named⟩
      rw [heard path label permitted found named] at refused
      cases refused
    · intro none
      by_cases named : ∃ path part, plan.root.at? path = some part ∧ part.name = name
      · obtain ⟨path, part, found, own⟩ := named
        refine ⟨_, congrArg Prod.snd (other path part found own ?_)⟩
        rintro label permitted rfl
        exact none ⟨path, label, permitted, found, own⟩
      · refine ⟨_, congrArg Prod.snd (absent ?_)⟩
        intro path bears
        exact named ⟨path, Option.map_eq_some_iff.mp bears⟩
  · intro id apart
    have handled := Manager.tree_handle (fun tree => tree.acknowledge_id name identity) manager
      tree.id id
    rw [Manager.acknowledge, handled]
    simp [apart]

end TreePlan.Plated

/-- What is told of an acknowledgement with that answer. -/
def Entry.acknowledgement (id : TreeId) (node identity : String) :
    Except ManagerFault Unit → List Entry
  | .ok () =>
      [.taken id (.acknowledge node identity),
        .answered (.instruct id (.acknowledge node identity)) (.ok .done)]
  | .error fault => [.answered (.instruct id (.acknowledge node identity)) (.error fault)]

namespace Service

open Manager

/-- An acknowledgement is answered at once by what the manager makes of it. -/
theorem meet_acknowledge {service : Service} (idle : service.pending = none) (id : TreeId)
    (node identity : String) :
    service.meet (.order (.instruct id (.acknowledge node identity))) =
      some ({ manager := (service.manager.acknowledge id node identity).1 },
        Entry.acknowledgement id node identity
          (service.manager.acknowledge id node identity).2) := by
  have handled : service.manager.handle id
      (Instruction.takeUp service.manager.store · (.acknowledge node identity)) =
        done (service.manager.acknowledge id node identity) := handle_map service.manager id _ _
  rw [meet, idle]
  refine congrArg some ?_
  cases answer : (service.manager.acknowledge id node identity).2 with
  | error fault =>
      have refused : (service.manager.handle id
          (Instruction.takeUp service.manager.store · (.acknowledge node identity))).2 =
            .error fault := by
        rw [handled, done, answer]
        rfl
      rw [obey_of_refused refused, handled, idle]
      rfl
  | ok granted =>
      have granted : (service.manager.handle id
          (Instruction.takeUp service.manager.store · (.acknowledge node identity))).2 =
            .ok .done := by
        rw [handled, done, answer]
        rfl
      rw [obey_of_granted granted, handled, idle]
      rfl

/-- Whatever a new manager was told: its acknowledge nodes answer by whether anybody who may has
acknowledged them since their tree was loaded, a call is heard for what it is, and calls of those
who may not, put anywhere into a run, leave it as it is; and the manager's own pace is one way for
a run to go. -/
theorem acknowledgements_in_every_run {manager : Manager} (new : manager.trees = [])
    {moments : List Moment} {service : Service} {chronicle : List Entry}
    (ran : run { manager } moments = some (service, chronicle)) :
    (∀ id tree, service.manager.tree? id = some tree → ∃ plan : TreePlan,
      .answered (.load (.ok plan)) (.ok (.loaded id)) ∈ chronicle ∧
        (∀ path label permitted, plan.root.at? path = some (.acknowledge label permitted) →
          tree.Gated (Entry.told id chronicle) path label.name permitted) ∧
        ∀ node identity, service.manager.Hears plan tree node identity) ∧
      (∀ id node identity, service.manager.tree? id = none →
        service.manager.acknowledge id node identity =
          (service.manager, .error (.unknownTree id))) ∧
      (service.pending = none → ∀ id node identity,
        service.meet (.order (.instruct id (.acknowledge node identity))) =
          some ({ manager := (service.manager.acknowledge id node identity).1 },
            Entry.acknowledgement id node identity
              (service.manager.acknowledge id node identity).2)) ∧
      (∀ script last entries, service.Rejects script →
        service.run script.plain = some (last, entries) → ∃ final longer,
          service.run script.full = some (final, longer) ∧
            service.runAmid script = some (final, entries) ∧ final.silent = last.silent ∧
              final.manager.Indistinct last.manager) ∧
      (service.pending = none → ∀ id instruction,
        (instruction = .wait → service.manager.isDriven id = false) →
          service.manager.Serves (.instruct id instruction)
            (service.manager.follow id instruction)) := by
  have known := known_of_run lifelong_plated
    (fun _ timing id accepted => TreePlan.Plated.at_first accepted timing id) new ran
  refine ⟨?_, ?_, ?_, ?_, ?_⟩
  · intro id tree found
    obtain ⟨plan, brought, plated⟩ := known.loaded id tree found
    obtain rfl := tree_id found
    refine ⟨plan, brought, ?_, ?_⟩
    · intro path label permitted planned
      exact plated.gated planned
    · intro node identity
      exact plated.hears known.numbered found node identity
  · intro id node identity unknown
    exact handle_unknown unknown
  · intro idle id node identity
    exact meet_acknowledge idle id node identity
  · intro script last entries rejects plain
    obtain ⟨final, longer, amid, full, quiet⟩ := run_amid rejects plain known.numbered rfl
    exact ⟨final, longer, full, amid, quiet.symm,
      indistinct_of_silent (congrArg Service.manager quiet.symm)⟩
  · intro _ id instruction ready
    exact serves_follow (regular_of_run new ran) id instruction ready

end Service

/-! A desk with two stamps. -/

namespace Desk
open Service

/-- Two stamps, each of which somebody else has to give. -/
def plan : TreePlan where
  label := { name := "desk" }
  root := .row { name := "approval" } .sequence false
    [.acknowledge { name := "first" } ["chief"], .acknowledge { name := "second" } ["clerk"]]

def stamp (node identity : String) : Attempt := ⟨.number 0, node, identity⟩

/-- The clerk tries the first stamp, the chief gives it, and the tree is ticked. -/
def course : List Moment :=
  [.order (.load (.ok plan)), .order (stamp "first" "clerk").order,
    .order (stamp "first" "chief").order, .order (.instruct (.number 0) .tickOnce)]

def chronicle : List Entry :=
  .answered (.load (.ok plan)) (.ok (.loaded (.number 0))) ::
    Entry.acknowledgement (.number 0) "first" "clerk" (.ok ()) ++
    Entry.acknowledgement (.number 0) "first" "chief" (.ok ()) ++
    [.taken (.number 0) .tickOnce, .did (.number 0) (.ticked .failure),
      .answered (.instruct (.number 0) .tickOnce) (.ok (.status .failure))]

theorem course_possible : (run { manager := {} } course).isSome = true := by decide +kernel

def manned : Service := ((run { manager := {} } course).get course_possible).1

theorem course_run : run { manager := {} } course = some (manned, chronicle) := rfl

/-- The chief tries the other stamp, and somebody a stamp that is not there; meanwhile the tree is
ticked. -/
def script : Script :=
  [.inr (stamp "second" "chief"), .inl (.order (.instruct (.number 0) .tickOnce)),
    .inr (stamp "third" "clerk")]

theorem script_rejected : manned.Rejects script := by
  refine ⟨rfl, rfl, ?_⟩
  rintro next entries met
  cases met
  exact ⟨rfl, rfl, trivial⟩

theorem desk_withstands :
    (∃ tree, manned.manager.tree? (.number 0) = some tree ∧
      tree.ticker.acknowledgement? "first" = some (some "chief") ∧
      (∀ store, ∀ visit ∈ (tree.ticker.tick store).snapshot.visited, visit.name = "first" →
        visit.status = .success) ∧
      (∃ after, manned.manager.acknowledge tree.id "second" "chief" =
        ((manned.manager.replace after).record (tree.acknowledgeEvent "second" "chief" false),
          .ok ()) ∧ after = tree) ∧
      (manned.manager.acknowledge tree.id "approval" "chief").2 =
        .error (.tree (.notAcknowledgeable "approval")) ∧
      (manned.manager.acknowledge tree.id "third" "clerk").2 =
        .error (.tree (.nodeNotFound "third"))) ∧
      ∃ last entries final longer, manned.run script.plain = some (last, entries) ∧
        manned.run script.full = some (final, longer) ∧
        manned.runAmid script = some (final, entries) ∧
        final.manager.list = last.manager.list := by
  have new : ({} : Manager).trees = [] := rfl
  obtain ⟨stands, -, -, amid, -⟩ := acknowledgements_in_every_run new course_run
  constructor
  · have there : (manned.manager.tree? (.number 0)).isSome = true := rfl
    obtain ⟨tree, found⟩ := Option.isSome_iff_exists.mp there
    obtain ⟨brought, loaded, gated, hears⟩ := stands (.number 0) tree found
    have same : brought = plan := by simpa [chronicle, Entry.acknowledgement] using loaded
    subst same
    have first := gated [0] { name := "first" } ["chief"] rfl
    have branch : ∀ label permitted, plan.root ≠ .acknowledge label permitted := by
      intro label permitted same
      cases same
    have absent : ∀ path, (plan.root.at? path).map NodePlan.name ≠ some "third" := by
      intro path bears
      have unnamed : "third" ∉ plan.root.parts.map NodePlan.name := by decide
      exact unnamed (NodePlan.name_mem_of_at bears)
    refine ⟨tree, found, first.shown, ?_, ?_, ?_, ?_⟩
    · intro store visit member named
      exact (first.succeeds store visit member named).mpr ⟨"chief", by decide, by decide⟩
    · obtain ⟨after, acknowledged, result⟩ :=
        (hears "second" "chief").heard [1] { name := "second" } ["clerk"] rfl rfl
      exact ⟨after, result, acknowledged.denied (by decide)⟩
    · exact congrArg Prod.snd ((hears "approval" "chief").other [] plan.root rfl rfl branch)
    · exact congrArg Prod.snd ((hears "third" "clerk").absent absent)
  · have possible : (manned.run script.plain).isSome = true := by decide +kernel
    obtain ⟨⟨last, entries⟩, plain⟩ := Option.isSome_iff_exists.mp possible
    obtain ⟨final, longer, full, told, -, indistinct⟩ :=
      amid script last entries script_rejected plain
    exact ⟨last, entries, final, longer, plain, full, told, indistinct.listed⟩

end Desk

end BehaviorTree
