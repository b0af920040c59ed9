import BehaviorTree.Proofs.Serving

/-!
Workers that come to rest. To let all cycles of a manager's actions run to their end is one way in
which things can happen by themselves.
-/

namespace BehaviorTree

namespace Node

variable {Result : Type} {name : String} {change : Action → Action × Result}

mutual

/-- The action of that name is changed in its place. -/
theorem modify_action_at : ∀ {node after : Node} {result : Result},
    modifyAction? name change node = some (after, result) →
      ∃ path action, after = node.changeAt (.withAction action) path
  | .leaf state content, after, result, modified => by
      cases content with
      | action action =>
          rw [modifyAction?] at modified
          split at modified
          · cases modified
            exact ⟨[], _, rfl⟩
          · cases modified
      | condition | acknowledge | scripted => cases modified
  | .branch state rule children, after, result, modified => by
      rw [modifyAction?] at modified
      obtain ⟨⟨others, _⟩, inside, same⟩ := Option.map_eq_some_iff.mp modified
      cases same
      obtain ⟨index, path, action, rfl⟩ := modify_action_in inside
      exact ⟨index :: path, action, rfl⟩

theorem modify_action_in : ∀ {children others : List Node} {result : Result},
    modifyActionIn? name change children = some (others, result) →
      ∃ index path action,
        others = children.modify index (changeAt (.withAction action) path)
  | [], others, result, modified => by cases modified
  | child :: rest, others, result, modified => by
      rw [modifyActionIn?] at modified
      split at modified
      next changed _ here =>
        cases modified
        obtain ⟨path, action, rfl⟩ := modify_action_at here
        exact ⟨0, path, action, rfl⟩
      next =>
        obtain ⟨⟨later, _⟩, inside, same⟩ := Option.map_eq_some_iff.mp modified
        cases same
        obtain ⟨index, path, action, rfl⟩ := modify_action_in inside
        exact ⟨index + 1, path, action, rfl⟩

end

end Node

namespace Service

open Manager

theorem settle_action_happens (service : Service) (id : TreeId) (name : String) :
    ∃ happenings, (service.undergoAll happenings).1 =
      { service with manager := service.manager.settleAction id name } := by
  cases found : service.manager.tree? id with
  | none => exact ⟨[], by rw [settleAction, found]; rfl⟩
  | some tree =>
      rw [settleAction, found]
      dsimp only
      split
      next => exact ⟨[], rfl⟩
      next root store settled =>
        obtain ⟨path, action, rfl⟩ := Node.modify_action_at settled
        refine ⟨[.motion id (.work path action), .vary store service.manager.orphans], ?_⟩
        simp only [undergoAll, undergo, found]
        rfl

theorem settle_orphan_happens (service : Service) (name : String) :
    ∃ happenings, (service.undergoAll happenings).1 =
      { service with manager := service.manager.settleOrphan name } := by
  rw [settleOrphan]
  split
  next => exact ⟨[], rfl⟩
  next action _ => exact ⟨[.vary _ _], rfl⟩

/-- What happens step by step happens as a whole. -/
theorem each_happens {Item : Type} {act : Manager → Item → Manager}
    (each : ∀ (service : Service) (item : Item), ∃ happenings,
      (service.undergoAll happenings).1 = { service with manager := act service.manager item })
    (service : Service) (items : List Item) :
    ∃ happenings, (service.undergoAll happenings).1 =
      { service with manager := items.foldl act service.manager } := by
  induction items generalizing service with
  | nil => exact ⟨[], rfl⟩
  | cons item rest ih =>
      obtain ⟨early, first⟩ := each service item
      obtain ⟨late, others⟩ := ih (service.undergoAll early).1
      refine ⟨early ++ late, ?_⟩
      rw [(service.undergo_all_append early late).1, others, first]
      rfl

/-- What the workers of a manager do until they rest happens. -/
theorem settle_happens (service : Service) :
    ∃ happenings, (service.undergoAll happenings).1 =
      { service with manager := service.manager.settle } := by
  rw [settle]
  apply each_happens
  rintro current ⟨name, id⟩
  cases id with
  | none => exact current.settle_orphan_happens name
  | some id => exact current.settle_action_happens id name

end Service

end BehaviorTree
