import BehaviorTree.Proofs.Weaving
import Mathlib.Data.List.Infix

/-!
The log as a whole. Every line of it is about a tree that was loaded; and what it has about one tree
begins with its loading, goes on with the changes of its root status over all its ticks, other
things in between, and ends with its unloading.
-/

namespace BehaviorTree

namespace StatusChange

/-- The changes that some ticks bring, the first of which has a number and comes after a status. -/
def changesFrom (tick : Nat) (before : Status) : List Status → List StatusChange
  | [] => []
  | status :: rest => ofTick tick before status ++ changesFrom (tick + 1) status rest

/-- The changes of a root status over all ticks of a tree, counted from its being invalid. -/
def changes (statuses : List Status) : List StatusChange := changesFrom 0 .invalid statuses

theorem changes_from_concat (tick : Nat) (before status : Status) (statuses : List Status) :
    changesFrom tick before (statuses ++ [status]) =
      changesFrom tick before statuses ++
        ofTick (tick + statuses.length) (statuses.getLastD before) status := by
  induction statuses generalizing tick before with
  | nil => simp [changesFrom]
  | cons first rest ih =>
      rw [List.cons_append, changesFrom, changesFrom, ih, List.append_assoc, List.length_cons,
        List.getLastD_cons, Nat.add_right_comm, Nat.add_assoc]

theorem changes_concat (statuses : List Status) (status : Status) :
    changes (statuses ++ [status]) =
      changes statuses ++ ofTick statuses.length (statuses.getLastD .invalid) status := by
  rw [changes, changes_from_concat, Nat.zero_add, changes]

end StatusChange

/-- What is recorded when a tree that was loaded from a plan is unloaded. -/
def TreePlan.unloadEvent (plan : TreePlan) : Event :=
  { kind := "tree_unloaded", tree := plan.label.name, message := "Tree unloaded" }

/-- Between its loading and its unloading the log has the changes of the root status of a tree, and
things aside. -/
structure TreePlan.Recounts (plan : TreePlan) (statuses : List Status) (body : List Event) :
    Prop where
  changes : body.filter (·.kind = "root_status") =
    (StatusChange.changes statuses).map (·.event plan.label.name)
  asides : ∀ event ∈ body, event.kind ≠ "root_status" → event.Aside plan.label.name

/-- What the log has about a tree that was loaded from a plan and is there, or is gone. -/
inductive TreePlan.Standing (plan : TreePlan) (id : TreeId) (statuses : List Status) :
    List Event → Option LoadedTree → Prop
  | there {tree : LoadedTree} {body : List Event} (recounts : plan.Recounts statuses body)
      (name : tree.name = plan.label.name)
      (recorded : tree.recorded = statuses.getLastD .invalid)
      (counted : tree.ticker.tickCount = statuses.length) :
      Standing plan id statuses (plan.loadEvent id :: body) (some tree)
  | gone {body : List Event} (recounts : plan.Recounts statuses body) :
      Standing plan id statuses (plan.loadEvent id :: (body ++ [plan.unloadEvent])) none

namespace TreePlan.Recounts

variable {plan : TreePlan} {statuses : List Status} {body : List Event}

theorem nil (plan : TreePlan) : plan.Recounts [] [] := ⟨rfl, by simp⟩

theorem aside (recounts : plan.Recounts statuses body) {events : List Event}
    (asides : ∀ event ∈ events, event.Aside plan.label.name) :
    plan.Recounts statuses (body ++ events.map Event.undated) := by
  have other : ∀ event ∈ events, event.kind ≠ "root_status" := by
    intro event inside same
    have kind := (asides event inside).kind
    rw [same] at kind
    simp at kind
  constructor
  · have none : (events.map Event.undated).filter (·.kind = "root_status") = [] := by
      rw [List.filter_eq_nil_iff]
      intro event inside
      obtain ⟨plain, member, rfl⟩ := List.mem_map.mp inside
      exact fun same => other plain member (of_decide_eq_true same)
    rw [List.filter_append, none, List.append_nil]
    exact recounts.changes
  · intro event inside apart
    rcases List.mem_append.mp inside with early | late
    · exact recounts.asides event early apart
    · obtain ⟨plain, member, rfl⟩ := List.mem_map.mp late
      obtain ⟨tree, kind, faithful, sorted, shallow⟩ := asides plain member
      exact ⟨tree, kind, faithful, sorted, shallow⟩

theorem ticked (recounts : plan.Recounts statuses body) (status : Status) :
    plan.Recounts (statuses ++ [status])
      (body ++ ((StatusChange.ofTick statuses.length (statuses.getLastD .invalid) status).map
        (·.event plan.label.name)).map Event.undated) := by
  have undated : ∀ changes : List StatusChange,
      (changes.map (·.event plan.label.name)).map Event.undated =
        changes.map (·.event plan.label.name) := by
    intro changes
    rw [List.map_map]
    rfl
  have all : ∀ changes : List StatusChange,
      (changes.map (·.event plan.label.name)).filter (·.kind = "root_status") =
        changes.map (·.event plan.label.name) := by
    intro changes
    rw [List.filter_eq_self]
    intro event inside
    obtain ⟨change, -, rfl⟩ := List.mem_map.mp inside
    exact decide_eq_true rfl
  rw [undated]
  constructor
  · rw [List.filter_append, recounts.changes, all, StatusChange.changes_concat, List.map_append]
  · intro event inside apart
    rcases List.mem_append.mp inside with early | late
    · exact recounts.asides event early apart
    · obtain ⟨change, -, rfl⟩ := List.mem_map.mp late
      exact absurd rfl apart

end TreePlan.Recounts

namespace TreePlan.Standing

open LoadedTree (Noted)

variable {plan : TreePlan} {id : TreeId} {statuses : List Status} {events more : List Event}
  {before after : Option LoadedTree} {marks : List Mark}

/-- The name of a tree is that of the plan it was loaded from. -/
theorem name {tree : LoadedTree} (standing : plan.Standing id statuses events (some tree)) :
    tree.name = plan.label.name := by
  cases standing with
  | there recounts name => exact name

/-- All that the log has about a tree bears its name. -/
theorem names (standing : plan.Standing id statuses events before) :
    ∀ event ∈ events, event.tree = plan.label.name := by
  have inner : ∀ {body : List Event}, plan.Recounts statuses body →
      ∀ event ∈ body, event.tree = plan.label.name := by
    intro body recounts event inside
    by_cases changed : event.kind = "root_status"
    · have member : event ∈ body.filter (·.kind = "root_status") :=
        List.mem_filter.mpr ⟨inside, decide_eq_true changed⟩
      rw [recounts.changes] at member
      obtain ⟨change, -, rfl⟩ := List.mem_map.mp member
      rfl
    · exact (recounts.asides event inside changed).tree
  intro event inside
  cases standing with
  | there recounts =>
      rcases List.mem_cons.mp inside with rfl | told
      · rfl
      · exact inner recounts event told
  | gone recounts =>
      rcases List.mem_cons.mp inside with rfl | told
      · rfl
      · rcases List.mem_append.mp told with told | last
        · exact inner recounts event told
        · obtain rfl := List.mem_singleton.mp last
          rfl

/-- Whatever is recorded about a tree, the log goes on as it should. -/
theorem noted (standing : plan.Standing id statuses events before)
    (noted : Noted before marks more after) :
    plan.Standing id (statuses ++ Mark.ticks marks) (events ++ more.map Event.undated) after := by
  cases standing with
  | gone recounts =>
      cases noted with
      | same =>
          simpa [Mark.ticks] using (.gone recounts : plan.Standing id statuses _ none)
  | @there tree body recounts name recorded counted =>
      cases noted with
      | same =>
          have there : plan.Standing id statuses _ (some tree) :=
            .there recounts name recorded counted
          simpa [Mark.ticks] using there
      | rests steady unticked asides =>
          rw [unticked, List.append_nil]
          rw [name] at asides
          exact .there (recounts.aside asides) (steady.name.trans name)
            (steady.recorded.trans recorded) (steady.tickCount.trans counted)
      | ticks status ticked same shown one =>
          rw [ticked, name, recorded, counted]
          refine .there (recounts.ticked status) (same.trans name) ?_ ?_
          · rw [shown, List.getLastD_concat]
          · rw [one, counted, List.length_append, List.length_singleton]
      | unloaded =>
          have same : tree.unloadEvent = plan.unloadEvent := by
            rw [LoadedTree.unloadEvent, name, unloadEvent]
          have plain : plan.unloadEvent.undated = plan.unloadEvent := rfl
          rw [same]
          simpa [Mark.ticks, plain] using (.gone recounts : plan.Standing id statuses _ none)

end TreePlan.Standing

/-- An event that was recorded, with the tree that it is about. -/
structure Minute where
  about : TreeId
  event : Event

namespace Minute

/-- What is told about one tree, without the moments. -/
def of (id : TreeId) (book : List Minute) : List Event :=
  (book.filter (·.about = id)).map (·.event.undated)

@[simp] theorem of_append (id : TreeId) (early late : List Minute) :
    of id (early ++ late) = of id early ++ of id late := by
  simp [of]

/-- Events about one tree, recorded at some moment. -/
def taken (id : TreeId) (now : Timestamp) (events : List Event) : List Minute :=
  events.map fun event => ⟨id, event.dated now⟩

theorem of_taken_self (id : TreeId) (now : Timestamp) (events : List Event) :
    of id (taken id now events) = events.map Event.undated := by
  simp [of, taken, List.filter_map, Function.comp_def, Event.undated_dated]

theorem of_taken_other {id other : TreeId} (apart : other ≠ id) (now : Timestamp)
    (events : List Event) : of other (taken id now events) = [] := by
  simp [of, taken, List.filter_map, Function.comp_def, apart.symm]

end Minute

/-- No other tree is called like a tree, as long as that is there. -/
def Manager.Sole (manager : Manager) (id : TreeId) (name : String) : Prop :=
  (manager.tree? id).isSome = true →
    ∀ other tree, manager.tree? other = some tree → tree.name = name → other = id

namespace Service

open Entry Manager
open LoadedTree (Noted)

/-- The plans that were loaded, with what their trees are called. -/
def Loads (chronicle : List Entry) (plan : TreePlan) (id : TreeId) : Prop :=
  .answered (.load (.ok plan)) (.ok (.loaded id)) ∈ chronicle

/-- How the book of a manager that was new once agrees with its trees and its chronicle. -/
structure Booked (service : Service) (chronicle : List Entry) (book : List Minute) : Prop where
  numbered : service.manager.Numbered
  unborn : ∀ count, service.manager.loaded ≤ count →
    Entry.marks (.number count) chronicle = [] ∧ Minute.of (.number count) book = []
  given : ∀ plan id, Loads chronicle plan id →
    ∃ count, count < service.manager.loaded ∧ id = .number count
  owned : ∀ minute ∈ book, ∃ plan, Loads chronicle plan minute.about ∧
    minute.event.tree = plan.label.name
  known : ∀ id tree, service.manager.tree? id = some tree → ∃ plan, Loads chronicle plan id
  standing : ∀ plan id, Loads chronicle plan id →
    plan.Standing id (Mark.ticks (Entry.marks id chronicle)) (Minute.of id book)
      (service.manager.tree? id)

theorem loads_append {chronicle entries : List Entry} {plan : TreePlan} {id : TreeId} :
    Loads (chronicle ++ entries) plan id ↔ Loads chronicle plan id ∨ Loads entries plan id :=
  List.mem_append

namespace Booked

variable {service next : Service} {chronicle entries : List Entry} {book : List Minute}

theorem of_new {manager : Manager} (new : manager.trees = []) : Booked { manager } [] [] where
  numbered := .of_new new
  unborn := fun _ _ => ⟨rfl, rfl⟩
  given := fun _ _ loads => by cases loads
  owned := fun _ inside => by cases inside
  known := fun id tree found => by simp [tree?, new] at found
  standing := fun _ _ loads => by cases loads

theorem name (booked : Booked service chronicle book) {id : TreeId} {tree : LoadedTree}
    (found : service.manager.tree? id = some tree) {plan : TreePlan}
    (loads : Loads chronicle plan id) : tree.name = plan.label.name := by
  have standing := booked.standing plan id loads
  rw [found] at standing
  exact standing.name

/-- The next tree that is loaded gets an id that no tree had. -/
theorem ne_next (booked : Booked service chronicle book) {plan : TreePlan} {id : TreeId}
    (loads : Loads chronicle plan id) : id ≠ .number service.manager.loaded := by
  obtain ⟨count, before, rfl⟩ := booked.given plan id loads
  rintro ⟨⟩
  omega

section

variable {subject : TreeId} {marks : List Mark} {events : List Event} {after : Option LoadedTree}

theorem noted_known (booked : Booked service chronicle book)
    (noted : Noted (service.manager.tree? subject) marks events after)
    (there : after.isSome = true) : ∃ plan, Loads chronicle plan subject := by
  cases found : service.manager.tree? subject with
  | none =>
      rw [found] at noted
      rw [noted.of_none.2.2] at there
      cases there
  | some tree => exact booked.known subject tree found

/-- What is recorded about a tree bears the name of its plan. -/
theorem noted_named (booked : Booked service chronicle book)
    (noted : Noted (service.manager.tree? subject) marks events after) {event : Event}
    (recorded : event ∈ events) :
    ∃ plan, Loads chronicle plan subject ∧ event.tree = plan.label.name := by
  cases found : service.manager.tree? subject with
  | none =>
      rw [found] at noted
      rw [noted.of_none.2.1] at recorded
      cases recorded
  | some tree =>
      obtain ⟨plan, loads⟩ := booked.known subject tree found
      rw [found] at noted
      exact ⟨plan, loads, (noted.names event recorded).trans (booked.name found loads)⟩

theorem noted (booked : Booked service chronicle book)
    (numbered : next.manager.Numbered) (later : service.manager.loaded ≤ next.manager.loaded)
    (notes : service.manager.Notes next.manager subject events)
    (elsewhere : ∀ other, other ≠ subject → Entry.marks other entries = [])
    (noted : Noted (service.manager.tree? subject) (Entry.marks subject entries) events
      (next.manager.tree? subject))
    (nothing : ∀ plan id, ¬Loads entries plan id) (now : Timestamp) :
    Booked next (chronicle ++ entries) (book ++ Minute.taken subject now events) := by
  have early : ∀ {plan id}, Loads (chronicle ++ entries) plan id → Loads chronicle plan id :=
    fun loads => (loads_append.mp loads).resolve_right (nothing _ _)
  constructor
  · exact numbered
  · intro count unborn
    obtain ⟨quiet, blank⟩ := booked.unborn count (Nat.le_trans later unborn)
    have absent := booked.numbered.fresh (Nat.le_trans later unborn)
    rw [marks_append, Minute.of_append, quiet, blank]
    by_cases here : .number count = subject
    · subst here
      rw [absent] at noted
      obtain ⟨unmarked, unrecorded, -⟩ := noted.of_none
      rw [unmarked, unrecorded]
      exact ⟨rfl, rfl⟩
    · rw [elsewhere _ here, Minute.of_taken_other here]
      exact ⟨rfl, rfl⟩
  · intro plan id loads
    obtain ⟨count, before, same⟩ := booked.given plan id (early loads)
    exact ⟨count, Nat.lt_of_lt_of_le before later, same⟩
  · intro minute inside
    rcases List.mem_append.mp inside with old | new
    · obtain ⟨plan, loads, named⟩ := booked.owned minute old
      exact ⟨plan, loads_append.mpr (.inl loads), named⟩
    · obtain ⟨event, recorded, rfl⟩ := List.mem_map.mp new
      obtain ⟨plan, loads, named⟩ := booked.noted_named noted recorded
      exact ⟨plan, loads_append.mpr (.inl loads), named⟩
  · intro id tree found
    by_cases here : id = subject
    · subst here
      obtain ⟨plan, loads⟩ := booked.noted_known noted (found ▸ rfl)
      exact ⟨plan, loads_append.mpr (.inl loads)⟩
    · rw [notes.others id here] at found
      obtain ⟨plan, loads⟩ := booked.known id tree found
      exact ⟨plan, loads_append.mpr (.inl loads)⟩
  · intro plan id loads
    have standing := booked.standing plan id (early loads)
    rw [marks_append, Mark.ticks_append, Minute.of_append]
    by_cases here : id = subject
    · subst here
      rw [Minute.of_taken_self]
      exact standing.noted noted
    · rw [elsewhere id here, Minute.of_taken_other here, notes.others id here, List.append_nil]
      simpa [Mark.ticks] using standing

theorem loaded (booked : Booked service chronicle book) (numbered : next.manager.Numbered)
    (later : service.manager.loaded ≤ next.manager.loaded) (plan : TreePlan)
    (notes : service.manager.Notes next.manager subject [plan.loadEvent subject])
    (new : subject = .number service.manager.loaded)
    (told : entries = [.answered (.load (.ok plan)) (.ok (.loaded subject))])
    (there : next.manager.tree? subject = some (plan.loaded service.manager.timing subject))
    (now : Timestamp) :
    Booked next (chronicle ++ entries)
      (book ++ Minute.taken subject now [plan.loadEvent subject]) := by
  have only : ∀ {other id}, Loads entries other id → other = plan ∧ id = subject := by
    intro other id loads
    rw [told] at loads
    cases List.mem_singleton.mp loads
    exact ⟨rfl, rfl⟩
  have own : Loads (chronicle ++ entries) plan subject := by
    rw [told]
    exact loads_append.mpr (.inr (List.mem_singleton.mpr rfl))
  have quiet : ∀ id, Entry.marks id entries = [] := by
    intro id
    rw [told]
    rfl
  have next_number : service.manager.loaded < next.manager.loaded := by
    have member : subject ∈ next.manager.ids := by
      by_contra absent
      rw [tree_eq_none_iff.mpr absent] at there
      cases there
    obtain ⟨count, before, same⟩ := numbered.below subject member
    cases new.symm.trans same
    exact before
  constructor
  · exact numbered
  · intro count unborn
    obtain ⟨silent, blank⟩ := booked.unborn count (Nat.le_trans later unborn)
    have apart : TreeId.number count ≠ subject := by
      rw [new]
      rintro ⟨⟩
      omega
    rw [marks_append, Minute.of_append, silent, blank, quiet, Minute.of_taken_other apart]
    exact ⟨rfl, rfl⟩
  · intro other id loads
    rcases loads_append.mp loads with old | fresh
    · obtain ⟨count, before, same⟩ := booked.given other id old
      exact ⟨count, Nat.lt_of_lt_of_le before later, same⟩
    · obtain ⟨-, rfl⟩ := only fresh
      exact ⟨_, next_number, new⟩
  · intro minute inside
    rcases List.mem_append.mp inside with old | fresh
    · obtain ⟨other, loads, named⟩ := booked.owned minute old
      exact ⟨other, loads_append.mpr (.inl loads), named⟩
    · obtain rfl := List.mem_singleton.mp fresh
      exact ⟨plan, own, rfl⟩
  · intro id tree found
    by_cases here : id = subject
    · exact ⟨plan, here ▸ own⟩
    · rw [notes.others id here] at found
      obtain ⟨other, loads⟩ := booked.known id tree found
      exact ⟨other, loads_append.mpr (.inl loads)⟩
  · intro other id loads
    rw [marks_append, Mark.ticks_append, Minute.of_append, quiet]
    rcases loads_append.mp loads with old | fresh
    · have apart : id ≠ subject := new ▸ booked.ne_next old
      have standing := booked.standing other id old
      rw [Minute.of_taken_other apart, notes.others id apart, List.append_nil]
      simpa [Mark.ticks] using standing
    · obtain ⟨rfl, rfl⟩ := only fresh
      obtain ⟨silent, blank⟩ := booked.unborn _ (Nat.le_refl _)
      rw [← new] at silent blank
      rw [silent, blank, there, Minute.of_taken_self]
      exact .there (.nil other) rfl rfl rfl

end

/-- Whatever happens, what is recorded keeps the book in order. -/
theorem meet (booked : Booked service chronicle book) {moment : Moment}
    (met : service.meet moment = some (next, entries)) :
    ∃ subject events, service.manager.Notes next.manager subject events ∧
      service.Records next entries subject events ∧
      Booked next (chronicle ++ entries)
        (book ++ Minute.taken subject service.manager.now events) := by
  obtain ⟨numbered, later⟩ := numbered_of_meet booked.numbered met
  obtain ⟨subject, events, notes, records⟩ := records_of_meet booked.numbered met
  refine ⟨subject, events, notes, records, ?_⟩
  cases records with
  | noted elsewhere noted nothing =>
      exact booked.noted numbered later notes elsewhere noted nothing _
  | loaded plan new unknown told there =>
      exact booked.loaded numbered later plan notes new told there _

end Booked

/-- At no moment of a run is another tree called like a tree that is there. -/
def Unshared (first : Service) (moments : List Moment) (id : TreeId) (name : String) : Prop :=
  ∀ early middle entries, early <+: moments → first.run early = some (middle, entries) →
    middle.manager.Sole id name

/-- All about a tree stands in one stretch of the book, in which it can be told by its name. -/
def Confined (id : TreeId) (name : String) (isThere : Bool) (book : List Minute) : Prop :=
  ∃ before life after, book = before ++ life ++ after ∧
    (∀ minute ∈ before ++ after, minute.about ≠ id) ∧
    (∀ minute ∈ life, minute.event.tree = name → minute.about = id) ∧
    (isThere = true → after = [])

namespace Confined

variable {id : TreeId} {name : String} {book : List Minute}

theorem live (confined : Confined id name true book) {more : List Minute}
    (own : ∀ minute ∈ more, minute.event.tree = name → minute.about = id) (isThere : Bool) :
    Confined id name isThere (book ++ more) := by
  obtain ⟨before, life, after, rfl, others, mine, ended⟩ := confined
  obtain rfl := ended rfl
  refine ⟨before, life ++ more, [], by simp, others, ?_, fun _ => rfl⟩
  intro minute inside
  rcases List.mem_append.mp inside with old | new
  · exact mine minute old
  · exact own minute new

theorem rest (confined : Confined id name false book) {more : List Minute}
    (others : ∀ minute ∈ more, minute.about ≠ id) : Confined id name false (book ++ more) := by
  obtain ⟨before, life, after, rfl, apart, mine, -⟩ := confined
  refine ⟨before, life, after ++ more, by simp, ?_, mine, by simp⟩
  intro minute inside
  rw [← List.append_assoc] at inside
  rcases List.mem_append.mp inside with old | new
  · exact apart minute old
  · exact others minute new

end Confined

section

variable {service next : Service} {chronicle entries : List Entry} {book : List Minute}
  {subject id : TreeId} {events : List Event} {plan : TreePlan}

/-- Nothing more is recorded about a tree that was unloaded. -/
theorem Booked.gone_for_good (booked : Booked service chronicle book)
    (notes : service.manager.Notes next.manager subject events)
    (records : service.Records next entries subject events) (loads : Loads chronicle plan id)
    (absent : service.manager.tree? id = none) :
    next.manager.tree? id = none ∧ (subject = id → events = []) := by
  by_cases own : id = subject
  · subst own
    cases records with
    | noted elsewhere noted nothing =>
        rw [absent] at noted
        exact ⟨noted.of_none.2.2, fun _ => noted.of_none.2.1⟩
    | loaded other new => exact absurd new (booked.ne_next loads)
  · exact ⟨(notes.others id own).trans absent, fun same => absurd same.symm own⟩

/-- What is recorded in the name of a tree that is there is about that tree. -/
theorem Booked.own_by_name (booked : Booked service chronicle book)
    (notes : service.manager.Notes next.manager subject events)
    (records : service.Records next entries subject events) (loads : Loads chronicle plan id)
    (there : (service.manager.tree? id).isSome = true)
    (sole : service.manager.Sole id plan.label.name)
    (still : next.manager.Sole id plan.label.name) {event : Event} (recorded : event ∈ events)
    (named : event.tree = plan.label.name) : subject = id := by
  cases records with
  | noted elsewhere noted nothing =>
      cases found : service.manager.tree? subject with
      | none =>
          rw [found] at noted
          rw [noted.of_none.2.1] at recorded
          cases recorded
      | some tree =>
          rw [found] at noted
          exact sole there subject tree found ((noted.names event recorded).symm.trans named)
  | loaded other new unknown told fresh =>
      have apart : id ≠ subject := new ▸ booked.ne_next loads
      have present : (next.manager.tree? id).isSome = true := by
        rw [notes.others id apart]
        exact there
      obtain rfl := List.mem_singleton.mp recorded
      exact still present subject _ fresh named

theorem Booked.confined (booked : Booked service chronicle book)
    (notes : service.manager.Notes next.manager subject events)
    (records : service.Records next entries subject events) (loads : Loads chronicle plan id)
    (confined : Confined id plan.label.name (service.manager.tree? id).isSome book)
    (sole : service.manager.Sole id plan.label.name)
    (still : next.manager.Sole id plan.label.name) (now : Timestamp) :
    Confined id plan.label.name (next.manager.tree? id).isSome
      (book ++ Minute.taken subject now events) := by
  cases there : (service.manager.tree? id).isSome with
  | false =>
      have absent : service.manager.tree? id = none := by simpa using there
      obtain ⟨gone, silent⟩ := booked.gone_for_good notes records loads absent
      rw [there] at confined
      rw [gone]
      apply confined.rest
      intro minute inside same
      obtain ⟨event, recorded, rfl⟩ := List.mem_map.mp inside
      rw [silent same] at recorded
      cases recorded
  | true =>
      rw [there] at confined
      apply confined.live
      intro minute inside named
      obtain ⟨event, recorded, rfl⟩ := List.mem_map.mp inside
      exact booked.own_by_name notes records loads there sole still recorded named

end

theorem Unshared.at_first {first : Service} {moments more : List Moment} {id : TreeId}
    {name : String} (unshared : Unshared first (moments ++ more) id name) :
    Unshared first moments id name :=
  fun early middle entries before =>
    unshared early middle entries (before.trans (List.prefix_append moments more))

end Service

/-! A report that is watched, from its loading to its unloading. -/

namespace Watch

open Service

def logged : Manager := { eventsPath := some "log" }

/-- A tick, a confirmation and another tick. -/
def day : List Moment :=
  [.order (.load (.ok plan)), .order (.instruct (.number 0) .tickOnce),
    .order (.instruct (.number 0) (.acknowledge "report" "operator")),
    .order (.instruct (.number 0) .tickOnce), .order (.instruct (.number 0) .unload), .answer]

end Watch

end BehaviorTree
