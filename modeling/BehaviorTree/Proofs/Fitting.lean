import BehaviorTree.Datum.Choice
import BehaviorTree.Proofs.Rereading

/-!
Records that were put together and are taken apart again: which items of a record are found, and
what they are read as.
-/

namespace BehaviorTree

namespace Datum

theorem are_exact_iff {items : List Datum} :
    areExact items = true ↔ ∀ item ∈ items, item.isExact = true := by
  induction items with
  | nil => simp [areExact]
  | cons item rest ih => simp [areExact, ih]

theorem entries_are_exact_iff {entries : List (Key × Datum)} :
    entriesAreExact entries = true ↔
      ∀ entry ∈ entries, entry.1.isName = true ∧ entry.2.isExact = true := by
  induction entries with
  | nil => simp [entriesAreExact]
  | cons entry rest ih =>
      obtain ⟨key, datum⟩ := entry
      simp [entriesAreExact, ih, and_assoc]

theorem of_fields_exact_iff {fields : List (String × Datum)} :
    (ofFields fields).isExact = true ↔ ∀ field ∈ fields, field.2.isExact = true := by
  rw [ofFields, isExact, entries_are_exact_iff, List.forall_mem_map]
  exact forall₂_congr fun _ _ => ⟨And.right, fun whole => ⟨rfl, whole⟩⟩

theorem depths_le_iff {items : List Datum} {most : Nat} :
    depths items ≤ most ↔ ∀ item ∈ items, item.depth ≤ most := by
  induction items with
  | nil => simp [depths]
  | cons item rest ih => rw [depths, Nat.max_le, ih, List.forall_mem_cons]

theorem entry_depths_le_iff {entries : List (Key × Datum)} {most : Nat} :
    entryDepths entries ≤ most ↔ ∀ entry ∈ entries, entry.2.depth ≤ most := by
  induction entries with
  | nil => simp [entryDepths]
  | cons entry rest ih =>
      obtain ⟨key, datum⟩ := entry
      rw [entryDepths, Nat.max_le, ih, List.forall_mem_cons]

theorem of_fields_depth_le_iff {fields : List (String × Datum)} {most : Nat} :
    (ofFields fields).depth ≤ most + 1 ↔ ∀ field ∈ fields, field.2.depth ≤ most := by
  rw [ofFields, depth, Nat.add_le_add_iff_right, entry_depths_le_iff, List.forall_mem_map]

theorem list_depth_le_iff {items : List Datum} {most : Nat} :
    (list items).depth ≤ most + 1 ↔ ∀ item ∈ items, item.depth ≤ most := by
  rw [depth, Nat.add_le_add_iff_right, depths_le_iff]

theorem depth_lt_of_mem {item : Datum} {items : List Datum} (inside : item ∈ items) :
    item.depth < (list items).depth :=
  Nat.lt_succ_of_le (depths_le_iff.mp (Nat.le_refl _) item inside)

theorem depth_lt_of_field {field : String × Datum} {fields : List (String × Datum)}
    (inside : field ∈ fields) : field.2.depth < (ofFields fields).depth := by
  have fits := of_fields_depth_le_iff.mp (Nat.le_refl (ofFields fields).depth) field inside
  exact Nat.lt_succ_of_le fits

theorem of_fields_depth_pos (fields : List (String × Datum)) : 0 < (ofFields fields).depth :=
  Nat.succ_pos _

/-! Whatever is exact is readable. -/

mutual

theorem readable_of_exact : ∀ datum : Datum, datum.isExact = true → datum.isReadable = true
  | .list items, faithful => are_readable_of_exact items faithful
  | .record entries, faithful => entries_are_readable_of_exact entries faithful
  | .null, _ | .bool _, _ | .int _, _ | .text _, _ => rfl

theorem are_readable_of_exact : ∀ items : List Datum, areExact items = true →
    areReadable items = true
  | [], _ => rfl
  | item :: rest, faithful => by
      obtain ⟨first, others⟩ := Bool.and_eq_true_iff.mp faithful
      rw [areReadable, readable_of_exact item first, are_readable_of_exact rest others]
      rfl

theorem entries_are_readable_of_exact : ∀ entries : List (Key × Datum),
    entriesAreExact entries = true → entriesAreReadable entries = true
  | [], _ => rfl
  | (key, datum) :: rest, faithful => by
      obtain ⟨first, others⟩ := Bool.and_eq_true_iff.mp faithful
      have whole := (Bool.and_eq_true_iff.mp first).2
      rw [entriesAreReadable, readable_of_exact datum whole,
        entries_are_readable_of_exact rest others]
      rfl

end

/-- A list that was written item by item is read item by item. -/
theorem as_list_map {Item : Type} {read : Datum → Option Item} {write : Item → Datum}
    {items : List Item} (back : ∀ item ∈ items, read (write item) = some item) :
    (list (items.map write)).asList? read = some items := by
  rw [asList?]
  induction items with
  | nil => rfl
  | cons item rest ih =>
      have others := ih fun other later => back other (List.mem_cons_of_mem item later)
      simp [back item List.mem_cons_self, others]

theorem is_key_of_name (tag name : String) (datum : Datum) :
    isKeyOf tag (.name name, datum) = decide (name = tag) := by
  by_cases same : name = tag <;> simp [isKeyOf, same]

/-- The tag of a record that bears it once is taken off. -/
theorem tagged_of_fields {manner : Manner} {tag kind : String} {names : List String}
    {fields : List (String × Datum)} (untagged : tag ∉ fields.map (·.1)) :
    (ofFields ((tag, .text kind) :: fields)).tagged? manner tag names =
      some (kind, ofFields fields) := by
  have others : ∀ entry ∈ fields.map fun field => (Key.name field.1, field.2),
      isKeyOf tag entry = false := by
    intro entry inside
    obtain ⟨field, there, rfl⟩ := List.mem_map.mp inside
    have apart : field.1 ≠ tag := fun same => untagged (List.mem_map.mpr ⟨field, there, same⟩)
    simp [is_key_of_name, apart]
  have own : isKeyOf tag (.name tag, .text kind) = true := by simp [is_key_of_name]
  have kept : (fields.map fun field => (Key.name field.1, field.2)).filter (isKeyOf tag) = [] :=
    List.filter_eq_nil_iff.mpr fun entry inside => by simp [others entry inside]
  have rest : (fields.map fun field => (Key.name field.1, field.2)).filter (!isKeyOf tag ·) =
      fields.map fun field => (Key.name field.1, field.2) :=
    List.filter_eq_self.mpr fun entry inside => by simp [others entry inside]
  simp only [ofFields, tagged?, List.map_cons]
  rw [List.filter_cons_of_pos own, kept, List.filter_cons_of_neg (by simp [own]), rest]
  rfl

end Datum

namespace Items

variable {Content : Type} {items : Items} {name : String} {read : Datum → Option Content}

theorem find_cons (field : String × Datum) (rest : List (String × Datum)) (name : String) :
    (Items.mk (field :: rest)).find? name =
      if field.1 = name then some field.2 else (Items.mk rest).find? name := by
  by_cases same : field.1 = name <;> simp [find?, same]

theorem find_append (front back : List (String × Datum)) (name : String) :
    (Items.mk (front ++ back)).find? name =
      ((Items.mk front).find? name).or ((Items.mk back).find? name) := by
  simp only [find?, List.find?_append]
  cases front.find? (·.1 = name) <;> rfl

theorem find_nil (name : String) : (Items.mk []).find? name = none := rfl

/-- An item that was left out when there was nothing to say is read as what there was. -/
theorem optional_of_find {write : Content → Datum} {content : Option Content}
    (found : items.find? name = content.map write)
    (back : ∀ inside ∈ content, (write inside).asOption? read = some (some inside)) :
    items.optional read name = some content := by
  rw [optional, found]
  cases content with
  | none => rfl
  | some inside => exact back inside rfl

end Items

namespace Shape

variable {shape : Shape}

/-- A record fits a shape if its items are some of those that the shape knows, in the same order. -/
theorem items_of_fields {fields : List (String × Datum)}
    (known : (fields.map (·.1)).Sublist shape.names) (distinct : shape.names.Nodup) :
    shape.items? (.ofFields fields) = some ⟨fields⟩ := by
  have familiar : ∀ field ∈ fields, shape.names.contains field.1 = true := by
    intro field inside
    exact List.contains_iff_mem.mpr (known.subset (List.mem_map_of_mem inside))
  have apart : (fields.map (·.1)).Nodup := distinct.sublist known
  suffices whole : shape.known? (fields.map fun field => (Key.name field.1, field.2)) =
      some fields by
    simp [Datum.ofFields, items?, whole]
  clear known
  induction fields with
  | nil => rfl
  | cons field rest ih =>
      have onward := ih (fun other later => familiar other (List.mem_cons_of_mem _ later))
        (List.nodup_cons.mp apart).2
      have new : rest.any (·.1 = field.1) = false := by
        have fresh := (List.nodup_cons.mp apart).1
        simp only [List.any_eq_false, decide_eq_true_eq]
        intro other later same
        exact fresh (List.mem_map.mpr ⟨other, later, same⟩)
      simp only [List.map_cons, known?, nameOf?, familiar field List.mem_cons_self, if_true,
        onward, Option.bind_eq_bind, Option.bind_some, new]
      rfl

end Shape

end BehaviorTree
