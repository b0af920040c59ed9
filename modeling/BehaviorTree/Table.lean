/-!
Finite tables from texts to entries, kept in key order without repeated keys. A later entry for a
key replaces the earlier one.
-/

namespace BehaviorTree

/-- The entries of a table, in key order. -/
structure Table (Entry : Type) where
  entries : List (String × Entry) := []
  deriving Repr, Inhabited

namespace Table

variable {Entry : Type}

def insertInto (key : String) (entry : Entry) :
    List (String × Entry) → List (String × Entry)
  | [] => [(key, entry)]
  | (other, held) :: rest =>
      if key = other then (key, entry) :: rest
      else if key < other then (key, entry) :: (other, held) :: rest
      else (other, held) :: insertInto key entry rest

def insert (table : Table Entry) (key : String) (entry : Entry) : Table Entry :=
  { entries := insertInto key entry table.entries }

def find? (table : Table Entry) (key : String) : Option Entry :=
  (table.entries.find? (·.1 = key)).map (·.2)

def erase (table : Table Entry) (key : String) : Table Entry :=
  { entries := table.entries.filter (·.1 ≠ key) }

def ofList (pairs : List (String × Entry)) : Table Entry :=
  pairs.foldl (fun table pair => table.insert pair.1 pair.2) {}

def keys (table : Table Entry) : List String := table.entries.map (·.1)

theorem find?_insertInto_self (key : String) (entry : Entry) (entries : List (String × Entry)) :
    ((insertInto key entry entries).find? (·.1 = key)).map (·.2) = some entry := by
  induction entries with
  | nil => simp [insertInto]
  | cons pair rest induction =>
      obtain ⟨other, held⟩ := pair
      by_cases equal : key = other
      · simp [insertInto, equal]
      · by_cases less : key < other
        · simp [insertInto, equal, less]
        · have apart : ¬ other = key := fun same => equal same.symm
          simpa [insertInto, equal, less, apart] using induction

theorem find?_insertInto_of_ne {key other : String} (apart : other ≠ key) (entry : Entry)
    (entries : List (String × Entry)) :
    ((insertInto key entry entries).find? (·.1 = other)).map (·.2) =
      (entries.find? (·.1 = other)).map (·.2) := by
  induction entries with
  | nil => simp [insertInto, apart.symm]
  | cons pair rest induction =>
      obtain ⟨held, content⟩ := pair
      by_cases equal : key = held
      · subst equal
        simp [insertInto, apart.symm]
      · by_cases less : key < held
        · simp [insertInto, equal, less, apart.symm]
        · by_cases found : held = other
          · subst found
            simp [insertInto, equal, less]
          · simpa [insertInto, equal, less, found] using induction

@[simp] theorem find?_insert_self (table : Table Entry) (key : String) (entry : Entry) :
    (table.insert key entry).find? key = some entry :=
  find?_insertInto_self key entry table.entries

theorem find?_insert_of_ne {key other : String} (apart : other ≠ key) (table : Table Entry)
    (entry : Entry) : (table.insert key entry).find? other = table.find? other :=
  find?_insertInto_of_ne apart entry table.entries

end Table

end BehaviorTree
