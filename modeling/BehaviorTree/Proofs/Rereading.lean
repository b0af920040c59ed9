import BehaviorTree.Proofs.Spelling

/-!
Data written as JSON and read back. What is written of a datum, on one line or indented, are the
same words; and from these words the datum is read again, as long as JSON tells all of it and it is
not nested too deeply.
-/

namespace BehaviorTree

def Key.isName : Key → Bool
  | .name _ => true
  | .position _ | .other => false

namespace Datum

mutual

/-- Whether JSON tells all of a datum: it has no doubles, its integers are those of JSON, its keys
are names, and there is a value everywhere. -/
def isExact : Datum → Bool
  | .null | .bool _ | .text _ => true
  | .int number => Json.isMachineInt number
  | .float _ | .unreadable => false
  | .list items => areExact items
  | .record entries => entriesAreExact entries

def areExact : List Datum → Bool
  | [] => true
  | item :: rest => isExact item && areExact rest

def entriesAreExact : List (Key × Datum) → Bool
  | [] => true
  | (key, datum) :: rest => key.isName && isExact datum && entriesAreExact rest

end

end Datum

namespace Json

/-! Characters and the words that they are read as. -/

/-- Some characters are read as some words, whatever follows them apart. -/
def Spells (chars : List Char) (words : List Token) : Prop :=
  ∀ rest, standsApart rest = true → tokens (chars ++ rest) = (tokens rest).map (words ++ ·)

namespace Spells

variable {chars more : List Char} {words others : List Token}

theorem nil : Spells [] [] := by
  intro rest _
  simp

theorem append (first : Spells chars words) (apart : standsApart more = true)
    (second : Spells more others) : Spells (chars ++ more) (words ++ others) := by
  intro rest separate
  have follows : standsApart (more ++ rest) = true := by
    cases more with
    | nil => exact separate
    | cons char _ => exact apart
  rw [List.append_assoc, first _ follows, second rest separate, Option.map_map]
  congr 1
  funext after
  exact (List.append_assoc words others after).symm

theorem mark {char : Char} {token : Token} (unspaced : isSpace char = false)
    (mark : mark? char = some token) (onward : Spells chars words) :
    Spells (char :: chars) (token :: words) := by
  intro rest separate
  rw [List.cons_append, tokens_mark unspaced mark, onward rest separate, Option.map_map]
  rfl

theorem space {char : Char} (space : isSpace char = true) (onward : Spells chars words) :
    Spells (char :: chars) words := by
  intro rest separate
  rw [List.cons_append, tokens_space space, onward rest separate]

theorem new_line (level : Nat) (onward : Spells chars words) :
    Spells (newLine level ++ chars) words := by
  rw [newLine, List.cons_append]
  apply space rfl
  induction 2 * level with
  | zero => exact onward
  | succ count ih => exact space rfl ih

theorem text (text : String) (onward : Spells chars words) :
    Spells (quoted text ++ chars) (.text (some text) :: words) := by
  intro rest separate
  rw [List.append_assoc, tokens_text, onward rest separate, Option.map_map]
  rfl

theorem text_alone (text : String) : Spells (quoted text) [.text (some text)] := by
  simpa using Spells.text text .nil

theorem word {char : Char} {chars : List Char} {datum : Datum} (unspaced : isSpace char = false)
    (unmarked : mark? char = none) (unquoted : char ≠ '"')
    (letter : ¬(char = '-' ∨ char.isDigit = true))
    (alpha : ∀ other ∈ chars, other.isAlpha = true)
    (known : word? (char :: chars) = some datum) : Spells (char :: chars) [.plain datum] :=
  fun _ separate => tokens_first unspaced (first_word unmarked unquoted letter alpha known separate)

theorem int {number : Int} (fits : isMachineInt number = true) :
    Spells (Decimal.ofInt number) [.plain (.int number)] :=
  fun _ separate => tokens_int fits separate

end Spells

/-! The words of a datum. -/

def keyToken : Key → Token
  | .name text => .text (some text)
  | .position _ | .other => .text none

mutual

/-- The words that a datum is written in. -/
def spelled : Datum → List Token
  | .list items => .openList :: spelledItems items ++ [.closeList]
  | .record entries => .openRecord :: spelledEntries entries ++ [.closeRecord]
  | .text chars => [.text (some chars)]
  | plain => [.plain plain]

def spelledItems : List Datum → List Token
  | [] => []
  | [item] => spelled item
  | item :: next :: rest => spelled item ++ .comma :: spelledItems (next :: rest)

def spelledEntries : List (Key × Datum) → List Token
  | [] => []
  | [(key, datum)] => keyToken key :: .colon :: spelled datum
  | (key, datum) :: next :: rest =>
      keyToken key :: .colon :: spelled datum ++ .comma :: spelledEntries (next :: rest)

end

theorem spells_key {key : Key} (named : key.isName = true) {chars : List Char}
    {words : List Token} (onward : Spells chars words) :
    Spells (keyChars key ++ chars) (keyToken key :: words) := by
  cases key with
  | name text => exact .text text onward
  | position | other => cases named

theorem spells_plain {datum : Datum} (faithful : datum.isExact = true)
    (plain : spelled datum = [.plain datum]) : Spells (plainChars datum) [.plain datum] := by
  cases datum with
  | null =>
      have alphabetic := List.all_eq_true.mp (by decide : "ull".toList.all Char.isAlpha = true)
      exact .word rfl rfl (by decide) (by decide) alphabetic rfl
  | bool holds =>
      cases holds with
      | false =>
          have alphabetic := List.all_eq_true.mp (by decide : "alse".toList.all Char.isAlpha = true)
          exact .word rfl rfl (by decide) (by decide) alphabetic rfl
      | true =>
          have alphabetic := List.all_eq_true.mp (by decide : "rue".toList.all Char.isAlpha = true)
          exact .word rfl rfl (by decide) (by decide) alphabetic rfl
  | int number => exact .int faithful
  | float | unreadable => cases faithful
  | text | list | record => cases plain

mutual

theorem spells_chars : ∀ datum : Datum, datum.isExact = true →
    Spells (chars datum) (spelled datum)
  | .list items, faithful =>
      .mark rfl rfl ((spells_items items faithful).append rfl (.mark rfl rfl .nil))
  | .record entries, faithful =>
      .mark rfl rfl ((spells_entries entries faithful).append rfl (.mark rfl rfl .nil))
  | .text text, _ => .text_alone text
  | .null, faithful | .bool _, faithful | .int _, faithful => spells_plain faithful rfl

theorem spells_items : ∀ items : List Datum, Datum.areExact items = true →
    Spells (itemChars items) (spelledItems items)
  | [], _ => .nil
  | [item], faithful => spells_chars item (Bool.and_eq_true_iff.mp faithful).1
  | item :: next :: rest, faithful => by
      obtain ⟨first, others⟩ := Bool.and_eq_true_iff.mp faithful
      exact (spells_chars item first).append rfl
        (.mark rfl rfl (spells_items (next :: rest) others))

theorem spells_entries : ∀ entries : List (Key × Datum), Datum.entriesAreExact entries = true →
    Spells (entryChars entries) (spelledEntries entries)
  | [], _ => .nil
  | [(key, datum)], faithful => by
      obtain ⟨first, _⟩ := Bool.and_eq_true_iff.mp faithful
      obtain ⟨named, whole⟩ := Bool.and_eq_true_iff.mp first
      exact spells_key named (.mark rfl rfl (spells_chars datum whole))
  | (key, datum) :: next :: rest, faithful => by
      obtain ⟨first, others⟩ := Bool.and_eq_true_iff.mp faithful
      obtain ⟨named, whole⟩ := Bool.and_eq_true_iff.mp first
      rw [entryChars, spelledEntries, List.append_assoc]
      exact spells_key named (.mark rfl rfl ((spells_chars datum whole).append rfl
        (.mark rfl rfl (spells_entries (next :: rest) others))))

end

mutual

/-- An indented text has the same words. -/
theorem spells_indented (level : Nat) : ∀ datum : Datum, datum.isExact = true →
    Spells (indented level datum) (spelled datum)
  | .list [], _ => .mark rfl rfl (.mark rfl rfl .nil)
  | .list (item :: rest), faithful => by
      have items := spells_indented_items (level + 1) (item :: rest) faithful
      have ending : Spells (newLine level ++ [']']) [.closeList] :=
        .new_line level (.mark rfl rfl .nil)
      have body := Spells.new_line (level + 1) (items.append rfl ending)
      simpa [indented, spelled] using body.mark rfl (rfl : mark? '[' = some .openList)
  | .record [], _ => .mark rfl rfl (.mark rfl rfl .nil)
  | .record (entry :: rest), faithful => by
      have entries := spells_indented_entries (level + 1) (entry :: rest) faithful
      have ending : Spells (newLine level ++ ['\x7d']) [.closeRecord] :=
        .new_line level (.mark rfl rfl .nil)
      have body := Spells.new_line (level + 1) (entries.append rfl ending)
      simpa [indented, spelled] using body.mark rfl (rfl : mark? '\x7b' = some .openRecord)
  | .text text, _ => .text_alone text
  | .null, faithful | .bool _, faithful | .int _, faithful => spells_plain faithful rfl

theorem spells_indented_items (level : Nat) : ∀ items : List Datum, Datum.areExact items = true →
    Spells (indentedItems level items) (spelledItems items)
  | [], _ => .nil
  | [item], faithful => spells_indented level item (Bool.and_eq_true_iff.mp faithful).1
  | item :: next :: rest, faithful => by
      obtain ⟨first, others⟩ := Bool.and_eq_true_iff.mp faithful
      have onward := Spells.new_line level (spells_indented_items level (next :: rest) others)
      have whole := (spells_indented level item first).append rfl
        (onward.mark rfl (rfl : mark? ',' = some .comma))
      simpa [indentedItems, spelledItems] using whole

theorem spells_indented_entries (level : Nat) : ∀ entries : List (Key × Datum),
    Datum.entriesAreExact entries = true →
      Spells (indentedEntries level entries) (spelledEntries entries)
  | [], _ => .nil
  | [(key, datum)], faithful => by
      obtain ⟨first, _⟩ := Bool.and_eq_true_iff.mp faithful
      obtain ⟨named, whole⟩ := Bool.and_eq_true_iff.mp first
      exact spells_key named (.mark rfl rfl (.space rfl (spells_indented level datum whole)))
  | (key, datum) :: next :: rest, faithful => by
      obtain ⟨first, others⟩ := Bool.and_eq_true_iff.mp faithful
      obtain ⟨named, whole⟩ := Bool.and_eq_true_iff.mp first
      have onward := Spells.new_line level (spells_indented_entries level (next :: rest) others)
      have value := (spells_indented level datum whole).append rfl
        (onward.mark rfl (rfl : mark? ',' = some .comma))
      have entry := spells_key named
        ((value.space (rfl : isSpace ' ' = true)).mark rfl (rfl : mark? ':' = some .colon))
      simpa [indentedEntries, spelledEntries] using entry

end

/-! Words and the datum that they make up. -/

theorem spelled_pos (datum : Datum) : 0 < (spelled datum).length := by
  cases datum <;> simp [spelled]

theorem spelled_opens (datum : Datum) (rest after : List Token) :
    spelled datum ++ rest ≠ .closeList :: after := by
  cases datum <;> simp [spelled]

theorem spelled_items_open (item : Datum) (others : List Datum) (rest after : List Token) :
    spelledItems (item :: others) ++ rest ≠ .closeList :: after := by
  cases others with
  | nil => exact spelled_opens item rest after
  | cons next more =>
      rw [spelledItems, List.append_assoc]
      exact spelled_opens item _ after

theorem spelled_entries_open (entry : Key × Datum) (others : List (Key × Datum))
    (rest after : List Token) :
    spelledEntries (entry :: others) ++ rest ≠ .closeRecord :: after := by
  cases entry with
  | mk key datum => cases key <;> cases others <;> simp [spelledEntries, keyToken]

theorem record_of_exact {entries : List (Key × Datum)}
    (faithful : Datum.entriesAreExact entries = true) : recordDatum entries = .record entries := by
  have named : entries.any (·.1 == .other) = false := by
    induction entries with
    | nil => rfl
    | cons entry rest ih =>
        obtain ⟨key, datum⟩ := entry
        obtain ⟨first, others⟩ := Bool.and_eq_true_iff.mp faithful
        have name := (Bool.and_eq_true_iff.mp first).1
        rw [List.any_cons, ih others]
        cases key with
        | name | position => rfl
        | other => cases name
  rw [recordDatum, named]
  rfl

theorem text_key {key : Key} (named : key.isName = true) :
    ∃ content, keyToken key = .text content ∧ textKey content = key := by
  cases key with
  | name text => exact ⟨some text, rfl, rfl⟩
  | position | other => cases named

section

variable {fuel depth : Nat} {words more rest : List Token} {item datum : Datum}
  {items : List Datum} {content : Option String} {entries : List (Key × Datum)}

theorem bounded_within (fits : depth ≤ maxDepth) (datum : Datum) : bounded depth datum = datum :=
  if_pos fits

theorem read_last_item (read : readValue fuel depth words = some (item, .closeList :: rest)) :
    readItems (fuel + 1) depth words = some ([item], rest) := by
  simp [readItems, read]

theorem read_next_item (read : readValue fuel depth words = some (item, .comma :: more))
    (onward : readItems fuel depth more = some (items, rest)) :
    readItems (fuel + 1) depth words = some (item :: items, rest) := by
  simp [readItems, read, onward]

theorem read_last_entry
    (read : readValue fuel depth words = some (datum, .closeRecord :: rest)) :
    readEntries (fuel + 1) depth (.text content :: .colon :: words) =
      some ([(textKey content, datum)], rest) := by
  simp [readEntries, read]

theorem read_next_entry (read : readValue fuel depth words = some (datum, .comma :: more))
    (onward : readEntries fuel depth more = some (entries, rest)) :
    readEntries (fuel + 1) depth (.text content :: .colon :: words) =
      some ((textKey content, datum) :: entries, rest) := by
  simp [readEntries, read, onward]

theorem read_list (filled : ∀ after, words ≠ .closeList :: after) (fits : depth + 1 ≤ maxDepth)
    (read : readItems fuel (depth + 1) words = some (items, rest)) :
    readValue (fuel + 1) depth (.openList :: words) = some (.list items, rest) := by
  rw [readValue.eq_5 _ _ _ filled, read]
  simp [bounded_within fits]

theorem read_record (filled : ∀ after, words ≠ .closeRecord :: after)
    (fits : depth + 1 ≤ maxDepth) (whole : recordDatum entries = .record entries)
    (read : readEntries fuel (depth + 1) words = some (entries, rest)) :
    readValue (fuel + 1) depth (.openRecord :: words) = some (.record entries, rest) := by
  rw [readValue.eq_7 _ _ _ filled, read]
  simp [bounded_within fits, whole]

end

mutual

/-- The words of a datum are read as that datum, whatever words follow. There is fuel enough, as
every level takes two steps and two words. -/
theorem read_spelled : ∀ (datum : Datum) (fuel depth : Nat) (rest : List Token),
    datum.isExact = true → depth + datum.depth ≤ maxDepth →
      2 * (spelled datum).length ≤ fuel + 1 →
        readValue fuel depth (spelled datum ++ rest) = some (datum, rest)
  | datum, 0, _, _, _, _, enough => by
      have pos := spelled_pos datum
      omega
  | .list [], fuel + 1, depth, rest, _, shallow, _ => by
      simp only [Datum.depth, Datum.depths] at shallow
      simp [spelled, spelledItems, readValue, bounded_within shallow]
  | .list (item :: others), fuel + 1, depth, rest, faithful, shallow, enough => by
      rw [Datum.depth] at shallow
      simp only [spelled, List.length_append, List.length_cons, List.length_nil] at enough
      have items := read_spelled_items item others fuel (depth + 1) rest faithful (by omega)
        (by omega)
      rw [spelled, List.append_assoc, List.cons_append]
      exact read_list (spelled_items_open item others _) (by omega) items
  | .record [], fuel + 1, depth, rest, _, shallow, _ => by
      simp only [Datum.depth, Datum.entryDepths] at shallow
      simp [spelled, spelledEntries, readValue, bounded_within shallow]
  | .record (entry :: others), fuel + 1, depth, rest, faithful, shallow, enough => by
      rw [Datum.depth] at shallow
      simp only [spelled, List.length_append, List.length_cons, List.length_nil] at enough
      have entries := read_spelled_entries entry others fuel (depth + 1) rest faithful (by omega)
        (by omega)
      rw [spelled, List.append_assoc, List.cons_append]
      exact read_record (spelled_entries_open entry others _) (by omega)
        (record_of_exact faithful) entries
  | .text text, fuel + 1, depth, rest, _, _, _ => by rw [spelled]; rfl
  | .null, fuel + 1, depth, rest, _, _, _ => rfl
  | .bool _, fuel + 1, depth, rest, _, _, _ => rfl
  | .int _, fuel + 1, depth, rest, _, _, _ => rfl

theorem read_spelled_items : ∀ (item : Datum) (others : List Datum) (fuel depth : Nat)
    (rest : List Token), Datum.areExact (item :: others) = true →
      depth + Datum.depths (item :: others) ≤ maxDepth →
        2 * (spelledItems (item :: others)).length ≤ fuel →
          readItems fuel depth (spelledItems (item :: others) ++ .closeList :: rest) =
            some (item :: others, rest)
  | item, [], 0, _, _, _, _, enough | item, _ :: _, 0, _, _, _, _, enough => by
      have pos := spelled_pos item
      simp only [spelledItems, List.length_append] at enough
      omega
  | item, [], fuel + 1, depth, rest, faithful, shallow, enough => by
      simp only [Datum.depths, spelledItems] at shallow enough
      exact read_last_item (read_spelled item fuel depth _ (Bool.and_eq_true_iff.mp faithful).1
        (by omega) (by omega))
  | item, next :: others, fuel + 1, depth, rest, faithful, shallow, enough => by
      obtain ⟨first, onward⟩ := Bool.and_eq_true_iff.mp faithful
      rw [Datum.depths] at shallow
      simp only [spelledItems, List.length_append, List.length_cons] at enough
      rw [spelledItems, List.append_assoc, List.cons_append]
      exact read_next_item (read_spelled item fuel depth _ first (by omega) (by omega))
        (read_spelled_items next others fuel depth rest onward (by omega) (by omega))

theorem read_spelled_entries : ∀ (entry : Key × Datum) (others : List (Key × Datum))
    (fuel depth : Nat) (rest : List Token), Datum.entriesAreExact (entry :: others) = true →
      depth + Datum.entryDepths (entry :: others) ≤ maxDepth →
        2 * (spelledEntries (entry :: others)).length ≤ fuel →
          readEntries fuel depth (spelledEntries (entry :: others) ++ .closeRecord :: rest) =
            some (entry :: others, rest)
  | (key, datum), [], 0, _, _, _, _, enough | (key, datum), _ :: _, 0, _, _, _, _, enough => by
      simp only [spelledEntries, List.length_append, List.length_cons] at enough
      omega
  | (key, datum), [], fuel + 1, depth, rest, faithful, shallow, enough => by
      obtain ⟨named, whole⟩ := Bool.and_eq_true_iff.mp (Bool.and_eq_true_iff.mp faithful).1
      obtain ⟨content, token, back⟩ := text_key named
      simp only [Datum.entryDepths, spelledEntries, List.length_cons] at shallow enough
      rw [spelledEntries, token, ← back]
      exact read_last_entry (read_spelled datum fuel depth _ whole (by omega) (by omega))
  | (key, datum), next :: others, fuel + 1, depth, rest, faithful, shallow, enough => by
      obtain ⟨first, onward⟩ := Bool.and_eq_true_iff.mp faithful
      obtain ⟨named, whole⟩ := Bool.and_eq_true_iff.mp first
      obtain ⟨content, token, back⟩ := text_key named
      rw [Datum.entryDepths] at shallow
      simp only [spelledEntries, List.length_append, List.length_cons] at enough
      rw [spelledEntries, List.append_assoc, token, ← back]
      exact read_next_entry (read_spelled datum fuel depth _ whole (by omega) (by omega))
        (read_spelled_entries next others fuel depth rest onward (by omega) (by omega))

end

/-! Reading back. -/

theorem read_of_spells {chars : List Char} {datum : Datum} (faithful : datum.isExact = true)
    (shallow : datum.depth ≤ maxDepth) (spells : Spells chars (spelled datum)) :
    read (String.ofList chars) = some datum := by
  have words : tokens chars = some (spelled datum) := by
    simpa [tokens_nil] using spells [] rfl
  have whole := read_spelled datum (2 * (spelled datum).length + 1) 0 [] faithful (by omega)
    (by omega)
  rw [List.append_nil] at whole
  simp [read, words, whole]

/-- What was written is read back. -/
theorem read_write {datum : Datum} (faithful : datum.isExact = true)
    (shallow : datum.depth ≤ maxDepth) : read (write datum) = some datum :=
  read_of_spells faithful shallow (spells_chars datum faithful)

theorem read_write_indented {datum : Datum} (faithful : datum.isExact = true)
    (shallow : datum.depth ≤ maxDepth) : read (writeIndented datum) = some datum :=
  read_of_spells faithful shallow (spells_indented 0 datum faithful)

/-! Different data are written differently, however deep they are nested. -/

/-- What follows the first item of a list. -/
def spelledOthers : List Datum → List Token
  | [] => []
  | item :: rest => .comma :: spelledItems (item :: rest)

def spelledOtherEntries : List (Key × Datum) → List Token
  | [] => []
  | entry :: rest => .comma :: spelledEntries (entry :: rest)

theorem spelled_items_cons (item : Datum) (others : List Datum) :
    spelledItems (item :: others) = spelled item ++ spelledOthers others := by
  cases others with
  | nil => exact (List.append_nil _).symm
  | cons next rest => rfl

theorem spelled_entries_cons (key : Key) (datum : Datum) (others : List (Key × Datum)) :
    spelledEntries ((key, datum) :: others) =
      keyToken key :: .colon :: (spelled datum ++ spelledOtherEntries others) := by
  cases others with
  | nil => rw [spelledEntries, spelledOtherEntries, List.append_nil]
  | cons next rest => rfl

theorem key_token_injective {first second : Key} (named : first.isName = true)
    (other : second.isName = true) (same : keyToken first = keyToken second) :
    first = second := by
  cases first with
  | name text =>
      cases second with
      | name => simpa [keyToken] using same
      | position | other => cases other
  | position | other => cases named

mutual

theorem spelled_prefix_free : ∀ (first second : Datum) (rest after : List Token),
    first.isExact = true → second.isExact = true →
      spelled first ++ rest = spelled second ++ after → first = second ∧ rest = after
  | .list items, second, rest, after, one, two, same => by
      cases second with
      | list others =>
          simp only [spelled, List.cons_append, List.append_assoc, List.nil_append,
            List.cons.injEq, true_and] at same
          obtain ⟨rfl, rfl⟩ := spelled_items_prefix_free items others rest after one two same
          exact ⟨rfl, rfl⟩
      | _ => simp [spelled] at same
  | .record entries, second, rest, after, one, two, same => by
      cases second with
      | record others =>
          simp only [spelled, List.cons_append, List.append_assoc, List.nil_append,
            List.cons.injEq, true_and] at same
          obtain ⟨rfl, rfl⟩ :=
            spelled_entries_prefix_free entries others rest after one two same
          exact ⟨rfl, rfl⟩
      | _ => simp [spelled] at same
  | .text _, second, _, _, _, _, same | .null, second, _, _, _, _, same
  | .bool _, second, _, _, _, _, same | .int _, second, _, _, _, _, same => by
      cases second <;> simp_all [spelled]

theorem spelled_items_prefix_free : ∀ (items others : List Datum) (rest after : List Token),
    Datum.areExact items = true → Datum.areExact others = true →
      spelledItems items ++ .closeList :: rest = spelledItems others ++ .closeList :: after →
        items = others ∧ rest = after
  | [], [], _, _, _, _, same => by simpa [spelledItems] using same
  | [], item :: more, _, _, _, _, same => absurd same.symm (spelled_items_open item more _ _)
  | item :: more, [], _, _, _, _, same => absurd same (spelled_items_open item more _ _)
  | item :: more, other :: further, rest, after, one, two, same => by
      obtain ⟨value, ones⟩ := Bool.and_eq_true_iff.mp one
      obtain ⟨image, twos⟩ := Bool.and_eq_true_iff.mp two
      rw [spelled_items_cons, spelled_items_cons, List.append_assoc, List.append_assoc] at same
      obtain ⟨rfl, onward⟩ := spelled_prefix_free item other _ _ value image same
      match more, further with
      | [], [] => simpa [spelledOthers] using onward
      | [], _ :: _ | _ :: _, [] => simp [spelledOthers] at onward
      | next :: more, another :: further =>
          simp only [spelledOthers, List.cons_append, List.cons.injEq, true_and] at onward
          obtain ⟨alike, rfl⟩ := spelled_items_prefix_free (next :: more) (another :: further)
            rest after ones twos onward
          exact ⟨congrArg _ alike, rfl⟩

theorem spelled_entries_prefix_free : ∀ (entries others : List (Key × Datum))
    (rest after : List Token), Datum.entriesAreExact entries = true →
      Datum.entriesAreExact others = true →
        spelledEntries entries ++ .closeRecord :: rest =
            spelledEntries others ++ .closeRecord :: after →
          entries = others ∧ rest = after
  | [], [], _, _, _, _, same => by simpa [spelledEntries] using same
  | [], entry :: more, _, _, _, _, same => absurd same.symm (spelled_entries_open entry more _ _)
  | entry :: more, [], _, _, _, _, same => absurd same (spelled_entries_open entry more _ _)
  | (key, datum) :: more, (name, content) :: further, rest, after, one, two, same => by
      obtain ⟨entry, ones⟩ := Bool.and_eq_true_iff.mp one
      obtain ⟨counterpart, twos⟩ := Bool.and_eq_true_iff.mp two
      obtain ⟨named, value⟩ := Bool.and_eq_true_iff.mp entry
      obtain ⟨called, image⟩ := Bool.and_eq_true_iff.mp counterpart
      rw [spelled_entries_cons, spelled_entries_cons] at same
      simp only [List.cons_append, List.append_assoc, List.cons.injEq, true_and] at same
      obtain rfl := key_token_injective named called same.1
      obtain ⟨rfl, onward⟩ := spelled_prefix_free datum content _ _ value image same.2
      match more, further with
      | [], [] => simpa [spelledOtherEntries] using onward
      | [], _ :: _ | _ :: _, [] => simp [spelledOtherEntries] at onward
      | next :: more, another :: further =>
          simp only [spelledOtherEntries, List.cons_append, List.cons.injEq, true_and] at onward
          obtain ⟨alike, rfl⟩ := spelled_entries_prefix_free (next :: more)
            (another :: further) rest after ones twos onward
          exact ⟨congrArg _ alike, rfl⟩

end

theorem write_injective {first second : Datum} (one : first.isExact = true)
    (two : second.isExact = true) (same : write first = write second) : first = second := by
  have alike : chars first = chars second := String.ofList_injective same
  have words : spelled first = spelled second := by
    have spells := spells_chars first one [] rfl
    rw [alike, spells_chars second two [] rfl, tokens_nil] at spells
    simpa using spells.symm
  exact (spelled_prefix_free first second [] [] one two (by rw [words])).1

end Json

end BehaviorTree
