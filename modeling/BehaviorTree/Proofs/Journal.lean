import BehaviorTree.Proofs.Fitting
import BehaviorTree.Proofs.Lines
import BehaviorTree.Proofs.Logging

/-!
Events that are written to a log and read back. Every event is one line behind those that are there,
and the last events of the log are the last of those that its lines told before and of those that
were written since.
-/

namespace BehaviorTree

/-! Written data have no control characters, so they are on one line. -/

namespace Json

theorem digit_visible : ∀ code < 0x10, 0x20 ≤ code.digitChar.toNat := by decide

theorem escaped_visible (char : Char) : ∀ shown ∈ escaped char, 0x20 ≤ shown.toNat := by
  have letter : ∀ {letter : Char}, 0x20 ≤ letter.toNat →
      ∀ shown ∈ ['\\', letter], 0x20 ≤ shown.toNat := by
    intro letter visible
    simpa using visible
  unfold escaped
  iterate 7
    split
    · exact letter (by decide)
  split
  next small =>
    rw [hexadecimal_digit small]
    simpa using digit_visible _ small
  split
  next large small =>
    rw [hexadecimal_teen (by omega) small]
    simpa using digit_visible _ (Nat.mod_lt _ (by decide))
  next visible => simpa using visible

theorem visible_of_all {shown : List Char}
    (all : shown.all (fun char => decide (0x20 ≤ char.toNat)) = true) :
    ∀ char ∈ shown, 0x20 ≤ char.toNat := by
  simpa using all

theorem quoted_visible (text : String) : ∀ shown ∈ quoted text, 0x20 ≤ shown.toNat := by
  simp only [quoted, List.cons_append, List.forall_mem_cons, List.forall_mem_append,
    List.mem_flatMap]
  refine ⟨by decide, ?_, by simp⟩
  rintro shown ⟨char, -, inside⟩
  exact escaped_visible char shown inside

theorem of_int_visible (number : Int) : ∀ shown ∈ Decimal.ofInt number, 0x20 ≤ shown.toNat := by
  have digits : ∀ magnitude, ∀ shown ∈ Decimal.digits magnitude, 0x20 ≤ shown.toNat := by
    intro magnitude shown inside
    have digit := is_digit_of_mem inside
    simp only [Char.isDigit, Bool.and_eq_true, decide_eq_true_eq] at digit
    exact Nat.le_trans (by decide) (UInt32.le_iff_toNat_le.mp digit.1)
  cases number with
  | ofNat magnitude => exact digits magnitude
  | negSucc below => exact List.forall_mem_cons.mpr ⟨by decide, digits (below + 1)⟩

theorem key_visible {key : Key} (named : key.isName = true) :
    ∀ shown ∈ keyChars key, 0x20 ≤ shown.toNat := by
  cases key with
  | name text => exact quoted_visible text
  | position | other => cases named

mutual

theorem chars_visible : ∀ datum : Datum, datum.isExact = true →
    ∀ shown ∈ chars datum, 0x20 ≤ shown.toNat
  | .list items, faithful => by
      have inner := item_chars_visible items faithful
      simp only [chars, List.cons_append, List.forall_mem_cons, List.forall_mem_append]
      exact ⟨by decide, inner, by simp⟩
  | .record entries, faithful => by
      have inner := entry_chars_visible entries faithful
      simp only [chars, List.cons_append, List.forall_mem_cons, List.forall_mem_append]
      exact ⟨by decide, inner, by simp⟩
  | .null, _ | .bool true, _ | .bool false, _ => visible_of_all (by decide)
  | .int number, _ => of_int_visible number
  | .text text, _ => quoted_visible text

theorem item_chars_visible : ∀ items : List Datum, Datum.areExact items = true →
    ∀ shown ∈ itemChars items, 0x20 ≤ shown.toNat
  | [], _ => by simp [itemChars]
  | [item], faithful => chars_visible item (Bool.and_eq_true_iff.mp faithful).1
  | item :: next :: rest, faithful => by
      obtain ⟨first, others⟩ := Bool.and_eq_true_iff.mp faithful
      simp only [itemChars, List.forall_mem_cons, List.forall_mem_append]
      exact ⟨chars_visible item first, by decide, item_chars_visible (next :: rest) others⟩

theorem entry_chars_visible : ∀ entries : List (Key × Datum),
    Datum.entriesAreExact entries = true → ∀ shown ∈ entryChars entries, 0x20 ≤ shown.toNat
  | [], _ => by simp [entryChars]
  | [(key, datum)], faithful => by
      obtain ⟨first, -⟩ := Bool.and_eq_true_iff.mp faithful
      obtain ⟨named, inside⟩ := Bool.and_eq_true_iff.mp first
      simp only [entryChars, List.forall_mem_cons, List.forall_mem_append]
      exact ⟨key_visible named, by decide, chars_visible datum inside⟩
  | (key, datum) :: next :: rest, faithful => by
      obtain ⟨first, others⟩ := Bool.and_eq_true_iff.mp faithful
      obtain ⟨named, inside⟩ := Bool.and_eq_true_iff.mp first
      simp only [entryChars, List.cons_append, List.append_assoc, List.forall_mem_cons,
        List.forall_mem_append]
      exact ⟨key_visible named, by decide, chars_visible datum inside, by decide,
        entry_chars_visible (next :: rest) others⟩

end

theorem write_one_line {datum : Datum} (faithful : datum.isExact = true) :
    '\n' ∉ (write datum).toList ∧ '\r' ∉ (write datum).toList := by
  have visible := chars_visible datum faithful
  rw [write, String.toList_ofList]
  exact ⟨fun inside => absurd (visible _ inside) (by decide),
    fun inside => absurd (visible _ inside) (by decide)⟩

end Json

/-! Records in the order of their keys stay as they are. -/

namespace Table

variable {Entry : Type}

theorem insert_into_last {key : String} {entry : Entry} {entries : List (String × Entry)}
    (above : ∀ held ∈ entries, held.1 < key) :
    insertInto key entry entries = entries ++ [(key, entry)] := by
  induction entries with
  | nil => rfl
  | cons held rest ih =>
      obtain ⟨first, others⟩ := List.forall_mem_cons.mp above
      have apart : key ≠ held.1 := (String.ne_of_lt first).symm
      have later : ¬key < held.1 := String.lt_asymm first
      rw [insertInto, if_neg apart, if_neg later, ih others, List.cons_append]

theorem of_list_ascending {entries : List (String × Entry)}
    (ascending : entries.Pairwise fun one other => one.1 < other.1) :
    (ofList entries).entries = entries := by
  have grown : ∀ early late : List (String × Entry),
      (early ++ late).Pairwise (fun one other => one.1 < other.1) →
        (late.foldl (fun (table : Table Entry) pair => table.insert pair.1 pair.2)
          { entries := early }).entries = early ++ late := by
    intro early late sorted
    induction late generalizing early with
    | nil => rw [List.foldl_nil, List.append_nil]
    | cons pair rest ih =>
        have above : ∀ held ∈ early, held.1 < pair.1 := fun held inside =>
          (List.pairwise_append.mp sorted).2.2 held inside pair List.mem_cons_self
        rw [List.foldl_cons, insert, insert_into_last above, List.append_cons early pair rest]
        exact ih (early ++ [pair]) (List.append_cons early pair rest ▸ sorted)
  exact grown [] entries ascending

end Table

def Key.name? : Key → Option String
  | .name text => some text
  | .position _ | .other => none

namespace Datum

mutual

/-- Whether the entries of every record are in the order of their names, and none is repeated. -/
def isOrdered : Datum → Bool
  | .list items => areOrdered items
  | .record entries =>
      decide ((entries.filterMap (·.1.name?)).Pairwise (· < ·)) && entriesAreOrdered entries
  | _ => true

def areOrdered : List Datum → Bool
  | [] => true
  | item :: rest => isOrdered item && areOrdered rest

def entriesAreOrdered : List (Key × Datum) → Bool
  | [] => true
  | (_, datum) :: rest => isOrdered datum && entriesAreOrdered rest

end

theorem ordered_names (entries : List (Key × Datum)) :
    (orderedEntries entries).map (·.1) = entries.filterMap (·.1.name?) := by
  induction entries with
  | nil => rfl
  | cons entry rest ih =>
      obtain ⟨key, datum⟩ := entry
      cases key <;> simp [orderedEntries, Key.name?, ih]

mutual

theorem ordered_same : ∀ datum : Datum, datum.isExact = true → datum.isOrdered = true →
    datum.ordered = datum
  | .list items, faithful, sorted => by
      rw [ordered, ordered_items_same items faithful sorted]
  | .record entries, faithful, sorted => by
      obtain ⟨names, inner⟩ := Bool.and_eq_true_iff.mp sorted
      have ascending : (orderedEntries entries).Pairwise fun one other => one.1 < other.1 := by
        rw [← List.pairwise_map (R := (· < ·)), ordered_names]
        exact of_decide_eq_true names
      rw [ordered, Table.of_list_ascending ascending, ofFields,
        ordered_entries_same entries faithful inner]
  | .null, _, _ | .bool _, _, _ | .int _, _, _ | .text _, _, _ => rfl

theorem ordered_items_same : ∀ items : List Datum, areExact items = true →
    areOrdered items = true → orderedItems items = items
  | [], _, _ => rfl
  | item :: rest, faithful, sorted => by
      obtain ⟨firstExact, othersExact⟩ := Bool.and_eq_true_iff.mp faithful
      obtain ⟨first, others⟩ := Bool.and_eq_true_iff.mp sorted
      rw [orderedItems, ordered_same item firstExact first,
        ordered_items_same rest othersExact others]

theorem ordered_entries_same : ∀ entries : List (Key × Datum), entriesAreExact entries = true →
    entriesAreOrdered entries = true →
      (orderedEntries entries).map (fun field => (Key.name field.1, field.2)) = entries
  | [], _, _ => rfl
  | (.name name, datum) :: rest, faithful, sorted => by
      obtain ⟨firstExact, othersExact⟩ := Bool.and_eq_true_iff.mp faithful
      obtain ⟨first, others⟩ := Bool.and_eq_true_iff.mp sorted
      rw [orderedEntries, List.map_cons, ordered_same datum firstExact first,
        ordered_entries_same rest othersExact others]

end

end Datum

/-! Events. -/

namespace Event

/-- What is asked of an event that is to be read back: its moment is read as it is written, and what
belongs to it has no doubles, is a table in the order of its names wherever it is a record, and is
nested no deeper than a reader goes, one level inside the event. -/
structure Lasts (event : Event) : Prop where
  moment : Timestamp.read event.timestamp.write = some event.timestamp
  faithful : event.metadata.isExact = true
  sorted : event.metadata.isOrdered = true
  shallow : event.metadata.depth < Json.maxDepth

variable {event : Event}

theorem Lasts.ordered (lasts : event.Lasts) : event.metadata.ordered = event.metadata :=
  Datum.ordered_same event.metadata lasts.faithful lasts.sorted

/-- The items of an event. -/
def fields (event : Event) : List (String × Datum) :=
  ("timestamp", .text event.timestamp.write) :: event.contentFields

theorem fields_known (event : Event) : (event.fields.map (·.1)).Sublist shape.names := by
  rw [fields, contentFields]
  cases event.node <;> exact List.isSublist_iff_sublist.mp rfl

theorem to_datum_exact (lasts : event.Lasts) : event.toDatum.isExact = true := by
  rw [toDatum, Datum.of_fields_exact_iff, contentFields, lasts.ordered]
  cases event.node <;> simp [nodeField, Datum.isExact, lasts.faithful]

theorem to_datum_depth (lasts : event.Lasts) : event.toDatum.depth ≤ Json.maxDepth := by
  have inner : event.metadata.depth ≤ 126 := Nat.le_of_lt_succ lasts.shallow
  have fits : event.toDatum.depth ≤ 126 + 1 := by
    rw [toDatum, Datum.of_fields_depth_le_iff, contentFields, lasts.ordered]
    cases event.node <;> simp [nodeField, Datum.depth, inner]
  exact fits

theorem of_datum_to_datum (lasts : event.Lasts) : ofDatum? event.toDatum = some event := by
  have metadata : metadataOf? event.metadata = some event.metadata := by
    rw [metadataOf?, if_pos (Datum.readable_of_exact _ lasts.faithful), lasts.ordered]
  have moment := lasts.moment
  have sorted := lasts.ordered
  have whole := Shape.items_of_fields event.fields_known (by decide)
  rw [ofDatum?, toDatum, ← fields, whole]
  obtain ⟨timestamp, kind, tree, node, message, extra⟩ := event
  cases node <;>
    simp_all [fields, contentFields, nodeField, Items.required, Items.optional,
      Items.withDefault, Items.find_cons, Items.find_nil, Datum.asText?, Datum.asOption?]

/-- An event is read back from its line. -/
theorem read_write (lasts : event.Lasts) : read event.write = some event := by
  rw [read, write, Json.read_write (to_datum_exact lasts) (to_datum_depth lasts),
    Option.bind_some, of_datum_to_datum lasts]

theorem write_one_line (lasts : event.Lasts) :
    '\n' ∉ event.write.toList ∧ '\r' ∉ event.write.toList :=
  Json.write_one_line (to_datum_exact lasts)

theorem read_lines {events : List Event} (lasting : ∀ event ∈ events, event.Lasts) :
    ((events.map write).map Text.withoutReturn).filterMap read = events := by
  induction events with
  | nil => rfl
  | cons event rest ih =>
      obtain ⟨first, others⟩ := List.forall_mem_cons.mp lasting
      have line := Text.without_return_same (write_one_line first).2
      rw [List.map_cons, List.map_cons, line, List.filterMap_cons_some (read_write first),
        ih others]

end Event

/-! Logs. -/

namespace Disk

section

variable {disk ready after : Disk} {path : String} {content more : List UInt8}

theorem Extends.follow (grown : disk.Extends ready) {place last : Place} {steps : List String}
    (led : disk.follow place steps = some last) : ready.follow place steps = some last := by
  induction steps generalizing place with
  | nil => exact led
  | cons step rest ih =>
      rw [Disk.follow] at led ⊢
      cases known : disk.isDirectory place with
      | false => simp [known] at led
      | true =>
          rw [known] at led
          rw [grown.directories place known]
          simp only [Bool.not_true, Bool.false_eq_true, if_false] at led ⊢
          split at led
          next up => rw [if_pos up]; exact ih led
          next onward => rw [if_neg onward]; exact ih led

theorem Extends.locate (grown : disk.Extends ready) {place : Place}
    (located : disk.locate path = some place) : ready.locate path = some place := by
  obtain ⟨last, led, kept⟩ := Option.bind_eq_some_iff.mp located
  have begins : ready.start path = disk.start path := by
    rw [start, start, grown.workingDirectory]
  rw [Disk.locate, begins, grown.follow led, Option.bind_eq_bind, Option.bind_some]
  split at kept
  next => cases kept
  next free =>
    cases kept
    refine if_neg fun insists => free ?_
    obtain ⟨names, absent⟩ := Bool.and_eq_true_iff.mp insists
    cases known : disk.isDirectory place with
    | false => exact Bool.and_eq_true_iff.mpr ⟨names, rfl⟩
    | true => simp [grown.directories place known] at absent

/-- A file that is there is what is opened to be written. -/
theorem log_of_read (read : disk.read? path = some content)
    (appended : disk.append? path more = some after) : disk.log? path = some content := by
  obtain ⟨place, located, file⟩ := Option.bind_eq_some_iff.mp read
  obtain ⟨ready, other, opens⟩ := opens_of_append appended
  obtain ⟨way, made⟩ := opens.made
  have grown := make_way_extends made
  cases (grown.locate located).symm.trans opens.located
  have same : ready.file? place = disk.file? place := by rw [file?, grown.files, ← file?]
  rw [opens.log, same, file, Option.getD_some]

end

/-- What lines are in a log; none if it is not there but can be written. -/
def Logs (disk : Disk) (path : String) (lines : List String) : Prop :=
  disk.read? path = some (Event.contentOf lines) ∨ lines = [] ∧ disk.log? path = some []

/-- Adds some events to a log, one after another; `none` if the log cannot be written. -/
def emitEach? (disk : Disk) (path : String) (events : List Event) : Option Disk :=
  events.foldlM (fun disk event => disk.emit? path event) disk

variable {disk after : Disk} {path : String} {lines : List String} {event : Event}

theorem Logs.opened (logs : disk.Logs path lines) (emitted : disk.emit? path event = some after) :
    disk.log? path = some (Event.contentOf lines) := by
  rw [emit_eq_append] at emitted
  rcases logs with there | ⟨rfl, opened⟩
  · exact log_of_read there emitted
  · exact opened

/-- An event that is written adds its line, and changes nothing that was there. -/
theorem Logs.emit (logs : disk.Logs path lines) (emitted : disk.emit? path event = some after) :
    after.read? path = some (Event.contentOf lines ++ event.lineBytes) := by
  obtain ⟨other, appended, read, -⟩ := log_append (logs.opened emitted) event.lineBytes
  rw [emit_eq_append] at emitted
  cases emitted.symm.trans appended
  exact read

theorem Logs.onward (logs : disk.Logs path lines) (emitted : disk.emit? path event = some after) :
    after.Logs path (lines ++ [event.write]) := by
  left
  rw [logs.emit emitted, Event.contentOf, Event.contentOf, List.flatMap_append,
    List.flatMap_singleton, Event.lineBytes, Event.textBytes]

theorem Logs.each {events : List Event} (logs : disk.Logs path lines)
    (emitted : disk.emitEach? path events = some after) :
    after.Logs path (lines ++ events.map Event.write) := by
  induction events generalizing disk lines with
  | nil =>
      cases emitted
      simpa using logs
  | cons event rest ih =>
      rw [emitEach?, List.foldlM_cons] at emitted
      obtain ⟨middle, first, others⟩ := Option.bind_eq_some_iff.mp emitted
      have onward := ih (logs.onward first) others
      rwa [List.append_assoc] at onward

/-- A log that can be written takes all events. -/
theorem emitted_of_opened {content : List UInt8} (opened : disk.log? path = some content)
    (events : List Event) : ∃ after, disk.emitEach? path events = some after := by
  induction events generalizing disk content with
  | nil => exact ⟨disk, rfl⟩
  | cons event rest ih =>
      obtain ⟨next, emitted, -, onward⟩ := log_append opened event.lineBytes
      obtain ⟨after, others⟩ := ih onward
      refine ⟨after, ?_⟩
      rw [emitEach?, List.foldlM_cons, emit_eq_append, emitted]
      exact others

/-- What is read of a log are the events that its lines tell. -/
theorem Logs.recent (logs : disk.Logs path lines) (whole : ∀ line ∈ lines, '\n' ∉ line.toList)
    (limit : Nat) :
    disk.recentEvents path limit =
      Event.last limit ((lines.map Text.withoutReturn).filterMap Event.read) := by
  rcases logs with there | ⟨rfl, opened⟩
  · rw [recentEvents, there]
    exact congrArg (Event.last limit) (Event.of_content whole)
  · cases read : disk.read? path with
    | none =>
        rw [recentEvents, read]
        exact List.drop_nil.symm
    | some content =>
        obtain ⟨_, appended, -⟩ := Option.bind_eq_some_iff.mp opened
        cases (log_of_read read appended).symm.trans opened
        rw [recentEvents, read]
        rfl

/-- Of a log that events were written to, behind lines that were there, all are read. -/
theorem Logs.recent_written {events : List Event}
    (logs : disk.Logs path (lines ++ events.map Event.write))
    (complete : ∀ line ∈ lines, '\n' ∉ line.toList) (lasting : ∀ event ∈ events, event.Lasts)
    (limit : Nat) :
    disk.recentEvents path limit =
      Event.last limit ((lines.map Text.withoutReturn).filterMap Event.read ++ events) := by
  have whole : ∀ line ∈ lines ++ events.map Event.write, '\n' ∉ line.toList := by
    rw [List.forall_mem_append, List.forall_mem_map]
    exact ⟨complete, fun event inside => (Event.write_one_line (lasting event inside)).1⟩
  rw [logs.recent whole, List.map_append, List.filterMap_append, Event.read_lines lasting]

end Disk

/-- Of events that are written to a log of complete lines each adds one line, which has no end in
it, behind what is there; and then the last events of the log are the last of those that its lines
told before, if there are any, and of those that were written since. -/
theorem Disk.written_events_are_recent {disk after : Disk} {path : String} {lines : List String}
    {events : List Event} (complete : ∀ line ∈ lines, '\n' ∉ line.toList)
    (logs : disk.Logs path lines) (lasting : ∀ event ∈ events, event.Lasts)
    (emitted : disk.emitEach? path events = some after) :
    (∀ early event late, events = early ++ event :: late →
      ∃ before next line, disk.emitEach? path early = some before ∧
        before.emit? path event = some next ∧
        before.Logs path (lines ++ early.map Event.write) ∧ Event.newLine ∉ line ∧
        next.read? path =
          some (Event.contentOf (lines ++ early.map Event.write) ++ line ++ [Event.newLine])) ∧
    ∀ limit,
      let all := (lines.map Text.withoutReturn).filterMap Event.read ++ events
      after.recentEvents path limit = all.drop (all.length - min limit all.length) := by
  constructor
  · rintro early event late rfl
    rw [emitEach?, List.foldlM_append] at emitted
    obtain ⟨before, first, others⟩ := Option.bind_eq_some_iff.mp emitted
    rw [List.foldlM_cons] at others
    obtain ⟨next, adds, -⟩ := Option.bind_eq_some_iff.mp others
    have held := logs.each first
    refine ⟨before, next, event.write.toUTF8.toList, first, adds, held, ?_, ?_⟩
    · exact mt (Event.new_line_mem _).mp (Event.write_one_line (lasting event (by simp))).1
    · rw [held.emit adds, Event.lineBytes, Event.textBytes, List.append_assoc]
  · intro limit all
    rw [(logs.each emitted).recent_written complete lasting]
    change all.drop (all.length - limit) = _
    congr 1
    omega

/-- Two events with line ends, quotes and controls, behind an event between two lines that are no
events. -/
theorem Disk.awkward_events_are_recent :
    let early : Event := { kind := "", tree := "né", node := some "\n", message := "x" }
    let lines := ["no event", early.write, "\x7b\x7d\r"]
    let disk : Disk := { files := [(["log"], Event.contentOf lines)] }
    let first : Event :=
      { kind := "a\n\"b\"", tree := "t\\", message := "\x00\r\n"
        metadata := .ofFields [("from", .null), ("to", .list [.int (-1), .text "\n"])] }
    let second : Event := { early with message := "\u2028", metadata := .list [] }
    (∀ line ∈ lines, '\n' ∉ line.toList) ∧ disk.Logs "log" lines ∧
      (∀ event ∈ [first, second], event.Lasts) ∧
      ∃ after, disk.emitEach? "log" [first, second] = some after ∧
        after.recentEvents "log" 2 = [first, second] ∧
        after.recentEvents "log" 9 = [early, first, second] := by
  intro early lines disk first second
  have moment : Timestamp.read (Timestamp.write {}) = some {} := by decide +kernel
  have earlier : early.Lasts := ⟨moment, rfl, rfl, by decide⟩
  have lasting : ∀ event ∈ [first, second], event.Lasts := by
    simp only [List.forall_mem_cons]
    exact ⟨⟨moment, by decide, by decide, by decide⟩, ⟨moment, rfl, rfl, by decide⟩, by simp⟩
  have complete : ∀ line ∈ lines, '\n' ∉ line.toList := by
    simp only [lines, List.forall_mem_cons]
    exact ⟨by decide, (Event.write_one_line earlier).1, by decide, by simp⟩
  have told : (lines.map Text.withoutReturn).filterMap Event.read = [early] := by
    have before : Event.read (Text.withoutReturn "no event") = none :=
      Option.isNone_iff_eq_none.mp (by decide +kernel)
    have between : Event.read (Text.withoutReturn early.write) = some early := by
      rw [Text.without_return_same (Event.write_one_line earlier).2, Event.read_write earlier]
    have behind : Event.read (Text.withoutReturn "\x7b\x7d\r") = none :=
      Option.isNone_iff_eq_none.mp (by decide +kernel)
    simp [lines, before, between, behind]
  have located : disk.locate "log" = some ["log"] := by decide +kernel
  have opens : disk.Opens "log" disk ["log"] := by
    have straight : (Text.Path.steps "log").dropLast = [] := by decide +kernel
    exact ⟨⟨_, by rw [straight]; rfl⟩, located, rfl⟩
  have logs : disk.Logs "log" lines := .inl (by rw [read?, located]; rfl)
  obtain ⟨after, emitted⟩ := emitted_of_opened opens.log [first, second]
  have recent := (written_events_are_recent complete logs lasting emitted).2
  rw [told] at recent
  exact ⟨complete, logs, lasting, after, emitted, recent 2, recent 9⟩

end BehaviorTree
