import BehaviorTree.Proofs.Fitting
import BehaviorTree.Report.Record
import BehaviorTree.Trace.Record

/-!
Reports and trace logs in writing. What is written of them is read back as it was, and of two
different ones the writing differs.
-/

namespace BehaviorTree

theorem Status.of_datum_to_datum (status : Status) : Status.ofDatum? status.toDatum = some status :=
  status.ofName?_name

theorem Kind.of_datum_to_datum (kind : Kind) : Kind.ofDatum? kind.toDatum = some kind := by
  cases kind <;> rfl

/-! Reports. -/

namespace Report

theorem to_data_eq_map (reports : List Report) : toData reports = reports.map toDatum := by
  induction reports with
  | nil => rfl
  | cons report rest ih => rw [toData, ih, List.map_cons]

/-- The items of a report. -/
def fields : Report → List (String × Datum)
  | .node name kind status message children =>
      [("name", .text name), ("kind", kind.toDatum), ("status", status.toDatum)] ++
        (if message.isEmpty then [] else [("message", .text message)]) ++
        if children.isEmpty then [] else [("children", .list (children.map toDatum))]

theorem to_datum_eq (report : Report) : report.toDatum = .ofFields report.fields := by
  cases report
  rw [toDatum, fields, to_data_eq_map]

theorem fields_known (report : Report) : (report.fields.map (·.1)).Sublist shape.names := by
  obtain ⟨name, kind, status, message, children⟩ := report
  rw [fields]
  split <;> split <;> exact List.isSublist_iff_sublist.mp rfl

theorem child_depth {name : String} {kind : Kind} {status : Status} {message : String}
    {children : List Report} {child : Report} (inside : child ∈ children) :
    child.toDatum.depth < (toDatum (.node name kind status message children)).depth := by
  have listed : ("children", Datum.list (children.map toDatum)) ∈
      fields (.node name kind status message children) := by
    have parent : children ≠ [] := List.ne_nil_of_mem inside
    simp [fields, parent]
  rw [to_datum_eq (.node name kind status message children)]
  exact Nat.lt_trans (Datum.depth_lt_of_mem (List.mem_map_of_mem inside))
    (Datum.depth_lt_of_field listed)

/-- A report is read back from its data, given as many levels as there are. -/
theorem of_datum_within {levels : Nat} {report : Report}
    (shallow : report.toDatum.depth ≤ levels) :
    ofDatumWithin levels report.toDatum = some report := by
  induction levels generalizing report with
  | zero =>
      rw [to_datum_eq] at shallow
      have deep := Datum.of_fields_depth_pos report.fields
      omega
  | succ levels ih =>
      obtain ⟨name, kind, status, message, children⟩ := report
      have listed : Datum.asList? (ofDatumWithin levels) (.list (children.map toDatum)) =
          some children := by
        apply Datum.as_list_map
        intro child inside
        exact ih (Nat.le_of_lt_succ (Nat.lt_of_lt_of_le (child_depth inside) shallow))
      rw [ofDatumWithin, to_datum_eq, Shape.items_of_fields (fields_known _) (by decide)]
      -- The two items that may be left out are found or else have their defaults.
      by_cases silent : message = "" <;> by_cases childless : children = []
      all_goals simp [fields, Items.required, Items.withDefault, Items.find_cons,
        Items.find_nil, Datum.asText?, Kind.of_datum_to_datum, Status.of_datum_to_datum, silent,
        childless, listed]

theorem of_datum_to_datum (report : Report) : ofDatum? report.toDatum = some report :=
  of_datum_within (Nat.le_refl _)

theorem to_datum_injective {first second : Report} (same : first.toDatum = second.toDatum) :
    first = second := by
  have back := of_datum_to_datum first
  rw [same, of_datum_to_datum] at back
  exact (Option.some.inj back).symm

mutual

theorem to_datum_exact : ∀ report : Report, report.toDatum.isExact = true
  | .node name kind status message children => by
      have below := to_data_exact children
      rw [toDatum, Datum.of_fields_exact_iff]
      by_cases silent : message = "" <;> by_cases childless : children = []
      all_goals simp_all [Datum.isExact, Kind.toDatum, Status.toDatum]

theorem to_data_exact : ∀ reports : List Report, Datum.areExact (toData reports) = true
  | [] => rfl
  | report :: rest => by
      rw [toData, Datum.areExact, to_datum_exact report, to_data_exact rest]
      rfl

end

end Report

/-! Trace logs. -/

namespace TraceEvent

theorem to_datum_exact (event : TraceEvent) : event.toDatum.isExact = true := by
  obtain ⟨node, tag, status, detail⟩ := event
  rw [toDatum, Datum.of_fields_exact_iff]
  cases status <;> cases detail <;> simp [Datum.isExact, Status.toDatum, textOrNull]

theorem to_datum_depth (event : TraceEvent) : event.toDatum.depth ≤ 1 := by
  obtain ⟨node, tag, status, detail⟩ := event
  rw [toDatum, Datum.of_fields_depth_le_iff]
  cases status <;> cases detail <;> simp [Datum.depth, Status.toDatum, textOrNull]

theorem of_datum_to_datum (event : TraceEvent) : ofDatum? event.toDatum = some event := by
  obtain ⟨node, tag, status, detail⟩ := event
  have shown : (Option.getD (status.map Status.toDatum) .null).asOption? Status.ofDatum? =
      some status := by
    cases status with
    | none => rfl
    | some status => cases status <;> rfl
  have detailed : (textOrNull detail).asOption? Datum.asText? = some detail := by
    cases detail <;> rfl
  rw [ofDatum?, toDatum, Shape.items_of_fields (.refl _) (by decide)]
  simp [Items.required, Items.optional, Items.find_cons, Datum.asText?, shown, detailed]

end TraceEvent

namespace TraceLog

theorem to_datum_exact (log : TraceLog) : log.toDatum.isExact = true := by
  rw [toDatum, Datum.of_fields_exact_iff]
  simp [Datum.isExact, Datum.are_exact_iff, TraceEvent.to_datum_exact]

theorem to_datum_depth (log : TraceLog) : log.toDatum.depth ≤ 3 := by
  rw [toDatum, Datum.of_fields_depth_le_iff]
  simp [Datum.list_depth_le_iff, TraceEvent.to_datum_depth]

theorem of_datum_to_datum (log : TraceLog) : ofDatum? log.toDatum = some log := by
  have listed : Datum.asList? TraceEvent.ofDatum? (.list (log.events.map TraceEvent.toDatum)) =
      some log.events :=
    Datum.as_list_map fun event _ => event.of_datum_to_datum
  rw [ofDatum?, toDatum, Shape.items_of_fields (.refl _) (by decide)]
  simp [Items.required, Items.find_cons, listed]

theorem to_datum_injective {first second : TraceLog} (same : first.toDatum = second.toDatum) :
    first = second := by
  have back := of_datum_to_datum first
  rw [same, of_datum_to_datum] at back
  exact (Option.some.inj back).symm

end TraceLog

/-! What was written is read back. -/

namespace Report

def message : Report → String
  | .node _ _ _ message _ => message

def children : Report → List Report
  | .node _ _ _ _ children => children

theorem message_field (report : Report) :
    "message" ∈ report.fields.map (·.1) ↔ report.message ≠ "" := by
  obtain ⟨name, kind, status, message, children⟩ := report
  by_cases silent : message = "" <;> by_cases childless : children = []
  all_goals simp [fields, Report.message, silent, childless]

theorem children_field (report : Report) :
    "children" ∈ report.fields.map (·.1) ↔ report.children ≠ [] := by
  obtain ⟨name, kind, status, message, children⟩ := report
  by_cases silent : message = "" <;> by_cases childless : children = []
  all_goals simp [fields, Report.children, silent, childless]

theorem read_indented {report : Report} (shallow : report.toDatum.depth ≤ Json.maxDepth) :
    read report.writeIndented = some report := by
  rw [read, writeIndented, Json.read_write_indented report.to_datum_exact shallow,
    Option.bind_some, report.of_datum_to_datum]

end Report

/-- A report nested as deep as a reader goes is read back from what is written of it, on one line or
indented, with the message and the children that were left out because there were none; every trace
log is read back; and different ones are written differently, however deep they are nested. -/
theorem reports_and_logs_read_back :
    (∀ report : Report, report.toDatum.depth ≤ Json.maxDepth →
      Report.read report.write = some report ∧
        Report.read report.writeIndented = some report ∧
        ∃ fields, Json.read report.write = some (.ofFields fields) ∧
          ("message" ∈ fields.map (·.1) ↔ report.message ≠ "") ∧
          ("children" ∈ fields.map (·.1) ↔ report.children ≠ [])) ∧
    (∀ log : TraceLog, TraceLog.read log.write = some log) ∧
    (∀ first second : Report, first ≠ second → first.write ≠ second.write) ∧
    (∀ first second : TraceLog, first ≠ second → first.write ≠ second.write) ∧
    ∀ (report : Report) (log : TraceLog), report.write ≠ log.write := by
  refine ⟨?_, ?_, ?_, ?_, ?_⟩
  · intro report shallow
    have line := Json.read_write report.to_datum_exact shallow
    refine ⟨?_, Report.read_indented shallow, report.fields, ?_, report.message_field,
      report.children_field⟩
    · rw [Report.read, Report.write, line, Option.bind_some, report.of_datum_to_datum]
    · rw [Report.write, line, report.to_datum_eq]
  · intro log
    have fits : log.toDatum.depth ≤ Json.maxDepth := Nat.le_trans log.to_datum_depth (by decide)
    rw [TraceLog.read, TraceLog.write, Json.read_write log.to_datum_exact fits, Option.bind_some,
      log.of_datum_to_datum]
  · intro first second apart same
    exact apart (Report.to_datum_injective
      (Json.write_injective first.to_datum_exact second.to_datum_exact same))
  · intro first second apart same
    exact apart (TraceLog.to_datum_injective
      (Json.write_injective first.to_datum_exact second.to_datum_exact same))
  · intro report log same
    have alike := Json.write_injective report.to_datum_exact log.to_datum_exact same
    obtain ⟨name, kind, status, message, children⟩ := report
    simp [Report.toDatum, TraceLog.toDatum, Datum.ofFields] at alike

/-- Names with quotes, controls and characters beyond ASCII; a message and children here and
there. -/
theorem awkward_reports_read_back :
    let leaf : Report := .node "say \"é\"\n\x01" .action .success "a\\b\tc" []
    let silent : Report := .node "say \"é\"\n\x01" .action .success "" []
    let tree : Report := .node "" .checkAndDo .running "" [silent, leaf]
    tree.toDatum.depth ≤ Json.maxDepth ∧ Report.read tree.write = some tree ∧ leaf ≠ silent ∧
      leaf.write ≠ silent.write := by
  intro leaf silent tree
  have apart : leaf ≠ silent := by simp [leaf, silent]
  have shallow : tree.toDatum.depth ≤ Json.maxDepth := by decide
  exact ⟨shallow, (reports_and_logs_read_back.1 tree shallow).1, apart,
    reports_and_logs_read_back.2.2.1 leaf silent apart⟩

end BehaviorTree
