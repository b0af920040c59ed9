import BehaviorTree.CommandLine
import BehaviorTree.Proofs.Reporting
import Mathlib.Data.List.Forall2

/-!
What a run prints. A report is drawn with one line for each of its nodes in pre-order. An
interactive run prints a drawing after every tick and the last status and report in the end; what is
logged to the same output stands between the prints.
-/

namespace BehaviorTree

namespace Status

/-- Words for the operator. -/
def words : List (Status × String) :=
  [(.invalid, "INVALID"), (.running, "RUNNING"), (.success, "SUCCESS"), (.failure, "FAILURE")]

theorem name_mem_words (status : Status) : (status, status.name) ∈ words := by
  cases status <;> decide

end Status

namespace Kind

def words : List (Kind × String) :=
  [(.condition, "condition"), (.acknowledge, "acknowledge"), (.action, "action"),
    (.sequence, "sequence"), (.selector, "selector"), (.parallel, "parallel"),
    (.checkAndDo, "check_and_do")]

theorem name_mem_words (kind : Kind) : (kind, kind.name) ∈ words := by
  cases kind <;> decide

end Kind

/-! Drawings of reports. -/

namespace Report

mutual

/-- A report and those inside it in pre-order, each with its level. -/
def outline (level : Nat) : Report → List (Nat × Report)
  | .node name kind status message children =>
      (level, .node name kind status message children) :: outlineAll (level + 1) children

def outlineAll (level : Nat) : List Report → List (Nat × Report)
  | [] => []
  | child :: rest => outline level child ++ outlineAll level rest

end

/-- One line of a drawing. It tells the level by its indent, and the status, the name and the kind;
a message follows if there is one. -/
inductive Row : Nat × Report → String → Prop
  | silent {level : Nat} {name shown known : String} {kind : Kind} {status : Status}
      {children : List Report} (status_word : (status, shown) ∈ Status.words)
      (kind_word : (kind, known) ∈ Kind.words) :
      Row (level, .node name kind status "" children)
        (String.join (List.replicate level "  ") ++
          ("[" ++ shown ++ "] " ++ name ++ " (" ++ known ++ ")\n"))
  | telling {level : Nat} {name message shown known : String} {kind : Kind} {status : Status}
      {children : List Report} (status_word : (status, shown) ∈ Status.words)
      (kind_word : (kind, known) ∈ Kind.words) (tells : message ≠ "") :
      Row (level, .node name kind status message children)
        (String.join (List.replicate level "  ") ++
          ("[" ++ shown ++ "] " ++ name ++ " (" ++ known ++ ") - " ++ message ++ "\n"))

/-- A drawing has a line for every report in pre-order. -/
def Drawn (report : Report) (drawing : String) : Prop :=
  ∃ rows, List.Forall₂ Row (report.outline 0) rows ∧ drawing = String.join rows

/-- The line that is rendered for a report. -/
def row : Nat × Report → String
  | (level, .node name kind status message _) => line level name kind status message

theorem blanks_eq_indent (level : Nat) :
    String.ofList (List.replicate (2 * level) ' ') = String.join (List.replicate level "  ") := by
  induction level with
  | zero => rfl
  | succ level ih =>
      have split : List.replicate (2 * (level + 1)) ' ' =
          [' ', ' '] ++ List.replicate (2 * level) ' ' := rfl
      rw [split, String.ofList_append, ih, List.replicate_succ, String.join_cons]

theorem line_silent (level : Nat) (name : String) (kind : Kind) (status : Status) :
    line level name kind status "" = String.join (List.replicate level "  ") ++
      ("[" ++ status.name ++ "] " ++ name ++ " (" ++ kind.name ++ ")\n") := by
  rw [line, blanks_eq_indent]
  apply String.toList_inj.mp
  simp [toString]

theorem line_telling (level : Nat) (name : String) (kind : Kind) (status : Status)
    {message : String} (tells : message ≠ "") :
    line level name kind status message = String.join (List.replicate level "  ") ++
      ("[" ++ status.name ++ "] " ++ name ++ " (" ++ kind.name ++ ") - " ++ message ++ "\n") := by
  rw [line, blanks_eq_indent, if_neg (by simpa using tells)]
  apply String.toList_inj.mp
  simp [toString]

theorem row_tells : ∀ entry : Nat × Report, Row entry (row entry)
  | (level, .node name kind status message children) => by
      rw [row]
      by_cases tells : message = ""
      · rw [tells, line_silent]
        exact .silent status.name_mem_words kind.name_mem_words
      · rw [line_telling level name kind status tells]
        exact .telling status.name_mem_words kind.name_mem_words tells

mutual

theorem render_at_eq_join : ∀ (level : Nat) (report : Report),
    report.renderAt level = String.join ((report.outline level).map row)
  | level, .node name kind status message children => by
      rw [renderAt, outline, List.map_cons, String.join_cons, row,
        render_all_eq_join (level + 1) children]

theorem render_all_eq_join : ∀ (level : Nat) (reports : List Report),
    renderAll level reports = String.join ((outlineAll level reports).map row)
  | _, [] => rfl
  | level, child :: rest => by
      rw [renderAll, outlineAll, List.map_append, String.join_append, render_at_eq_join level child,
        render_all_eq_join level rest]

end

theorem render_drawn (report : Report) : report.Drawn report.render := by
  refine ⟨(report.outline 0).map row, ?_, render_at_eq_join 0 report⟩
  rw [List.forall₂_map_right_iff, List.forall₂_same]
  exact fun entry _ => row_tells entry

end Report

/-! Sittings in print. -/

namespace CommandLine

/-- What is printed in the end: the status and a drawing of the report, or the report as JSON. -/
inductive Ending : Bool → Status → Report → List String → Prop
  | drawn {status : Status} {report : Report} {shown drawing : String}
      (word : (status, shown) ∈ Status.words) (drawn : report.Drawn drawing) :
      Ending false status report ["\n", "Final status: " ++ shown ++ "\n", drawing]
  | spelt {status : Status} {report : Report} {text : String} {datum : Datum}
      (spelt : Json.tokens text.toList = some (Json.spelled datum))
      (tells : Report.ofDatum? datum = some report)
      (reads : datum.depth ≤ Json.maxDepth → Report.read text = some report) :
      Ending true status report [text ++ "\n"]

theorem conclusion_ends (json : Bool) (status : Status) (report : Report) :
    Ending json status report (Session.conclusion json status report) := by
  cases json with
  | false => exact .drawn status.name_mem_words report.render_drawn
  | true =>
      have faithful := report.to_datum_exact
      have spelt : Json.tokens report.writeIndented.toList =
          some (Json.spelled report.toDatum) := by
        have words := Json.spells_indented 0 report.toDatum faithful [] rfl
        simpa [Report.writeIndented, Json.writeIndented, Json.tokens_nil] using words
      exact .spelt spelt report.of_datum_to_datum Report.read_indented

/-- What an interactive run prints: how to go on, a drawing after every tick, and the end. -/
inductive Told (json : Bool) (reports : List Report) (final : Status × Report) : List String → Prop
  | of {drawings ending : List String} (drawn : List.Forall₂ Report.Drawn reports drawings)
      (ends : Ending json final.1 final.2 ending) :
      Told json reports final ("Press Enter to tick, q to quit.\n" :: drawings ++ ending)

theorem session_told (json : Bool) (reports : List Report) (final : Status × Report) :
    Told json reports final (Session.greeting :: reports.map Report.render ++
      Session.conclusion json final.1 final.2) := by
  have drawn : List.Forall₂ Report.Drawn reports (reports.map Report.render) := by
    rw [List.forall₂_map_right_iff, List.forall₂_same]
    exact fun report _ => report.render_drawn
  exact .of drawn (conclusion_ends json final.1 final.2)

/-- Two lists in one, each in its own order. -/
inductive Shuffled {Item : Type} : List Item → List Item → List Item → Prop
  | nil : Shuffled [] [] []
  | left {item : Item} {first second all : List Item} (shuffled : Shuffled first second all) :
      Shuffled (item :: first) second (item :: all)
  | right {item : Item} {first second all : List Item} (shuffled : Shuffled first second all) :
      Shuffled first (item :: second) (item :: all)

theorem Shuffled.after {Item : Type} {first second all : List Item}
    (shuffled : Shuffled first second all) (items : List Item) :
    Shuffled first (items ++ second) (items ++ all) := by
  induction items with
  | nil => exact shuffled
  | cons item rest ih => exact .right ih

/-- All that was logged stands somewhere between the prints. -/
theorem amid_shuffled (logged : Nat → List String) (prints : List String) :
    ∃ pieces, Shuffled prints ((List.range (prints.length + 1)).flatMap logged) pieces ∧
      amid logged prints = String.join pieces := by
  induction prints generalizing logged with
  | nil =>
      refine ⟨logged 0, ?_, rfl⟩
      simpa using Shuffled.nil.after (logged 0)
  | cons print rest ih =>
      obtain ⟨pieces, shuffled, joined⟩ := ih fun count => logged (count + 1)
      refine ⟨logged 0 ++ print :: pieces, ?_, ?_⟩
      · rw [List.length_cons, List.range_succ_eq_map, List.flatMap_cons, List.flatMap_map]
        exact .after (.left shuffled) (logged 0)
      · rw [amid, joined, String.join_append, String.join_cons, String.append_assoc]

end CommandLine

end BehaviorTree
