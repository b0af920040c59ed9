import BehaviorTree.Disk
import BehaviorTree.Json.Reader
import BehaviorTree.Json.Writer
import BehaviorTree.Plan.Record
import BehaviorTree.Yaml.Document

/-!
Plans in writing: as JSON or as YAML, in a text or in a file.
-/

namespace BehaviorTree

inductive Format where
  | json
  | yaml
  deriving DecidableEq, Repr

namespace Format

def name : Format → String
  | .json => "JSON"
  | .yaml => "YAML"

/-- Files are JSON if their names say so, in whatever case. -/
def ofPath (path : String) : Format :=
  match Text.Path.extension? path with
  | some ending => if ending.toList.map Char.toLower = "json".toList then .json else .yaml
  | none => .yaml

end Format

/-- Why there is no plan. -/
inductive PlanFault where
  | malformed (format : Format)
  | missing (path : String)
  | invalid (path : String) (format : Format)
  deriving DecidableEq, Repr

namespace PlanFault

/-- What went wrong, the outermost circumstance first. -/
def circumstances : PlanFault → List String
  | .malformed format => [s!"Failed to parse tree descriptor as {format.name}"]
  | .missing path => [s!"Failed to read tree from {path}"]
  | .invalid path format =>
      [s!"Invalid tree file {path}", s!"Failed to parse tree descriptor as {format.name}"]

end PlanFault

namespace TreePlan

/-- A YAML document has its labels as texts, whatever they look like, and settles the root. -/
def ofYaml? (document : Yaml) : Option TreePlan := do
  let fields ← document.fields? shape.names
  let name ← Yaml.required fields "name" Yaml.asText?
  let description ← Yaml.withDefault fields "description" Yaml.asText? ""
  let root ← Yaml.required fields "root" fun node =>
    (node.settle? 1).bind (NodePlan.ofDatum? .strict)
  return { label := { name, description }, root }

def read? (format : Format) (text : String) : Option TreePlan :=
  match format with
  | .json => (Json.read text).bind ofDatum?
  | .yaml => (Yaml.read text).bind ofYaml?

def parse (format : Format) (text : String) : Except PlanFault TreePlan :=
  match read? format text with
  | some plan => .ok plan
  | none => .error (.malformed format)

def load (disk : Disk) (path : String) : Except PlanFault TreePlan :=
  let format := Format.ofPath path
  match disk.readText? path with
  | none => .error (.missing path)
  | some text =>
      match read? format text with
      | some plan => .ok plan
      | none => .error (.invalid path format)

def write (plan : TreePlan) : String := Json.write plan.toDatum

end TreePlan

end BehaviorTree
