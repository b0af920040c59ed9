import BehaviorTree.Datum.Choice
import BehaviorTree.Json.Reader
import BehaviorTree.Json.Writer
import BehaviorTree.Report

/-!
Reports in writing. Empty messages and empty lists of children are left out.
-/

namespace BehaviorTree.Report

def shape : Shape := { names := ["name", "kind", "status", "message", "children"], needed := 3 }

/-- Reads a report of at most as many levels. -/
def ofDatumWithin : Nat → Datum → Option Report
  | 0, _ => none
  | levels + 1, datum => do
      let items ← shape.items? datum
      let name ← items.required Datum.asText? "name"
      let kind ← items.required Kind.ofDatum? "kind"
      let status ← items.required Status.ofDatum? "status"
      let message ← items.withDefault Datum.asText? "" "message"
      let children ← items.withDefault (Datum.asList? (ofDatumWithin levels)) [] "children"
      return .node name kind status message children

/-- Every level of a report is a record, so there are no more levels than records inside each
other. -/
def ofDatum? (datum : Datum) : Option Report := ofDatumWithin datum.depth datum

mutual

def toDatum : Report → Datum
  | .node name kind status message children =>
      .ofFields <|
        [("name", .text name), ("kind", kind.toDatum), ("status", status.toDatum)] ++
          (if message.isEmpty then [] else [("message", .text message)]) ++
          if children.isEmpty then [] else [("children", .list (toData children))]

def toData : List Report → List Datum
  | [] => []
  | child :: rest => toDatum child :: toData rest

end

def read (text : String) : Option Report := (Json.read text).bind ofDatum?

def write (report : Report) : String := Json.write report.toDatum

def writeIndented (report : Report) : String := Json.writeIndented report.toDatum

end BehaviorTree.Report
