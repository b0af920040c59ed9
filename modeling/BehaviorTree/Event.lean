import BehaviorTree.Event.Timestamp
import BehaviorTree.Json.Reader
import BehaviorTree.Json.Writer
import BehaviorTree.Trace.Record

/-!
Events in the life of trees. An event is written as one line of JSON. What belongs to it besides
its message is a datum whose records are kept in the order of their keys.
-/

namespace BehaviorTree

namespace Datum

mutual

/-- Orders the entries of every record by their names; of repeated names the last counts. -/
def ordered : Datum → Datum
  | .list items => .list (orderedItems items)
  | .record entries => .ofFields (Table.ofList (orderedEntries entries)).entries
  | other => other

def orderedItems : List Datum → List Datum
  | [] => []
  | item :: rest => ordered item :: orderedItems rest

def orderedEntries : List (Key × Datum) → List (String × Datum)
  | [] => []
  | (.name name, datum) :: rest => (name, ordered datum) :: orderedEntries rest
  | (.position _, _) :: rest => orderedEntries rest
  | (.other, _) :: rest => orderedEntries rest

end

end Datum

structure Event where
  timestamp : Timestamp := {}
  kind : String
  tree : String
  node : Option String := none
  message : String
  metadata : Datum := .null
  deriving Inhabited

namespace Event

def shape : Shape :=
  { names := ["timestamp", "event_type", "tree", "node", "message", "metadata"], needed := 5 }

def metadataOf? (datum : Datum) : Option Datum :=
  if datum.isReadable then some datum.ordered else none

def ofDatum? (datum : Datum) : Option Event := do
  let items ← shape.items? datum
  let timestamp ← items.required (fun item => item.asText?.bind Timestamp.read) "timestamp"
  let kind ← items.required Datum.asText? "event_type"
  let tree ← items.required Datum.asText? "tree"
  let node ← items.optional Datum.asText? "node"
  let message ← items.required Datum.asText? "message"
  let metadata ← items.withDefault metadataOf? .null "metadata"
  return { timestamp, kind, tree, node, message, metadata }

def nodeField : Option String → List (String × Datum)
  | none => []
  | some node => [("node", .text node)]

/-- All but the moment of an event. -/
def contentFields (event : Event) : List (String × Datum) :=
  [("event_type", .text event.kind), ("tree", .text event.tree)] ++ nodeField event.node ++
    [("message", .text event.message), ("metadata", event.metadata.ordered)]

def toDatum (event : Event) : Datum :=
  .ofFields (("timestamp", .text event.timestamp.write) :: event.contentFields)

def read (line : String) : Option Event := (Json.read line).bind ofDatum?

def write (event : Event) : String := Json.write event.toDatum

end Event

end BehaviorTree
