import BehaviorTree.Datum.Choice
import BehaviorTree.Json.Reader
import BehaviorTree.Json.Writer

/-!
Trace logs in writing. An event is a record of its four items, of which the last two may be null.
-/

namespace BehaviorTree

def textOrNull : Option String → Datum
  | none => .null
  | some chars => .text chars

namespace TraceEvent

def shape : Shape := { names := ["node", "tag", "status", "detail"], needed := 4 }

def ofDatum? (datum : Datum) : Option TraceEvent := do
  let items ← shape.items? datum
  let node ← items.required Datum.asText? "node"
  let tag ← items.required Datum.asText? "tag"
  let status ← items.optional Status.ofDatum? "status"
  let detail ← items.optional Datum.asText? "detail"
  return { node, tag, status, detail }

def toDatum (event : TraceEvent) : Datum :=
  .ofFields
    [("node", .text event.node), ("tag", .text event.tag),
      ("status", (event.status.map Status.toDatum).getD .null),
      ("detail", textOrNull event.detail)]

end TraceEvent

namespace TraceLog

def shape : Shape := { names := ["events"], needed := 1 }

def ofDatum? (datum : Datum) : Option TraceLog := do
  let items ← shape.items? datum
  let events ← items.required (Datum.asList? TraceEvent.ofDatum?) "events"
  return { events }

def toDatum (log : TraceLog) : Datum :=
  .ofFields [("events", .list (log.events.map TraceEvent.toDatum))]

def read (text : String) : Option TraceLog := (Json.read text).bind ofDatum?

def write (log : TraceLog) : String := Json.write log.toDatum

end TraceLog

end BehaviorTree
