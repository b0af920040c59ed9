import BehaviorTree.Status

/-!
Trace events of nodes and their workers. A collector takes events while it is open, keeps them
queued in the order of their emission, and hands them to a sink when it is flushed or closed.
-/

namespace BehaviorTree

structure TraceEvent where
  node : String
  tag : String
  status : Option Status := none
  detail : Option String := none
  deriving DecidableEq, Repr

/-- A log is the list of its events, the oldest first. -/
structure TraceLog where
  events : List TraceEvent := []
  deriving DecidableEq, Repr

def TraceLog.push (log : TraceLog) (event : TraceEvent) : TraceLog :=
  { events := log.events ++ [event] }

/-- A collector whose sink keeps what it was handed. -/
structure Collector where
  isOpen : Bool := false
  queue : List TraceEvent := []
  sink : List TraceEvent := []
  deriving Repr

namespace Collector

def opened (collector : Collector) : Collector := { collector with isOpen := true }

def send (collector : Collector) (event : TraceEvent) : Collector :=
  { collector with queue := collector.queue ++ [event] }

/-- What is emitted while the collector is closed is lost. -/
def emit (collector : Collector) (event : TraceEvent) : Collector :=
  if collector.isOpen then collector.send event else collector

def emitAll (collector : Collector) (events : List TraceEvent) : Collector :=
  events.foldl emit collector

/-- Hands every queued event to the sink and counts them. -/
def flush (collector : Collector) : Nat × Collector :=
  (collector.queue.length,
    { collector with queue := [], sink := collector.sink ++ collector.queue })

def close (collector : Collector) : Nat × Collector := { collector with isOpen := false }.flush

/-- An event that bypasses the queue. -/
def intoSink (collector : Collector) (event : TraceEvent) : Collector :=
  { collector with sink := collector.sink ++ [event] }

end Collector

end BehaviorTree
