import BehaviorTree.Action

/-!
A workbench for the worker of one action, without a node around it: the cell and the gate are
moved by hand. After every operation an idle worker whose gate is set begins its cycle.
-/

namespace BehaviorTree

structure Station where
  name : String
  action : Action

namespace Station

/-- A station after an operation, its answer, and what the worker traced. -/
structure Done (Answer : Type) where
  station : Station
  answer : Answer
  events : List TraceEvent

def conclude {Answer : Type} (station : Station) (action : Action) (answer : Answer)
    (events : List TraceEvent) : Done Answer :=
  let (after, begun) := action.wake station.name
  ⟨{ station with action := after }, answer, events ++ begun⟩

inductive StartAnswer where
  | ok
  | refused
  | fault (fault : WorkerFault)

/-- Starting is refused while a detached cycle is still in progress. -/
def start (station : Station) : Done StartAnswer :=
  if !station.action.detached.isEmpty then station.conclude station.action .refused []
  else
    match station.action.start station.name with
    | .ok started => station.conclude started .ok []
    | .error fault => station.conclude station.action (.fault fault) []

def stop (station : Station) : Done (Option WorkerFault) :=
  match station.action.stop station.name with
  | .ok stopped => station.conclude stopped none []
  | .error fault => station.conclude station.action (some fault) []

/-- Opens an attempt and answers its number. -/
def openAttempt (station : Station) : Done UInt64 :=
  let opened := station.action.openAttempt
  station.conclude opened opened.cell.attempt []

def signal (station : Station) : Done Unit := station.conclude station.action.signal () []

/-- Takes a signal back that nobody has consumed. -/
def withdraw (station : Station) : Done Unit :=
  station.conclude { station.action with gate := station.action.gate.clear } () []

/-- Writes a status into the cell, whatever attempt is the latest. -/
def overwrite (station : Station) (status : Status) : Done Unit :=
  station.conclude { station.action with cell := station.action.cell.set status } () []

/-- Hands an answer to the action of that name; there is only one. -/
def feed (station : Station) (name : String) (answer : Answer) : Done Feeding :=
  if name = station.name then
    let (feeding, after, events) := station.action.feed name answer
    station.conclude after feeding events
  else station.conclude station.action .idle []

def sleep (station : Station) (milliseconds : Nat) : Done Unit :=
  station.conclude (station.action.after milliseconds) () []

end Station

end BehaviorTree
