import BehaviorTree.Ticker
import Mathlib.Data.List.Perm.Basic

/-!
What becomes of trace events. Many emitters share a collector, and each of them looks whether it is
open before it sends. Whatever is sent is in the sink or queued, in the order of sending, and a
ticker that flushes after every tick leaves nothing queued.
-/

namespace BehaviorTree

/-- An emission goes through at once, or its emitter looks at the collector first and the event
arrives some time later. -/
inductive Emission where
  | whole (event : TraceEvent)
  | look (event : TraceEvent)
  | arrive (place : Nat)
  deriving DecidableEq, Repr

namespace Collector

inductive Use where
  | opens
  | closes
  | flushes
  | emits (emission : Emission)
  deriving DecidableEq, Repr

/-- A collector, and the events whose emitters found it open and did not send them yet. -/
structure Site where
  collector : Collector := {}
  underway : List TraceEvent := []
  deriving Repr

/-- All that a collector was ever sent, as far as it shows. -/
def taken (collector : Collector) : List TraceEvent := collector.sink ++ collector.queue

namespace Site

def emit (site : Site) : Emission → Site
  | .whole event => { site with collector := site.collector.emit event }
  | .look event =>
      if site.collector.isOpen then { site with underway := site.underway ++ [event] } else site
  | .arrive place =>
      match site.underway[place]? with
      | some event =>
          { collector := site.collector.send event, underway := site.underway.eraseIdx place }
      | none => site

/-- What a use leaves, and the number that it returns. -/
def use (site : Site) : Use → Site × Option Nat
  | .opens => ({ site with collector := site.collector.opened }, none)
  | .closes => ({ site with collector := site.collector.close.2 }, some site.collector.close.1)
  | .flushes => ({ site with collector := site.collector.flush.2 }, some site.collector.flush.1)
  | .emits emission => (site.emit emission, none)

def after (site : Site) (uses : List Use) : Site :=
  uses.foldl (fun current use => (current.use use).1) site

end Site

/-- No emitter is interrupted between looking and sending. -/
def Use.isPrompt : Use → Bool
  | .emits (.look _) | .emits (.arrive _) => false
  | .opens | .closes | .flushes | .emits (.whole _) => true

/-! What there is to be forwarded, told without queue and sink. -/

structure Account where
  isOpen : Bool := false
  underway : List TraceEvent := []
  /-- In the order of sending. -/
  emitted : List TraceEvent := []
  /-- What was begun to be emitted while the collector was open, in the order of beginning. -/
  begun : List TraceEvent := []

namespace Account

def emit (account : Account) : Emission → Account
  | .whole event =>
      if account.isOpen then
        { account with emitted := account.emitted ++ [event], begun := account.begun ++ [event] }
      else account
  | .look event =>
      if account.isOpen then
        { account with underway := account.underway ++ [event], begun := account.begun ++ [event] }
      else account
  | .arrive place =>
      { account with
        underway := account.underway.eraseIdx place
        emitted := account.emitted ++ account.underway[place]?.toList }

def note (account : Account) : Use → Account
  | .opens => { account with isOpen := true }
  | .closes => { account with isOpen := false }
  | .flushes => account
  | .emits emission => account.emit emission

def after (account : Account) (uses : List Use) : Account := uses.foldl note account

theorem after_append (account : Account) (early late : List Use) :
    account.after (early ++ late) = (account.after early).after late := List.foldl_append

end Account

/-! What is sent is in the sink or queued. -/

@[simp] theorem taken_send (collector : Collector) (event : TraceEvent) :
    (collector.send event).taken = collector.taken ++ [event] := (List.append_assoc ..).symm

@[simp] theorem taken_flush (collector : Collector) : collector.flush.2.taken = collector.taken :=
  List.append_nil _

@[simp] theorem taken_close (collector : Collector) : collector.close.2.taken = collector.taken :=
  List.append_nil _

/-- Nothing stays behind. -/
structure Emptied (collector : Collector) (result : Nat × Collector) : Prop where
  queue : result.2.queue = []
  sink : result.2.sink = collector.taken
  count : result.2.sink.length = collector.sink.length + result.1

theorem flush_empties (collector : Collector) : collector.Emptied collector.flush :=
  ⟨rfl, rfl, List.length_append⟩

theorem close_empties (collector : Collector) : collector.Emptied collector.close :=
  ⟨rfl, rfl, List.length_append⟩

/-- A flush event by event: while it goes on more events arrive, and it ends when it finds nothing
queued. -/
inductive Drains : Collector → List TraceEvent → Nat × Collector → Prop
  | ends {collector : Collector} (empty : collector.queue = []) :
      Drains collector [] (0, collector)
  | arrives {collector : Collector} {event : TraceEvent} {arriving : List TraceEvent}
      {result : Nat × Collector} (rest : Drains (collector.send event) arriving result) :
      Drains collector (event :: arriving) result
  | forwards {collector : Collector} {event : TraceEvent} {queue arriving : List TraceEvent}
      {count : Nat} {drained : Collector} (queued : collector.queue = event :: queue)
      (rest : Drains { collector with queue, sink := collector.sink ++ [event] } arriving
        (count, drained)) :
      Drains collector arriving (count + 1, drained)

theorem foldl_send (collector : Collector) (events : List TraceEvent) :
    events.foldl send collector = { collector with queue := collector.queue ++ events } := by
  induction events generalizing collector with
  | nil => rw [List.append_nil, List.foldl_nil]
  | cons event rest ih => rw [List.foldl_cons, ih, send, List.append_assoc, List.singleton_append]

/-- What arrives in the course of a flush might as well have arrived before it. -/
theorem Drains.result {collector : Collector} {arriving : List TraceEvent}
    {result : Nat × Collector} (drains : Drains collector arriving result) :
    result = (arriving.foldl send collector).flush := by
  induction drains with
  | @ends collector empty =>
      obtain ⟨isOpen, queue, sink⟩ := collector
      cases (empty : queue = [])
      simp [flush]
  | arrives rest ih => exact ih
  | @forwards collector event queue arriving count drained queued rest ih =>
      rw [foldl_send] at ih ⊢
      injection ih with counted left
      rw [counted, left, flush, queued]
      simp

/-! A collector and the account of it. -/

structure Agrees (site : Site) (account : Account) : Prop where
  isOpen : site.collector.isOpen = account.isOpen
  underway : site.underway = account.underway
  taken : site.collector.taken = account.emitted

theorem Agrees.emit {site : Site} {account : Account} (agrees : Agrees site account)
    (emission : Emission) : Agrees (site.emit emission) (account.emit emission) := by
  obtain ⟨isOpen, underway, taken⟩ := agrees
  cases emission with
  | whole event =>
      rw [Site.emit, Account.emit, Collector.emit, isOpen]
      split
      · exact ⟨isOpen, underway, by rw [taken_send, taken]⟩
      · exact ⟨isOpen, underway, taken⟩
  | look event =>
      rw [Site.emit, Account.emit, isOpen]
      split
      · exact ⟨isOpen, congrArg (· ++ [event]) underway, taken⟩
      · exact ⟨isOpen, underway, taken⟩
  | arrive place =>
      rw [Site.emit, Account.emit, ← underway]
      cases found : site.underway[place]? with
      | none =>
          have beyond := List.getElem?_eq_none_iff.mp found
          exact ⟨isOpen, (List.eraseIdx_of_length_le beyond).symm,
            taken.trans (List.append_nil _).symm⟩
      | some event => exact ⟨isOpen, rfl, by rw [taken_send, taken]; rfl⟩

theorem Agrees.use {site : Site} {account : Account} (agrees : Agrees site account) (use : Use) :
    Agrees (site.use use).1 (account.note use) := by
  obtain ⟨isOpen, underway, taken⟩ := agrees
  cases use with
  | opens => exact ⟨rfl, underway, taken⟩
  | closes => exact ⟨rfl, underway, (taken_close _).trans taken⟩
  | flushes => exact ⟨isOpen, underway, (taken_flush _).trans taken⟩
  | emits emission => exact Agrees.emit ⟨isOpen, underway, taken⟩ emission

theorem Agrees.after {site : Site} {account : Account} (agrees : Agrees site account)
    (uses : List Use) : Agrees (site.after uses) (account.after uses) := by
  induction uses generalizing site account with
  | nil => exact agrees
  | cons use rest ih => exact ih (agrees.use use)

/-! What the account says. -/

namespace Account

/-- Every event that was begun while the collector was open was sent once or is under way. -/
def Complete (account : Account) : Prop :=
  (account.emitted ++ account.underway).Perm account.begun

variable {account : Account}

theorem Complete.emit (complete : account.Complete) (emission : Emission) :
    (account.emit emission).Complete := by
  cases emission with
  | whole event =>
      rw [Account.emit]
      split
      · show (account.emitted ++ [event] ++ account.underway).Perm (account.begun ++ [event])
        rw [List.append_assoc]
        exact (List.perm_append_comm.append_left _).trans
          (by rw [← List.append_assoc]; exact complete.append_right _)
      · exact complete
  | look event =>
      rw [Account.emit]
      split
      · show (account.emitted ++ (account.underway ++ [event])).Perm (account.begun ++ [event])
        rw [← List.append_assoc]
        exact complete.append_right _
      · exact complete
  | arrive place =>
      refine List.Perm.trans ?_ complete
      rw [Account.emit]
      dsimp only
      rw [List.append_assoc]
      apply List.Perm.append_left
      cases found : account.underway[place]? with
      | none =>
          rw [List.eraseIdx_of_length_le (List.getElem?_eq_none_iff.mp found)]
          exact .refl _
      | some event =>
          obtain ⟨inside, rfl⟩ := List.getElem?_eq_some_iff.mp found
          exact List.getElem_cons_eraseIdx_perm inside

theorem Complete.after (complete : account.Complete) (uses : List Use) :
    (account.after uses).Complete := by
  induction uses generalizing account with
  | nil => exact complete
  | cons use rest ih =>
      apply ih
      cases use with
      | opens | closes | flushes => exact complete
      | emits emission => exact complete.emit emission

/-- Events that are sent at once are sent in the order in which they are begun. -/
theorem emitted_after (uses : List Use) (same : account.emitted = account.begun)
    (prompt : ∀ use ∈ uses, use.isPrompt = true) :
    (account.after uses).emitted = (account.after uses).begun := by
  induction uses generalizing account with
  | nil => exact same
  | cons use rest ih =>
      obtain ⟨now, later⟩ := List.forall_mem_cons.mp prompt
      refine ih ?_ later
      cases use with
      | opens | closes | flushes => exact same
      | emits emission =>
          cases emission with
          | look | arrive => cases now
          | whole event =>
              rw [note, Account.emit]
              split
              · exact congrArg (· ++ [event]) same
              · exact same

end Account

end Collector

open Collector

namespace Ticker

/-- What a ticker is told to do, and what goes on around it. Nodes, workers and handlers emit in the
course of a tick as well; as a tick does not touch the collector until it flushes, these emissions
stand before the tick. -/
inductive Errand where
  | setup
  | tick (store : Store)
  | run (store : Store) (expires : Bool) (limit : Nat) (driver : Driver)
  | shutdown
  | emits (emission : Emission)
  /-- Whatever else becomes of the tree. -/
  | alters (root : Node)

/-- A ticker, and the events on their way to its collector. -/
structure Host where
  ticker : Ticker
  underway : List TraceEvent := []

namespace Host

def site (host : Host) : Site := ⟨host.ticker.trace, host.underway⟩

def meet (host : Host) : Errand → Host
  | .setup => { host with ticker := host.ticker.setup.ticker }
  | .tick store => { host with ticker := (host.ticker.tick store).ticker }
  | .run store expires limit driver =>
      { host with ticker := (host.ticker.drive store expires limit driver).ticker }
  | .shutdown => { host with ticker := host.ticker.shutdown.1 }
  | .emits emission =>
      let site := host.site.emit emission
      ⟨{ host.ticker with trace := site.collector }, site.underway⟩
  | .alters root => { host with ticker := { host.ticker with root } }

def after (host : Host) (errands : List Errand) : Host := errands.foldl meet host

end Host

/-- What an errand means for the account of the collector. -/
def Errand.uses : Errand → List Use
  | .setup | .run _ _ _ _ => [.opens]
  | .tick _ => [.flushes]
  | .shutdown => [.closes]
  | .emits emission => [.emits emission]
  | .alters _ => []

/-- A ticker that is set up has its collector open, and the collector agrees with the account. -/
structure Attends (host : Host) (account : Account) : Prop where
  agrees : Agrees host.site account
  isOpen : host.ticker.isSetUp = true → host.ticker.trace.isOpen = true

theorem setup_trace (ticker : Ticker)
    (isOpen : ticker.isSetUp = true → ticker.trace.isOpen = true) :
    ticker.setup.ticker.trace = ticker.trace.opened := by
  rw [setup]
  split
  next isSetUp =>
    rw [Collector.opened, ← isOpen isSetUp]
  next => rfl

/-- Every tick of a run leaves nothing queued. -/
theorem run_trace (store : Store) (expires : Bool) (limit : Nat) (ticker : Ticker)
    (driver : Driver) :
    (run store expires limit ticker driver).ticker.trace.isOpen = ticker.trace.isOpen ∧
      (run store expires limit ticker driver).ticker.trace.taken = ticker.trace.taken ∧
      ∀ performed ∈ (run store expires limit ticker driver).performed,
        performed.ticker.trace.queue = [] ∧ performed.ticker.trace.sink = ticker.trace.taken := by
  induction limit generalizing ticker driver with
  | zero => simp [run]
  | succ limit ih =>
      rw [run]
      split
      next waited _ =>
        obtain ⟨isOpen, taken, every⟩ := ih (ticker.tick store).ticker waited.recordTick
        have emptied := ticker.trace.flush_empties
        have kept : (ticker.tick store).ticker.trace.taken = ticker.trace.taken := taken_flush _
        refine ⟨isOpen, taken.trans kept, ?_⟩
        intro performed inside
        rcases List.mem_cons.mp inside with rfl | later
        · exact ⟨emptied.queue, emptied.sink⟩
        · rw [← kept]
          exact every performed later
      next => simp

theorem drive_trace (ticker : Ticker) (isOpen : ticker.isSetUp = true → ticker.trace.isOpen = true)
    (store : Store) (expires : Bool) (limit : Nat) (driver : Driver) :
    (ticker.drive store expires limit driver).ticker.trace.isOpen = true ∧
      (ticker.drive store expires limit driver).ticker.trace.taken = ticker.trace.taken ∧
      ∀ performed ∈ (ticker.drive store expires limit driver).performed,
        performed.ticker.trace.queue = [] ∧ performed.ticker.trace.sink = ticker.trace.taken := by
  have opened := ticker.setup_trace isOpen
  rw [drive]
  split
  next => simp [opened, Collector.opened, taken]
  next =>
    obtain ⟨stays, taken, every⟩ := run_trace store expires limit ticker.setup.ticker driver
    rw [opened] at stays taken every
    exact ⟨stays, taken, every⟩

theorem Host.emit_isOpen (site : Site) (emission : Emission) :
    (site.emit emission).collector.isOpen = site.collector.isOpen := by
  cases emission with
  | whole event =>
      rw [Site.emit, Collector.emit]
      split <;> rfl
  | look event =>
      rw [Site.emit]
      split <;> rfl
  | arrive place =>
      rw [Site.emit]
      split <;> rfl

namespace Attends

variable {host : Host} {account : Account}

theorem meet (attends : Attends host account) (errand : Errand) :
    Attends (host.meet errand) (account.after errand.uses) := by
  obtain ⟨agrees, isOpen⟩ := attends
  cases errand with
  | setup =>
      have opened := host.ticker.setup_trace isOpen
      refine ⟨⟨?_, agrees.underway, ?_⟩, fun _ => ?_⟩
      · exact congrArg Collector.isOpen opened
      · exact (congrArg taken opened).trans agrees.taken
      · exact congrArg Collector.isOpen opened
  | tick store => exact ⟨agrees.use .flushes, isOpen⟩
  | run store expires limit driver =>
      obtain ⟨opened, same, -⟩ := host.ticker.drive_trace isOpen store expires limit driver
      exact ⟨⟨opened, agrees.underway, same.trans agrees.taken⟩, fun _ => opened⟩
  | shutdown => exact ⟨agrees.use .closes, fun impossible => by cases impossible⟩
  | emits emission =>
      refine ⟨agrees.emit emission, fun isSetUp => ?_⟩
      exact (Host.emit_isOpen host.site emission).trans (isOpen isSetUp)
  | alters root => exact ⟨agrees, isOpen⟩

theorem after (attends : Attends host account) (errands : List Errand) :
    Attends (host.after errands) (account.after (errands.flatMap Errand.uses)) := by
  induction errands generalizing host account with
  | nil => exact attends
  | cons errand rest ih =>
      rw [List.flatMap_cons, Account.after_append]
      exact ih (attends.meet errand)

end Attends

/-- Whatever becomes of a collector, its sink and its queue hold what was emitted while it was open,
and nothing else; only opening it again lets in more, and flushing and closing it forward all that
is queued. A ticker that was given the collector opens it when it is set up and closes it when it is
shut down, and its sink holds all of this after every tick and at the end. -/
theorem events_reach_sink (uses : List Use) (root : Node) (errands : List Errand) :
    let site := ({} : Site).after uses
    let account := ({} : Account).after uses
    let host := (⟨{ root, trace := site.collector }, site.underway⟩ : Host).after errands
    let all := uses ++ errands.flatMap Errand.uses
    let told := ({} : Account).after all
    (site.collector.sink ++ site.collector.queue = account.emitted ∧
      site.collector.isOpen = account.isOpen ∧
      site.collector.opened.sink = site.collector.sink ∧
      site.collector.opened.queue = site.collector.queue ∧
      site.collector.Emptied site.collector.flush ∧
      site.collector.Emptied site.collector.close ∧
      ∀ arriving result, Drains site.collector arriving result →
        result = (arriving.foldl send site.collector).flush) ∧
    ((told.emitted ++ told.underway).Perm told.begun ∧
      ((∀ use ∈ all, use.isPrompt = true) → told.emitted = told.begun)) ∧
    host.ticker.trace.sink ++ host.ticker.trace.queue = told.emitted ∧
    host.ticker.setup.ticker.trace.isOpen = true ∧
    (∀ store, (host.ticker.tick store).ticker.trace.queue = [] ∧
      (host.ticker.tick store).ticker.trace.sink = told.emitted) ∧
    (∀ store expires limit driver,
      ∀ performed ∈ (host.ticker.drive store expires limit driver).performed,
        performed.ticker.trace.queue = [] ∧ performed.ticker.trace.sink = told.emitted) ∧
    host.ticker.shutdown.1.trace.isOpen = false ∧
    host.ticker.shutdown.1.trace.queue = [] ∧
    host.ticker.shutdown.1.trace.sink = told.emitted := by
  intro site account host all told
  have fresh : Agrees {} {} := ⟨rfl, rfl, rfl⟩
  have agrees : Agrees site account := fresh.after uses
  have attends : Attends host told := by
    have begun : Attends ⟨{ root, trace := site.collector }, site.underway⟩ account :=
      ⟨agrees, fun impossible => by cases impossible⟩
    have split : told = account.after (errands.flatMap Errand.uses) :=
      Account.after_append {} uses (errands.flatMap Errand.uses)
    rw [split]
    exact begun.after errands
  have complete : Account.Complete {} := List.Perm.refl []
  have held := attends.agrees.taken
  refine ⟨⟨agrees.taken, agrees.isOpen, rfl, rfl, flush_empties _, close_empties _,
      fun _ _ drains => drains.result⟩,
    ⟨complete.after all, Account.emitted_after all rfl⟩, held, ?_, ?_, ?_, rfl, rfl, held⟩
  · rw [host.ticker.setup_trace attends.isOpen, Collector.opened]
  · exact fun _ => ⟨rfl, held⟩
  · intro store expires limit driver performed inside
    have every := (host.ticker.drive_trace attends.isOpen store expires limit driver).2.2
    rw [← held]
    exact every performed inside

end Ticker

end BehaviorTree
