import TaskTimer.Notice.Basic
import TaskTimer.Session.Step

/-!
# The dispatcher

A dispatcher scans the documents it is handed, drives one session, and passes the events on.

* `Dispatcher`: the session and the handlers bound to its timer.
* `Dispatch`: the result of a step, with every event beside the handlers that received it.
* `Dispatcher.evaluate`, `Dispatcher.tick`, `Dispatcher.stop`, `Dispatcher.retry`: the steps.
-/

namespace TaskTimer

/-- A session with the handlers bound to its timer. -/
structure Dispatcher (α : Type) where
  session : Session
  bound : Handlers α := {}
  /-- The progress of the timer is broadcast. -/
  broadcasts : Bool := false

/-- The result of a step. -/
structure Dispatch (α : Type) where
  dispatcher : Dispatcher α
  order : TickOrder
  /-- Every event with the handlers that received it. -/
  deliveries : List (Handlers α × Event)
  /-- What was broadcast. -/
  notices : List Notice

namespace Dispatch

variable {α : Type}

/-- The reactions of the handlers, in order. -/
def reactions (r : Dispatch α) : List α := r.deliveries.filterMap fun (h, e) => h.react e

end Dispatch

namespace Dispatcher

variable {α : Type}

/-- A dispatcher whose session runs groups without a count `cap` times. -/
def new (cap : UInt32) (broadcasts : Bool) : Dispatcher α :=
  { session := .new cap, broadcasts := broadcasts }

/-- The handlers that receive an event: starts and cancellations go to the caller, if there is one,
and everything else to the handlers bound to the timer. -/
def receiver (p : Dispatcher α) (caller : Option (Handlers α)) (e : Event) : Handlers α :=
  if e.isProgress then p.bound else caller.getD p.bound

/-- Passes on the events of a transition. A caller whose declaration was taken up has its handlers
bound to the timer from then on. -/
def apply (p : Dispatcher α) (t : Transition) (caller : Option (Handlers α)) : Dispatch α where
  dispatcher :=
    { p with
      session := t.session
      bound := if t.adopted then caller.getD p.bound else p.bound }
  order := t.order
  deliveries := t.events.map fun e => (p.receiver caller e, e)
  notices := if p.broadcasts then t.events.filterMap Notice.ofEvent? else []

/-- A document has the given text, and the caller listens to what that means for the timer. -/
def evaluate (p : Dispatcher α) (text document : String) (caller : Handlers α) : Dispatch α :=
  p.apply (p.session.evaluate (scan text document) document) (some caller)

/-- A second of the run `generation` has passed. -/
def tick (p : Dispatcher α) (generation : Nat) : Dispatch α :=
  p.apply (p.session.tick generation) none

/-- The timer is given up. -/
def stop (p : Dispatcher α) : Dispatch α := p.apply p.session.stop none

/-- The last declaration that was taken up starts over. -/
def retry (p : Dispatcher α) : Dispatch α := p.apply p.session.retry none

end Dispatcher

end TaskTimer
