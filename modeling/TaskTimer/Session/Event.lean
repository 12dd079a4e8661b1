import TaskTimer.Plan.Basic
import TaskTimer.Task.Declaration

/-!
# Timer events

What a timer session reports. Whoever drives a session says what is to happen at each kind of event.

* `Event`: a start, a tick, a step to another repetition, the end, or a cancellation.
* `Event.isProgress`: the events that a running timer makes on its own.
* `Handlers`: for each kind of event the reaction to it, if there is one.
* `Handlers.react`: the reaction to an event. `Handlers.summary`: which reactions are there.
-/

namespace TaskTimer

/-- What a timer session reports. -/
inductive Event where
  | start (declaration : Declaration)
  /-- A second has passed; `remaining` of `duration` seconds are left of the countdown. -/
  | interval (remaining duration : Duration) (step : String) (symbol : Option String)
      (declaration : Declaration)
  /-- The next countdown runs in another repetition. -/
  | step (step : String) (symbol : Option String) (declaration : Declaration)
  | finish (declaration : Declaration)
  | cancel
  deriving DecidableEq, Repr, Inhabited

namespace Event

/-- The declaration that the event is about. -/
def declaration? : Event → Option Declaration
  | .start d | .interval _ _ _ _ d | .step _ _ d | .finish d => some d
  | .cancel => none

/-- The event comes from the passing of time, not from a request. -/
def isProgress : Event → Bool
  | .interval .. | .step .. | .finish .. => true
  | .start .. | .cancel => false

end Event

/-! ## Handlers -/

/-- The reactions to events, one for each kind, each of them optional. -/
structure Handlers (α : Type) where
  start : Option (Declaration → α) := none
  interval : Option (Duration → Duration → String → Option String → Declaration → α) := none
  step : Option (String → Option String → Declaration → α) := none
  finish : Option (Declaration → α) := none
  cancel : Option α := none

namespace Handlers

variable {α : Type}

/-- The reaction to an event, if there is one for its kind. -/
def react (h : Handlers α) : Event → Option α
  | .start d => h.start.map fun f => f d
  | .interval remaining duration step symbol d =>
    h.interval.map fun f => f remaining duration step symbol d
  | .step step symbol d => h.step.map fun f => f step symbol d
  | .finish d => h.finish.map fun f => f d
  | .cancel => h.cancel

/-- Which reactions are there. -/
def summary (h : Handlers α) : String :=
  s!"EventHandlers \x7b start: {h.start.isSome}, interval: {h.interval.isSome}, " ++
    s!"step: {h.step.isSome}, finish: {h.finish.isSome}, cancel: {h.cancel.isSome} \x7d"

end Handlers

end TaskTimer
