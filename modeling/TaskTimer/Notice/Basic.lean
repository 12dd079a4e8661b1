import TaskTimer.Session.Event

/-!
# Notices

Remote listeners are told how a timer gets on: its ticks, its steps and its end. Starts and
cancellations stay at home.

* `Notice`: what a listener is told.
* `Notice.ofEvent?`: the notice of an event.
-/

namespace TaskTimer

/-- What a remote listener is told. The content is the label of the declaration. -/
inductive Notice where
  | interval (remaining duration : Duration) (step : String) (symbol : Option String)
      (content : String)
  | step (step : String) (symbol : Option String) (content : String)
  | finish (content : String)
  deriving DecidableEq, Repr, Inhabited

namespace Notice

/-- The notice of an event, for the events that are broadcast. -/
def ofEvent? : Event → Option Notice
  | .interval remaining duration label symbol d =>
    some (.interval remaining duration label symbol d.label)
  | .step label symbol d => some (.step label symbol d.label)
  | .finish d => some (.finish d.label)
  | .start _ | .cancel => none

/-- The name of the kind of notice. -/
def kind : Notice → String
  | .interval .. => "interval"
  | .step .. => "step"
  | .finish .. => "finish"

/-- The label that the notice is about. -/
def content : Notice → String
  | .interval _ _ _ _ content | .step _ _ content | .finish content => content

end Notice

end TaskTimer
