import TaskTimer.Command.Report
import TaskTimer.Files.Watcher
import TaskTimer.Session.Service
import TaskTimer.Settings.Basic
import TaskTimer.Text.Basic

/-!
# Watching

The command that watches a document runs the timer that the document declares, and takes orders from
the terminal.

* `WatchOptions`: what is watched, and who else is told.
* `terminal`: the handlers that show events on the terminal.
* `Order`: the orders that can be typed.
* `Watch`: the service with the watcher of the document.
* `Watch.look`, `Watch.obey`, `Watch.elapse`: what can happen.
-/

namespace TaskTimer

/-- What is watched, and who else is told. -/
structure WatchOptions where
  file : String
  /-- The address of the sink for listeners, if there is to be one. -/
  sink : Option String
  /-- The log for notices, if there is to be one. -/
  eventLog : Option String
  deriving DecidableEq, Repr

namespace WatchOptions

/-- The options of a command line, and for what it leaves open those of the settings. An address for
the sink asks for the sink. -/
def of (settings : BroadcastSettings) (file : String) (broadcast : Bool)
    (bind eventLog : Option String) : WatchOptions where
  file := file
  sink :=
    if broadcast || bind.isSome || settings.enabled then some (bind.getD settings.bind) else none
  eventLog := eventLog.or settings.eventLog

/-- Somebody else is told. -/
def broadcasts (o : WatchOptions) : Bool := o.sink.isSome || o.eventLog.isSome

end WatchOptions

/-- The sentence shown when there can be no sink at an address. -/
def noSinkMessage (address : String) : String :=
  s!"Failed to bind broadcast listener on {address}"

/-- What is shown at the beginning: the address of the sink, if there is one, and the document. -/
def watchHeading (sink : Option String) (document : String) : String :=
  unlines ((sink.map fun address => s!"Broadcasting on {address}").toList ++
    [s!"Watching {document}"])

/-! ## The terminal -/

/-- The symbol of a countdown without one. -/
def usualSymbol : String := "⏱"

/-- What shows a tick. It stays in its line, so that the next one replaces it. -/
def tickText (remaining duration : Duration) (label : String) (symbol : Option String)
    (content : String) : String :=
  let mark := symbol.getD usualSymbol
  let label := if label.isEmpty then "" else s!"[{label}]"
  s!"\r{mark} {clockText remaining} / {clockText duration} {label} {content}   "

/-- The handlers that show events on the terminal. -/
def terminal : Handlers String where
  start := some fun d => s!"\rstart {d.label}\n"
  interval := some fun remaining duration label symbol d =>
    tickText remaining duration label symbol d.label
  step := some fun label symbol _ =>
    let mark := symbol.getD ""
    s!"\rstep {label} {mark}\n"
  finish := some fun d => s!"\rfinish {d.label}\n"
  cancel := some "\rcancel\n"

/-- What shows the state of a session. -/
def Snapshot.status (s : Snapshot) : String :=
  match s.label, s.phase with
  | none, _ | _, .idle => s!"\r{s.phase.name}\n"
  | some label, _ =>
    let clock := s!"{clockText s.remaining}/{clockText s.duration}"
    s!"\r{s.phase.name} {label} {clock} entry {s.position + 1}/{s.planSize} [{s.step}]\n"

/-- An order from the terminal. -/
inductive Order where
  | nothing
  | stop
  | retry
  | status
  | quit
  | unknown (text : String)
  deriving DecidableEq, Repr

/-- The order that a line gives. Blanks around it do not matter. -/
def Order.ofLine (line : String) : Order :=
  match String.ofList (trim line.toList) with
  | "" => .nothing
  | "stop" => .stop
  | "retry" => .retry
  | "status" => .status
  | "quit" | "exit" | "q" => .quit
  | text => .unknown text

/-! ## The timer of the document -/

/-- A service with the watcher of the document that it follows. -/
structure Watch where
  service : Service String
  watcher : Watcher

namespace Watch

/-- The watch at its beginning. The document has the given name. -/
def new (settings : TimerSettings) (options : WatchOptions) (document : String) : Watch where
  service := .new settings.loopCap options.broadcasts settings.tickMs.toNat
  watcher := { path := options.file, document := document }

/-- The watch after a request to its service. -/
def after (w : Watch)
    (r : Service String × Except ServiceError (Activity String)) : Watch × Activity String :=
  match r with
  | (s, .ok activity) => ({ w with service := s }, activity)
  | (s, .error _) => ({ w with service := s }, {})

/-- The document is looked at. A failure leaves everything as it is. -/
def look (w : Watch) (found : Reading) : Watch × Activity String :=
  let outcome := w.watcher.check found true
  let w := { w with watcher := outcome.watcher }
  match outcome.sent with
  | some change => w.after (w.service.evaluate change.text change.document terminal)
  | none => (w, {})

/-- An order is carried out, other than the one to quit. -/
def obey (w : Watch) : Order → Watch × Activity String
  | .nothing | .quit => (w, {})
  | .stop => w.after w.service.stop
  | .retry => w.after w.service.retry
  | .status => (w, { reactions := [w.service.snapshot.status] })
  | .unknown text =>
    (w, { reactions := [s!"Unknown command: {text} (stop, retry, status, quit)\n"] })

/-- Milliseconds pass. -/
def elapse (w : Watch) (ms : Nat) : Watch × Activity String :=
  let (s, activity) := w.service.elapse ms
  ({ w with service := s }, activity)

end Watch

/-- What is shown at the end. -/
def watchEnding : String := "\n"

end TaskTimer
