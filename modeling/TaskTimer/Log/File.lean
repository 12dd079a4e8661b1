import TaskTimer.Files.Basic
import TaskTimer.Log.Entry

/-!
# Log files

* `LogError`: why a log cannot be used.
* `Logger`: what writes entries behind the others of a log.
* `readLogFile`: reading all entries.
-/

namespace TaskTimer

/-- Why a log cannot be used. -/
inductive LogError where
  /-- The directory of the log cannot be made. -/
  | noDirectory
  /-- The log cannot be written. -/
  | closed (path : String)
  /-- The log cannot be read. -/
  | unreadable (path : String)
  deriving DecidableEq, Repr

/-- The sentence shown for an error. -/
def LogError.message : LogError → String
  | .noDirectory => "Failed to create event log directory"
  | .closed path => s!"Failed to open event log {path}"
  | .unreadable path => s!"Failed to read {path}"

variable {m : Type → Type} [Monad m] [MonadFiles m]

/-- What writes a log. The log is opened before the first entry and stays open. -/
structure Logger where
  path : String
  isOpen : Bool := false
  deriving DecidableEq, Repr

namespace Logger

/-- Puts bytes behind the others of the log. -/
def append (l : Logger) (bytes : List UInt8) : m (Except LogError Unit) := do
  if ← appendFile l.path bytes then return .ok ()
  return .error (.closed l.path)

/-- Opens the log. It is made if it is missing, and so is its directory. -/
def openLog (l : Logger) : m (Except LogError Unit) := do
  let hasDirectory ←
    match Path.parent? l.path with
    | none => pure true
    | some directory => makeDirectories directory
  if !hasDirectory then return .error .noDirectory
  l.append []

/-- Writes an entry behind the others. -/
def write (l : Logger) (e : LogEntry) : m (Logger × Except LogError Unit) := do
  if l.isOpen then return (l, ← l.append e.bytes)
  match ← l.openLog with
  | .error error => return (l, .error error)
  | .ok () =>
    let l := { l with isOpen := true }
    return (l, ← l.append e.bytes)

end Logger

/-- The entries of the log at a path. A log that is missing has none. -/
def readLogFile (path : String) : m (Except LogError (List LogEntry)) := do
  if (← canonical? path).isNone then return .ok []
  match ← readFile path with
  | .error _ => return .error (.unreadable path)
  | .ok content =>
    match readLog content with
    | some entries => return .ok entries
    | none => return .error (.unreadable path)

end TaskTimer
