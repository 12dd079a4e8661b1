import TaskTimer.Plan.Layout
import TaskTimer.Session.Event

/-!
# Timer sessions

A session follows the timer of at most one document.

* `Session`: the timer that is held, its plan, and how far it has run.
* `Session.snapshot`: what a session shows of itself.
-/

namespace TaskTimer

/-- Whether the timer runs. -/
inductive Phase where
  | idle
  | running
  | paused
  deriving DecidableEq, Repr, Inhabited

/-- The name shown for a phase. -/
def Phase.name : Phase → String
  | .idle => "idle"
  | .running => "running"
  | .paused => "paused"

/-- A timer session. -/
structure Session where
  /-- The repetitions of groups without a count. -/
  loopCap : UInt32 := defaultLoopCap
  /-- The declaration that is held. -/
  declaration : Option Declaration := none
  /-- The last declaration that was taken up. -/
  latest : Option Declaration := none
  plan : Plan := {}
  /-- The index of the current countdown. -/
  position : Nat := 0
  /-- What is left of the current countdown. -/
  remaining : Duration := 0
  phase : Phase := .idle
  /-- The timer has been started since it was taken up. -/
  started : Bool := false
  /-- The number of the current run; ticks of another number are stale. It counts the orders
  to the source of ticks, of which there are fewer than `2 ^ 64`. -/
  generation : Nat := 0
  /-- The document of which it has been said that it declares no timer. -/
  cleared : Option String := none
  deriving DecidableEq, Repr, Inhabited

namespace Session

/-- A session in which groups without a count run `cap` times. -/
def new (cap : UInt32) : Session := { loopCap := cap }

/-- The timer runs or is paused. -/
def isActive (s : Session) : Bool := s.phase != .idle

/-- The current countdown of an active timer. -/
def entry? (s : Session) : Option Entry := if s.isActive then s.plan.entries[s.position]? else none

end Session

/-- What a session shows of itself. -/
structure Snapshot where
  phase : Phase
  document : Option String
  label : Option String
  position : Nat
  planSize : Nat
  remaining : Duration
  duration : Duration
  step : String
  symbol : Option String
  deriving DecidableEq, Repr

/-- The current view of a session. -/
def Session.snapshot (s : Session) : Snapshot where
  phase := s.phase
  document := s.declaration.map (·.document)
  label := s.declaration.map (·.label)
  position := s.position
  planSize := s.plan.size
  remaining := if s.isActive then s.remaining else 0
  duration := (s.entry?.map (·.seconds)).getD 0
  step := (s.entry?.map (·.stepLabel)).getD ""
  symbol := s.entry?.bind (·.symbol)

end TaskTimer
