import TaskTimer.Session.Dispatcher

/-!
# The timer service

The service runs a dispatcher against a clock that counts milliseconds. While the dispatcher asks
for ticks they come one period apart, the first of them a period after the request.

* `Service`: the dispatcher, the clock, and the next tick.
* `Service.evaluate`, `Service.stop`, `Service.retry`, `Service.view`: requests.
* `Service.elapse`: the passing of time.
* `Service.shutdown`, `ServiceError`: the end of the service, and requests that come too late.
-/

namespace TaskTimer

/-- Why a request has no answer. -/
inductive ServiceError where
  /-- The service ended after it had accepted the request. -/
  | replyDropped
  /-- The service had ended before. -/
  | channelClosed
  deriving DecidableEq, Repr, Inhabited

/-- The sentence shown for an error. -/
def ServiceError.message : ServiceError → String
  | .replyDropped => "Timer service dropped the reply"
  | .channelClosed => "Timer service channel closed"

/-- The next tick of a source of ticks. -/
structure Alarm where
  generation : Nat
  /-- The instant of the tick, in milliseconds. -/
  due : Nat
  deriving DecidableEq, Repr

/-- How far the end of a service has come. -/
inductive Liveness where
  | open
  /-- The service has been told to end and has not yet done so. -/
  | ending
  | ended
  deriving DecidableEq, Repr

/-- A dispatcher that runs against a clock. -/
structure Service (α : Type) where
  dispatcher : Dispatcher α
  /-- The milliseconds between two ticks. -/
  period : Nat
  /-- The milliseconds since the service was set up. -/
  now : Nat := 0
  alarm : Option Alarm := none
  liveness : Liveness := .open

/-- What happens during a step of a service. -/
structure Activity (α : Type) where
  reactions : List α := []
  notices : List Notice := []

namespace Service

variable {α : Type}

/-- A service at instant zero. A period of zero counts as one millisecond. -/
def new (cap : UInt32) (broadcasts : Bool) (tickMs : Nat) : Service α :=
  { dispatcher := .new cap broadcasts, period := max tickMs 1 }

/-- The next tick after an instruction to the source of ticks. -/
def reset (s : Service α) : TickOrder → Option Alarm
  | .keep => s.alarm
  | .arm generation => some { generation := generation, due := s.now + s.period }
  | .disarm => none

/-- The service after a step of its dispatcher, and what happened. -/
def apply (s : Service α) (r : Dispatch α) : Service α × Activity α :=
  ({ s with dispatcher := r.dispatcher, alarm := s.reset r.order },
    { reactions := r.reactions, notices := r.notices })

/-! ## Requests -/

/-- A request that the dispatcher answers with `act`. It fails when the service is ending, and the
failure is the last thing that is heard of the service. -/
def request (s : Service α) (act : Dispatcher α → Dispatch α) :
    Service α × Except ServiceError (Activity α) :=
  match s.liveness with
  | .open =>
    let (s, activity) := s.apply (act s.dispatcher)
    (s, .ok activity)
  | .ending => ({ s with liveness := .ended }, .error .replyDropped)
  | .ended => (s, .error .channelClosed)

/-- A document has the given text. -/
def evaluate (s : Service α) (text document : String) (caller : Handlers α) :
    Service α × Except ServiceError (Activity α) :=
  s.request fun p => p.evaluate text document caller

/-- The timer is given up. -/
def stop (s : Service α) : Service α × Except ServiceError (Activity α) := s.request (·.stop)

/-- The last declaration that was taken up starts over. -/
def retry (s : Service α) : Service α × Except ServiceError (Activity α) := s.request (·.retry)

/-- The session is looked at and nothing else happens. -/
def view (s : Service α) : Service α × Except ServiceError (Activity α) :=
  s.request fun p =>
    { dispatcher := p, order := .keep, deliveries := [], notices := [] }

/-- What the session shows of itself. -/
def snapshot (s : Service α) : Snapshot := s.dispatcher.session.snapshot

/-- The service is told to end. -/
def shutdown (s : Service α) : Service α × Except ServiceError Unit :=
  match s.liveness with
  | .open | .ending => ({ s with liveness := .ending }, .ok ())
  | .ended => (s, .error .channelClosed)

/-! ## The clock -/

/-- The next tick happens at its instant, and the one after it is a period later. -/
def fire (s : Service α) (alarm : Alarm) : Service α × Activity α :=
  let s := { s with now := alarm.due, alarm := some { alarm with due := alarm.due + s.period } }
  s.apply (s.dispatcher.tick alarm.generation)

/-- Lets at most `n` ticks happen that are due by the instant `deadline`, after the reactions and
notices given. -/
def fireAll (deadline : Nat) :
    Nat → Service α → Array α → Array Notice → Service α × Array α × Array Notice
  | 0, s, reactions, notices => (s, reactions, notices)
  | n + 1, s, reactions, notices =>
    match s.alarm with
    | none => (s, reactions, notices)
    | some alarm =>
      if deadline < alarm.due then (s, reactions, notices)
      else
        let (s, activity) := s.fire alarm
        fireAll deadline n s (reactions ++ activity.reactions.toArray)
          (notices ++ activity.notices.toArray)

/-- Lets `ms` milliseconds pass, with every tick due in them, the last instant included. As a
period is at least one millisecond, no more than `ms` ticks are due. -/
def elapse (s : Service α) (ms : Nat) : Service α × Activity α :=
  match s.liveness with
  | .open =>
    let deadline := s.now + ms
    let (s, reactions, notices) := fireAll deadline (ms / s.period + 1) s #[] #[]
    ({ s with now := deadline }, { reactions := reactions.toList, notices := notices.toList })
  | _ => ({ s with now := s.now + ms, liveness := .ended }, {})

end Service

end TaskTimer
