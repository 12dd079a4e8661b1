import TaskTimer.Session.Basic

/-!
# Steps of a session

A session moves when a document has been scanned, when a second has passed, and when it is told to
stop or to start over. Each step gives the session after it, what it reports, and what the source
of ticks has to do.

* `TickOrder`: the instruction to the source of ticks.
* `Transition`: the result of a step.
* `Session.evaluate`, `Session.tick`, `Session.stop`, `Session.retry`: the steps.
* `Input`, `Session.step`, `Session.run`: a step and a sequence of steps as values.
-/

namespace TaskTimer

/-- What the source of ticks has to do. -/
inductive TickOrder where
  | keep
  /-- Tick for this generation from now on. -/
  | arm (generation : Nat)
  | disarm
  deriving DecidableEq, Repr, Inhabited

/-- The result of a step. -/
structure Transition where
  session : Session
  events : List Event := []
  order : TickOrder := .keep
  /-- A declaration was taken up, or a paused one was started for the first time. -/
  adopted : Bool := false
  deriving DecidableEq, Repr

namespace Session

/-! ## Parts of a step -/

/-- The session without an active timer; the ticks of the run that ends are stale. -/
def halt (s : Session) : Session :=
  { s with phase := .idle, started := false, remaining := 0, generation := s.generation + 1 }

/-- The session at the start of `plan`, which `d` declares, in a new generation. -/
def install (s : Session) (d : Declaration) (plan : Plan) : Session :=
  { s with
    declaration := some d
    plan := plan
    position := 0
    remaining := (plan.entries[0]?.map (·.seconds)).getD 0
    phase := if d.paused then .paused else .running
    started := false
    generation := s.generation + 1 }

/-- The session with its timer marked as started. -/
def start (s : Session) : Session := { s with started := true }

/-- Takes up a declaration in place of whatever the session holds. A declaration whose plan is
empty is dropped. -/
def adopt (s : Session) (d : Declaration) : Transition :=
  let cancels := if s.isActive then [Event.cancel] else []
  let plan := Plan.layout s.loopCap d.nodes
  if plan.size = 0 then
    { session := { s.halt with declaration := none }, events := cancels, order := .disarm }
  else
    let next := { s with latest := some d }.install d plan
    if d.paused then
      { session := next, events := cancels, order := .disarm, adopted := true }
    else
      { session := next.start
        events := cancels ++ [.start d]
        order := .arm next.generation
        adopted := true }

/-- Pauses or resumes the timer as the new form of its declaration says. A timer that was paused
from the beginning starts. -/
def togglePause (s : Session) (d : Declaration) : Transition :=
  let s := { s with latest := some d, declaration := some d }
  match d.paused, s.phase with
  | true, .running => { session := { s with phase := .paused } }
  | false, .paused =>
    if s.started then { session := { s with phase := .running } }
    else
      let next := { s with phase := .running, started := true, generation := s.generation + 1 }
      { session := next, events := [.start d], order := .arm next.generation, adopted := true }
  | _, _ => { session := s }

/-- The document declares the timer `d`. The declaration that is held stays if it is the same, and
a paused timer gives way only to its own document. -/
def found (s : Session) (d : Declaration) : Transition :=
  match s.declaration with
  | none => s.adopt d
  | some current =>
    if current.sameTimer d then { session := s }
    else if current.sameContent d then s.togglePause d
    else if current.document != d.document && s.phase == .paused then { session := s }
    else s.adopt d

/-- The document declares no timer. -/
def missing (s : Session) (document : String) : Transition :=
  match s.declaration with
  | none =>
    if s.cleared = some document then { session := s }
    else { session := { s with cleared := some document }, events := [.cancel] }
  | some current =>
    if current.document != document then { session := s }
    else
      { session := { s.halt with declaration := none, plan := {}, cleared := some document }
        events := [.cancel]
        order := .disarm }

/-! ## The steps -/

/-- The document has been scanned, and `scanned` is the timer it declares. -/
def evaluate (s : Session) (scanned : Option Declaration) (document : String) : Transition :=
  match scanned with
  | some d => { s with cleared := none }.found d
  | none => s.missing document

/-- A second of the run `generation` has passed. The countdown goes on, or gives way to the next
one, or was the last one. -/
def tick (s : Session) (generation : Nat) : Transition :=
  if generation != s.generation || s.phase != .running then { session := s }
  else
    match s.declaration, s.plan.entries[s.position]? with
    | some d, some entry =>
      let remaining := s.remaining.pred
      let passed := .interval remaining entry.seconds entry.stepLabel entry.symbol d
      if remaining != 0 then { session := { s with remaining := remaining }, events := [passed] }
      else
        match s.plan.entries[s.position + 1]? with
        | some next =>
          { session := { s with position := s.position + 1, remaining := next.seconds }
            events :=
              if s.plan.announces (s.position + 1) then
                [passed, .step next.stepLabel next.symbol d]
              else [passed] }
        | none =>
          { session := { s with position := s.position + 1 }.halt
            events := [passed, .finish d]
            order := .disarm }
    | _, _ => { session := s }

/-- The timer is given up. -/
def stop (s : Session) : Transition :=
  if s.isActive then { session := s.halt, events := [.cancel], order := .disarm }
  else { session := s }

/-- The last declaration that was taken up starts over. -/
def retry (s : Session) : Transition :=
  match s.latest with
  | none => { session := s }
  | some d =>
    let plan := Plan.layout s.loopCap d.nodes
    if plan.size = 0 then { session := s }
    else
      let next := (s.install d plan).start
      { session := next, events := [.start d], order := .arm next.generation }

end Session

/-! ## Runs -/

/-- Something that a session reacts to. -/
inductive Input where
  | evaluate (scanned : Option Declaration) (document : String)
  | tick (generation : Nat)
  | stop
  | retry
  deriving DecidableEq, Repr

namespace Session

/-- The step that an input causes. -/
def step (s : Session) : Input → Transition
  | .evaluate scanned document => s.evaluate scanned document
  | .tick generation => s.tick generation
  | .stop => s.stop
  | .retry => s.retry

/-- The transitions that a sequence of inputs causes, one after the other. -/
def run (s : Session) : List Input → List Transition
  | [] => []
  | i :: is => s.step i :: (s.step i).session.run is

end Session

end TaskTimer
