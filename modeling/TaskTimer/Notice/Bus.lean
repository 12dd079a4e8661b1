import TaskTimer.Notice.Basic

/-!
# The notice bus

Every subscriber of the bus receives the notices sent since it subscribed. Only the latest notices
are kept; a subscriber that reads too late learns how many it has missed.

* `Bus`: what was sent, and how far each subscriber has read.
* `Bus.subscribe`, `Bus.drop`, `Bus.send`, `Bus.drain`: the operations.
* `Received`: what a subscriber finds when it reads.
-/

namespace TaskTimer

/-- What a subscriber finds when it reads: how many notices it has missed, and those behind them. -/
structure Received where
  missed : Nat
  notices : List Notice
  deriving DecidableEq, Repr

/-- A bus with its subscribers. -/
structure Bus where
  /-- The number of notices that are kept. -/
  capacity : Nat
  /-- Every notice sent so far. -/
  sent : Array Notice := #[]
  /-- The subscribers, and for each the number of notices that it has no more to read. -/
  subscribers : List (String × Nat) := []
  deriving Repr

namespace Bus

/-- An unused bus that keeps at least `n` notices: the least power of two that is not below `n`. -/
def new (n : Nat) : Bus := { capacity := (max n 1).nextPowerOfTwo }

/-- Subscribes `name` from now on. A subscription of the same name ends. -/
def subscribe (b : Bus) (name : String) : Bus :=
  { b with subscribers := (name, b.sent.size) :: b.subscribers.filter (·.1 != name) }

/-- Ends the subscription of `name`. -/
def drop (b : Bus) (name : String) : Bus :=
  { b with subscribers := b.subscribers.filter (·.1 != name) }

/-- The number of subscribers. -/
def subscriberCount (b : Bus) : Nat := b.subscribers.length

/-- Sends a notice to all subscribers. -/
def send (b : Bus) (n : Notice) : Bus := { b with sent := b.sent.push n }

/-- Sends notices one after the other. -/
def sendAll (b : Bus) (ns : List Notice) : Bus := ns.foldl send b

/-- What a subscriber finds that has read `read` notices. -/
def received (b : Bus) (read : Nat) : Received :=
  let missed := b.sent.size - read - b.capacity
  { missed := missed, notices := (b.sent.extract (read + missed) b.sent.size).toList }

/-- What the subscriber `name` finds, and the bus after it has read everything. -/
def drain (b : Bus) (name : String) : Option Received × Bus :=
  match b.subscribers.lookup name with
  | none => (none, b)
  | some read => (some (b.received read), b.subscribe name)

end Bus

end TaskTimer
