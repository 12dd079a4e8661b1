import TaskTimer.Plan.Layout

/-!
# Settings

* `TimerSettings`, `WatchSettings`, `BroadcastSettings`: the settings of the three parts of the
  program.
* `Settings`: all settings.
-/

namespace TaskTimer

/-- How timers run. -/
structure TimerSettings where
  /-- The repetitions of groups without a count. -/
  loopCap : UInt32 := defaultLoopCap
  /-- The milliseconds of a tick. -/
  tickMs : UInt64 := 1000
  /-- The number of requests that may wait for an answer. -/
  channelBuffer : UInt64 := 64
  deriving DecidableEq, Repr

/-- The milliseconds between two ticks, at least one. -/
def TimerSettings.tick (s : TimerSettings) : UInt64 := max s.tickMs 1

/-- How documents are watched. -/
structure WatchSettings where
  /-- The milliseconds between two looks at a document. -/
  pollIntervalMs : UInt64 := 250
  deriving DecidableEq, Repr

/-- The milliseconds between two looks, at least one. -/
def WatchSettings.pollInterval (s : WatchSettings) : UInt64 := max s.pollIntervalMs 1

/-- How notices are sent to others. -/
structure BroadcastSettings where
  enabled : Bool := false
  /-- The address of the sink. -/
  bind : String := "127.0.0.1:8765"
  /-- The number of notices that are kept for slow listeners. -/
  channelCapacity : UInt64 := 1024
  /-- The log in which notices are kept. -/
  eventLog : Option String := none
  deriving DecidableEq, Repr

/-- All settings. -/
structure Settings where
  timer : TimerSettings := {}
  watch : WatchSettings := {}
  broadcast : BroadcastSettings := {}
  logLevel : Option String := none
  deriving DecidableEq, Repr

end TaskTimer
