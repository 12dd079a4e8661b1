import TaskTimer.Duration
import TaskTimer.Text.Basic

/-!
# Plans

A plan is a timer laid out as the countdowns that run one after the other.

* `Entry`: a countdown with its place in the repetitions around it, shown as `Entry.stepLabel`.
* `Plan`: the countdowns, and whether there would have been more.
* `Plan.announces`: whether moving on to an entry is announced as a step.
-/

namespace TaskTimer

/-- One countdown of a plan. -/
structure Entry where
  seconds : Duration
  symbol : Option String
  /-- The repetition of every group around the countdown, counted from one, outermost first. -/
  stepPath : List Nat
  deriving DecidableEq, Repr, Inhabited

/-- The display form of a step path, such as `2-1`. -/
def stepLabel (path : List Nat) : String :=
  .ofList (['-'].intercalate (path.map showDecimal))

/-- The display form of the entry's step path, empty outside any group. -/
def Entry.stepLabel (e : Entry) : String := TaskTimer.stepLabel e.stepPath

/-- A timer laid out as countdowns. -/
structure Plan where
  entries : Array Entry := #[]
  /-- There was no room for a part of the timer. -/
  truncated : Bool := false
  deriving DecidableEq, Repr, Inhabited

namespace Plan

/-- The number of countdowns. -/
def size (p : Plan) : Nat := p.entries.size

/-- The running time; a sum that does not fit is the longest duration. -/
def duration (p : Plan) : Duration := p.entries.foldl (fun d e => d.add e.seconds) 0

/-- Moving on to entry `i` is announced as a step when it runs in another repetition than the
entry before it. -/
def announces (p : Plan) (i : Nat) : Bool :=
  match i with
  | 0 => false
  | j + 1 =>
    match p.entries[j]?, p.entries[j + 1]? with
    | some previous, some next => !next.stepPath.isEmpty && next.stepPath != previous.stepPath
    | _, _ => false

end Plan

end TaskTimer
