import TaskTimer.Notation.Node
import TaskTimer.Plan.Basic

/-!
# Laying out a timer

A plan lists the countdowns of a timer tree in the order in which they run. It has room for
`maxEntries` of them; a timer that needs more is cut off there.

* `Node.expansion`, `expansion`: the countdowns of a tree, without any limit.
* `Walk`, `Walk.visitAll`: the way through a tree, which ends when the plan is full.
* `Plan.layout`: the plan of a tree.
-/

namespace TaskTimer

/-- The repetitions of a group without a count, where nothing else is said. -/
def defaultLoopCap : UInt32 := 99

/-- The room of a plan. -/
def maxEntries : Nat := 100000

/-! ## The whole expansion -/

mutual

/-- The countdowns of a node inside the repetitions `path`. -/
def Node.expansion (cap : UInt32) (path : List Nat) : Node → List Entry
  | .leaf seconds symbol => [⟨seconds, symbol, path⟩]
  | .group children loopCount =>
    (List.range (repetitions cap loopCount)).flatMap fun k =>
      TaskTimer.expansion cap (path ++ [k + 1]) children

/-- The countdowns of a sequence of nodes inside the repetitions `path`. -/
def expansion (cap : UInt32) (path : List Nat) : List Node → List Entry
  | [] => []
  | node :: nodes => node.expansion cap path ++ expansion cap path nodes

end

/-! ## The plan -/

namespace Plan

/-- No further entry has room. -/
def isFull (p : Plan) : Bool := maxEntries ≤ p.size

/-- The plan, marked as cut off. -/
def cutOff (p : Plan) : Plan := { p with truncated := true }

end Plan

/-- A walk over a timer tree: the repetitions around the place where it is, and the plan so far. -/
structure Walk where
  path : List Nat := []
  plan : Plan := {}

namespace Walk

def cutOff (w : Walk) : Walk := { w with plan := w.plan.cutOff }

/-- A countdown goes into the plan. -/
def add (w : Walk) (seconds : Duration) (symbol : Option String) : Walk :=
  { w with plan := { w.plan with entries := w.plan.entries.push ⟨seconds, symbol, w.path⟩ } }

/-- Into a group. -/
def enter (w : Walk) : Walk := { w with path := w.path ++ [1] }

/-- To repetition `k` of the innermost group. -/
def turn (w : Walk) (k : Nat) : Walk := { w with path := w.path.set (w.path.length - 1) k }

/-- Out of the innermost group. -/
def leave (w : Walk) : Walk := { w with path := w.path.dropLast }

/-- Runs `body` in the repetitions `k`, `k + 1`, and so on, `n` in all, until the plan is full. -/
def rounds (body : Walk → Walk) : Nat → Nat → Walk → Walk
  | 0, _, w => w
  | n + 1, k, w => if w.plan.isFull then w.cutOff else rounds body n (k + 1) (body (w.turn k))

mutual

/-- Visits a node, and is done with the nodes behind it if a part of this one had no room. A group
that never runs, or holds no countdown, is passed over. -/
def visit (cap : UInt32) : Node → Walk → ForInStep Walk
  | .leaf seconds symbol, w =>
    if w.plan.isFull then .done w.cutOff else .yield (w.add seconds symbol)
  | .group children loopCount, w =>
    if leafCount children = 0 || repetitions cap loopCount = 0 then .yield w
    else
      let left := (rounds (visitAll cap children) (repetitions cap loopCount) 1 w.enter).leave
      if left.plan.truncated then .done left else .yield left

/-- Visits a sequence of nodes. -/
def visitAll (cap : UInt32) : List Node → Walk → Walk
  | [], w => w
  | node :: nodes, w =>
    match visit cap node w with
    | .done w => w
    | .yield w => visitAll cap nodes w

end

end Walk

/-- The plan of a timer tree in which groups without a count run `cap` times. -/
def Plan.layout (cap : UInt32) (nodes : List Node) : Plan := (Walk.visitAll cap nodes {}).plan

end TaskTimer
