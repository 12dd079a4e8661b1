import TaskTimer.Duration
import TaskTimer.Notation.Lexer

/-!
# The timer tree

A timer is a sequence of countdowns and groups; a group repeats a sequence.

* `Node`: a countdown or a group.
* `repetitions`: how often a group runs, given the cap for groups without a count.
* `Node.leafCount`, `leafCount`: the countdowns written in a tree, repetition aside.
* `Node.duration`: the running time, with every repetition counted.
* `Node.tokens`, `tokensOf`: the tokens that write a tree.
* `Node.depth`, `depth`: how deep groups are nested.
-/

namespace TaskTimer

/-- A countdown, or a group of nodes that repeats. -/
inductive Node where
  | leaf (seconds : UInt64) (symbol : Option String)
  /-- A group; the loop count zero stands for no limit of its own. -/
  | group (children : List Node) (loopCount : UInt32)
  deriving Repr, Inhabited

mutual

/-- Two nodes are equal or not. -/
def Node.decEq : (a b : Node) → Decidable (a = b)
  | .leaf s x, .leaf t y => decidable_of_iff (s = t ∧ x = y) (by simp)
  | .group xs m, .group ys n =>
    have := nodesDecEq xs ys
    decidable_of_iff (xs = ys ∧ m = n) (by simp)
  | .leaf .., .group .. => .isFalse (by simp)
  | .group .., .leaf .. => .isFalse (by simp)

/-- Two sequences of nodes are equal or not. -/
def nodesDecEq : (xs ys : List Node) → Decidable (xs = ys)
  | [], [] => .isTrue rfl
  | x :: xs, y :: ys =>
    have := x.decEq y
    have := nodesDecEq xs ys
    decidable_of_iff (x = y ∧ xs = ys) (by simp)
  | [], _ :: _ => .isFalse (by simp)
  | _ :: _, [] => .isFalse (by simp)

end

instance : DecidableEq Node := Node.decEq

/-- How often a group with this loop count runs when `cap` replaces the count zero. -/
def repetitions (cap loopCount : UInt32) : Nat :=
  if loopCount = 0 then cap.toNat else loopCount.toNat

/-! ## Counting -/

mutual

/-- The countdowns written in a node. -/
def Node.leafCount : Node → Nat
  | .leaf .. => 1
  | .group children _ => TaskTimer.leafCount children

/-- The countdowns written in a sequence of nodes. -/
def leafCount : List Node → Nat
  | [] => 0
  | node :: nodes => node.leafCount + leafCount nodes

end

mutual

/-- The running time of a node; a sum that does not fit is the longest duration. -/
def Node.duration (cap : UInt32) : Node → Duration
  | .leaf seconds _ => seconds
  | .group children loopCount =>
    (durationOnce cap children).repeated (repetitions cap loopCount)

/-- The running time of a sequence of nodes that runs once. -/
def durationOnce (cap : UInt32) : List Node → Duration
  | [] => 0
  | node :: nodes => (node.duration cap).add (durationOnce cap nodes)

end

mutual

/-- The number of groups around the innermost node. -/
def Node.depth : Node → Nat
  | .leaf .. => 0
  | .group children _ => TaskTimer.depth children + 1

/-- The depth of the deepest node of a sequence. -/
def depth : List Node → Nat
  | [] => 0
  | node :: nodes => max node.depth (depth nodes)

end

/-! ## Writing -/

mutual

/-- The tokens that write a node. -/
def Node.tokens : Node → List Token
  | .leaf seconds symbol => [.time seconds symbol]
  | .group children loopCount => .openGroup :: tokensOf children ++ [.closeGroup loopCount]

/-- The tokens that write a sequence of nodes. -/
def tokensOf : List Node → List Token
  | [] => []
  | node :: nodes => node.tokens ++ tokensOf nodes

end

end TaskTimer
