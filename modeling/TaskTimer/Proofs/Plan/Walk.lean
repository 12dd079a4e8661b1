import Mathlib.Data.Nat.Notation
import TaskTimer.Plan.Layout

/-!
# The plan, part by part

The walk over a timer tree keeps one path for all groups, and turns back as soon as a part of the
timer has no room. Both can be forgotten: a group leaves the path as it was, and a plan that was cut
off stays as it is whatever is added to it. So every part of a timer adds something to a plan.

* `Plan.addNode`, `Plan.addNodes`: the plan with a part of a timer behind it.
* `Plan.IsSettled`: only full plans are marked as cut off. `Plan.addNodes_of_truncated`: nothing more
  happens to those.
* `Walk.rounds_eq`, `Walk.visit_eq`: what the walk does to its path and its plan.
* **`Walk.visitAll_eq`**: the walk comes back to its path, with the nodes behind its plan.
-/

namespace TaskTimer

namespace Plan

/-! ## What is added to a plan -/

/-- The plan with an entry more, if it has room. -/
def push (p : Plan) (e : Entry) : Plan :=
  if p.isFull then p.cutOff else { p with entries := p.entries.push e }

/-- Runs `body` for the repetitions `k`, `k + 1`, and so on, `n` in all, until the plan is full. -/
def loop (body : ℕ → Plan → Plan) : ℕ → ℕ → Plan → Plan
  | 0, _, p => p
  | n + 1, k, p => if p.isFull then p.cutOff else loop body n (k + 1) (body k p)

mutual

/-- The plan followed by the countdowns of a node inside the repetitions `path`. -/
def addNode (cap : UInt32) : Node → List ℕ → Plan → Plan
  | .leaf seconds symbol, path, p => p.push ⟨seconds, symbol, path⟩
  | .group children loopCount, path, p =>
    if leafCount children = 0 || repetitions cap loopCount = 0 then p
    else
      p.loop (fun k p => addNodes cap children (path ++ [k]) p) (repetitions cap loopCount) 1

/-- The plan followed by the countdowns of a sequence of nodes inside the repetitions `path`. -/
def addNodes (cap : UInt32) : List Node → List ℕ → Plan → Plan
  | [], _, p => p
  | node :: nodes, path, p => addNodes cap nodes path (addNode cap node path p)

end

/-! ## Plans that were cut off -/

/-- The plan is marked as cut off only if it is full. -/
def IsSettled (p : Plan) : Prop := p.truncated = true → p.isFull = true

variable {p : Plan}

theorem isSettled_of_not_truncated (h : p.truncated = false) : p.IsSettled := fun h' => by
  rw [h] at h'
  cases h'

theorem IsSettled.truncated_eq_false (h : p.IsSettled) (room : p.isFull = false) :
    p.truncated = false := by
  rw [Bool.eq_false_iff] at room ⊢
  exact fun htrunc => room (h htrunc)

theorem isSettled_push (h : p.IsSettled) (e : Entry) : (p.push e).IsSettled := by
  rw [push]
  split
  · rename_i hfull
    exact fun _ => hfull
  · rename_i hroom
    exact fun htrunc => absurd (h htrunc) hroom

theorem isSettled_loop {body : ℕ → Plan → Plan} (hbody : ∀ k p, p.IsSettled → (body k p).IsSettled)
    (n k : ℕ) (h : p.IsSettled) : (p.loop body n k).IsSettled := by
  induction n generalizing k p with
  | zero => exact h
  | succ n ih =>
    rw [loop]
    split
    · rename_i hfull
      exact fun _ => hfull
    · exact ih (k + 1) (hbody k p h)

mutual

theorem isSettled_addNode (cap : UInt32) : ∀ (node : Node) (path : List ℕ) (p : Plan),
    p.IsSettled → (addNode cap node path p).IsSettled
  | .leaf seconds symbol, path, p, h => by
    rw [addNode]
    exact isSettled_push h _
  | .group children loopCount, path, p, h => by
    rw [addNode]
    split
    · exact h
    · exact isSettled_loop (fun k p => isSettled_addNodes cap children (path ++ [k]) p) _ 1 h

theorem isSettled_addNodes (cap : UInt32) : ∀ (nodes : List Node) (path : List ℕ) (p : Plan),
    p.IsSettled → (addNodes cap nodes path p).IsSettled
  | [], _, _, h => h
  | node :: nodes, path, p, h => by
    rw [addNodes]
    exact isSettled_addNodes cap nodes path _ (isSettled_addNode cap node path p h)

end

section CutOff

variable (hfull : p.isFull = true) (htrunc : p.truncated = true)

include hfull htrunc

theorem loop_of_truncated (body : ℕ → Plan → Plan) (n k : ℕ) : p.loop body n k = p := by
  cases n with
  | zero => rfl
  | succ n =>
    rw [loop, if_pos hfull, cutOff, ← htrunc]

theorem addNode_of_truncated (cap : UInt32) (node : Node) (path : List ℕ) :
    addNode cap node path p = p := by
  cases node with
  | leaf seconds symbol => rw [addNode, push, if_pos hfull, cutOff, ← htrunc]
  | group children loopCount =>
    rw [addNode]
    split
    · rfl
    · exact loop_of_truncated hfull htrunc _ _ _

/-- **Nothing more happens to a plan that was cut off.** -/
theorem addNodes_of_truncated (cap : UInt32) (nodes : List Node) (path : List ℕ) :
    addNodes cap nodes path p = p := by
  induction nodes with
  | nil => rfl
  | cons node nodes ih => rw [addNodes, addNode_of_truncated hfull htrunc, ih]

end CutOff

end Plan

/-! ## The walk -/

namespace Walk

theorem turn_eq (path : List ℕ) (p : Plan) (j k : ℕ) :
    turn ⟨path ++ [j], p⟩ k = ⟨path ++ [k], p⟩ := by
  simp [turn]

theorem leave_eq (path : List ℕ) (p : Plan) (j : ℕ) : leave ⟨path ++ [j], p⟩ = ⟨path, p⟩ := by
  simp [leave]

/-- **The repetitions of a group leave the path as it was.** -/
theorem rounds_eq {body : Walk → Walk} {part : ℕ → Plan → Plan} {path : List ℕ}
    (hbody : ∀ k p, p.truncated = false → body ⟨path ++ [k], p⟩ = ⟨path ++ [k], part k p⟩)
    (hpart : ∀ k p, p.IsSettled → (part k p).IsSettled) (n k j : ℕ) {p : Plan}
    (h : p.IsSettled) : (rounds body n k ⟨path ++ [j], p⟩).leave = ⟨path, p.loop part n k⟩ := by
  induction n generalizing k j p with
  | zero => exact leave_eq path p j
  | succ n ih =>
    rw [rounds, Plan.loop]
    cases hfull : p.isFull with
    | true => exact leave_eq path p.cutOff j
    | false =>
      -- the path ends with a repetition before this one, which the turn replaces
      rw [if_neg Bool.false_ne_true, if_neg Bool.false_ne_true, turn_eq,
        hbody k p (h.truncated_eq_false hfull)]
      exact ih (k + 1) k (hpart k p h)

/-- Goes on behind a node, unless the plan was cut off. -/
def goOn (w : Walk) : ForInStep Walk := if w.plan.truncated then .done w else .yield w

mutual

theorem visit_eq (cap : UInt32) : ∀ (node : Node) (w : Walk), w.plan.truncated = false →
    visit cap node w = goOn ⟨w.path, Plan.addNode cap node w.path w.plan⟩
  | .leaf seconds symbol, w, h => by
    rw [visit, Plan.addNode, Plan.push, goOn]
    split
    · rfl
    · have hopen : w.plan.truncated ≠ true := by simp [h]
      exact (if_neg hopen).symm
  | .group children loopCount, w, h => by
    rw [visit, Plan.addNode]
    split
    · rw [goOn, h]
      rfl
    · have hleft := rounds_eq (fun k p hp => visitAll_eq cap children ⟨w.path ++ [k], p⟩ hp)
        (fun k p => Plan.isSettled_addNodes cap children (w.path ++ [k]) p)
        (repetitions cap loopCount) 1 1 (Plan.isSettled_of_not_truncated h)
      rw [enter, hleft]
      rfl

/-- **The walk comes back to its path, with the nodes behind its plan.** -/
theorem visitAll_eq (cap : UInt32) : ∀ (nodes : List Node) (w : Walk), w.plan.truncated = false →
    visitAll cap nodes w = ⟨w.path, Plan.addNodes cap nodes w.path w.plan⟩
  | [], _, _ => rfl
  | node :: nodes, w, h => by
    have hsettled := Plan.isSettled_addNode cap node w.path w.plan (Plan.isSettled_of_not_truncated h)
    rw [visitAll, visit_eq cap node w h, goOn, Plan.addNodes]
    cases htrunc : (Plan.addNode cap node w.path w.plan).truncated with
    | true =>
      -- the walk turns back here, and the nodes behind could not have added anything
      rw [Plan.addNodes_of_truncated (hsettled htrunc) htrunc]
      rfl
    | false => exact visitAll_eq cap nodes ⟨w.path, Plan.addNode cap node w.path w.plan⟩ htrunc

end

end Walk

/-- A plan is what its timer adds to the empty plan. -/
theorem Plan.layout_eq (cap : UInt32) (nodes : List Node) :
    layout cap nodes = addNodes cap nodes [] {} :=
  congrArg Walk.plan (Walk.visitAll_eq cap nodes {} rfl)

end TaskTimer
