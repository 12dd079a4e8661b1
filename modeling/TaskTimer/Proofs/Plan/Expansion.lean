import Mathlib.Data.Nat.Notation
import TaskTimer.Plan.Layout

/-!
# The expansion of a timer

What can be said about the countdowns of a tree without writing them out one by one.

* `Node.runCount`, `runCount`: how many countdowns run; `length_expansion` says that it is the
  length of the expansion.
* `flatMap_repetitions`: the repetitions of a group, counted from one.
* `RunsIn`: an entry is one of the countdowns of a sequence, in one repetition of every group
  around it.
* **`mem_expansion_iff`**: the entries of an expansion are those that run in the sequence.
-/

namespace TaskTimer

variable {cap : UInt32}

/-! ## How many countdowns run -/

mutual

/-- The number of countdowns that a node runs, with every repetition counted. -/
def Node.runCount (cap : UInt32) : Node → ℕ
  | .leaf .. => 1
  | .group children loopCount => repetitions cap loopCount * TaskTimer.runCount cap children

/-- The number of countdowns that a sequence of nodes runs. -/
def runCount (cap : UInt32) : List Node → ℕ
  | [] => 0
  | node :: nodes => node.runCount cap + runCount cap nodes

end

theorem length_flatMap_of_length_eq {α β : Type} {part : α → List β} {m : ℕ}
    (hpart : ∀ k, (part k).length = m) (ks : List α) :
    (ks.flatMap part).length = ks.length * m := by
  rw [List.length_flatMap]
  simp only [hpart, List.map_const', List.sum_replicate_nat]

mutual

theorem Node.length_expansion (cap : UInt32) (path : List ℕ) :
    ∀ node : Node, (node.expansion cap path).length = node.runCount cap
  | .leaf .. => rfl
  | .group children loopCount => by
    have once : ∀ k, (TaskTimer.expansion cap (path ++ [k + 1]) children).length =
        TaskTimer.runCount cap children := fun k => TaskTimer.length_expansion cap _ children
    rw [Node.expansion, Node.runCount, length_flatMap_of_length_eq once, List.length_range]

theorem length_expansion (cap : UInt32) (path : List ℕ) :
    ∀ nodes : List Node, (expansion cap path nodes).length = runCount cap nodes
  | [] => rfl
  | node :: nodes => by
    rw [expansion, runCount, List.length_append, node.length_expansion cap path,
      length_expansion cap path nodes]

end

theorem expansion_eq_nil_iff {path : List ℕ} {nodes : List Node} :
    expansion cap path nodes = [] ↔ runCount cap nodes = 0 := by
  rw [← List.length_eq_zero_iff, length_expansion]

mutual

theorem Node.runCount_eq_zero_of_leafCount :
    ∀ node : Node, node.leafCount = 0 → node.runCount cap = 0
  | .leaf .., h => nomatch h
  | .group children loopCount, h => by
    rw [Node.runCount, TaskTimer.runCount_eq_zero_of_leafCount children h, Nat.mul_zero]

theorem runCount_eq_zero_of_leafCount :
    ∀ nodes : List Node, leafCount nodes = 0 → runCount cap nodes = 0
  | [], _ => rfl
  | node :: nodes, h => by
    obtain ⟨hnode, hnodes⟩ := Nat.add_eq_zero_iff.1 h
    rw [runCount, node.runCount_eq_zero_of_leafCount hnode,
      runCount_eq_zero_of_leafCount nodes hnodes]

end

theorem repetitions_ne_zero (hcap : cap ≠ 0) (loopCount : UInt32) :
    repetitions cap loopCount ≠ 0 := by
  rw [repetitions]
  split
  · exact fun h => hcap (UInt32.toNat_inj.1 h)
  · rename_i hcount
    exact fun h => hcount (UInt32.toNat_inj.1 h)

mutual

theorem Node.runCount_eq_zero_iff_leafCount (hcap : cap ≠ 0) :
    ∀ node : Node, node.runCount cap = 0 ↔ node.leafCount = 0
  | .leaf .. => Iff.rfl
  | .group children loopCount => by
    rw [Node.runCount, Node.leafCount, Nat.mul_eq_zero,
      or_iff_right (repetitions_ne_zero hcap loopCount),
      TaskTimer.runCount_eq_zero_iff_leafCount hcap children]

theorem runCount_eq_zero_iff_leafCount (hcap : cap ≠ 0) :
    ∀ nodes : List Node, runCount cap nodes = 0 ↔ leafCount nodes = 0
  | [] => Iff.rfl
  | node :: nodes => by
    rw [runCount, leafCount, Nat.add_eq_zero_iff, Nat.add_eq_zero_iff,
      node.runCount_eq_zero_iff_leafCount hcap, runCount_eq_zero_iff_leafCount hcap nodes]

end

/-! ## Where an entry runs -/

theorem flatMap_repetitions {α : Type} (part : ℕ → List α) (n : ℕ) :
    ((List.range n).flatMap fun k => part (k + 1)) = (List.range' 1 n).flatMap part := by
  rw [List.range'_eq_map_range, List.flatMap_map]
  simp only [Nat.add_comm 1]

/-- The entry runs a countdown of the sequence. Its step path names, from the outside in, one of
the repetitions of every group around the countdown, and nothing else. -/
inductive RunsIn (cap : UInt32) : List Node → Entry → Prop
  | leaf {nodes : List Node} {seconds : UInt64} {symbol : Option String}
      (written : .leaf seconds symbol ∈ nodes) : RunsIn cap nodes ⟨seconds, symbol, []⟩
  | group {nodes children : List Node} {loopCount : UInt32} {seconds : UInt64}
      {symbol : Option String} {path : List ℕ} {k : ℕ}
      (written : .group children loopCount ∈ nodes)
      (first : 1 ≤ k) (last : k ≤ repetitions cap loopCount)
      (inside : RunsIn cap children ⟨seconds, symbol, path⟩) :
      RunsIn cap nodes ⟨seconds, symbol, k :: path⟩

theorem RunsIn.mono {xs ys : List Node} (hsub : xs ⊆ ys) {e : Entry} :
    RunsIn cap xs e → RunsIn cap ys e
  | .leaf written => .leaf (hsub written)
  | .group written first last inside => .group (hsub written) first last inside

theorem runsIn_cons_iff {node : Node} {nodes : List Node} {e : Entry} :
    RunsIn cap (node :: nodes) e ↔ RunsIn cap [node] e ∨ RunsIn cap nodes e := by
  constructor
  · rintro (written | ⟨written, first, last, inside⟩) <;>
      rcases List.mem_cons.1 written with rfl | written
    · exact .inl (.leaf List.mem_cons_self)
    · exact .inr (.leaf written)
    · exact .inl (.group List.mem_cons_self first last inside)
    · exact .inr (.group written first last inside)
  · rintro (h | h)
    · exact h.mono (List.cons_subset_cons node (List.nil_subset nodes))
    · exact h.mono (List.subset_cons_self node nodes)

theorem not_runsIn_nil {e : Entry} : ¬ RunsIn cap [] e := by
  rintro (written | ⟨written, -, -, -⟩) <;> exact List.not_mem_nil written

mutual

theorem Node.mem_expansion_iff (cap : UInt32) (path : List ℕ) (e : Entry) : ∀ node : Node,
    e ∈ node.expansion cap path ↔
      ∃ steps, e.stepPath = path ++ steps ∧ RunsIn cap [node] ⟨e.seconds, e.symbol, steps⟩
  | .leaf seconds symbol => by
    rw [Node.expansion, List.mem_singleton]
    constructor
    · rintro rfl
      exact ⟨[], (List.append_nil path).symm, .leaf List.mem_cons_self⟩
    · rintro ⟨steps, hpath, hruns⟩
      obtain ⟨seconds', symbol', path'⟩ := e
      cases hruns with
      | leaf written =>
        cases List.mem_singleton.1 written
        rw [← List.append_nil path, ← hpath]
      | group written => cases List.mem_singleton.1 written
  | .group children loopCount => by
    rw [Node.expansion, flatMap_repetitions fun k => TaskTimer.expansion cap (path ++ [k]) children,
      List.mem_flatMap]
    constructor
    · rintro ⟨k, hk, he⟩
      obtain ⟨steps, hpath, hruns⟩ := (TaskTimer.mem_expansion_iff cap _ e children).1 he
      obtain ⟨hfirst, hlast⟩ := List.mem_range'_1.1 hk
      refine ⟨k :: steps, ?_, .group List.mem_cons_self hfirst (by omega) hruns⟩
      rw [hpath, List.append_assoc, List.singleton_append]
    · rintro ⟨steps, hpath, hruns⟩
      cases hruns with
      | leaf written => cases List.mem_singleton.1 written
      | @group _ _ _ _ _ steps k written first last inside =>
        cases List.mem_singleton.1 written
        refine ⟨k, List.mem_range'_1.2 ⟨first, by omega⟩, ?_⟩
        refine (TaskTimer.mem_expansion_iff cap _ e children).2 ⟨steps, ?_, inside⟩
        rw [hpath, List.append_assoc, List.singleton_append]

/-- **The entries of an expansion are those that run in the sequence.** -/
theorem mem_expansion_iff (cap : UInt32) (path : List ℕ) (e : Entry) : ∀ nodes : List Node,
    e ∈ expansion cap path nodes ↔
      ∃ steps, e.stepPath = path ++ steps ∧ RunsIn cap nodes ⟨e.seconds, e.symbol, steps⟩
  | [] => by
    refine iff_of_false List.not_mem_nil ?_
    rintro ⟨steps, -, hruns⟩
    exact not_runsIn_nil hruns
  | node :: nodes => by
    rw [expansion, List.mem_append, node.mem_expansion_iff cap path e,
      mem_expansion_iff cap path e nodes, ← exists_or]
    simp only [← and_or_left, ← runsIn_cons_iff]

end

end TaskTimer
