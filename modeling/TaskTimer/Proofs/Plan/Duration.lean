import Mathlib.Algebra.BigOperators.Group.List.Basic
import Mathlib.Algebra.GroupWithZero.Nat
import TaskTimer.Proofs.Plan.Room

/-!
# The running time of a plan

The running time of a timer can be taken from its tree or from its plan. Both saturate on the way,
at different places, and still agree.

* `Duration.add_ofNat`, `Duration.repeated_ofNat`, `Duration.total_map_ofNat`: saturating on the way
  and saturating once at the end come to the same.
* `exactSeconds`: the running time of a tree as a natural number.
* `duration_eq_ofNat`, `sum_seconds_expansion`: the tree and its expansion take that time.
* **`Plan.layout_keeps_duration`**: so does the plan, if nothing is left out.
-/

namespace TaskTimer

namespace Duration

/-! ## Saturation commutes with sums and products -/

theorem ofNat_toNat (d : Duration) : ofNat d.toNat = d := by
  have hlt := UInt64.toNat_lt d
  refine UInt64.toNat_inj.1 ?_
  rw [toNat_ofNat, longest, UInt64.size]
  omega

theorem add_ofNat (a b : ℕ) : (ofNat a).add (ofNat b) = ofNat (a + b) := by
  refine UInt64.toNat_inj.1 ?_
  rw [toNat_add, toNat_ofNat, toNat_ofNat, toNat_ofNat]
  omega

theorem repeated_ofNat (a n : ℕ) : (ofNat a).repeated n = ofNat (a * n) := by
  refine UInt64.toNat_inj.1 ?_
  rw [toNat_repeated, toNat_ofNat, toNat_ofNat]
  rcases Nat.eq_zero_or_pos n with rfl | hn
  · rw [Nat.mul_zero, Nat.mul_zero]
  · rcases Nat.le_total a longest with ha | ha
    · rw [Nat.min_eq_left ha]
    · -- The sum is the longest duration already, and taking it once more keeps it there.
      have hlongest : longest ≤ longest * n := Nat.le_mul_of_pos_right longest hn
      have hmul : longest * n ≤ a * n := Nat.mul_le_mul_right n ha
      rw [Nat.min_eq_right ha, Nat.min_eq_right hlongest, Nat.min_eq_right (Nat.le_trans hlongest hmul)]

theorem foldl_add_map_ofNat (ns : List ℕ) (n : ℕ) :
    (ns.map ofNat).foldl add (ofNat n) = ofNat (n + ns.sum) := by
  induction ns generalizing n with
  | nil => rfl
  | cons m ns ih =>
    rw [List.map_cons, List.foldl_cons, add_ofNat, ih, List.sum_cons, Nat.add_assoc]

/-- **A sum that saturates on the way is the exact sum, saturated once.** -/
theorem total_map_ofNat (ns : List ℕ) : total (ns.map ofNat) = ofNat ns.sum := by
  have h := foldl_add_map_ofNat ns 0
  rwa [Nat.zero_add] at h

theorem ofNat_mono {m n : ℕ} (h : m ≤ n) : ofNat m ≤ ofNat n := by
  rw [UInt64.le_iff_toNat_le, toNat_ofNat, toNat_ofNat]
  omega

end Duration

/-! ## The exact running time -/

mutual

/-- The seconds that a node takes when it runs `times` times: those of every countdown, multiplied
by `times` and by the repetitions of every group around it. -/
def Node.exactSeconds (cap : UInt32) (times : ℕ) : Node → ℕ
  | .leaf seconds _ => seconds.toNat * times
  | .group children loopCount =>
    TaskTimer.exactSeconds cap (times * repetitions cap loopCount) children

/-- The seconds that a sequence of nodes takes when it runs `times` times. -/
def exactSeconds (cap : UInt32) (times : ℕ) : List Node → ℕ
  | [] => 0
  | node :: nodes => node.exactSeconds cap times + exactSeconds cap times nodes

end

mutual

theorem Node.exactSeconds_eq_mul (cap : UInt32) (times : ℕ) :
    ∀ node : Node, node.exactSeconds cap times = node.exactSeconds cap 1 * times
  | .leaf seconds _ => by rw [Node.exactSeconds, Node.exactSeconds, Nat.mul_one]
  | .group children loopCount => by
    rw [Node.exactSeconds, Node.exactSeconds, TaskTimer.exactSeconds_eq_mul cap (times * _),
      TaskTimer.exactSeconds_eq_mul cap (1 * _), Nat.one_mul, Nat.mul_comm times, Nat.mul_assoc]

theorem exactSeconds_eq_mul (cap : UInt32) (times : ℕ) :
    ∀ nodes : List Node, exactSeconds cap times nodes = exactSeconds cap 1 nodes * times
  | [] => (Nat.zero_mul times).symm
  | node :: nodes => by
    rw [exactSeconds, exactSeconds, node.exactSeconds_eq_mul cap times,
      exactSeconds_eq_mul cap times nodes, Nat.add_mul]

end

theorem exactSeconds_group (cap : UInt32) (children : List Node) (loopCount : UInt32) :
    (Node.group children loopCount).exactSeconds cap 1 =
      exactSeconds cap 1 children * repetitions cap loopCount := by
  rw [Node.exactSeconds, Nat.one_mul, exactSeconds_eq_mul]

mutual

theorem Node.duration_eq_ofNat (cap : UInt32) :
    ∀ node : Node, node.duration cap = .ofNat (node.exactSeconds cap 1)
  | .leaf seconds _ => by
    rw [Node.duration, Node.exactSeconds, Nat.mul_one, Duration.ofNat_toNat]
  | .group children loopCount => by
    rw [Node.duration, durationOnce_eq_ofNat cap children, Duration.repeated_ofNat,
      exactSeconds_group]

theorem durationOnce_eq_ofNat (cap : UInt32) :
    ∀ nodes : List Node, durationOnce cap nodes = .ofNat (exactSeconds cap 1 nodes)
  | [] => rfl
  | node :: nodes => by
    rw [durationOnce, node.duration_eq_ofNat cap, durationOnce_eq_ofNat cap nodes,
      Duration.add_ofNat, exactSeconds]

end

theorem sum_map_exactSeconds (cap : UInt32) (times : ℕ) (nodes : List Node) :
    (nodes.map (Node.exactSeconds cap times)).sum = exactSeconds cap times nodes := by
  induction nodes with
  | nil => rfl
  | cons node nodes ih => rw [List.map_cons, List.sum_cons, ih, exactSeconds]

/-- **The tree takes the exact time**, saturated once, when the times of its nodes are added up. -/
theorem total_duration_eq_ofNat (cap : UInt32) (nodes : List Node) :
    Duration.total (nodes.map (Node.duration cap)) = .ofNat (exactSeconds cap 1 nodes) := by
  have hnodes : nodes.map (Node.duration cap) =
      (nodes.map (Node.exactSeconds cap 1)).map Duration.ofNat := by
    rw [List.map_map]
    exact List.map_congr_left fun node _ => node.duration_eq_ofNat cap
  rw [hnodes, Duration.total_map_ofNat, sum_map_exactSeconds]

mutual

theorem Node.sum_seconds_expansion (cap : UInt32) (path : List ℕ) : ∀ node : Node,
    ((node.expansion cap path).map fun e => e.seconds.toNat).sum = node.exactSeconds cap 1
  | .leaf seconds symbol => by
    rw [Node.expansion, Node.exactSeconds, Nat.mul_one, List.map_singleton, List.sum_singleton]
  | .group children loopCount => by
    have once : ∀ k, ((TaskTimer.expansion cap (path ++ [k + 1]) children).map
        fun e => e.seconds.toNat).sum = TaskTimer.exactSeconds cap 1 children :=
      fun k => TaskTimer.sum_seconds_expansion cap _ children
    rw [Node.expansion, exactSeconds_group, List.map_flatMap, List.flatMap_def, List.sum_flatten,
      List.map_map, Nat.mul_comm]
    simp only [Function.comp_def, once, List.map_const', List.length_range,
      List.sum_replicate_nat]

/-- **The countdowns of the expansion take the exact time together.** -/
theorem sum_seconds_expansion (cap : UInt32) (path : List ℕ) : ∀ nodes : List Node,
    ((expansion cap path nodes).map fun e => e.seconds.toNat).sum = exactSeconds cap 1 nodes
  | [] => rfl
  | node :: nodes => by
    rw [expansion, exactSeconds, List.map_append, List.sum_append_nat,
      node.sum_seconds_expansion cap path, sum_seconds_expansion cap path nodes]

end

/-! ## The plan -/

namespace Plan

theorem duration_eq_ofNat (p : Plan) :
    p.duration = .ofNat (p.entries.toList.map fun e => e.seconds.toNat).sum := by
  have hseconds : p.entries.toList.map Entry.seconds =
      (p.entries.toList.map fun e => e.seconds.toNat).map Duration.ofNat := by
    rw [List.map_map]
    exact List.map_congr_left fun e _ => (Duration.ofNat_toNat e.seconds).symm
  rw [← Duration.total_map_ofNat, ← hseconds, Duration.total, List.foldl_map, Array.foldl_toList,
    duration]

theorem sum_seconds_take_le (es : List Entry) (n : ℕ) :
    ((es.take n).map fun e => e.seconds.toNat).sum ≤ (es.map fun e => e.seconds.toNat).sum := by
  conv => rhs; rw [← List.take_append_drop n es, List.map_append, List.sum_append_nat]
  exact Nat.le_add_right _ _

/-- **A plan keeps the running time.** A plan that is cut off never takes longer than its tree. -/
theorem layout_keeps_duration (cap : UInt32) (nodes : List Node) :
    ((layout cap nodes).truncated = false →
      (layout cap nodes).duration = Duration.total (nodes.map (Node.duration cap))) ∧
    (Duration.total (nodes.map (Node.duration cap))).toNat =
      min (exactSeconds cap 1 nodes) Duration.longest ∧
    (layout cap nodes).duration ≤ Duration.total (nodes.map (Node.duration cap)) := by
  rw [total_duration_eq_ofNat, duration_eq_ofNat, toList_layout, Duration.toNat_ofNat,
    ← sum_seconds_expansion cap []]
  refine ⟨fun hwhole => ?_, rfl, Duration.ofNat_mono (sum_seconds_take_le _ _)⟩
  have hroom : ¬ maxEntries < runCount cap nodes := fun hover => by
    have htrunc := (truncated_layout_iff cap nodes).2 (.inl hover)
    rw [hwhole] at htrunc
    cases htrunc
  rw [List.take_of_length_le]
  rw [length_expansion]
  exact Nat.le_of_not_lt hroom

end Plan

end TaskTimer
