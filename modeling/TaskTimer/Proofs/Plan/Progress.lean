import Mathlib.Algebra.BigOperators.Group.List.Basic
import Mathlib.Algebra.GroupWithZero.Nat
import TaskTimer.Proofs.Plan.Room

/-!
# The progress of repetitions

A plan has room for a fixed number of entries. This bounds the work of laying it out as well, as
long as every repetition that is run adds an entry.

* `Node.isSkipped`, `Node.isIdle`: the groups that are passed over, and those that are repeated for
  nothing. `isSkipped_iff_unless_idle` compares the first with the expansion.
* `Plan.rounds`: the repetitions that a loop runs; `Plan.loop_eq_foldl` says that it runs these.
* `Plan.sum_rounds_le`: what a loop costs if its repetitions pay with the entries they add.
* `Plan.GroupRun`, `Plan.groupRuns`: the groups that run while a timer is laid out.
  `Plan.visitAll_of_mem_rounds`: their repetitions are those of the walk.
* **`Plan.roundCount_le`**: how many repetitions all of them run together.
* **`Plan.repetitions_progress_unless_idle`**: each repetition makes progress, but for idle groups.
-/

namespace TaskTimer

variable {cap : UInt32}

/-! ## Groups that are repeated for nothing -/

/-- The node is a group that is passed over: it holds no countdown, or it never runs. -/
def Node.isSkipped (cap : UInt32) : Node → Bool
  | .leaf .. => false
  | .group children loopCount =>
    TaskTimer.leafCount children = 0 || repetitions cap loopCount = 0

mutual

/-- Every countdown of the node stands in a group without a count. -/
def Node.isUncounted : Node → Bool
  | .leaf .. => false
  | .group children loopCount => loopCount = 0 || TaskTimer.isUncounted children

/-- Every countdown of the sequence stands in a group without a count. -/
def isUncounted : List Node → Bool
  | [] => true
  | node :: nodes => node.isUncounted && isUncounted nodes

end

/-- The node is a group that is repeated for nothing. It has a count and holds countdowns, but each
of these stands in a group without a count, and such groups never run. -/
def Node.isIdle (cap : UInt32) : Node → Bool
  | .leaf .. => false
  | .group children loopCount =>
    cap = 0 && loopCount ≠ 0 && TaskTimer.leafCount children ≠ 0 && TaskTimer.isUncounted children

theorem Node.isIdle_eq_false (hcap : cap ≠ 0) (node : Node) : node.isIdle cap = false := by
  cases node with
  | leaf => rfl
  | group => simp [isIdle, hcap]

theorem repetitions_eq_zero_iff {loopCount : UInt32} :
    repetitions cap loopCount = 0 ↔ cap = 0 ∧ loopCount = 0 := by
  by_cases hcap : cap = 0
  · subst hcap
    rw [repetitions]
    split
    · rename_i hcount
      exact iff_of_true rfl ⟨rfl, hcount⟩
    · rw [← UInt32.toNat_inj (a := loopCount)]
      exact (and_iff_right rfl).symm
  · exact iff_of_false (repetitions_ne_zero hcap loopCount) fun h => hcap h.1

mutual

theorem Node.runCount_zero_eq_zero_iff :
    ∀ node : Node, node.runCount 0 = 0 ↔ node.isUncounted = true
  | .leaf .. => by simp [Node.runCount, Node.isUncounted]
  | .group children loopCount => by
    rw [Node.runCount, Node.isUncounted, Nat.mul_eq_zero, repetitions_eq_zero_iff,
      TaskTimer.runCount_zero_eq_zero_iff children, Bool.or_eq_true, decide_eq_true_eq,
      and_iff_right rfl]

theorem runCount_zero_eq_zero_iff :
    ∀ nodes : List Node, runCount 0 nodes = 0 ↔ isUncounted nodes = true
  | [] => iff_of_true rfl rfl
  | node :: nodes => by
    rw [runCount, isUncounted, Nat.add_eq_zero_iff, node.runCount_zero_eq_zero_iff,
      runCount_zero_eq_zero_iff nodes, Bool.and_eq_true]

end

section Group

variable {children : List Node} {loopCount : UInt32}

theorem isSkipped_group_iff : (Node.group children loopCount).isSkipped cap = true ↔
    leafCount children = 0 ∨ repetitions cap loopCount = 0 := by
  rw [Node.isSkipped, Bool.or_eq_true, decide_eq_true_eq, decide_eq_true_eq]

theorem isIdle_group_iff : (Node.group children loopCount).isIdle cap = true ↔
    (Node.group children loopCount).isSkipped cap = false ∧ runCount cap children = 0 := by
  by_cases hcap : cap = 0
  · subst hcap
    simp [Node.isIdle, Node.isSkipped, repetitions_eq_zero_iff, runCount_zero_eq_zero_iff, and_comm]
  · refine iff_of_false (Bool.eq_false_iff.1 (Node.isIdle_eq_false hcap _)) ?_
    rintro ⟨hpassed, hnone⟩
    rw [isSkipped_group_iff.2 (.inl ((runCount_eq_zero_iff_leafCount hcap _).1 hnone))] at hpassed
    cases hpassed

theorem repetitions_of_isIdle (hidle : (Node.group children loopCount).isIdle cap = true) :
    repetitions cap loopCount = loopCount.toNat := by
  simp only [Node.isIdle, Bool.and_eq_true, decide_eq_true_eq] at hidle
  exact if_neg hidle.1.1.2

theorem runCount_ne_zero (hpassed : (Node.group children loopCount).isSkipped cap = false)
    (hidle : (Node.group children loopCount).isIdle cap = false) : runCount cap children ≠ 0 :=
  fun hnone => Bool.eq_false_iff.1 hidle (isIdle_group_iff.2 ⟨hpassed, hnone⟩)

/-- **A group is passed over exactly if its expansion is empty**, but for idle groups. -/
theorem isSkipped_iff_unless_idle (path : List ℕ) :
    ((Node.group children loopCount).isSkipped cap = true ↔
      (Node.group children loopCount).expansion cap path = []) ↔
    (Node.group children loopCount).isIdle cap = false := by
  rw [Bool.eq_false_iff, ne_eq, isIdle_group_iff, ← List.length_eq_zero_iff, Node.length_expansion,
    Node.runCount, Nat.mul_eq_zero]
  constructor
  · rintro hexact ⟨hpassed, hnone⟩
    rw [hexact.2 (.inr hnone)] at hpassed
    cases hpassed
  · intro hidle
    constructor
    · intro hskip
      exact (isSkipped_group_iff.1 hskip).symm.imp_right (runCount_eq_zero_of_leafCount children)
    · rintro (hnever | hnone)
      · exact isSkipped_group_iff.2 (.inr hnever)
      · rw [← Bool.not_eq_false]
        exact fun hpassed => hidle ⟨hpassed, hnone⟩

end Group

namespace Plan

/-! ## The repetitions of a loop -/

/-- A repetition that a loop runs. -/
structure Round where
  /-- Which repetition, counted from one. -/
  index : ℕ
  /-- The plan on which it starts. -/
  plan : Plan

/-- The repetitions that `loop body n k p` runs. -/
def rounds (body : ℕ → Plan → Plan) : ℕ → ℕ → Plan → List Round
  | 0, _, _ => []
  | n + 1, k, p => if p.isFull then [] else ⟨k, p⟩ :: rounds body n (k + 1) (body k p)

section Rounds

variable {body : ℕ → Plan → Plan} {n k : ℕ} {p : Plan}

/-- A loop runs its repetitions one after the other, and marks the plan if some are left. -/
theorem loop_eq_foldl (n k : ℕ) (p : Plan) :
    p.loop body n k =
      let q := (rounds body n k p).foldl (fun q r => body r.index q) p
      if (rounds body n k p).length < n then q.cutOff else q := by
  induction n generalizing k p with
  | zero => rfl
  | succ n ih =>
    rw [loop, rounds]
    split
    · simp
    · rw [ih]
      simp

theorem rounds_of_isFull (hfull : p.isFull = true) : rounds body n k p = [] := by
  cases n with
  | zero => rfl
  | succ n => rw [rounds, if_pos hfull]

theorem isFull_of_mem_rounds {r : Round} (hr : r ∈ rounds body n k p) : r.plan.isFull = false := by
  induction n generalizing k p with
  | zero => cases hr
  | succ n ih =>
    rw [rounds] at hr
    split at hr
    · cases hr
    · rename_i hroom
      rcases List.mem_cons.1 hr with rfl | hr
      · exact Bool.eq_false_iff.2 hroom
      · exact ih hr

theorem isSettled_of_mem_rounds (hbody : ∀ k p, p.IsSettled → (body k p).IsSettled)
    (h : p.IsSettled) {r : Round} (hr : r ∈ rounds body n k p) : r.plan.IsSettled := by
  induction n generalizing k p with
  | zero => cases hr
  | succ n ih =>
    rw [rounds] at hr
    split at hr
    · cases hr
    · rcases List.mem_cons.1 hr with rfl | hr
      · exact h
      · exact ih (hbody k p h) hr

theorem rounds_of_unchanged (hroom : p.isFull = false) (h : ∀ k, body k p = p) (n k : ℕ) :
    rounds body n k p = (List.range' k n).map fun i => ⟨i, p⟩ := by
  induction n generalizing k with
  | zero => rfl
  | succ n ih =>
    rw [rounds, hroom, if_neg Bool.false_ne_true, h, ih, List.range'_succ, List.map_cons]

/-- **A loop costs what its repetitions cost**, if each of them is paid by the entries that it adds.
-/
theorem sum_rounds_le {cost : Round → ℕ} {c : ℕ}
    (h : ∀ r ∈ rounds body n k p, cost r + c * r.plan.size ≤ c * (body r.index r.plan).size) :
    ((rounds body n k p).map cost).sum + c * p.size ≤ c * (p.loop body n k).size := by
  induction n generalizing k p with
  | zero => exact Nat.le_of_eq (Nat.zero_add _)
  | succ n ih =>
    rw [rounds] at h ⊢
    rw [loop]
    split
    · exact Nat.le_of_eq (Nat.zero_add _)
    · rename_i hroom
      rw [if_neg hroom] at h
      obtain ⟨hfirst, hlater⟩ := List.forall_mem_cons.1 h
      have hrest := ih hlater
      rw [List.map_cons, List.sum_cons]
      change _ + c * p.size ≤ c * (body k p).size at hfirst
      omega

end Rounds

/-! ## The groups that run -/

/-- A group that runs while a plan is laid out. -/
structure GroupRun where
  children : List Node
  loopCount : UInt32
  /-- The repetitions around the group, outermost first. -/
  path : List ℕ
  /-- The plan on which it starts. -/
  plan : Plan
  deriving DecidableEq

namespace GroupRun

/-- The group that runs. -/
def group (g : GroupRun) : Node := .group g.children g.loopCount

/-- The plan after repetition `k` of the group. -/
def once (cap : UInt32) (g : GroupRun) (k : ℕ) (p : Plan) : Plan :=
  addNodes cap g.children (g.path ++ [k]) p

/-- The repetitions of the group that are run. -/
def rounds (cap : UInt32) (g : GroupRun) : List Round :=
  Plan.rounds (g.once cap) (repetitions cap g.loopCount) 1 g.plan

end GroupRun

mutual

/-- The groups that run while a node is laid out inside the repetitions `path`. -/
def groupRunsOfNode (cap : UInt32) : Node → List ℕ → Plan → List GroupRun
  | .leaf .., _, _ => []
  | .group children loopCount, path, p =>
    if (Node.group children loopCount).isSkipped cap then []
    else
      ⟨children, loopCount, path, p⟩ ::
        (GroupRun.rounds cap ⟨children, loopCount, path, p⟩).flatMap fun r =>
          groupRunsOf cap children (path ++ [r.index]) r.plan

/-- The groups that run while a sequence of nodes is laid out inside the repetitions `path`. -/
def groupRunsOf (cap : UInt32) : List Node → List ℕ → Plan → List GroupRun
  | [], _, _ => []
  | node :: nodes, path, p =>
    groupRunsOfNode cap node path p ++ groupRunsOf cap nodes path (addNode cap node path p)

end

/-- The groups that run while a timer is laid out, at any depth and each as often as it is reached.
One that finds the plan full is listed too, though none of its repetitions is run. -/
def groupRuns (cap : UInt32) (nodes : List Node) : List GroupRun := groupRunsOf cap nodes [] {}

theorem addNode_group (children : List Node) (loopCount : UInt32) (path : List ℕ) (p : Plan) :
    addNode cap (.group children loopCount) path p =
      if (Node.group children loopCount).isSkipped cap then p
      else
        p.loop (GroupRun.once cap ⟨children, loopCount, path, p⟩)
          (repetitions cap loopCount) 1 := by
  rw [addNode]
  rfl

mutual

theorem spec_of_mem_groupRunsOfNode {g : GroupRun} : ∀ (node : Node) (path : List ℕ) (p : Plan),
    p.IsSettled → g ∈ groupRunsOfNode cap node path p →
      g.group.isSkipped cap = false ∧ g.plan.IsSettled
  | .leaf .., path, p, _, hg => by
    rw [groupRunsOfNode] at hg
    cases hg
  | .group children loopCount, path, p, h, hg => by
    rw [groupRunsOfNode] at hg
    split at hg
    · cases hg
    · rename_i hpassed
      rcases List.mem_cons.1 hg with rfl | hg
      · exact ⟨Bool.eq_false_iff.2 hpassed, h⟩
      · obtain ⟨r, hr, hg⟩ := List.mem_flatMap.1 hg
        have hround : r.plan.IsSettled := isSettled_of_mem_rounds
          (fun k p => isSettled_addNodes cap children (path ++ [k]) p) h hr
        exact spec_of_mem_groupRunsOf children _ _ hround hg

theorem spec_of_mem_groupRunsOf {g : GroupRun} : ∀ (nodes : List Node) (path : List ℕ) (p : Plan),
    p.IsSettled → g ∈ groupRunsOf cap nodes path p →
      g.group.isSkipped cap = false ∧ g.plan.IsSettled
  | [], path, p, _, hg => by
    rw [groupRunsOf] at hg
    cases hg
  | node :: nodes, path, p, h, hg => by
    rw [groupRunsOf] at hg
    rcases List.mem_append.1 hg with hg | hg
    · exact spec_of_mem_groupRunsOfNode node path p h hg
    · exact spec_of_mem_groupRunsOf nodes path _ (isSettled_addNode cap node path p h) hg

end

theorem spec_of_mem_groupRuns {nodes : List Node} {g : GroupRun} (hg : g ∈ groupRuns cap nodes) :
    g.group.isSkipped cap = false ∧ g.plan.IsSettled :=
  spec_of_mem_groupRunsOf nodes [] {} (isSettled_of_not_truncated rfl) hg

/-- **The repetitions are those of the walk.** -/
theorem visitAll_of_mem_rounds {nodes : List Node} {g : GroupRun} (hg : g ∈ groupRuns cap nodes)
    {r : Round} (hr : r ∈ g.rounds cap) :
    Walk.visitAll cap g.children ⟨g.path ++ [r.index], r.plan⟩ =
      ⟨g.path ++ [r.index], g.once cap r.index r.plan⟩ := by
  have hsettled : r.plan.IsSettled := isSettled_of_mem_rounds
    (fun k p => isSettled_addNodes cap g.children (g.path ++ [k]) p) (spec_of_mem_groupRuns hg).2 hr
  exact Walk.visitAll_eq cap g.children _ (hsettled.truncated_eq_false (isFull_of_mem_rounds hr))

/-! ## One group -/

theorem size_lt_of_room {p : Plan} (hroom : p.isFull = false) : p.size < maxEntries := by
  rwa [Bool.eq_false_iff, ne_eq, isFull_iff, Nat.not_le] at hroom

theorem Adds.eq_of_room {p q : Plan} {i : Prop} (h : Adds p [] i q) (hroom : p.isFull = false) :
    q = p := by
  have hlt := size_lt_of_room hroom
  have hentries : q.entries = p.entries := by
    rw [← Array.toList_inj, h.entries, List.append_nil, List.take_of_length_le]
    rw [length_toList]
    exact Nat.le_of_lt hlt
  have htruncated : q.truncated = p.truncated := by
    rw [Bool.eq_iff_iff, h.truncated, List.length_nil, Nat.add_zero]
    refine or_iff_left ?_
    rintro (hover | ⟨hjust, -⟩) <;> omega
  cases p
  cases q
  cases hentries
  cases htruncated
  rfl

namespace GroupRun

variable {g : GroupRun} {p : Plan}

theorem adds_once (cap : UInt32) (g : GroupRun) (k : ℕ) (hroom : p.isFull = false) :
    Adds p (expansion cap (g.path ++ [k]) g.children) (endsIdle cap g.children = true)
      (g.once cap k p) :=
  adds_addNodes cap g.children (g.path ++ [k]) p (Nat.le_of_lt (size_lt_of_room hroom))

theorem size_lt_once (hruns : runCount cap g.children ≠ 0) (k : ℕ) (hroom : p.isFull = false) :
    p.size < (g.once cap k p).size := by
  have hlt := size_lt_of_room hroom
  rw [(adds_once cap g k hroom).size, length_expansion]
  omega

theorem once_eq (hnone : runCount cap g.children = 0) (k : ℕ) (hroom : p.isFull = false) :
    g.once cap k p = p := by
  have hadds := adds_once cap g k hroom
  rw [expansion_eq_nil_iff.2 hnone] at hadds
  exact hadds.eq_of_room hroom

theorem length_rounds_le (hruns : runCount cap g.children ≠ 0) :
    (g.rounds cap).length ≤ maxEntries - g.plan.size := by
  cases hroom : g.plan.isFull with
  | true =>
    rw [rounds, rounds_of_isFull hroom]
    exact Nat.zero_le _
  | false =>
    have hpaid : ∀ r ∈ g.rounds cap,
        1 + 1 * r.plan.size ≤ 1 * (g.once cap r.index r.plan).size := by
      intro r hr
      have hadded := size_lt_once hruns r.index (isFull_of_mem_rounds hr)
      omega
    have hsum := sum_rounds_le hpaid
    have hsize : (g.plan.loop (g.once cap) (repetitions cap g.loopCount) 1).size ≤ maxEntries :=
      (adds_loop (fun k => length_expansion cap (g.path ++ [k]) g.children)
        (fun k p => adds_addNodes cap g.children (g.path ++ [k]) p) _ 1 g.plan
        (Nat.le_of_lt (size_lt_of_room hroom))).size_le
    rw [List.map_const', List.sum_replicate_nat] at hsum
    rw [rounds]
    omega

theorem rounds_of_none (hnone : runCount cap g.children = 0) (hroom : g.plan.isFull = false) :
    g.rounds cap = (List.range' 1 (repetitions cap g.loopCount)).map fun k => ⟨k, g.plan⟩ :=
  rounds_of_unchanged hroom (fun k => once_eq hnone k hroom) _ 1

end GroupRun

/-! ## All groups together -/

/-- The repetitions that the groups run together. -/
def roundCount (cap : UInt32) (gs : List GroupRun) : ℕ :=
  (gs.map fun g => (g.rounds cap).length).sum

theorem roundCount_append (gs hs : List GroupRun) :
    roundCount cap (gs ++ hs) = roundCount cap gs + roundCount cap hs := by
  rw [roundCount, List.map_append, List.sum_append_nat, roundCount, roundCount]

theorem roundCount_cons_flatMap (g : GroupRun) (inside : Round → List GroupRun) :
    roundCount cap (g :: (g.rounds cap).flatMap inside) =
      ((g.rounds cap).map fun r => 1 + roundCount cap (inside r)).sum := by
  rw [roundCount, List.map_cons, List.sum_cons, List.map_flatMap, List.flatMap_def,
    List.sum_flatten, List.map_map, List.sum_map_add, List.map_const', List.sum_replicate_nat,
    Nat.mul_one]
  rfl

theorem size_le_push (p : Plan) (e : Entry) : p.size ≤ (p.push e).size := by
  rw [push]
  split
  · exact Nat.le_refl p.size
  · rw [size, size, Array.size_push]
    exact Nat.le_succ _

mutual

theorem roundCount_groupRunsOfNode_le : ∀ (node : Node) (path : List ℕ) (p : Plan),
    (∀ g ∈ groupRunsOfNode cap node path p, g.group.isIdle cap = false) → ∀ c, node.depth ≤ c →
      roundCount cap (groupRunsOfNode cap node path p) + c * p.size ≤
        c * (addNode cap node path p).size
  | .leaf seconds symbol, path, p, _, c, _ => by
    rw [groupRunsOfNode, roundCount, List.map_nil, List.sum_nil, Nat.zero_add]
    exact Nat.mul_le_mul_left c (size_le_push p _)
  | .group children loopCount, path, p, hidle, c, hc => by
    rw [addNode_group]
    rw [groupRunsOfNode] at hidle ⊢
    split
    · exact Nat.le_of_eq (Nat.zero_add _)
    · rename_i hpassed
      rw [if_neg hpassed] at hidle
      obtain ⟨hgroup, hinside⟩ := List.forall_mem_cons.1 hidle
      have hruns := runCount_ne_zero (Bool.eq_false_iff.2 hpassed) hgroup
      rw [roundCount_cons_flatMap]
      refine sum_rounds_le fun r hr => ?_
      have hadded : r.plan.size < (addNodes cap children (path ++ [r.index]) r.plan).size :=
        GroupRun.size_lt_once (g := ⟨children, loopCount, path, p⟩) hruns r.index
          (isFull_of_mem_rounds hr)
      -- Of what an entry pays, one is for the repetition of the group, and the rest goes inside.
      obtain ⟨c, rfl⟩ := Nat.exists_eq_add_of_le' (Nat.le_trans (Nat.le_add_left 1 _) hc)
      have hbelow := roundCount_groupRunsOf_le children (path ++ [r.index]) r.plan
        (fun g hg => hinside g (List.mem_flatMap.2 ⟨r, hr, hg⟩)) c (Nat.le_of_succ_le_succ hc)
      rw [GroupRun.once, Nat.add_mul, Nat.add_mul, Nat.one_mul, Nat.one_mul]
      change _ ≤ c * (addNodes cap children (path ++ [r.index]) r.plan).size +
        (addNodes cap children (path ++ [r.index]) r.plan).size
      omega

/-- If no group is idle, every entry pays for one repetition at each depth. -/
theorem roundCount_groupRunsOf_le : ∀ (nodes : List Node) (path : List ℕ) (p : Plan),
    (∀ g ∈ groupRunsOf cap nodes path p, g.group.isIdle cap = false) → ∀ c, depth nodes ≤ c →
      roundCount cap (groupRunsOf cap nodes path p) + c * p.size ≤
        c * (addNodes cap nodes path p).size
  | [], path, p, _, c, _ => by
    rw [groupRunsOf, addNodes]
    exact Nat.le_of_eq (Nat.zero_add _)
  | node :: nodes, path, p, hidle, c, hc => by
    rw [groupRunsOf] at hidle ⊢
    rw [depth, Nat.max_le] at hc
    obtain ⟨hnode, hnodes⟩ := List.forall_mem_append.1 hidle
    have hfirst := roundCount_groupRunsOfNode_le node path p hnode c hc.1
    have hrest := roundCount_groupRunsOf_le nodes path _ hnodes c hc.2
    rw [roundCount_append, addNodes]
    omega

end

/-- **The work is bounded by the plan**, if no group is idle: by its entries times the depth of the
tree. -/
theorem roundCount_le {nodes : List Node}
    (hidle : ∀ g ∈ groupRuns cap nodes, g.group.isIdle cap = false) :
    roundCount cap (groupRuns cap nodes) ≤ depth nodes * (layout cap nodes).size := by
  rw [layout_eq]
  exact roundCount_groupRunsOf_le nodes [] {} hidle (depth nodes) (Nat.le_refl _)

example : (groupRuns 99 [.group [.leaf 60 none, .group [.leaf 120 none] 2] 3]).map
    (fun g => (g.path, (g.rounds 99).length)) = [([], 3), ([1], 2), ([2], 2), ([3], 2)] := by
  decide +kernel

/-! ## Progress -/

/-- **Every repetition makes progress, but for those of idle groups.** If a group is idle, all its
repetitions are run, and none of them changes the plan. -/
theorem repetitions_progress_unless_idle (cap : UInt32) (nodes : List Node) :
    (∀ children loopCount path,
      ((Node.group children loopCount).isSkipped cap = true ↔
        (Node.group children loopCount).expansion cap path = []) ↔
      (Node.group children loopCount).isIdle cap = false) ∧
    (∀ g ∈ groupRuns cap nodes, g.group.isIdle cap = false →
      (∀ r ∈ g.rounds cap, r.plan.isFull = false ∧
        r.plan.size < (g.once cap r.index r.plan).size) ∧
      (g.rounds cap).length ≤ maxEntries) ∧
    (∀ g ∈ groupRuns cap nodes, g.group.isIdle cap = true → g.plan.isFull = false →
      (∀ r ∈ g.rounds cap, g.once cap r.index r.plan = r.plan) ∧
      (g.rounds cap).length = g.loopCount.toNat) ∧
    (cap ≠ 0 → ∀ node : Node, node.isIdle cap = false) := by
  refine ⟨fun children loopCount path => isSkipped_iff_unless_idle path, fun g hg hidle => ?_,
    fun g hg hidle hroom => ?_, fun hcap => Node.isIdle_eq_false hcap⟩
  · have hruns := runCount_ne_zero (spec_of_mem_groupRuns hg).1 hidle
    refine ⟨fun r hr => ?_, Nat.le_trans (GroupRun.length_rounds_le hruns) (Nat.sub_le _ _)⟩
    have hroom := isFull_of_mem_rounds hr
    exact ⟨hroom, GroupRun.size_lt_once hruns r.index hroom⟩
  · obtain ⟨hpassed, hnone⟩ := isIdle_group_iff.1 hidle
    refine ⟨fun r hr => GroupRun.once_eq hnone r.index (isFull_of_mem_rounds hr), ?_⟩
    rw [GroupRun.rounds_of_none hnone hroom, List.length_map, List.length_range']
    exact repetitions_of_isIdle hidle

/-- The inner group, in the second repetition of the outer one. -/
theorem repetitions_progress_unless_idle_nested :
    let g : GroupRun := ⟨[.leaf 120 none], 2, [2],
      ⟨#[⟨60, none, [1]⟩, ⟨120, none, [1, 1]⟩, ⟨120, none, [1, 2]⟩, ⟨60, none, [2]⟩], false⟩⟩
    g ∈ groupRuns 99 [.group [.leaf 60 none, .group [.leaf 120 none] 2] 2] ∧
      g.group.isIdle 99 = false ∧ (g.rounds 99).length = 2 ∧
      ∀ r ∈ g.rounds 99, r.plan.size < (g.once 99 r.index r.plan).size := by
  intro g
  obtain ⟨-, progress, -⟩ := repetitions_progress_unless_idle 99
    [.group [.leaf 60 none, .group [.leaf 120 none] 2] 2]
  have hg : g ∈ groupRuns 99 [.group [.leaf 60 none, .group [.leaf 120 none] 2] 2] := by
    decide +kernel
  exact ⟨hg, by decide, by decide +kernel, fun r hr => ((progress g hg (by decide)).1 r hr).2⟩

/-- Under a cap of zero, a group that holds nothing runs all of its repetitions, more than a plan
has room for. -/
theorem idle_group_runs_on :
    ∃ g ∈ groupRuns 0 [.group [.group [.leaf 1 none] 0] 100001, .group [.leaf 1 none] 100000,
        .group [.group [.leaf 1 none] 0] 1],
      ¬ (g.group.isSkipped 0 = true ↔ g.group.expansion 0 g.path = []) ∧
      (∀ r ∈ g.rounds 0, ¬ r.plan.size < (g.once 0 r.index r.plan).size) ∧
      maxEntries < (g.rounds 0).length := by
  let g : GroupRun := ⟨[.group [.leaf 1 none] 0], 100001, [], {}⟩
  have hnone : runCount 0 g.children = 0 := rfl
  refine ⟨g, List.mem_append_left _ List.mem_cons_self, fun hexact => ?_, fun r hr => ?_, ?_⟩
  · cases (isSkipped_iff_unless_idle []).1 hexact
  · rw [GroupRun.once_eq hnone r.index (isFull_of_mem_rounds hr)]
    exact Nat.lt_irrefl _
  · rw [GroupRun.rounds_of_none hnone rfl, List.length_map, List.length_range']
    decide

end Plan

end TaskTimer
