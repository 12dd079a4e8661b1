import TaskTimer.Notation.Parser
import TaskTimer.Proofs.Plan.Expansion
import TaskTimer.Proofs.Plan.Walk

/-!
# What a plan has room for

A plan is laid out part by part, and each part adds as much of its expansion as there is room for.

* `endsIdle`: behind its last countdown a tree repeats a group in which nothing runs.
* `Plan.Adds`: what a part of a timer makes of a plan; `Adds.append` for one part behind another.
* `Plan.adds_loop`, `Plan.adds_addNodes`: repetitions and sequences of nodes, and with them
  `Plan.adds_layout` for a whole timer.
* **`Plan.layout_holds_start`**: a plan holds the start of the expansion.
* **`Plan.truncated_exactly_unless_idle`**: when the mark of a plan that was cut off is right.
-/

namespace TaskTimer

variable {cap : UInt32}

/-! ## Groups that are repeated for nothing -/

mutual

/-- A group of the node, behind the last of its countdowns that runs, is repeated although nothing
runs in it: the countdowns it holds stand in groups that never run. -/
def Node.endsIdle (cap : UInt32) : Node → Bool
  | .leaf .. => false
  | .group children loopCount =>
    leafCount children ≠ 0 && repetitions cap loopCount ≠ 0 &&
      (runCount cap children = 0 || TaskTimer.endsIdle cap children)

/-- A group of the sequence, behind the last of its countdowns that runs, is repeated although
nothing runs in it. -/
def endsIdle (cap : UInt32) : List Node → Bool
  | [] => false
  | node :: nodes => endsIdle cap nodes || (runCount cap nodes = 0 && node.endsIdle cap)

end

mutual

theorem Node.endsIdle_eq_false (hcap : cap ≠ 0) : ∀ node : Node, node.endsIdle cap = false
  | .leaf .. => rfl
  | .group children loopCount => by
    rw [Node.endsIdle, TaskTimer.endsIdle_eq_false hcap children, Bool.or_false]
    by_cases h : leafCount children = 0
    · simp [h]
    · have hruns := (not_congr (runCount_eq_zero_iff_leafCount hcap children)).2 h
      simp [hruns]

/-- Only a cap of zero keeps a group from running. -/
theorem endsIdle_eq_false (hcap : cap ≠ 0) : ∀ nodes : List Node, endsIdle cap nodes = false
  | [] => rfl
  | node :: nodes => by
    rw [endsIdle, endsIdle_eq_false hcap nodes, node.endsIdle_eq_false hcap, Bool.and_false,
      Bool.or_false]

end

namespace Plan

/-! ## One part behind another -/

/-- The plan `q` is the plan `p` with as many of the entries `es` behind it as there is room for. It
is marked if entries were left out; and if the entries just fill it, it is marked exactly when the
part goes on with a loop that adds nothing, which `idle` says. -/
structure Adds (p : Plan) (es : List Entry) (idle : Prop) (q : Plan) : Prop where
  entries : q.entries.toList = (p.entries.toList ++ es).take maxEntries
  truncated : q.truncated = true ↔ p.truncated = true ∨ maxEntries < p.size + es.length ∨
    p.size + es.length = maxEntries ∧ idle

section Adds

variable {p q r : Plan} {es fs : List Entry} {i j : Prop}

theorem isFull_iff {p : Plan} : p.isFull = true ↔ maxEntries ≤ p.size := by
  rw [isFull, decide_eq_true_eq]

theorem length_toList (p : Plan) : p.entries.toList.length = p.size := Array.length_toList

theorem Adds.size (h : Adds p es i q) : q.size = min maxEntries (p.size + es.length) := by
  rw [← length_toList, h.entries, List.length_take, List.length_append, length_toList]

theorem Adds.size_le (h : Adds p es i q) : q.size ≤ maxEntries := by
  rw [h.size]
  exact Nat.min_le_left _ _

theorem Adds.congr (h : Adds p es i q) (hij : p.size + es.length = maxEntries → (i ↔ j)) :
    Adds p es j q :=
  ⟨h.entries, h.truncated.trans (or_congr_right (or_congr_right (and_congr_right hij)))⟩

theorem adds_nil (hp : p.size ≤ maxEntries) : Adds p [] False p := by
  constructor
  · rw [List.append_nil, List.take_of_length_le]
    rwa [length_toList]
  · rw [List.length_nil, Nat.add_zero, and_false, or_false, or_iff_left (by omega)]

theorem adds_cutOff (hp : p.size = maxEntries) (h : es = [] → i) : Adds p es i p.cutOff := by
  constructor
  · have hfull : p.entries.toList.length = maxEntries := by rw [length_toList, hp]
    rw [List.take_append_of_le_length (Nat.le_of_eq hfull.symm),
      List.take_of_length_le (Nat.le_of_eq hfull)]
    rfl
  · refine iff_of_true rfl (.inr ?_)
    cases es with
    | nil => exact .inr ⟨hp, h rfl⟩
    | cons e es =>
      left
      rw [List.length_cons]
      omega

theorem adds_push (hp : p.size ≤ maxEntries) (e : Entry) : Adds p [e] False (p.push e) := by
  rw [push]
  split
  · rename_i hfull
    rw [isFull_iff] at hfull
    exact adds_cutOff (Nat.le_antisymm hp hfull) fun h => nomatch h
  · rename_i hfull
    rw [isFull_iff] at hfull
    constructor
    · rw [List.take_of_length_le, Array.toList_push]
      rw [List.length_append, length_toList, List.length_singleton]
      omega
    · rw [and_false, or_false, List.length_singleton]
      exact (or_iff_left (by omega)).symm

/-- **One part behind another.** The first has idled at the end only if the second runs nothing. -/
theorem Adds.append (h : Adds p es i q) (h' : Adds q fs j r) :
    Adds p (es ++ fs) (j ∨ fs.length = 0 ∧ i) r := by
  constructor
  · rw [h'.entries, h.entries, ← List.append_assoc]
    generalize p.entries.toList ++ es = held
    have hleft : maxEntries - min maxEntries held.length = maxEntries - held.length := by omega
    rw [List.take_append, List.take_append, List.take_take, Nat.min_self, List.length_take, hleft]
  · have hsize := h.size
    rw [h'.truncated, h.truncated, List.length_append]
    by_cases hroom : p.size + es.length ≤ maxEntries
    · rw [hsize, Nat.min_eq_right hroom, Nat.add_assoc]
      constructor
      · rintro ((htrunc | hover | ⟨hjust, hi⟩) | hover | ⟨hjust, hj⟩)
        · exact .inl htrunc
        · omega
        · by_cases hfs : fs.length = 0
          · exact .inr (.inr ⟨by omega, .inr ⟨hfs, hi⟩⟩)
          · exact .inr (.inl (by omega))
        · exact .inr (.inl hover)
        · exact .inr (.inr ⟨hjust, .inl hj⟩)
      · rintro (htrunc | hover | ⟨hjust, hj | ⟨hfs, hi⟩⟩)
        · exact .inl (.inl htrunc)
        · exact .inr (.inl hover)
        · exact .inr (.inr ⟨hjust, hj⟩)
        · exact .inl (.inr (.inr ⟨by omega, hi⟩))
    · exact iff_of_true (.inl (.inr (.inl (by omega)))) (.inr (.inl (by omega)))

end Adds

/-! ## Repetitions and sequences -/

/-- **A loop adds its repetitions one behind the other.** At a full plan it stops without looking at
those to come. -/
theorem adds_loop {body : ℕ → Plan → Plan} {part : ℕ → List Entry} {size : ℕ} {idle : Prop}
    (hsize : ∀ k, (part k).length = size)
    (hbody : ∀ k p, p.size ≤ maxEntries → Adds p (part k) idle (body k p)) (n : ℕ) :
    ∀ k p, p.size ≤ maxEntries →
      Adds p ((List.range' k n).flatMap part) (n ≠ 0 ∧ (size = 0 ∨ idle)) (p.loop body n k) := by
  induction n with
  | zero => exact fun k p hp => (adds_nil hp).congr fun _ => by simp
  | succ n ih =>
    intro k p hp
    rw [List.range'_succ, List.flatMap_cons, loop]
    split
    · rename_i hfull
      rw [isFull_iff] at hfull
      refine adds_cutOff (Nat.le_antisymm hp hfull) fun hnil => ⟨n.succ_ne_zero, .inl ?_⟩
      rw [← hsize k, (List.append_eq_nil_iff.1 hnil).1, List.length_nil]
    · rename_i hfull
      rw [isFull_iff] at hfull
      have hfirst := hbody k p hp
      refine (hfirst.append (ih (k + 1) _ hfirst.size_le)).congr fun hjust => ?_
      have hrest : ((List.range' (k + 1) n).flatMap part).length = n * size := by
        rw [length_flatMap_of_length_eq hsize, List.length_range']
      rw [List.length_append, hsize, hrest] at hjust
      rw [hrest, Nat.mul_eq_zero]
      -- On a plan with room, repetitions that add nothing leave it with room.
      have hpos : size ≠ 0 := by
        rintro rfl
        omega
      simp only [hpos, false_or, or_false, ne_eq, Nat.succ_ne_zero, not_false_eq_true, true_and]
      by_cases hn : n = 0 <;> simp [hn]

mutual

theorem adds_addNode (cap : UInt32) : ∀ (node : Node) (path : List ℕ) (p : Plan),
    p.size ≤ maxEntries →
      Adds p (node.expansion cap path) (node.endsIdle cap = true) (addNode cap node path p)
  | .leaf seconds symbol, path, p, hp => (adds_push hp _).congr fun _ => by simp [Node.endsIdle]
  | .group children loopCount, path, p, hp => by
    rw [addNode]
    split
    · rename_i hskip
      rw [Bool.or_eq_true, decide_eq_true_eq, decide_eq_true_eq] at hskip
      have hnone : (Node.group children loopCount).runCount cap = 0 := by
        rw [Node.runCount, Nat.mul_eq_zero]
        exact hskip.symm.imp_right (runCount_eq_zero_of_leafCount children)
      have hempty : (Node.group children loopCount).expansion cap path = [] := by
        rw [← List.length_eq_zero_iff, Node.length_expansion, hnone]
      rw [hempty]
      refine (adds_nil hp).congr fun _ => ?_
      rcases hskip with h | h <;> simp [Node.endsIdle, h]
    · rename_i hrun
      rw [Bool.or_eq_true, decide_eq_true_eq, decide_eq_true_eq, not_or] at hrun
      obtain ⟨hwritten, hrepeated⟩ := hrun
      rw [Node.expansion, flatMap_repetitions fun k => expansion cap (path ++ [k]) children]
      refine (adds_loop (fun k => length_expansion cap _ children)
        (fun k p hp => adds_addNodes cap children (path ++ [k]) p hp) _ 1 p hp).congr fun _ => ?_
      -- The guard has let the group pass, so it idles if what it holds never runs.
      simp [Node.endsIdle, hwritten, hrepeated]

/-- **Nodes add their expansion.** -/
theorem adds_addNodes (cap : UInt32) : ∀ (nodes : List Node) (path : List ℕ) (p : Plan),
    p.size ≤ maxEntries →
      Adds p (expansion cap path nodes) (endsIdle cap nodes = true) (addNodes cap nodes path p)
  | [], path, p, hp => (adds_nil hp).congr fun _ => by simp [endsIdle]
  | node :: nodes, path, p, hp => by
    have hnode := adds_addNode cap node path p hp
    rw [expansion, addNodes]
    refine (hnode.append (adds_addNodes cap nodes path _ hnode.size_le)).congr fun _ => ?_
    simp [endsIdle, length_expansion]

end

/-! ## The plan of a timer -/

theorem adds_layout (cap : UInt32) (nodes : List Node) :
    Adds {} (expansion cap [] nodes) (endsIdle cap nodes = true) (layout cap nodes) := by
  rw [layout_eq]
  exact adds_addNodes cap nodes [] {} (Nat.zero_le _)

theorem toList_layout (cap : UInt32) (nodes : List Node) :
    (layout cap nodes).entries.toList = (expansion cap [] nodes).take maxEntries :=
  (adds_layout cap nodes).entries

theorem size_layout (cap : UInt32) (nodes : List Node) :
    (layout cap nodes).size = min maxEntries (runCount cap nodes) := by
  rw [(adds_layout cap nodes).size, length_expansion]
  exact congrArg (min maxEntries) (Nat.zero_add _)

/-- A plan is empty only if nothing runs: there is always room for the first countdown. -/
theorem size_layout_eq_zero_iff {cap : UInt32} {nodes : List Node} :
    (layout cap nodes).size = 0 ↔ runCount cap nodes = 0 := by
  have hroom : maxEntries ≠ 0 := by decide
  rw [size_layout]
  omega

/-- Countdowns are left out, or a plan that is just full meets a group that runs nothing. -/
theorem truncated_layout_iff (cap : UInt32) (nodes : List Node) :
    (layout cap nodes).truncated = true ↔ maxEntries < runCount cap nodes ∨
      runCount cap nodes = maxEntries ∧ endsIdle cap nodes = true := by
  have h := (adds_layout cap nodes).truncated
  rw [length_expansion, size, Array.size_empty, Nat.zero_add] at h
  exact h.trans (or_iff_right Bool.false_ne_true)

/-- **A plan holds the start of the expansion**, as far as there is room, and every entry names the
repetitions around it. -/
theorem layout_holds_start (cap : UInt32) (nodes : List Node) :
    (layout cap nodes).entries.toList = (expansion cap [] nodes).take maxEntries ∧
      ∀ e ∈ (layout cap nodes).entries, RunsIn cap nodes e := by
  refine ⟨toList_layout cap nodes, fun e he => ?_⟩
  rw [← Array.mem_toList_iff, toList_layout] at he
  obtain ⟨steps, hpath, hruns⟩ := (mem_expansion_iff cap [] e nodes).1 (List.mem_of_mem_take he)
  rwa [← List.nil_append steps, ← hpath] at hruns

example : (layout 99 [.group [.leaf 60 none, .group [] 5, .group [.leaf 120 none] 2] 2]).entries.map
    Entry.stepPath = #[[1], [1, 1], [1, 2], [2], [2, 1], [2, 2]] := by
  decide +kernel

/-- **When the mark is right.** It is, unless the room is just used up and an idle group comes
behind the last countdown. -/
theorem truncated_exactly_unless_idle (cap : UInt32) (nodes : List Node) :
    (((layout cap nodes).truncated = true ↔ maxEntries < (expansion cap [] nodes).length) ↔
      ¬ ((expansion cap [] nodes).length = maxEntries ∧ endsIdle cap nodes = true)) ∧
    (cap ≠ 0 → endsIdle cap nodes = false) := by
  refine ⟨?_, fun hcap => endsIdle_eq_false hcap nodes⟩
  rw [truncated_layout_iff, length_expansion]
  constructor
  · rintro hexact ⟨hjust, hidle⟩
    have := hexact.1 (.inr ⟨hjust, hidle⟩)
    omega
  · exact fun hnot => or_iff_left hnot

/-- A timer that uses up the room, and an idle group behind it. -/
theorem truncated_with_nothing_left_out :
    ∃ nodes, parse "(1s)100000 ((1s))1" = .ok nodes ∧
      (expansion 0 [] nodes).length = maxEntries ∧
      ¬ ((layout 0 nodes).truncated = true ↔ maxEntries < (expansion 0 [] nodes).length) := by
  let nodes : List Node := [.group [.leaf 1 none] 100000, .group [.group [.leaf 1 none] 0] 1]
  have hparse : parse "(1s)100000 ((1s))1" = .ok nodes := by
    have hread : (parse "(1s)100000 ((1s))1").toOption = some nodes := by decide +kernel
    cases h : parse "(1s)100000 ((1s))1" with
    | error e =>
      rw [h] at hread
      cases hread
    | ok nodes' =>
      rw [h] at hread
      exact congrArg Except.ok (Option.some.inj hread)
  have hcount : runCount 0 nodes = maxEntries := by decide +kernel
  have hidle : endsIdle 0 nodes = true := by decide +kernel
  have htrunc := (truncated_layout_iff 0 nodes).2 (.inr ⟨hcount, hidle⟩)
  rw [← length_expansion 0 []] at hcount
  refine ⟨nodes, hparse, hcount, fun hexact => ?_⟩
  have := hexact.1 htrunc
  omega

end Plan

end TaskTimer
