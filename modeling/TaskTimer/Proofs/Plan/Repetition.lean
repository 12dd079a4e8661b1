import Mathlib.Data.List.Forall2
import TaskTimer.Proofs.Plan.Room

/-!
# Where a plan announces steps

A plan compares the step paths of neighbours to find out where another repetition begins. Step paths
count repetitions and do not tell groups apart, so places are followed beside the expansion.

* `Place`, `Place.OtherRepetition`: where a countdown runs, and when two places lie in different
  repetitions of one group.
* `places`, `RunsAt`: the places of an expansion, and what runs at a place. `forall₂_runsAt`.
* `Plan.places`, `Plan.announces_iff`: the places of a plan, and what they say about its steps.
* `getElem?_rounds`: the entries of a part that is repeated.
* **`Plan.repetitions_are_announced`**: another repetition is announced, the next countdown of the
  same repetition is not.
-/

namespace TaskTimer

variable {cap : UInt32}

/-! ## Places -/

/-- Where a countdown runs. -/
structure Place where
  /-- The groups around it, outermost first: the index of each among its siblings, and which of its
  repetitions runs, counted from one. -/
  groups : List (ℕ × ℕ)
  /-- The index of the countdown among its siblings. -/
  index : ℕ
  deriving DecidableEq

/-- The repetitions that run, outermost first. -/
def Place.steps (a : Place) : List ℕ := a.groups.map Prod.snd

/-- The places lie in the same group, in different repetitions of it. The groups around it are the
same ones, whichever of their repetitions run. -/
def Place.OtherRepetition (a b : Place) : Prop :=
  ∃ outer outer' group k k' inner inner', a.groups = outer ++ (group, k) :: inner ∧
    b.groups = outer' ++ (group, k') :: inner' ∧ outer.map Prod.fst = outer'.map Prod.fst ∧ k ≠ k'

theorem Place.OtherRepetition.steps_ne {a b : Place} (h : a.OtherRepetition b) :
    a.steps ≠ b.steps := by
  obtain ⟨outer, outer', group, k, k', inner, inner', ha, hb, houter, hk⟩ := h
  have hlength : (outer.map Prod.snd).length = (outer'.map Prod.snd).length := by
    have := congrArg List.length houter
    rwa [List.length_map, List.length_map] at this ⊢
  rw [steps, steps, ha, hb, List.map_append, List.map_append, List.map_cons, List.map_cons]
  intro heq
  exact hk (List.cons.inj (List.append_inj heq hlength).2).1

theorem Place.OtherRepetition.groups_ne_nil {a b : Place} (h : a.OtherRepetition b) :
    b.groups ≠ [] := by
  obtain ⟨outer, outer', group, k, k', inner, inner', -, hb, -, -⟩ := h
  rw [hb]
  exact List.append_ne_nil_of_right_ne_nil _ (List.cons_ne_nil _ _)

/-! ## The places of an expansion -/

mutual

/-- The places of the countdowns of a node that stands at `index` inside the groups `outer`. -/
def Node.places (cap : UInt32) (outer : List (ℕ × ℕ)) (index : ℕ) : Node → List Place
  | .leaf .. => [⟨outer, index⟩]
  | .group children loopCount =>
    (List.range (repetitions cap loopCount)).flatMap fun k =>
      TaskTimer.placesFrom cap (outer ++ [(index, k + 1)]) 0 children

/-- The places of the countdowns of a sequence of nodes inside the groups `outer`, of which the first
stands at `index`. -/
def placesFrom (cap : UInt32) (outer : List (ℕ × ℕ)) (index : ℕ) : List Node → List Place
  | [] => []
  | node :: nodes => node.places cap outer index ++ placesFrom cap outer (index + 1) nodes

end

/-- The entry runs the countdown at the place. Its step path names the repetition of every group
around the countdown. -/
inductive RunsAt (cap : UInt32) : List Node → Place → Entry → Prop
  | leaf {nodes : List Node} {index : ℕ} {seconds : UInt64} {symbol : Option String}
      (written : nodes[index]? = some (.leaf seconds symbol)) :
      RunsAt cap nodes ⟨[], index⟩ ⟨seconds, symbol, []⟩
  | group {nodes children : List Node} {loopCount : UInt32} {groups : List (ℕ × ℕ)}
      {group k index : ℕ} {seconds : UInt64} {symbol : Option String} {path : List ℕ}
      (written : nodes[group]? = some (.group children loopCount))
      (first : 1 ≤ k) (last : k ≤ repetitions cap loopCount)
      (inside : RunsAt cap children ⟨groups, index⟩ ⟨seconds, symbol, path⟩) :
      RunsAt cap nodes ⟨(group, k) :: groups, index⟩ ⟨seconds, symbol, k :: path⟩

theorem RunsAt.stepPath {nodes : List Node} {a : Place} {e : Entry} (h : RunsAt cap nodes a e) :
    e.stepPath = a.steps := by
  induction h with
  | leaf written => rfl
  | group written first last inside ih =>
    rw [Place.steps, List.map_cons]
    exact congrArg (List.cons _) ih

/-- The entry runs at the place, both seen from outside the groups `outer`. -/
def RunsBelow (cap : UInt32) (outer : List (ℕ × ℕ)) (nodes : List Node) (a : Place) (e : Entry) :
    Prop :=
  ∃ groups path, a.groups = outer ++ groups ∧ e.stepPath = outer.map Prod.snd ++ path ∧
    RunsAt cap nodes ⟨groups, a.index⟩ ⟨e.seconds, e.symbol, path⟩

theorem forall₂_flatMap {α β : Type} {R : α → β → Prop} {f : ℕ → List α} {g : ℕ → List β}
    {ks : List ℕ} (h : ∀ k ∈ ks, List.Forall₂ R (f k) (g k)) :
    List.Forall₂ R (ks.flatMap f) (ks.flatMap g) := by
  have hks : List.Forall₂ (fun k k' => k = k' ∧ k ∈ ks) ks ks :=
    List.forall₂_same.2 fun k hk => ⟨rfl, hk⟩
  refine List.rel_flatMap hks ?_
  rintro k _ ⟨rfl, hk⟩
  exact h k hk

theorem exists_of_forall₂ {α β : Type} {R : α → β → Prop} {as : List α} {bs : List β}
    (h : List.Forall₂ R as bs) {i : ℕ} {a : α} (ha : as[i]? = some a) :
    ∃ b, bs[i]? = some b ∧ R a b := by
  obtain ⟨hlt, rfl⟩ := List.getElem?_eq_some_iff.1 ha
  have hlt' : i < bs.length := h.length_eq ▸ hlt
  exact ⟨bs[i], List.getElem?_eq_getElem hlt', h.get hlt hlt'⟩

mutual

theorem Node.forall₂_runsBelow (outer : List (ℕ × ℕ)) (nodes : List Node) (index : ℕ) :
    ∀ node : Node, nodes[index]? = some node →
      List.Forall₂ (RunsBelow cap outer nodes) (node.places cap outer index)
        (node.expansion cap (outer.map Prod.snd))
  | .leaf seconds symbol, hnode => by
    rw [Node.places, Node.expansion]
    exact .cons ⟨[], [], (List.append_nil _).symm, (List.append_nil _).symm, .leaf hnode⟩ .nil
  | .group children loopCount, hnode => by
    rw [Node.places, Node.expansion]
    refine forall₂_flatMap fun k hk => ?_
    have inside := TaskTimer.forall₂_runsBelow (outer ++ [(index, k + 1)]) children 0 children rfl
    rw [List.map_append, List.map_singleton] at inside
    refine inside.imp fun a e => ?_
    rintro ⟨groups, path, hgroups, hpath, hruns⟩
    refine ⟨(index, k + 1) :: groups, (k + 1) :: path, ?_, ?_,
      .group hnode (Nat.le_add_left 1 k) (List.mem_range.1 hk) hruns⟩
    · rw [hgroups, List.append_assoc, List.singleton_append]
    · rw [hpath, List.map_append, List.map_singleton, List.append_assoc, List.singleton_append]

theorem forall₂_runsBelow (outer : List (ℕ × ℕ)) (nodes : List Node) (index : ℕ) :
    ∀ later : List Node, nodes.drop index = later →
      List.Forall₂ (RunsBelow cap outer nodes) (placesFrom cap outer index later)
        (expansion cap (outer.map Prod.snd) later)
  | [], _ => .nil
  | node :: later, hdrop => by
    have hnode : nodes[index]? = some node := by
      rw [← List.head?_drop, hdrop, List.head?_cons]
    have hlater : nodes.drop (index + 1) = later := by
      rw [← List.tail_drop, hdrop, List.tail_cons]
    rw [placesFrom, expansion]
    exact List.rel_append (node.forall₂_runsBelow outer nodes index hnode)
      (forall₂_runsBelow outer nodes (index + 1) later hlater)

end

/-- **The countdowns of an expansion run at its places**, in the same order. -/
theorem forall₂_runsAt (nodes : List Node) :
    List.Forall₂ (RunsAt cap nodes) (placesFrom cap [] 0 nodes) (expansion cap [] nodes) := by
  refine (forall₂_runsBelow [] nodes 0 nodes rfl).imp fun a e => ?_
  rintro ⟨groups, path, hgroups, hpath, hruns⟩
  rw [List.nil_append] at hgroups
  rw [List.map_nil, List.nil_append] at hpath
  subst hgroups hpath
  exact hruns

namespace Plan

/-! ## The places of a plan -/

/-- The places of the countdowns in the plan of a timer. -/
def places (cap : UInt32) (nodes : List Node) : List Place :=
  (placesFrom cap [] 0 nodes).take maxEntries

theorem forall₂_places (nodes : List Node) :
    List.Forall₂ (RunsAt cap nodes) (places cap nodes) (layout cap nodes).entries.toList := by
  rw [toList_layout]
  exact List.forall₂_take maxEntries (forall₂_runsAt nodes)

variable {nodes : List Node} {i : ℕ} {a b : Place}

theorem exists_entry (ha : (places cap nodes)[i]? = some a) :
    ∃ e, (layout cap nodes).entries[i]? = some e ∧ e.stepPath = a.steps := by
  obtain ⟨e, he, hruns⟩ := exists_of_forall₂ (forall₂_places nodes) ha
  rw [Array.getElem?_toList] at he
  exact ⟨e, he, hruns.stepPath⟩

theorem announces_succ {p : Plan} {e e' : Entry} (he : p.entries[i]? = some e)
    (he' : p.entries[i + 1]? = some e') :
    p.announces (i + 1) = true ↔ e'.stepPath ≠ [] ∧ e'.stepPath ≠ e.stepPath := by
  simp [announces, he, he']

theorem announces_of_size_le {p : Plan} (h : p.size ≤ i) : p.announces i = false := by
  cases i with
  | zero => rfl
  | succ j =>
    have hnone : p.entries[j + 1]? = none := Array.getElem?_eq_none h
    rw [announces, hnone]
    cases p.entries[j]? <;> rfl

/-- **Moving on is announced if it leads into a group where other repetitions run than before.** -/
theorem announces_iff (ha : (places cap nodes)[i]? = some a)
    (hb : (places cap nodes)[i + 1]? = some b) :
    (layout cap nodes).announces (i + 1) = true ↔ b.groups ≠ [] ∧ b.steps ≠ a.steps := by
  obtain ⟨e, he, hpath⟩ := exists_entry ha
  obtain ⟨e', he', hpath'⟩ := exists_entry hb
  rw [announces_succ he he', hpath, hpath', Place.steps, ne_eq, List.map_eq_nil_iff]

/-! ## One group of countdowns -/

/-- Where an entry stands in a part of `m` entries that is repeated `r` times. -/
theorem getElem?_rounds {α : Type} {part : ℕ → List α} {m : ℕ} (hpart : ∀ k, (part k).length = m)
    {r i : ℕ} (hi : i < r * m) :
    ((List.range r).flatMap part)[i]? = (part (i / m))[i % m]? := by
  have hm : 0 < m := Nat.pos_of_mul_pos_left (Nat.zero_lt_of_lt hi)
  induction r with
  | zero => omega
  | succ r ih =>
    have hlength : ((List.range r).flatMap part).length = r * m := by
      rw [length_flatMap_of_length_eq hpart, List.length_range]
    rw [List.range_succ, List.flatMap_append, List.flatMap_singleton]
    by_cases hlast : i < r * m
    · rw [List.getElem?_append_left (hlength ▸ hlast), ih hlast]
    · have hround : i = i - r * m + m * r := by
        rw [Nat.mul_comm m]
        omega
      have hlt : i - r * m < m := by
        rw [Nat.succ_mul] at hi
        omega
      rw [List.getElem?_append_right (by omega), hlength, hround, Nat.add_mul_div_left _ _ hm,
        Nat.add_mul_mod_self_left, Nat.div_eq_of_lt hlt, Nat.mod_eq_of_lt hlt, Nat.zero_add]
      congr 1
      omega

theorem placesFrom_leaves {leaves : List Node}
    (hleaves : ∀ node ∈ leaves, ∃ seconds symbol, node = .leaf seconds symbol)
    (outer : List (ℕ × ℕ)) (index : ℕ) :
    placesFrom cap outer index leaves =
      (List.range' index leaves.length).map fun k => ⟨outer, k⟩ := by
  induction leaves generalizing index with
  | nil => rfl
  | cons node leaves ih =>
    obtain ⟨⟨seconds, symbol, rfl⟩, hlater⟩ := List.forall_mem_cons.1 hleaves
    rw [placesFrom, Node.places, ih hlater, List.length_cons, List.range'_succ, List.map_cons]
    rfl

section Rounds

variable {leaves : List Node}
  (hleaves : ∀ node ∈ leaves, ∃ seconds symbol, node = .leaf seconds symbol) (loopCount : UInt32)

include hleaves

theorem size_rounds : (layout cap [.group leaves loopCount]).size =
    min maxEntries (repetitions cap loopCount * leaves.length) := by
  have hplaces := (@forall₂_places cap [.group leaves loopCount]).length_eq
  rw [length_toList] at hplaces
  rw [← hplaces, places, placesFrom, Node.places, List.length_take, List.length_append,
    List.length_flatMap]
  simp [placesFrom_leaves hleaves, placesFrom]

theorem places_rounds {i : ℕ} (hi : i < (layout cap [.group leaves loopCount]).size) :
    (places cap [.group leaves loopCount])[i]? =
      some ⟨[(0, i / leaves.length + 1)], i % leaves.length⟩ := by
  rw [size_rounds hleaves, Nat.lt_min] at hi
  have hm : 0 < leaves.length := Nat.pos_of_mul_pos_left (Nat.zero_lt_of_lt hi.2)
  have hpart : ∀ k, (placesFrom cap [(0, k + 1)] 0 leaves).length = leaves.length := fun k => by
    rw [placesFrom_leaves hleaves, List.length_map, List.length_range']
  rw [places, List.getElem?_take_of_lt hi.1, placesFrom, Node.places, placesFrom, List.append_nil]
  simp only [List.nil_append]
  rw [getElem?_rounds hpart hi.2, placesFrom_leaves hleaves, List.getElem?_map,
    List.getElem?_range' (Nat.mod_lt _ hm)]
  simp

/-- **The steps of one group** are announced where a repetition begins that is not the first. -/
theorem announces_rounds (hne : leaves ≠ []) (i : ℕ) :
    (layout cap [.group leaves loopCount]).announces i = true ↔
      ∃ k, 1 ≤ k ∧ k < repetitions cap loopCount ∧ i = k * leaves.length ∧
        i < (layout cap [.group leaves loopCount]).size := by
  have hm : 0 < leaves.length := List.length_pos_iff.2 hne
  by_cases hi : i < (layout cap [.group leaves loopCount]).size
  · cases i with
    | zero =>
      refine iff_of_false Bool.false_ne_true ?_
      rintro ⟨k, hk, -, hzero, -⟩
      have hpos := Nat.mul_pos hk hm
      omega
    | succ j =>
      rw [announces_iff (places_rounds hleaves loopCount (Nat.lt_of_succ_lt hi))
        (places_rounds hleaves loopCount hi)]
      have hdvd : (Place.steps ⟨[(0, (j + 1) / leaves.length + 1)], (j + 1) % leaves.length⟩ ≠
          Place.steps ⟨[(0, j / leaves.length + 1)], j % leaves.length⟩) ↔
          leaves.length ∣ j + 1 := by
        rw [Place.steps, Place.steps, Nat.succ_div]
        split <;> simp_all
      rw [hdvd]
      have hsize := hi
      rw [size_rounds hleaves, Nat.lt_min] at hsize
      constructor
      · rintro ⟨-, k, hk⟩
        rw [Nat.mul_comm] at hk
        refine ⟨k, Nat.pos_of_ne_zero ?_, ?_, hk, hi⟩
        · rintro rfl
          omega
        · rw [hk] at hsize
          exact Nat.lt_of_mul_lt_mul_right hsize.2
      · rintro ⟨k, -, -, hk, -⟩
        exact ⟨List.cons_ne_nil _ _, hk ▸ Nat.dvd_mul_left _ k⟩
  · refine iff_of_false ?_ fun ⟨_, _, _, _, hlt⟩ => hi hlt
    rw [announces_of_size_le (Nat.le_of_not_lt hi)]
    exact Bool.false_ne_true

end Rounds

/-- **Another repetition is announced, and plain succession is not**, nor is leaving every group. -/
theorem repetitions_are_announced (cap : UInt32) (nodes : List Node) :
    let p := layout cap nodes
    List.Forall₂ (RunsAt cap nodes) (places cap nodes) p.entries.toList ∧
      (∀ i a b, (places cap nodes)[i]? = some a → (places cap nodes)[i + 1]? = some b →
        a.OtherRepetition b → p.announces (i + 1) = true) ∧
      (∀ i b, (places cap nodes)[i]? = some b → b.groups = [] → p.announces i = false) ∧
      p.announces 0 = false ∧
      (∀ i, p.size ≤ i → p.announces i = false) ∧
      (∀ i a b, (places cap nodes)[i]? = some a → (places cap nodes)[i + 1]? = some b →
        a.groups = b.groups → p.announces (i + 1) = false) ∧
      ∀ leaves loopCount, nodes = [.group leaves loopCount] → leaves ≠ [] →
        (∀ node ∈ leaves, ∃ seconds symbol, node = .leaf seconds symbol) →
        ∀ i, p.announces i = true ↔
          ∃ k, 1 ≤ k ∧ k < repetitions cap loopCount ∧ i = k * leaves.length ∧ i < p.size := by
  intro p
  refine ⟨forall₂_places nodes, fun i a b ha hb hother => ?_, fun i b hb houtside => ?_, rfl,
    fun i => announces_of_size_le, fun i a b ha hb hsame => ?_, ?_⟩
  · exact (announces_iff ha hb).2 ⟨hother.groups_ne_nil, hother.steps_ne.symm⟩
  · cases i with
    | zero => rfl
    | succ j =>
      have hlt : j < (places cap nodes).length :=
        Nat.lt_of_succ_lt (List.getElem?_eq_some_iff.1 hb).1
      rw [Bool.eq_false_iff, ne_eq, announces_iff (List.getElem?_eq_getElem hlt) hb]
      exact fun h => h.1 houtside
  · rw [Bool.eq_false_iff, ne_eq, announces_iff ha hb, Place.steps, Place.steps, hsame]
    exact fun h => h.2 rfl
  · rintro leaves loopCount rfl hne hleaves i
    exact announces_rounds hleaves loopCount hne i

/-- Groups two deep, with an empty group in between and a countdown behind. -/
theorem repetitions_are_announced_nested :
    let p := layout 99
      [.group [.leaf 60 none, .group [] 3, .group [.leaf 120 none] 2] 2, .leaf 180 none]
    p.size = 7 ∧ p.announces 2 = true ∧ p.announces 3 = true ∧ p.announces 6 = false := by
  intro p
  obtain ⟨-, other, outside, -⟩ := repetitions_are_announced 99
    [.group [.leaf 60 none, .group [] 3, .group [.leaf 120 none] 2] 2, .leaf 180 none]
  have inner : Place.OtherRepetition ⟨[(0, 1), (2, 1)], 0⟩ ⟨[(0, 1), (2, 2)], 0⟩ :=
    ⟨[(0, 1)], [(0, 1)], 2, 1, 2, [], [], rfl, rfl, rfl, by decide⟩
  have outer : Place.OtherRepetition ⟨[(0, 1), (2, 2)], 0⟩ ⟨[(0, 2)], 0⟩ :=
    ⟨[], [], 0, 1, 2, [(2, 2)], [], rfl, rfl, rfl, by decide⟩
  refine ⟨by decide +kernel, other 1 _ _ ?_ ?_ inner, other 2 _ _ ?_ ?_ outer,
    outside 6 ⟨[], 1⟩ ?_ rfl⟩
  all_goals decide +kernel

end Plan

end TaskTimer
