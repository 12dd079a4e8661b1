import TaskTimer.Proofs.Session.Run

/-!
# Generations

Ticks carry the generation for which they were ordered. A session that gives the source of ticks
an order takes up the next generation with it, and takes up a new one nowhere else, so the ticks
of an earlier order never count again.

* `TickOrder.armed?`: the generation that an order is to tick for.
* `Session.Move.generation`: what a step does to the generation.
* `Session.generation_after`, `Session.generation_after_new`: generations count the orders that were
  given.
* `Session.pairwise_armed`: the generations of the orders to tick increase.
* **`Session.late_ticks_are_dead`**: ticks of an order that another order has followed do nothing.
-/

namespace TaskTimer

/-- The generation that the source of ticks is to tick for. -/
def TickOrder.armed? : TickOrder → Option ℕ
  | .arm generation => some generation
  | .keep | .disarm => none

namespace TickOrder

theorem armed?_eq_some {order : TickOrder} {g : ℕ} : order.armed? = some g ↔ order = .arm g := by
  cases order <;> simp [armed?]

theorem ne_keep {order : TickOrder} (h : order = .disarm ∨ ∃ g, order = .arm g) :
    order ≠ .keep := by
  rintro rfl
  simp at h

end TickOrder

namespace Session

/-! ## One step -/

theorem Move.generation {s : Session} {i : Input} {t : Transition} (h : s.Move i t) :
    t.order = .keep ∧ t.session.generation = s.generation ∨
      (t.order = .disarm ∨ t.order = .arm (s.generation + 1)) ∧
        t.session.generation = s.generation + 1 := by
  cases h with
  | firstStart | launch | retry => exact .inr ⟨.inr rfl, rfl⟩
  | drop | take | remove | finish | stop => exact .inr ⟨.inl rfl, rfl⟩
  | unchanged | pause | resume | note | ignore | stillMissing | nothing | elsewhere | idle | lost
  | count | advance | stopIdle | retryNothing => exact .inl ⟨rfl, rfl⟩

variable {s : Session} {i : Input}

theorem generation_step_keep (h : (s.step i).order = .keep) :
    (s.step i).session.generation = s.generation := by
  rcases (s.move_step i).generation with ⟨-, same⟩ | ⟨order, -⟩
  · exact same
  · simp [h] at order

theorem generation_step_order (h : (s.step i).order ≠ .keep) :
    (s.step i).session.generation = s.generation + 1 := by
  rcases (s.move_step i).generation with ⟨order, -⟩ | ⟨-, next⟩
  · exact absurd order h
  · exact next

theorem generation_step_arm {g : ℕ} (h : (s.step i).order = .arm g) :
    g = s.generation + 1 ∧ (s.step i).session.generation = g := by
  rcases (s.move_step i).generation with ⟨order, -⟩ | ⟨order, next⟩
  · simp [h] at order
  · simp only [h, reduceCtorEq, TickOrder.arm.injEq, false_or] at order
    exact ⟨order, next.trans order.symm⟩

/-! ## Runs -/

/-- **A generation is the number of the orders given until then.** -/
theorem generation_after (s : Session) (is : List Input) :
    (s.after is).generation = s.generation + (s.run is).countP (·.order != .keep) := by
  induction is generalizing s with
  | nil => rfl
  | cons i is ih =>
    rw [after_cons, ih, run, List.countP_cons]
    by_cases h : (s.step i).order = .keep
    · simp [h, generation_step_keep h]
    · rw [generation_step_order h, if_pos (bne_iff_ne.2 h)]
      omega

/-- A word of 64 bits holds the generation as long as fewer than `2 ^ 64` orders are given. -/
theorem generation_after_new (cap : UInt32) (is : List Input) :
    ((new cap).after is).generation = ((new cap).run is).countP (·.order != .keep) := by
  rw [generation_after]
  exact Nat.zero_add _

theorem generation_le_after (s : Session) (is : List Input) :
    s.generation ≤ (s.after is).generation := by
  rw [generation_after]
  exact Nat.le_add_right _ _

theorem generation_le_of_mem_run {is : List Input} {t : Transition} (h : t ∈ s.run is) :
    t.session.generation ≤ (s.after is).generation := by
  obtain ⟨before, i, behind, rfl, rfl⟩ := (s.mem_run_iff is).1 h
  rw [after_append, after_cons]
  exact generation_le_after _ behind

theorem lt_of_mem_armed {is : List Input} {g : ℕ}
    (h : g ∈ (s.run is).filterMap (·.order.armed?)) : s.generation < g := by
  obtain ⟨t, ht, hg⟩ := List.mem_filterMap.1 h
  obtain ⟨before, i, behind, -, rfl⟩ := (s.mem_run_iff is).1 ht
  have hg := (generation_step_arm (TickOrder.armed?_eq_some.1 hg)).1
  have hle := s.generation_le_after before
  omega

theorem pairwise_armed (s : Session) (is : List Input) :
    ((s.run is).filterMap (·.order.armed?)).Pairwise (· < ·) := by
  induction is generalizing s with
  | nil => exact .nil
  | cons i is ih =>
    rw [run, List.filterMap_cons]
    split
    · exact ih _
    · rename_i g hg
      have harm := (generation_step_arm (TickOrder.armed?_eq_some.1 hg)).2
      refine List.pairwise_cons.2 ⟨fun g' hg' => ?_, ih _⟩
      have hlt := lt_of_mem_armed hg'
      omega

/-- **Late ticks are dead.** Once another order has followed the one for generation `g`, a tick of
`g` does nothing, however late it comes. -/
theorem late_ticks_are_dead (s : Session) :
    (∀ is, ∀ t ∈ s.run is, ∀ g, t.order = .arm g → t.session.generation = g) ∧
    (∀ is, ((s.run is).filterMap (·.order.armed?)).Pairwise (· < ·)) ∧
    (∀ is, (s.after is).generation = s.generation + (s.run is).countP (·.order != .keep)) ∧
    ∀ before i between j behind g, ((s.after before).step i).order = .arm g →
      (((s.after (before ++ i :: between)).step j).order = .disarm ∨
        ∃ g', ((s.after (before ++ i :: between)).step j).order = .arm g') →
      let late := s.after (before ++ i :: (between ++ j :: behind))
      late.tick g = { session := late } := by
  refine ⟨fun is t ht g harm => ?_, s.pairwise_armed, s.generation_after,
    fun before i between j behind g harm horder => ?_⟩
  · obtain ⟨before, i, behind, -, rfl⟩ := (s.mem_run_iff is).1 ht
    exact (generation_step_arm harm).2
  · intro late
    set armed := ((s.after before).step i).session with harmed
    have hmiddle : s.after (before ++ i :: between) = armed.after between := by
      rw [after_append, after_cons]
    rw [hmiddle] at horder
    have hlate : late = ((armed.after between).step j).session.after behind := by
      simp only [late, harmed, after_append, after_cons]
    have hg : armed.generation = g := (generation_step_arm harm).2
    have hnext := generation_step_order (TickOrder.ne_keep horder)
    have hbetween := armed.generation_le_after between
    have hbehind := ((armed.after between).step j).session.generation_le_after behind
    rw [← hlate] at hbehind
    refine tick_stale fun current => ?_
    omega

/-- A timer is started, given up after a tick, and started over. -/
theorem late_ticks_are_dead_after_restart :
    let i : Input := .evaluate (scan "[2s] tea" "doc") "doc"
    let late := (Session.new 99).after [i, .tick 1, .stop, .retry]
    ((Session.new 99).step i).order = .arm 1 ∧ late.phase = .running ∧
      late.tick 1 = { session := late } ∧ (late.tick late.generation).events ≠ [] := by
  intro i late
  have harm : ((Session.new 99).step i).order = .arm 1 := by decide +kernel
  have hstop : (((Session.new 99).after [i, .tick 1]).step .stop).order = .disarm := by
    decide +kernel
  have hdead := (late_ticks_are_dead (Session.new 99)).2.2.2 [] i [.tick 1] .stop [.retry] 1 harm
    (.inl hstop)
  exact ⟨harm, by decide +kernel, hdead, by decide +kernel⟩

end Session

end TaskTimer
