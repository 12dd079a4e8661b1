import Mathlib.Data.List.Destutter

/-!
# Lists

* `append_eq_append_cons`: where a member of an append comes from.
* **`destutter_toList_append_cons`**: whoever keeps the value that was told last, and tells the next
  one only if it is another, tells the values without those that repeat the one before.
* **`lookup_replaced`**: in a table the first entry of a key counts. An entry is removed by leaving
  out its key, and replaced by a new first entry.
-/

namespace TaskTimer

theorem append_eq_append_cons {α : Type} {a b before after : List α} {x : α}
    (h : a ++ b = before ++ x :: after) :
    (∃ mid, a = before ++ x :: mid ∧ after = mid ++ b) ∨
      ∃ mid, before = a ++ mid ∧ b = mid ++ x :: after := by
  rcases List.append_eq_append_iff.1 h with hright | ⟨mid, ha, hafter⟩
  · exact .inr hright
  · cases mid with
    | nil => exact .inr ⟨[], by rw [ha, List.append_nil, List.append_nil], hafter.symm⟩
    | cons head mid =>
      obtain ⟨rfl, rfl⟩ := List.cons.inj hafter
      exact .inl ⟨mid, ha, rfl⟩

/-! ## Values that are told when they change -/

/-- **The next value is left out if it repeats the one that is kept.** -/
theorem destutter_toList_append_cons {α : Type} [DecidableEq α] (kept : Option α) (a : α) (as : List α) :
    (kept.toList ++ a :: as).destutter (· ≠ ·) =
      if kept = some a then (kept.toList ++ as).destutter (· ≠ ·)
      else kept.toList ++ (a :: as).destutter (· ≠ ·) := by
  cases kept with
  | none => rfl
  | some b =>
    by_cases hb : b = a
    · simp [hb, List.destutter_cons']
    · simp [hb, List.destutter_cons']

/-! ## Tables -/

section Tables

variable {α β : Type} [BEq α] [LawfulBEq α] {k k' : α} (table : List (α × β))

theorem lookup_removed (k : α) : (table.filter (·.1 != k)).lookup k = none := by
  rw [List.lookup_eq_none_iff]
  intro entry hentry
  have hne : entry.1 ≠ k := bne_iff_ne.1 (List.mem_filter.1 hentry).2
  exact bne_iff_ne.2 hne.symm

theorem lookup_removed_of_ne (hne : k' ≠ k) :
    (table.filter (·.1 != k)).lookup k' = table.lookup k' := by
  induction table with
  | nil => rfl
  | cons entry table ih =>
    obtain ⟨key, value⟩ := entry
    by_cases hkey : key = k
    · subst hkey
      rw [List.filter_cons_of_neg (by simp), ih, List.lookup_cons, beq_eq_false_iff_ne.2 hne]
    · rw [List.filter_cons_of_pos (by simpa using hkey), List.lookup_cons, List.lookup_cons, ih]

/-- **The new entry is found under its key.** -/
theorem lookup_replaced [DecidableEq α] (k k' : α) (value : β) :
    ((k, value) :: table.filter (·.1 != k)).lookup k' =
      if k' = k then some value else table.lookup k' := by
  rw [List.lookup_cons]
  by_cases hk : k' = k
  · rw [if_pos hk, hk, beq_self_eq_true]
  · rw [if_neg hk, beq_eq_false_iff_ne.2 hk]
    exact lookup_removed_of_ne table hk

end Tables

end TaskTimer
