import Mathlib.Algebra.BigOperators.Group.List.Basic
import Mathlib.Algebra.GroupWithZero.Nat
import TaskTimer.Session.Event

/-!
# The trace of a plan

What a timer that is never disturbed reports, tick by tick. Entry after entry is counted down; a
countdown of no seconds takes one tick like a countdown of one second.

* `Entry.ticks`, `Plan.ending`, `Plan.tickEvents`, `Plan.entryTrace`: the ticks of one entry.
* `Plan.trace`: the ticks of a plan.
* `Plan.traceAt`: the ticks that are left in the middle of an entry, with `traceAt_count` and
  `traceAt_over` for what one tick takes off.
* **`Plan.length_trace`**, **`Plan.finishes_trace`**: how long a trace is, and how it ends.
-/

namespace TaskTimer

/-- The timer has come to its end. -/
def Event.isFinish : Event → Bool
  | .finish _ => true
  | _ => false

/-- The ticks that a countdown takes. -/
def Entry.ticks (e : Entry) : ℕ := max e.seconds.toNat 1

theorem Entry.ticks_pos (e : Entry) : 0 < e.ticks := Nat.le_max_right e.seconds.toNat 1

namespace Plan

variable (p : Plan) (d : Declaration)

/-- What the end of entry `i` reports: the step to the next entry if it is announced, and the end
of the timer if there is no next entry. -/
def ending (i : ℕ) : List Event :=
  match p.entries[i + 1]? with
  | some next => if p.announces (i + 1) then [.step next.stepLabel next.symbol d] else []
  | none => [.finish d]

/-- What tick `j` of entry `i` reports, counted from one. -/
def tickEvents (i : ℕ) (e : Entry) (j : ℕ) : List Event :=
  .interval (.ofNat (e.ticks - j)) e.seconds e.stepLabel e.symbol d ::
    if j = e.ticks then p.ending d i else []

/-- What the ticks of entry `i` report. -/
def entryTrace (i : ℕ) (e : Entry) : List (List Event) :=
  (List.range e.ticks).map fun j => p.tickEvents d i e (j + 1)

/-- What the ticks of the entries from `i` on report. -/
def traceFrom (i : ℕ) : List (List Event) :=
  (p.entries.toList.zipIdx.drop i).flatMap fun (e, k) => p.entryTrace d k e

/-- **The trace of a plan**: what its ticks report, one after the other. -/
def trace : List (List Event) := p.entries.toList.zipIdx.flatMap fun (e, k) => p.entryTrace d k e

/-- What is left of the trace when `seconds` seconds of entry `i` are left. -/
def traceAt (i seconds : ℕ) : List (List Event) :=
  match p.entries[i]? with
  | some e => (p.entryTrace d i e).drop (e.ticks - max seconds 1) ++ p.traceFrom d (i + 1)
  | none => []

variable {p} {i : ℕ} {e : Entry}

theorem exists_first (hp : p.size ≠ 0) : ∃ e, p.entries[0]? = some e :=
  ⟨_, Array.getElem?_eq_getElem (Nat.pos_of_ne_zero hp)⟩

theorem traceFrom_zero : p.traceFrom d 0 = p.trace d := by rw [traceFrom, List.drop_zero, trace]

theorem traceFrom_of_entry (he : p.entries[i]? = some e) :
    p.traceFrom d i = p.entryTrace d i e ++ p.traceFrom d (i + 1) := by
  have hi : p.entries.toList.zipIdx[i]? = some (e, i) := by
    rw [List.getElem?_zipIdx, Array.getElem?_toList, he, Nat.zero_add]
    rfl
  obtain ⟨hlt, hget⟩ := List.getElem?_eq_some_iff.1 hi
  rw [traceFrom, List.drop_eq_getElem_cons hlt, hget, List.flatMap_cons, traceFrom]

theorem traceFrom_of_none (hi : p.entries[i]? = none) : p.traceFrom d i = [] := by
  have hle : p.entries.toList.zipIdx.length ≤ i := by
    rw [List.length_zipIdx, Array.length_toList]
    exact Array.getElem?_eq_none_iff.1 hi
  rw [traceFrom, List.drop_eq_nil_of_le hle, List.flatMap_nil]

theorem length_entryTrace (i : ℕ) (e : Entry) : (p.entryTrace d i e).length = e.ticks := by
  rw [entryTrace, List.length_map, List.length_range]

theorem traceAt_start (he : p.entries[i]? = some e) :
    p.traceAt d i e.seconds.toNat = p.traceFrom d i := by
  rw [traceAt, he, traceFrom_of_entry d he]
  simp only [Entry.ticks, Nat.sub_self, List.drop_zero]

theorem drop_entryTrace {k : ℕ} (hk : k < e.ticks) :
    (p.entryTrace d i e).drop k =
      p.tickEvents d i e (k + 1) :: (p.entryTrace d i e).drop (k + 1) := by
  have hlt : k < (p.entryTrace d i e).length := by rwa [length_entryTrace]
  rw [List.drop_eq_getElem_cons hlt]
  simp only [entryTrace, List.getElem_map, List.getElem_range]

/-- **A tick in the middle of an entry.** -/
theorem traceAt_count (he : p.entries[i]? = some e) {seconds : ℕ} (hle : seconds ≤ e.seconds.toNat)
    (hmore : 1 < seconds) :
    p.traceAt d i seconds =
      [.interval (.ofNat (seconds - 1)) e.seconds e.stepLabel e.symbol d] ::
        p.traceAt d i (seconds - 1) := by
  have hticks : e.ticks = e.seconds.toNat := Nat.max_eq_left (by omega)
  have hk : e.ticks - seconds < e.ticks := by omega
  rw [traceAt, he]
  simp only
  rw [Nat.max_eq_left (by omega), drop_entryTrace d hk, List.cons_append, tickEvents,
    if_neg (by omega), traceAt, he]
  simp only
  rw [Nat.max_eq_left (by omega), show e.ticks - (e.ticks - seconds + 1) = seconds - 1 by omega,
    show e.ticks - (seconds - 1) = e.ticks - seconds + 1 by omega]

/-- **The last tick of an entry.** -/
theorem traceAt_over (he : p.entries[i]? = some e) {seconds : ℕ} (hover : seconds ≤ 1) :
    p.traceAt d i seconds =
      (.interval 0 e.seconds e.stepLabel e.symbol d :: p.ending d i) :: p.traceFrom d (i + 1) := by
  have hpos := e.ticks_pos
  rw [traceAt, he]
  simp only
  rw [Nat.max_eq_right hover, drop_entryTrace d (by omega), Nat.sub_add_cancel hpos, tickEvents,
    if_pos rfl, Nat.sub_self, List.drop_eq_nil_of_le (Nat.le_of_eq (length_entryTrace d i e))]
  rfl

/-! ## How long a trace is, and how it ends -/

/-- **A trace takes the ticks of its entries.** -/
theorem length_trace : (p.trace d).length = (p.entries.toList.map Entry.ticks).sum := by
  rw [trace, List.length_flatMap]
  have h : (fun q : Entry × ℕ => (p.entryTrace d q.2 q.1).length) = Entry.ticks ∘ Prod.fst := by
    funext ⟨e, k⟩
    exact length_entryTrace d k e
  rw [h, ← List.map_map, List.zipIdx_map_fst]

/-- The ends of the timer that are among some events. -/
def finishes (ticks : List (List Event)) : List Event := ticks.flatten.filter Event.isFinish

theorem finishes_cons (events : List Event) (ticks : List (List Event)) :
    finishes (events :: ticks) = events.filter Event.isFinish ++ finishes ticks := by
  rw [finishes, finishes, List.flatten_cons, List.filter_append]

theorem filter_ending (i : ℕ) : (p.ending d i).filter Event.isFinish =
    if p.entries[i + 1]? = none then [.finish d] else [] := by
  rw [ending]
  cases p.entries[i + 1]? with
  | none => rfl
  | some next =>
    simp only
    by_cases h : p.announces (i + 1) = true
    · rw [if_pos h]
      rfl
    · rw [if_neg h]
      rfl

theorem eq_of_mem_ending {d : Declaration} {event : Event} (h : event ∈ p.ending d i) :
    (∃ label symbol, event = .step label symbol d) ∨ event = .finish d := by
  unfold ending at h
  split at h
  · split at h
    · exact .inl ⟨_, _, List.mem_singleton.1 h⟩
    · cases h
  · exact .inr (List.mem_singleton.1 h)

theorem isProgress_ending {d : Declaration} {event : Event} (h : event ∈ p.ending d i) :
    event.isProgress = true := by
  rcases eq_of_mem_ending h with ⟨label, symbol, rfl⟩ | rfl <;> rfl

theorem declaration_ending {d : Declaration} {event : Event} (h : event ∈ p.ending d i) :
    event.declaration? = some d := by
  rcases eq_of_mem_ending h with ⟨label, symbol, rfl⟩ | rfl <;> rfl

theorem finishes_drop_entryTrace (k : ℕ) (hk : k < e.ticks) (rest : List (List Event)) :
    finishes ((p.entryTrace d i e).drop k ++ rest) =
      (p.ending d i).filter Event.isFinish ++ finishes rest := by
  -- by induction on the ticks that are left of the entry
  induction hleft : e.ticks - k generalizing k with
  | zero => omega
  | succ left ih =>
    rw [drop_entryTrace d hk, List.cons_append, finishes_cons, tickEvents, List.filter_cons_of_neg
      (by exact Bool.false_ne_true)]
    by_cases hlast : k + 1 = e.ticks
    · rw [if_pos hlast, List.drop_eq_nil_of_le, List.nil_append]
      rw [length_entryTrace]
      omega
    · rw [if_neg hlast, List.filter_nil, List.nil_append, ih (k + 1) (by omega) (by omega)]

theorem finishes_traceFrom (hi : i < p.size) : finishes (p.traceFrom d i) = [.finish d] := by
  induction hleft : p.size - i generalizing i with
  | zero => omega
  | succ left ih =>
    have he : p.entries[i]? = some p.entries[i] := Array.getElem?_eq_getElem hi
    have hticks : 0 < (p.entries[i]).ticks := Entry.ticks_pos _
    have h := finishes_drop_entryTrace (p := p) d (i := i) 0 hticks (p.traceFrom d (i + 1))
    rw [List.drop_zero] at h
    rw [traceFrom_of_entry d he, h, filter_ending]
    by_cases hlast : p.entries[i + 1]? = none
    · rw [if_pos hlast, traceFrom_of_none d hlast]
      rfl
    · rw [if_neg hlast, List.nil_append]
      have hlt : i + 1 < p.size := by
        rw [Array.getElem?_eq_none_iff] at hlast
        exact Nat.lt_of_not_le hlast
      exact ih hlt (by omega)

/-- **A trace has exactly one end.** -/
theorem finishes_trace (hp : p.size ≠ 0) : finishes (p.trace d) = [.finish d] := by
  rw [← traceFrom_zero]
  exact finishes_traceFrom d (Nat.pos_of_ne_zero hp)

end Plan

end TaskTimer
