import TaskTimer.Proofs.Session.Invariant

/-!
# Runs of a session

Where a sequence of inputs leads, and what becomes known on the way.

* `Session.after`, `Session.reports`: the session at the end, and all that is reported.
* `Session.after_append`: a run cut in two.
* `Session.mem_run_iff`: a transition of a run is the step of one of its inputs.
* `Reachable.after`, `Reachable.exists_after`: the sessions that can be reached are those that runs of
  inputs from texts lead to.
-/

namespace TaskTimer

namespace Session

/-- The session after a sequence of inputs. -/
def after : Session → List Input → Session
  | s, [] => s
  | s, i :: is => after (s.step i).session is

/-- What a sequence of inputs reports, in order. -/
def reports (s : Session) (is : List Input) : List Event := (s.run is).flatMap (·.events)

variable (s : Session) (is : List Input)

@[simp] theorem after_nil : s.after [] = s := rfl

@[simp] theorem after_cons (i : Input) : s.after (i :: is) = (s.step i).session.after is := rfl

@[simp] theorem reports_nil : s.reports [] = [] := rfl

@[simp] theorem reports_cons (i : Input) :
    s.reports (i :: is) = (s.step i).events ++ (s.step i).session.reports is := by
  unfold reports
  rw [run, List.flatMap_cons]

theorem after_append (js : List Input) : s.after (is ++ js) = (s.after is).after js := by
  induction is generalizing s with
  | nil => rfl
  | cons i is ih => exact ih _

theorem mem_run_iff {t : Transition} : t ∈ s.run is ↔
    ∃ before i behind, is = before ++ i :: behind ∧ t = (s.after before).step i := by
  induction is generalizing s with
  | nil => simp [run]
  | cons j js ih =>
    rw [run, List.mem_cons, ih]
    constructor
    · rintro (rfl | ⟨before, i, behind, rfl, rfl⟩)
      · exact ⟨[], j, js, rfl, rfl⟩
      · exact ⟨j :: before, i, behind, rfl, rfl⟩
    · rintro ⟨before, i, behind, hjs, rfl⟩
      cases before with
      | nil =>
        cases hjs
        exact .inl rfl
      | cons j' before =>
        cases hjs
        exact .inr ⟨before, i, behind, rfl, rfl⟩

variable {s is}

theorem Reachable.after {cap : UInt32} (h : Reachable cap s) (fed : ∀ i ∈ is, i.IsFed) :
    Reachable cap (s.after is) := by
  induction is generalizing s with
  | nil => exact h
  | cons i is ih =>
    rw [List.forall_mem_cons] at fed
    exact ih (.step h fed.1) fed.2

theorem Reachable.exists_after {cap : UInt32} (h : Reachable cap s) :
    ∃ is : List Input, (∀ i ∈ is, i.IsFed) ∧ s = (Session.new cap).after is := by
  induction h with
  | new => exact ⟨[], List.forall_mem_nil _, rfl⟩
  | @step s i h fed ih =>
    obtain ⟨is, fedBefore, rfl⟩ := ih
    refine ⟨is ++ [i], ?_, ((Session.new cap).after_append is [i]).symm⟩
    exact List.forall_mem_append.2 ⟨fedBefore, List.forall_mem_singleton.2 fed⟩

end Session

end TaskTimer
