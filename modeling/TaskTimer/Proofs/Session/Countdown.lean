import TaskTimer.Proofs.Plan.Trace
import TaskTimer.Proofs.Session.Invariant

/-!
# Counting down

A timer that is left alone follows the trace of its plan.

* `Session.beats`, `Session.afterBeats`: a number of ticks, each of the current generation.
* `Session.traceLeft`: the part of the trace that a session has still to go through.
* `Session.tick_traceLeft`: a tick reports the first element of that part and leaves the others.
* `Session.events_beats`, `Session.traceLeft_afterBeats`: so do many ticks.
* **`Session.run_follows_trace`**: a timer that is started afresh follows its trace to the end.
-/

namespace TaskTimer

namespace Session

/-- The transitions of `n` ticks, each of the generation that is current when it comes. -/
def beats : ℕ → Session → List Transition
  | 0, _ => []
  | n + 1, s => s.tick s.generation :: beats n (s.tick s.generation).session

/-- The session after `n` ticks, each of the generation that is current when it comes. -/
def afterBeats : ℕ → Session → Session
  | 0, s => s
  | n + 1, s => afterBeats n (s.tick s.generation).session

/-- The part of the trace of its plan that the session has still to go through. -/
def traceLeft (s : Session) : List (List Event) :=
  match s.phase, s.declaration with
  | .running, some d => s.plan.traceAt d s.position s.remaining.toNat
  | _, _ => []

theorem traceLeft_running {s : Session} {d : Declaration} (running : s.phase = .running)
    (held : s.declaration = some d) :
    s.traceLeft = s.plan.traceAt d s.position s.remaining.toNat := by
  rw [traceLeft, running, held]

theorem traceLeft_not_running {s : Session} (h : s.phase ≠ .running) : s.traceLeft = [] := by
  rw [traceLeft]
  split
  · rename_i running _
    exact absurd running h
  · rfl

/-! ## One tick -/

theorem tick_not_running {s : Session} (h : s.phase ≠ .running) (generation : ℕ) :
    s.tick generation = { session := s } :=
  tick_stale fun _ => h

theorem tick_not_paused {s : Session} (h : s.phase ≠ .paused) (generation : ℕ) :
    (s.tick generation).session.phase ≠ .paused := by
  by_cases running : s.phase = .running
  · generalize ht : s.tick generation = t
    have hmove := s.move_tick generation
    rw [ht] at hmove
    cases hmove with
    | idle | lost | count | advance => exact h
    | finish => exact fun h => nomatch h
  · rwa [tick_not_running running]

theorem toNat_le_one_of_pred {r : Duration} (h : r.pred = 0) : r.toNat ≤ 1 := by
  have h := congrArg UInt64.toNat h
  rw [Duration.toNat_pred] at h
  change r.toNat - 1 = 0 at h
  omega

variable {cap : UInt32} {s : Session} (inv : s.Invariant cap)

include inv

theorem invariant_tick (generation : ℕ) : (s.tick generation).session.Invariant cap :=
  inv.move (s.move_tick generation) (.tick generation)

/-- **A tick takes the first element off the trace and reports it.** -/
theorem tick_traceLeft (running : s.phase = .running) :
    s.traceLeft =
      (s.tick s.generation).events :: (s.tick s.generation).session.traceLeft := by
  obtain ⟨d, e, held, entry, hle, -⟩ := inv.countdown running
  rw [UInt64.le_iff_toNat_le] at hle
  rw [traceLeft_running running held]
  by_cases ended : s.remaining.pred = 0
  · rw [Plan.traceAt_over d entry (toNat_le_one_of_pred ended)]
    cases follows : s.plan.entries[s.position + 1]? with
    | none =>
      rw [tick_finish running held entry ended follows, Plan.traceFrom_of_none d follows, passed,
        ended]
      rfl
    | some next =>
      have hnext := traceLeft_running
        (s := { s with position := s.position + 1, remaining := next.seconds }) running held
      rw [tick_advance running held entry ended follows, ← Plan.traceAt_start d follows, passed,
        ended, hnext]
  · have hmore : 1 < s.remaining.toNat := by
      by_contra hc
      refine ended ?_
      rw [Duration.pred_eq_ofNat, show s.remaining.toNat - 1 = 0 by omega]
      rfl
    have hrest := traceLeft_running (s := { s with remaining := s.remaining.pred }) running held
    rw [tick_count running held entry ended, Plan.traceAt_count d entry hle hmore, hrest, passed,
      Duration.toNat_pred, Duration.pred_eq_ofNat]

/-! ## Many ticks -/

/-- **Many ticks report the trace that is left, and then nothing.** -/
theorem events_beats (n : ℕ) : (s.beats n).map (·.events) =
    s.traceLeft.take n ++ List.replicate (n - s.traceLeft.length) [] := by
  induction n generalizing s with
  | zero => rw [beats, List.map_nil, List.take_zero, Nat.zero_sub]; rfl
  | succ n ih =>
    rw [beats, List.map_cons, ih (invariant_tick inv s.generation)]
    by_cases running : s.phase = .running
    · rw [tick_traceLeft inv running, List.take_succ_cons, List.length_cons, Nat.succ_sub_succ]
      rfl
    · rw [tick_not_running running, traceLeft_not_running running, List.take_nil, List.take_nil]
      rfl

theorem invariant_afterBeats (n : ℕ) : (s.afterBeats n).Invariant cap := by
  induction n generalizing s with
  | zero => exact inv
  | succ n ih => exact ih (invariant_tick inv s.generation)

/-- **Many ticks take as many elements off the trace.** -/
theorem traceLeft_afterBeats (n : ℕ) : (s.afterBeats n).traceLeft = s.traceLeft.drop n := by
  induction n generalizing s with
  | zero => rfl
  | succ n ih =>
    rw [afterBeats, ih (invariant_tick inv s.generation)]
    by_cases running : s.phase = .running
    · rw [tick_traceLeft inv running, List.drop_succ_cons]
    · rw [tick_not_running running, traceLeft_not_running running, List.drop_nil, List.drop_nil]

theorem phase_eq_idle_iff (h : s.phase ≠ .paused) : s.phase = .idle ↔ s.traceLeft = [] := by
  constructor
  · intro hidle
    exact traceLeft_not_running (by rw [hidle]; decide)
  · intro hleft
    cases hphase : s.phase with
    | idle => rfl
    | paused => exact absurd hphase h
    | running =>
      rw [tick_traceLeft inv hphase] at hleft
      cases hleft

omit inv

theorem afterBeats_not_paused {s : Session} (h : s.phase ≠ .paused) (n : ℕ) :
    (s.afterBeats n).phase ≠ .paused := by
  induction n generalizing s with
  | zero => exact h
  | succ n ih => exact ih (tick_not_paused h s.generation)

/-! ## A fresh start -/

theorem evaluate_new {d : Declaration} (document : String) (hpaused : d.paused = false)
    (hplan : (Plan.layout cap d.nodes).size ≠ 0) :
    (Session.new cap).evaluate (some d) document =
      { session := ((Session.new cap).load d).start
        events := [.start d]
        order := .arm 1
        adopted := true } := by
  change (Session.new cap).adopt d = _
  rw [adopt]
  simp only [hpaused]
  exact if_neg hplan

theorem traceLeft_load {d : Declaration} (hpaused : d.paused = false)
    (hplan : (Plan.layout s.loopCap d.nodes).size ≠ 0) :
    (s.load d).start.traceLeft = (Plan.layout s.loopCap d.nodes).trace d := by
  obtain ⟨e, he⟩ := Plan.exists_first hplan
  have hremaining : (s.load d).start.remaining = e.seconds :=
    remaining_install { s with cleared := none, latest := some d } d he
  have running : (s.load d).start.phase = .running := (s.phase_load_running d).2 hpaused
  rw [traceLeft_running running rfl, hremaining]
  exact (Plan.traceAt_start d he).trans (Plan.traceFrom_zero d)

/-- **A timer that is started afresh follows the trace of its plan**, tick by tick up to its end,
and then reports nothing. -/
theorem run_follows_trace {text document : String} {d : Declaration}
    (hscan : scan text document = some d) (hpaused : d.paused = false)
    (hplan : (Plan.layout cap d.nodes).size ≠ 0) (n : ℕ) :
    let t := (Session.new cap).evaluate (scan text document) document
    let p := Plan.layout cap d.nodes
    let total := (p.entries.toList.map Entry.ticks).sum
    t.events = [.start d] ∧
      (t.session.beats n).map (·.events) =
        (p.trace d).take n ++ List.replicate (n - total) [] ∧
      (p.trace d).length = total ∧
      (p.trace d).flatten.filter Event.isFinish = [.finish d] ∧
      ((t.session.afterBeats n).phase = .idle ↔ total ≤ n) := by
  intro t p total
  have ht := evaluate_new document hpaused hplan
  rw [← hscan] at ht
  have hsession : t.session = ((Session.new cap).load d).start := congrArg Transition.session ht
  have inv : t.session.Invariant cap :=
    (Reachable.step .new (.evaluate text document)).invariant
  have hleft : t.session.traceLeft = p.trace d := by
    rw [hsession]
    exact traceLeft_load (s := Session.new cap) hpaused hplan
  have hlength : (p.trace d).length = total := Plan.length_trace d
  have hphase : t.session.phase ≠ .paused := by
    have running : t.session.phase = .running := by
      rw [hsession]
      exact ((Session.new cap).phase_load_running d).2 hpaused
    exact fun h => nomatch running.symm.trans h
  refine ⟨congrArg Transition.events ht, ?_, hlength, Plan.finishes_trace d hplan, ?_⟩
  · rw [events_beats inv, hleft, hlength]
  · rw [phase_eq_idle_iff (invariant_afterBeats inv n) (afterBeats_not_paused hphase n),
      traceLeft_afterBeats inv, hleft, List.drop_eq_nil_iff, hlength]

/-- A countdown of a second, twice, and then one of no seconds. -/
theorem run_follows_trace_twice :
    let d : Declaration :=
      ⟨"doc", 0, 0, false, "(1s)2 0s", [.group [.leaf 1 none] 2, .leaf 0 none], "tea"⟩
    let t := (Session.new 99).evaluate (scan "[(1s)2 0s] tea" "doc") "doc"
    t.events = [.start d] ∧
      (t.session.beats 4).map (·.events) =
        [[.interval 0 1 "1" none d, .step "2" none d], [.interval 0 1 "2" none d],
          [.interval 0 0 "" none d, .finish d], []] ∧
      (t.session.afterBeats 3).phase = .idle := by
  intro d t
  have hscan : scan "[(1s)2 0s] tea" "doc" = some d := by decide +kernel
  have hplan : (Plan.layout 99 d.nodes).size ≠ 0 := by decide +kernel
  obtain ⟨hstart, hbeats, -⟩ := run_follows_trace hscan rfl hplan 4
  obtain ⟨-, -, -, -, hidle⟩ := run_follows_trace hscan rfl hplan 3
  exact ⟨hstart, hbeats.trans (by decide +kernel), hidle.2 (by decide +kernel)⟩

end Session

end TaskTimer
