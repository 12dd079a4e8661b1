import TaskTimer.Proofs.Session.Alarm

/-!
# Keeping time

Time passes in pieces of any length, and a timer is paused, resumed and looked up in between. None
of that moves the instants of its ticks: they stay whole periods apart, counted from its start.

* `Service.elapse_add`: time may be cut in pieces.
* `Service.elapse_one_due`, `Service.elapse_one_quiet`: a millisecond, with and without a tick.
* `isDue`, `Service.counted`: the instants of the ticks, and how many of them count.
* `Activity.ofEvents`: what is heard and broadcast of some events.
* `Service.InTime`: a service that ticks in time, beside a timer that is left alone.
* `Service.Goes`: a service goes on in time.
* **`Service.ticks_keep_time`**: what is heard until an instant is the trace of the plan, cut off
  behind as many ticks as instants were reached while the timer ran.
-/

namespace TaskTimer

/-! ## Time in pieces -/

namespace Service

variable {α : Type} {cap : UInt32} {tickMs : ℕ} {s : Service α}

theorem Passes.unique {deadline : ℕ} {s' s'' : Service α} {activity activity' : Activity α}
    (h : Passes deadline s s' activity) (h' : Passes deadline s s'' activity') :
    s' = s'' ∧ activity = activity' := by
  induction h generalizing s'' activity' with
  | rest quiet =>
    cases h' with
    | rest => exact ⟨rfl, rfl⟩
    | fire armed due => exact absurd (quiet _ armed) (Nat.not_lt.2 due)
  | fire armed due _ ih =>
    cases h' with
    | rest quiet => exact absurd (quiet _ armed) (Nat.not_lt.2 due)
    | fire armed' _ h' =>
      cases armed.symm.trans armed'
      obtain ⟨rfl, rfl⟩ := ih h'
      exact ⟨rfl, rfl⟩

theorem Passes.append {deadline later : ℕ} {s' s'' : Service α} {activity activity' : Activity α}
    (h : Passes deadline s s' activity) (hle : deadline ≤ later)
    (h' : Passes later s' s'' activity') : Passes later s s'' (activity ++ activity') := by
  induction h with
  | rest => exact h'
  | fire armed due _ ih =>
    rw [Activity.append_assoc]
    exact .fire armed (due.trans hle) (ih h')

/-- The ticks of a time do not depend on where the clock stands. -/
theorem Passes.setNow {deadline : ℕ} {s' : Service α} {activity : Activity α}
    (h : Passes deadline s s' activity) (now : ℕ) :
    ∃ s'', Passes deadline { s with now := now } s'' activity ∧
      ∀ now', { s'' with now := now' } = { s' with now := now' } := by
  cases h with
  | rest quiet => exact ⟨_, .rest quiet, fun _ => rfl⟩
  | fire armed due h => exact ⟨_, .fire armed due h, fun _ => rfl⟩

namespace Invariant

variable (inv : s.Invariant cap tickMs)

include inv

theorem elapse_of_passes {ms : ℕ} {s' : Service α} {activity : Activity α}
    (h : Passes (s.now + ms) s s' activity) :
    s.elapse ms = ({ s' with now := s.now + ms }, activity) := by
  obtain ⟨s'', activity', h', helapse⟩ := passes_elapse inv.alive inv.period_pos inv.ahead ms
  obtain ⟨rfl, rfl⟩ := h.unique h'
  exact helapse

/-- **Time may be cut in pieces.** -/
theorem elapse_add (a b : ℕ) : s.elapse (a + b) =
    (((s.elapse a).1.elapse b).1, (s.elapse a).2 ++ ((s.elapse a).1.elapse b).2) := by
  obtain ⟨s₁, activity₁, h₁, helapse₁⟩ := passes_elapse inv.alive inv.period_pos inv.ahead a
  have inv₁ := inv.elapse a
  rw [helapse₁] at inv₁ ⊢
  obtain ⟨s₂, activity₂, h₂, helapse₂⟩ := passes_elapse inv₁.alive inv₁.period_pos inv₁.ahead b
  obtain ⟨s₂', h₂', hnow⟩ := h₂.setNow s₁.now
  simp only [helapse₂]
  rw [← hnow, Nat.add_assoc]
  refine inv.elapse_of_passes (h₁.append (Nat.add_le_add_left (Nat.le_add_right a b) _) ?_)
  rw [← Nat.add_assoc]
  exact h₂'

theorem elapse_zero : s.elapse 0 = (s, {}) :=
  inv.elapse_of_passes (.rest inv.ahead)

theorem elapse_one_quiet (quiet : ∀ alarm, s.alarm = some alarm → s.now + 1 < alarm.due) :
    s.elapse 1 = ({ s with now := s.now + 1 }, {}) :=
  inv.elapse_of_passes (.rest quiet)

theorem elapse_one_due {alarm : Alarm} (armed : s.alarm = some alarm)
    (due : alarm.due = s.now + 1) : s.elapse 1 = s.fire alarm := by
  have quiet : ∀ next, (s.fire alarm).1.alarm = some next → s.now + 1 < next.due := by
    intro next hnext
    rw [alarm_fire hnext]
    have hperiod := inv.period_pos
    simp only
    omega
  rw [inv.elapse_of_passes (.fire armed (Nat.le_of_eq due) (.rest quiet)), Activity.append_empty,
    ← due]
  rfl

theorem now_elapse (ms : ℕ) : (s.elapse ms).1.now = s.now + ms := by
  obtain ⟨s', activity, -, helapse⟩ := passes_elapse inv.alive inv.period_pos inv.ahead ms
  rw [helapse]

theorem period_elapse (ms : ℕ) : (s.elapse ms).1.period = s.period := by
  rw [inv.period, (inv.elapse ms).period]

end Invariant

end Service

/-! ## The instants of the ticks -/

/-- The instant lies behind `start`, by a whole number of periods. -/
def isDue (start period instant : ℕ) : Bool := start < instant && (instant - start) % period == 0

theorem isDue_iff {start period instant : ℕ} (hperiod : 0 < period) :
    isDue start period instant = true ↔ ∃ k, 1 ≤ k ∧ instant = start + k * period := by
  rw [isDue, Bool.and_eq_true, decide_eq_true_eq, beq_iff_eq]
  constructor
  · rintro ⟨hlt, hmod⟩
    obtain ⟨k, hk⟩ := Nat.dvd_of_mod_eq_zero hmod
    have hpos : 0 < period * k := by omega
    refine ⟨k, Nat.pos_of_mul_pos_left hpos, ?_⟩
    rw [Nat.mul_comm, ← hk]
    omega
  · rintro ⟨k, hk, rfl⟩
    have hpos : 0 < k * period := Nat.mul_pos hk hperiod
    exact ⟨by omega, by rw [Nat.add_sub_cancel_left, Nat.mul_mod_left]⟩

theorem isDue_add {start period instant : ℕ} (h : isDue start period instant = true) :
    isDue start period (instant + period) = true := by
  rw [isDue, Bool.and_eq_true, decide_eq_true_eq, beq_iff_eq] at h ⊢
  obtain ⟨hlt, hmod⟩ := h
  rw [show instant + period - start = instant - start + period by omega, Nat.add_mod_right]
  exact ⟨by omega, hmod⟩

theorem not_isDue_between {start period instant due : ℕ} (h : isDue start period due = true)
    (hlt : instant < due) (hnear : due < instant + period) :
    isDue start period instant = false := by
  refine Bool.eq_false_iff.2 fun h' => ?_
  rw [isDue, Bool.and_eq_true, decide_eq_true_eq, beq_iff_eq] at h h'
  have hdvd : period ∣ due - instant := by
    rw [show due - instant = due - start - (instant - start) by omega]
    exact Nat.dvd_sub (Nat.dvd_of_mod_eq_zero h.2) (Nat.dvd_of_mod_eq_zero h'.2)
  have hle := Nat.le_of_dvd (by omega) hdvd
  omega

namespace Service

variable {α : Type}

/-- How many instants that are due after `start` the clock reaches within `ms` milliseconds while
the timer runs. -/
def reached (start : ℕ) (s : Service α) (ms : ℕ) : ℕ :=
  (List.range ms).countP fun k =>
    isDue start s.period (s.now + k + 1) && (s.elapse k).1.snapshot.phase == .running

/-- How many instants that are due after `start` the clock reaches during an occurrence while the
timer runs. -/
def reachedIn (start : ℕ) (s : Service α) : Occurrence α → ℕ
  | .elapse ms => s.reached start ms
  | .evaluate .. | .stop | .retry | .view | .tick => 0

/-- How many instants that are due after `start` the clock reaches during some occurrences while
the timer runs. -/
def counted (start : ℕ) : Service α → List (Occurrence α) → ℕ
  | _, [] => 0
  | s, o :: os => s.reachedIn start o + (s.step o).1.counted start os

/-- All that happens during some occurrences. -/
def activity : Service α → List (Occurrence α) → Activity α
  | _, [] => {}
  | s, o :: os => (s.step o).2 ++ (s.step o).1.activity os

end Service

/-- The occurrence does not disturb the timer that `d` declares: time passes, the service is looked
at, or the document is found to declare the timer still, with or without hyphen. -/
inductive Occurrence.Spares {α : Type} (d : Declaration) : Occurrence α → Prop
  | elapse (ms : ℕ) : Spares d (.elapse ms)
  | view : Spares d .view
  | found {text : String} {d' : Declaration} (caller : Handlers α)
      (declares : scan text d.document = some d') (same : d.sameContent d' = true) :
      Spares d (.evaluate text d.document caller)

/-! ## What is heard -/

/-- What is heard and broadcast of some events. -/
def Activity.ofEvents {α : Type} (h : Handlers α) (broadcasts : Bool) (events : List Event) :
    Activity α where
  reactions := events.filterMap h.react
  notices := if broadcasts then events.filterMap Notice.ofEvent? else []

namespace Activity

variable {α : Type} (h : Handlers α) (broadcasts : Bool)

theorem ofEvents_nil : ofEvents h broadcasts [] = {} := by
  cases broadcasts <;> rfl

theorem ofEvents_append (xs ys : List Event) :
    ofEvents h broadcasts (xs ++ ys) = ofEvents h broadcasts xs ++ ofEvents h broadcasts ys := by
  unfold ofEvents
  rw [List.filterMap_append, List.filterMap_append]
  cases broadcasts <;> rfl

end Activity

namespace Session

theorem beats_add (m n : ℕ) (s : Session) :
    s.beats (m + n) = s.beats m ++ (s.afterBeats m).beats n := by
  induction m generalizing s with
  | zero => rw [Nat.zero_add]; rfl
  | succ m ih => rw [Nat.succ_add, beats, ih]; rfl

theorem afterBeats_add (m n : ℕ) (s : Session) :
    s.afterBeats (m + n) = (s.afterBeats m).afterBeats n := by
  induction m generalizing s with
  | zero => rw [Nat.zero_add]; rfl
  | succ m ih => rw [Nat.succ_add, afterBeats, ih]; rfl

/-! ## Starts and later scans -/

variable {s : Session} {t : Transition} {c d : Declaration} {document : String}

theorem Move.found_same (h : s.Move (.evaluate (some d) document) t)
    (held : s.declaration = some c) (same : c.sameContent d = true) :
    t.events = [.start d] ∨ t.events = [] ∧ t.order = .keep ∧ t.adopted = false := by
  have keeps : ¬ s.GivesWay d := by
    intro free
    cases same.symm.trans (free c held).1
  cases h with
  | unchanged | pause | resume | note | ignore => exact .inr ⟨rfl, rfl, rfl⟩
  | firstStart => exact .inl rfl
  | drop free | take free | launch free => exact absurd free keeps

/-- **A scan that starts a timer starts it from the beginning.** -/
theorem Move.starts {cap : UInt32} {scanned : Option Declaration} (inv : s.Invariant cap)
    (h : s.Move (.evaluate scanned document) t) (fed : (Input.evaluate scanned document).IsFed)
    (starts : .start d ∈ t.events) :
    t.adopted = true ∧ t.order = .arm t.session.generation ∧ t.session.phase = .running ∧
      t.session.declaration = some d ∧
      t.session.traceLeft = (Plan.layout cap d.nodes).trace d := by
  have noStart : Event.start d ∉ s.cancellation := by
    unfold cancellation
    split <;> simp
  cases h with
  | unchanged | pause | resume | note | ignore | stillMissing | elsewhere => cases starts
  | drop | take => exact absurd starts noStart
  | nothing | remove => cases List.mem_singleton.1 starts
  | @firstStart c d' document held same before after paused waiting =>
    cases List.mem_singleton.1 starts
    obtain ⟨hlatest, hplan⟩ := inv.held c held
    obtain ⟨hc, hsize⟩ := inv.latest c hlatest
    rw [hc.nodes_eq fed.isScanned same] at hplan hsize
    obtain ⟨hposition, hremaining⟩ := inv.waiting paused waiting
    obtain ⟨e, he⟩ := Plan.exists_first hsize
    have hfirst : s.remaining = e.seconds := hremaining e (by rw [hplan, he])
    have hleft : s.plan.traceAt d s.position s.remaining.toNat =
        (Plan.layout cap d.nodes).trace d := by
      rw [hplan, hposition, hfirst, Plan.traceAt_start d he, Plan.traceFrom_zero]
    exact ⟨rfl, rfl, rfl, rfl, hleft⟩
  | @launch d' document free plan hyphen =>
    have hd : d = d' := by
      rcases List.mem_append.1 starts with h | h
      · exact absurd h noStart
      · cases List.mem_singleton.1 h
        rfl
    subst hd
    refine ⟨rfl, rfl, (s.phase_load_running d).2 hyphen, rfl, ?_⟩
    rw [← inv.loopCap]
    exact traceLeft_load hyphen plan

theorem flatMap_events_beats {cap : UInt32} (inv : s.Invariant cap) (n : ℕ) :
    (s.beats n).flatMap (·.events) = (s.traceLeft.take n).flatten := by
  rw [List.flatMap_def, events_beats inv, List.flatten_append, List.flatten_replicate_nil,
    List.append_nil]

end Session

/-! ## A service in time -/

namespace Service

open Session (Mirrors)

variable {α : Type}

theorem apply_own (s : Service α) (t : Transition) :
    s.apply (s.dispatcher.apply t none) =
      ({ s with
          dispatcher := { s.dispatcher with session := t.session }
          alarm := s.reset t.order },
        .ofEvents s.dispatcher.bound s.dispatcher.broadcasts t.events) := by
  have hbound : (if t.adopted then (none : Option (Handlers α)).getD s.dispatcher.bound
      else s.dispatcher.bound) = s.dispatcher.bound := ite_self _
  have hreceiver : ∀ event, s.dispatcher.receiver none event = s.dispatcher.bound :=
    fun event => ite_self _
  simp only [apply, Dispatcher.apply, Dispatch.reactions, Activity.ofEvents, hbound, hreceiver,
    List.filterMap_map, Function.comp_def]

theorem apply_quiet (s : Service α) {t : Transition} (caller? : Option (Handlers α))
    (events : t.events = []) (adopted : t.adopted = false) :
    s.apply (s.dispatcher.apply t caller?) =
      ({ s with
          dispatcher := { s.dispatcher with session := t.session }
          alarm := s.reset t.order },
        {}) := by
  simp only [apply, Dispatcher.apply, Dispatch.reactions, events, adopted, List.map_nil,
    List.filterMap_nil, ite_self, Bool.false_eq_true, if_false]

/-- The service is as far with the timer of `d`, whose progress `caller` hears, as the session `a`,
which is left alone, and all its ticks lie whole periods after `start`. -/
structure InTime (start : ℕ) (caller : Handlers α) (d : Declaration) (a : Session)
    (s : Service α) : Prop where
  mirrors : Mirrors d a s.dispatcher.session
  bound : s.dispatcher.bound = caller
  due : ∀ alarm, s.alarm = some alarm → isDue start s.period alarm.due = true

/-- The service `s` goes on as `r` says, in time with `n` ticks of the session `a`, and what is
heard is what these ticks report. -/
structure Goes (start : ℕ) (caller : Handlers α) (d : Declaration) (n : ℕ) (a : Session)
    (s : Service α) (r : Service α × Activity α) : Prop where
  inTime : InTime start caller d (a.afterBeats n) r.1
  broadcasts : r.1.dispatcher.broadcasts = s.dispatcher.broadcasts
  room : n ≤ a.traceLeft.length
  heard : ∃ events, r.2 = .ofEvents caller s.dispatcher.broadcasts events ∧
    events.map Event.unplaced = ((a.beats n).flatMap (·.events)).map Event.unplaced

variable {start : ℕ} {caller : Handlers α} {d : Declaration} {a : Session} {s : Service α}

theorem Goes.still {s' : Service α} (inTime : InTime start caller d a s')
    (broadcasts : s'.dispatcher.broadcasts = s.dispatcher.broadcasts) :
    Goes start caller d 0 a s (s', {}) where
  inTime := inTime
  broadcasts := broadcasts
  room := Nat.zero_le _
  heard := ⟨[], (Activity.ofEvents_nil ..).symm, rfl⟩

theorem Goes.trans {cap : UInt32} {m n : ℕ} {r r' : Service α × Activity α}
    (inva : a.Invariant cap) (h : Goes start caller d m a s r)
    (h' : Goes start caller d n (a.afterBeats m) r.1 r') :
    Goes start caller d (m + n) a s (r'.1, r.2 ++ r'.2) where
  inTime := by
    rw [Session.afterBeats_add]
    exact h'.inTime
  broadcasts := h'.broadcasts.trans h.broadcasts
  room := by
    have hroom := h'.room
    rw [Session.traceLeft_afterBeats inva, List.length_drop] at hroom
    have := h.room
    omega
  heard := by
    obtain ⟨events, hr, hevents⟩ := h.heard
    obtain ⟨events', hr', hevents'⟩ := h'.heard
    refine ⟨events ++ events', ?_, ?_⟩
    · rw [Activity.ofEvents_append, hr, hr', h.broadcasts]
    · rw [List.map_append, hevents, hevents', Session.beats_add, List.flatMap_append,
        List.map_append]

namespace InTime

variable {cap : UInt32} {tickMs : ℕ} (h : InTime start caller d a s)
  (inv : s.Invariant cap tickMs) (inva : a.Invariant cap)

include h inv

/-! ## A millisecond -/

theorem elapse_one_quiet (quiet : ∀ alarm, s.alarm = some alarm → s.now + 1 < alarm.due) :
    Goes start caller d 0 a s (s.elapse 1) := by
  rw [inv.elapse_one_quiet quiet]
  exact .still ⟨h.mirrors, h.bound, h.due⟩ rfl

theorem elapse_one_due {alarm : Alarm} (armed : s.alarm = some alarm)
    (due : alarm.due = s.now + 1) {n : ℕ} (room : n ≤ a.traceLeft.length)
    (mirrors : Mirrors d (a.afterBeats n)
      (s.dispatcher.session.tick alarm.generation).session)
    (events : (s.dispatcher.session.tick alarm.generation).events.map Event.unplaced =
      ((a.beats n).flatMap (·.events)).map Event.unplaced) :
    Goes start caller d n a s (s.elapse 1) := by
  have hnext : ∀ next, (s.fire alarm).1.alarm = some next →
      isDue start s.period next.due = true := by
    intro next hnext
    rw [alarm_fire hnext]
    exact isDue_add (h.due alarm armed)
  rw [inv.elapse_one_due armed due]
  have hfire := apply_own { s with
    now := alarm.due
    alarm := some { alarm with due := alarm.due + s.period } }
    (s.dispatcher.session.tick alarm.generation)
  change s.fire alarm = _ at hfire
  rw [hfire] at hnext ⊢
  exact ⟨⟨mirrors, h.bound, hnext⟩, rfl, room, ⟨_, by rw [← h.bound], events⟩⟩

include inva

/-- **A millisecond passes in time.** -/
theorem elapse_one :
    Goes start caller d
      (if isDue start s.period (s.now + 1) && s.snapshot.phase == .running then 1 else 0) a s
      (s.elapse 1) := by
  by_cases quiet : ∀ alarm, s.alarm = some alarm → s.now + 1 < alarm.due
  · -- the next tick is less than a period away, so that no other one could be due
    have hcount : ¬ (isDue start s.period (s.now + 1) && s.snapshot.phase == .running) = true := by
      rw [Bool.and_eq_true, beq_iff_eq, not_and]
      intro hdue running
      have hsource := inv.source
      rw [Session.ticking?, if_pos (.inl running), Option.map_eq_some_iff] at hsource
      obtain ⟨alarm, armed, -⟩ := hsource
      have hnear := inv.near alarm armed
      have hnot := not_isDue_between (h.due alarm armed) (quiet alarm armed) (by omega)
      cases hdue.symm.trans hnot
    rw [if_neg hcount]
    exact h.elapse_one_quiet inv quiet
  · -- a tick is due at this very instant, and counts if the timer runs
    simp only [not_forall, Nat.not_lt] at quiet
    obtain ⟨alarm, armed, hle⟩ := quiet
    have due : alarm.due = s.now + 1 := Nat.le_antisymm hle (inv.ahead alarm armed)
    have hdue : isDue start s.period (s.now + 1) = true := by
      rw [← due]
      exact h.due alarm armed
    by_cases running : s.dispatcher.session.phase = .running
    · have hcount : (isDue start s.period (s.now + 1) && s.snapshot.phase == .running) = true := by
        rw [hdue, Bool.true_and, beq_iff_eq]
        exact running
      have hleft := Session.tick_traceLeft inva (h.mirrors.phase_running running)
      obtain ⟨hevents, hmirrors⟩ := h.mirrors.beat inva inv.session.invariant running
      rw [if_pos hcount]
      refine h.elapse_one_due inv armed due ?_ ?_ ?_
      · rw [hleft]
        exact Nat.succ_le_succ (Nat.zero_le _)
      · rw [inv.generation armed]
        exact hmirrors
      · rw [inv.generation armed, hevents, Session.beats, List.flatMap_cons, Session.beats,
          List.flatMap_nil, List.append_nil]
    · have hcount :
          ¬ (isDue start s.period (s.now + 1) && s.snapshot.phase == .running) = true := by
        rw [Bool.and_eq_true, beq_iff_eq, not_and]
        exact fun _ => running
      rw [if_neg hcount]
      refine h.elapse_one_due inv armed due (Nat.zero_le _) ?_ ?_
      · rw [Session.tick_not_running running]
        exact h.mirrors
      · rw [Session.tick_not_running running]
        rfl

/-! ## Any time, and scans in between -/

/-- **Any time passes in time.** -/
theorem elapse (ms : ℕ) : Goes start caller d (s.reached start ms) a s (s.elapse ms) := by
  induction ms with
  | zero =>
    rw [inv.elapse_zero]
    exact .still h rfl
  | succ ms ih =>
    have hstep := ih.inTime.elapse_one (inv.elapse ms) (Session.invariant_afterBeats inva _)
    rw [inv.period_elapse, inv.now_elapse] at hstep
    have hreached : s.reached start (ms + 1) = s.reached start ms +
        if isDue start s.period (s.now + ms + 1) && (s.elapse ms).1.snapshot.phase == .running
        then 1 else 0 := by
      rw [reached, List.range_succ, List.countP_append, List.countP_singleton, reached]
    rw [hreached, inv.elapse_add]
    exact ih.trans inva hstep

omit inva

theorem found {text : String} {d' : Declaration} (caller' : Handlers α)
    (declares : scan text d.document = some d') (same : d.sameContent d' = true) :
    Goes start caller d 0 a s (s.step (.evaluate text d.document caller')) := by
  have move := s.dispatcher.session.move_step (.evaluate (some d') d.document)
  obtain ⟨events, mirrors⟩ := h.mirrors.found move same
  obtain ⟨c, held, hc⟩ := h.mirrors.same
  have hquiet : (s.dispatcher.session.step (.evaluate (some d') d.document)).order = .keep ∧
      (s.dispatcher.session.step (.evaluate (some d') d.document)).adopted = false := by
    have hsame := Declaration.sameContent_trans (Declaration.sameContent_symm hc) same
    rcases move.found_same held hsame with start | ⟨-, quiet⟩
    · cases events.symm.trans start
    · exact quiet
  rw [inv.step_evaluate, Dispatcher.evaluate, declares]
  change Goes start caller d 0 a s (s.apply (s.dispatcher.apply
    (s.dispatcher.session.step (.evaluate (some d') d.document)) (some caller')))
  rw [apply_quiet s (some caller') events hquiet.2, hquiet.1]
  exact .still ⟨mirrors, h.bound, h.due⟩ rfl

include inva

theorem step {o : Occurrence α} (spares : o.Spares d) :
    Goes start caller d (s.reachedIn start o) a s (s.step o) := by
  cases spares with
  | elapse ms => exact h.elapse inv inva ms
  | view =>
    rw [inv.step_view]
    exact .still h rfl
  | found caller' declares same => exact h.found inv caller' declares same

/-- **Whatever spares the timer goes on in time.** -/
theorem after {os : List (Occurrence α)} (spared : ∀ o ∈ os, o.Spares d) :
    Goes start caller d (s.counted start os) a s (s.after os, s.activity os) := by
  induction os generalizing a s with
  | nil => exact .still h rfl
  | cons o os ih =>
    rw [List.forall_mem_cons] at spared
    have hstep := h.step inv inva spared.1
    exact hstep.trans inva
      (ih hstep.inTime (inv.step o) (Session.invariant_afterBeats inva _) spared.2)

end InTime

/-! ## From the start on -/

theorem inTime_of_starts {cap : UInt32} {tickMs : ℕ} (inv : s.Invariant cap tickMs)
    {text document : String}
    (starts : (caller, .start d) ∈ (s.dispatcher.evaluate text document caller).deliveries) :
    let s' := (s.step (.evaluate text document caller)).1
    InTime s.now caller d s'.dispatcher.session s' ∧
      s'.dispatcher.session.traceLeft = (Plan.layout cap d.nodes).trace d := by
  intro s'
  have inv' : s'.Invariant cap tickMs := inv.step _
  obtain ⟨event, hevent, heq⟩ := List.mem_map.1 starts
  obtain ⟨-, rfl⟩ := Prod.mk.inj heq
  have move := s.dispatcher.session.move_step (.evaluate (scan text document) document)
  obtain ⟨adopted, order, running, held, hleft⟩ :=
    move.starts inv.session.invariant (.evaluate text document) hevent
  have hs' : s' = (s.apply (s.dispatcher.evaluate text document caller)).1 :=
    congrArg Prod.fst (inv.step_evaluate text document caller)
  have hsession : s'.dispatcher.session =
      (s.dispatcher.session.step (.evaluate (scan text document) document)).session := by
    rw [hs']
    rfl
  refine ⟨⟨?_, ?_, fun alarm armed => ?_⟩, hsession ▸ hleft⟩
  · exact .refl inv'.session.invariant (hsession ▸ running) (hsession ▸ held)
  · rw [hs']
    exact if_pos adopted
  · have harm : s'.alarm = s.reset
        (s.dispatcher.session.step (.evaluate (scan text document) document)).order := by
      rw [hs']
      rfl
    rw [harm, order] at armed
    cases armed
    rw [inv'.period, ← inv.period, isDue_iff inv.period_pos]
    exact ⟨1, Nat.le_refl 1, by rw [Nat.one_mul]⟩

/-- **Ticks keep time.** Whatever spares the timer, it reports the first `n` ticks of its plan,
where `n` counts the instants that lie whole periods after the start and were reached while it ran.
-/
theorem ticks_keep_time {cap : UInt32} {tickMs : ℕ} {text document : String}
    (h : s.Reachable cap tickMs)
    (starts : (caller, .start d) ∈ (s.dispatcher.evaluate text document caller).deliveries)
    {os : List (Occurrence α)} (spared : ∀ o ∈ os, o.Spares d) :
    let started := (s.step (.evaluate text document caller)).1
    let later := started.after os
    let n := started.counted s.now os
    let period := max tickMs 1
    let p := Plan.layout cap d.nodes
    (∀ r ∈ (s.dispatcher.evaluate text document caller).deliveries, r.2.isProgress = false) ∧
      (∃ events, started.activity os = .ofEvents caller s.dispatcher.broadcasts events ∧
        events.map Event.unplaced = ((p.trace d).take n).flatten.map Event.unplaced) ∧
      n ≤ (p.entries.toList.map Entry.ticks).sum ∧
      (∀ alarm, later.alarm = some alarm → later.now < alarm.due ∧
        alarm.due ≤ later.now + period ∧ ∃ k, 1 ≤ k ∧ alarm.due = s.now + k * period) ∧
      ∀ a b, later.elapse (a + b) =
        (((later.elapse a).1.elapse b).1, (later.elapse a).2 ++ ((later.elapse a).1.elapse b).2) := by
  intro started later n period p
  have inv : started.Invariant cap tickMs := h.invariant.step _
  obtain ⟨inTime, hleft⟩ := inTime_of_starts h.invariant starts
  have inva : started.dispatcher.session.Invariant cap := inv.session.invariant
  have hgoes := inTime.after inv inva spared
  have inv' : later.Invariant cap tickMs := ((Reachable.step h _).after os).invariant
  refine ⟨fun r hr => ?_, ?_, ?_, fun alarm armed => ?_, inv'.elapse_add⟩
  · obtain ⟨event, hevent, rfl⟩ := List.mem_map.1 hr
    have move := s.dispatcher.session.move_step (.evaluate (scan text document) document)
    refine Bool.eq_false_iff.2 fun progress => ?_
    obtain ⟨-, generation, htick⟩ := move.progress hevent progress
    cases htick
  · obtain ⟨events, hactivity, hevents⟩ := hgoes.heard
    have hbroadcasts : started.dispatcher.broadcasts = s.dispatcher.broadcasts :=
      congrArg (·.1.dispatcher.broadcasts) (h.invariant.step_evaluate text document caller)
    rw [← hbroadcasts]
    refine ⟨events, hactivity, hevents.trans ?_⟩
    rw [Session.flatMap_events_beats inva, hleft]
  · rw [← Plan.length_trace d, ← hleft]
    exact hgoes.room
  · have hdue := hgoes.inTime.due alarm armed
    rw [isDue_iff inv'.period_pos, inv'.period] at hdue
    have hnear := inv'.near alarm armed
    rw [inv'.period] at hnear
    exact ⟨inv'.ahead alarm armed, hnear, hdue⟩

/-- A pause takes the instants 20 and 30, and the timer of three ticks ends at 50. -/
theorem ticks_keep_time_over_a_pause :
    let recorder : Handlers Event :=
      { start := some .start, interval := some .interval, step := some .step,
        finish := some .finish, cancel := some .cancel }
    let d : Declaration := ⟨"doc", 0, 0, false, "3s", [.leaf 3 none], "tea"⟩
    let waiting := (Service.new 99 false 10).after [.evaluate "[-3s] tea" "doc" recorder]
    let started := (waiting.step (.evaluate "[3s] tea" "doc" recorder)).1
    let os : List (Occurrence Event) :=
      [.elapse 15, .evaluate "[-3s] tea" "doc" {}, .elapse 20, .evaluate "\n[3s] tea" "doc" {},
        .view, .elapse 15]
    started.counted 0 os = 3 ∧ (started.activity os).reactions.map Event.unplaced =
      [.interval 2 3 "" none d, .interval 1 3 "" none d, .interval 0 3 "" none d, .finish d] := by
  intro recorder d waiting started os
  have hnew : (Service.new 99 false 10 : Service Event).Reachable 99 10 := .new false
  have starts : (recorder, .start d) ∈
      (waiting.dispatcher.evaluate "[3s] tea" "doc" recorder).deliveries :=
    List.mem_map.2 ⟨.start d, by decide +kernel, rfl⟩
  have hyphen : scan "[-3s] tea" d.document = some { d with paused := true } := by decide +kernel
  have moved : scan "\n[3s] tea" d.document = some { d with line := 1 } := by decide +kernel
  have pauses : (.evaluate "[-3s] tea" "doc" {} : Occurrence Event).Spares d :=
    .found {} hyphen (by decide +kernel)
  have resumes : (.evaluate "\n[3s] tea" "doc" {} : Occurrence Event).Spares d :=
    .found {} moved (by decide +kernel)
  have spared : ∀ o ∈ os, o.Spares d := by
    simp only [os, List.forall_mem_cons]
    exact ⟨.elapse 15, pauses, .elapse 20, resumes, .view, .elapse 15,
      fun _ h => absurd h List.not_mem_nil⟩
  have hcounted : started.counted 0 os = 3 := by decide +kernel
  obtain ⟨-, ⟨events, hactivity, hevents⟩, -⟩ :=
    ticks_keep_time (hnew.after [.evaluate "[-3s] tea" "doc" recorder]) starts spared
  have hreact : recorder.react = some := by
    funext event
    cases event <;> rfl
  change started.activity os = _ at hactivity
  change _ = (((Plan.layout 99 d.nodes).trace d).take (started.counted 0 os)).flatten.map
    Event.unplaced at hevents
  rw [hcounted] at hevents
  refine ⟨hcounted, ?_⟩
  rw [hactivity, Activity.ofEvents, hreact, List.filterMap_some, hevents]
  decide +kernel

end Service

end TaskTimer
