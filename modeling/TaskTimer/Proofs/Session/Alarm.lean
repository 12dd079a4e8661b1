import TaskTimer.Proofs.Session.Delivery
import TaskTimer.Proofs.Session.Generation
import TaskTimer.Session.Service

/-!
# The source of ticks

A service knows nothing of its session but the orders to the source of ticks. They are enough: the
source ticks exactly while the session needs ticks, and for the run that needs them.

* `Session.ticking?`, `TickOrder.follow`: the ticks that a session needs, and what an order makes of
  the source.
* `Session.Move.ticking?`: every move orders what the session then needs.
* `Occurrence`, `Service.step`, `Service.Reachable`: what happens to a service, and where it leads.
* `Service.Course`: what one occurrence can do.
* `Service.Passes`: the ticks that happen while time passes.
* `Service.Invariant`: the source of ticks, the session and the clock fit together.
* **`Service.source_follows_session`**: so a timer that runs has its ticks, and no other has them.
-/

namespace TaskTimer

/-! ## Orders -/

/-- The generation that the source ticks for after an order, if it ticked for `armed` before. -/
def TickOrder.follow (armed : Option ℕ) : TickOrder → Option ℕ
  | .keep => armed
  | .arm generation => some generation
  | .disarm => none

namespace Session

/-- The generation that a session needs ticks for: its timer runs, or is paused on its way. -/
def ticking? (s : Session) : Option ℕ :=
  if s.phase = .running ∨ s.phase = .paused ∧ s.started = true then some s.generation else none

variable {cap : UInt32} {s : Session} {i : Input} {t : Transition}

theorem ticking?_of_started (active : s.phase ≠ .idle) (started : s.started = true) :
    s.ticking? = some s.generation := by
  refine if_pos ?_
  cases hphase : s.phase with
  | idle => exact absurd hphase active
  | running => exact .inl rfl
  | paused => exact .inr ⟨rfl, started⟩

theorem ticking?_of_idle (idle : s.phase = .idle) : s.ticking? = none := by
  refine if_neg ?_
  rw [idle]
  rintro (h | ⟨h, -⟩) <;> cases h

theorem ticking?_of_waiting (waiting : s.phase ≠ .running) (h : s.started = false) :
    s.ticking? = none := by
  refine if_neg ?_
  rintro (running | ⟨-, started⟩)
  · exact waiting running
  · cases h.symm.trans started

/-- **Every move orders the ticks that the session then needs.** -/
theorem Move.ticking? (h : s.Move i t) (inv : s.Invariant cap) :
    t.order.follow s.ticking? = t.session.ticking? := by
  cases h with
  | unchanged | note | ignore | stillMissing | nothing | elsewhere | idle | lost | count | advance
  | stopIdle | retryNothing => rfl
  | pause held same before after running =>
    have started : s.started = true := (inv.running running).1
    exact (ticking?_of_started (by rw [running]; decide) started).trans
      (ticking?_of_started (s := { s.hold _ with phase := .paused }) nofun started).symm
  | resume held same before after paused started =>
    exact (ticking?_of_started (by rw [paused]; decide) started).trans
      (ticking?_of_started (s := { s.hold _ with phase := .running }) nofun started).symm
  | firstStart => exact (if_pos (.inl rfl)).symm
  | @launch d document free plan hyphen =>
    have running : (s.load d).start.phase = .running := (s.phase_load_running d).2 hyphen
    exact (if_pos (.inl running)).symm
  | @retry d =>
    have active := s.phase_install_ne_idle d (Plan.layout s.loopCap d.nodes)
    exact (ticking?_of_started (s := (s.install d _).start) active rfl).symm
  | take free plan hyphen =>
    refine (ticking?_of_waiting (fun running => ?_) rfl).symm
    cases ((s.phase_load_running _).1 running).symm.trans hyphen
  | drop | remove | finish | stop => rfl

/-! ## One plan for a generation -/

theorem Move.plan_of_generation (h : s.Move i t) (same : t.session.generation = s.generation) :
    t.session.plan = s.plan ∧ ∀ c, s.declaration = some c →
      ∃ d, t.session.declaration = some d ∧ c.sameContent d = true := by
  cases h with
  | unchanged | ignore | stillMissing | nothing | elsewhere | idle | lost | count | advance
  | stopIdle | retryNothing => exact ⟨rfl, fun c held => ⟨c, held, c.sameContent_refl⟩⟩
  | pause held content | resume held content | note held content =>
    refine ⟨rfl, fun c hc => ⟨_, rfl, ?_⟩⟩
    cases held.symm.trans hc
    exact content
  | firstStart | take | launch | drop | remove | finish | stop | retry =>
    exact absurd same (Nat.succ_ne_self s.generation)

/-- **As long as the generation stays, so do the plan and what it is for.** -/
theorem plan_after (is : List Input) (same : (s.after is).generation = s.generation) :
    (s.after is).plan = s.plan ∧ ∀ c, s.declaration = some c →
      ∃ d, (s.after is).declaration = some d ∧ c.sameContent d = true := by
  induction is generalizing s with
  | nil => exact ⟨rfl, fun c held => ⟨c, held, c.sameContent_refl⟩⟩
  | cons i is ih =>
    have hfirst := s.generation_le_after [i]
    have hrest := (s.step i).session.generation_le_after is
    rw [after_cons] at same ⊢
    have hstep : (s.step i).session.generation = s.generation := by
      simp only [after_cons, after_nil] at hfirst
      omega
    obtain ⟨hplan, hcontent⟩ := (s.move_step i).plan_of_generation hstep
    obtain ⟨hplan', hcontent'⟩ := ih (same.trans hstep.symm)
    refine ⟨hplan'.trans hplan, fun c held => ?_⟩
    obtain ⟨d, held', hd⟩ := hcontent c held
    obtain ⟨d', held'', hd'⟩ := hcontent' d held'
    exact ⟨d', held'', Declaration.sameContent_trans hd hd'⟩

theorem order_tick (s : Session) (generation : ℕ) :
    (s.tick generation).order = .keep ∨ (s.tick generation).order = .disarm := by
  have move := s.move_tick generation
  generalize s.tick generation = t at move
  cases move with
  | idle | lost | count | advance => exact .inl rfl
  | finish => exact .inr rfl

end Session

/-! ## What happens to a service -/

/-- Something that happens to a service that is not told to end. -/
inductive Occurrence (α : Type) where
  | evaluate (text document : String) (caller : Handlers α)
  | stop
  | retry
  | view
  /-- The next tick comes, whenever it is due. -/
  | tick
  | elapse (ms : ℕ)

namespace Activity

variable {α : Type}

instance : Append (Activity α) :=
  ⟨fun a b => { reactions := a.reactions ++ b.reactions, notices := a.notices ++ b.notices }⟩

@[simp] theorem reactions_append (a b : Activity α) :
    (a ++ b).reactions = a.reactions ++ b.reactions := rfl

@[simp] theorem notices_append (a b : Activity α) :
    (a ++ b).notices = a.notices ++ b.notices := rfl

@[simp] theorem empty_append (a : Activity α) : ({} : Activity α) ++ a = a := rfl

@[simp] theorem append_empty (a : Activity α) : a ++ ({} : Activity α) = a := by
  change ({ reactions := a.reactions ++ [], notices := a.notices ++ [] } : Activity α) = a
  rw [List.append_nil, List.append_nil]

theorem append_assoc (a b c : Activity α) : a ++ b ++ c = a ++ (b ++ c) := by
  change ({ reactions := a.reactions ++ b.reactions ++ c.reactions
            notices := a.notices ++ b.notices ++ c.notices } : Activity α) = _
  rw [List.append_assoc, List.append_assoc]
  rfl

end Activity

namespace Service

variable {α : Type}

/-- The service after a request, and what happened; a request that failed made nothing happen. -/
def answer : Service α × Except ServiceError (Activity α) → Service α × Activity α
  | (s, .ok activity) => (s, activity)
  | (s, .error _) => (s, {})

/-- The service after an occurrence, and what happened. -/
def step (s : Service α) : Occurrence α → Service α × Activity α
  | .evaluate text document caller => answer (s.evaluate text document caller)
  | .stop => answer s.stop
  | .retry => answer s.retry
  | .view => answer s.view
  | .tick =>
    match s.liveness, s.alarm with
    | .open, some alarm => s.fire alarm
    | _, _ => (s, {})
  | .elapse ms => s.elapse ms

/-- The service after a sequence of occurrences. -/
def after : Service α → List (Occurrence α) → Service α
  | s, [] => s
  | s, o :: os => (s.step o).1.after os

/-- The services that a fresh one with the given loop cap and milliseconds per tick turns into. -/
inductive Reachable (cap : UInt32) (tickMs : ℕ) : Service α → Prop
  | new (broadcasts : Bool) : Reachable cap tickMs (.new cap broadcasts tickMs)
  | step {s : Service α} (h : Reachable cap tickMs s) (o : Occurrence α) :
      Reachable cap tickMs (s.step o).1

theorem Reachable.after {cap : UInt32} {tickMs : ℕ} {s : Service α} (h : s.Reachable cap tickMs)
    (os : List (Occurrence α)) : (s.after os).Reachable cap tickMs := by
  induction os generalizing s with
  | nil => exact h
  | cons o os ih => exact ih (.step h o)

/-- What can happen to a service at once, and the activity that belongs to it: nothing, a call of its
dispatcher, the tick that comes next, or the passing of time. -/
inductive Course (s : Service α) : Service α × Activity α → Prop
  | nothing : Course s (s, {})
  | call (c : Call α) : Course s (s.apply (s.dispatcher.step c))
  | fire {alarm : Alarm} (armed : s.alarm = some alarm) : Course s (s.fire alarm)
  | elapse (ms : ℕ) : Course s (s.elapse ms)

/-! ## The passing of time -/

/-- All the ticks happen that are due by the instant `deadline`, and no others. -/
inductive Passes (deadline : ℕ) : Service α → Service α → Activity α → Prop
  | rest {s : Service α} (quiet : ∀ alarm, s.alarm = some alarm → deadline < alarm.due) :
      Passes deadline s s {}
  | fire {s s' : Service α} {alarm : Alarm} {activity : Activity α} (armed : s.alarm = some alarm)
      (due : alarm.due ≤ deadline) (h : Passes deadline (s.fire alarm).1 s' activity) :
      Passes deadline s s' ((s.fire alarm).2 ++ activity)

theorem alarm_fire {s : Service α} {alarm next : Alarm}
    (h : (s.fire alarm).1.alarm = some next) :
    next = { alarm with due := alarm.due + s.period } := by
  rcases s.dispatcher.session.order_tick alarm.generation with order | order
  all_goals
    replace order : (s.dispatcher.tick alarm.generation).order = _ := order
    simp only [fire, apply, order, reset] at h
    cases h
  rfl

/-- The bound on the number of ticks is never what ends them. -/
theorem passes_fireAll {deadline n : ℕ} {s : Service α} (hperiod : 0 < s.period)
    (enough : ∀ alarm, s.alarm = some alarm → deadline < alarm.due + n * s.period)
    (reactions : Array α) (notices : Array Notice) :
    ∃ s' activity, Passes deadline s s' activity ∧ fireAll deadline n s reactions notices =
      (s', reactions ++ activity.reactions.toArray, notices ++ activity.notices.toArray) := by
  induction n generalizing s reactions notices with
  | zero =>
    refine ⟨s, {}, .rest fun alarm armed => ?_, by simp [fireAll]⟩
    have hlt := enough alarm armed
    omega
  | succ n ih =>
    rw [fireAll]
    cases armed : s.alarm with
    | none => exact ⟨s, {}, .rest fun alarm h => (nomatch armed.symm.trans h), by simp⟩
    | some alarm =>
      by_cases late : deadline < alarm.due
      · refine ⟨s, {}, .rest fun alarm' h => ?_, by simp [late]⟩
        cases armed.symm.trans h
        exact late
      · -- the next tick is a period later, so one tick less is enough
        have hlt := enough alarm armed
        have enough' : ∀ next, (s.fire alarm).1.alarm = some next →
            deadline < next.due + n * (s.fire alarm).1.period := by
          intro next hnext
          rw [alarm_fire hnext]
          change deadline < alarm.due + s.period + n * s.period
          rw [Nat.succ_mul] at hlt
          omega
        obtain ⟨s', activity, hpasses, hfire⟩ := ih (s := (s.fire alarm).1) hperiod enough'
          (reactions ++ (s.fire alarm).2.reactions.toArray)
          (notices ++ (s.fire alarm).2.notices.toArray)
        refine ⟨s', (s.fire alarm).2 ++ activity, .fire armed (by omega) hpasses, ?_⟩
        simp only [if_neg late, hfire, Activity.reactions_append, Activity.notices_append,
          ← List.append_toArray, Array.append_assoc]

/-- **While time passes, the ticks happen that are due.** -/
theorem passes_elapse {s : Service α} (alive : s.liveness = .open) (hperiod : 0 < s.period)
    (ahead : ∀ alarm, s.alarm = some alarm → s.now < alarm.due) (ms : ℕ) :
    ∃ s' activity, Passes (s.now + ms) s s' activity ∧
      s.elapse ms = ({ s' with now := s.now + ms }, activity) := by
  have enough : ∀ alarm, s.alarm = some alarm →
      s.now + ms < alarm.due + (ms / s.period + 1) * s.period := by
    intro alarm armed
    have hdue := ahead alarm armed
    have hms := Nat.lt_mul_div_succ ms hperiod
    rw [Nat.mul_comm] at hms
    omega
  obtain ⟨s', activity, hpasses, hfire⟩ := passes_fireAll hperiod enough #[] #[]
  refine ⟨s', activity, hpasses, ?_⟩
  simp only [elapse, alive, hfire, Array.empty_append]

/-! ## What holds of every service -/

/-- How the source of ticks, the session and the clock fit together. -/
structure Invariant (cap : UInt32) (tickMs : ℕ) (s : Service α) : Prop where
  alive : s.liveness = .open
  session : s.dispatcher.session.Reachable cap
  source : s.alarm.map (·.generation) = s.dispatcher.session.ticking?
  period : s.period = max tickMs 1
  ahead : ∀ alarm, s.alarm = some alarm → s.now < alarm.due
  near : ∀ alarm, s.alarm = some alarm → alarm.due ≤ s.now + s.period

namespace Invariant

variable {cap : UInt32} {tickMs : ℕ} {s : Service α}

theorem new (broadcasts : Bool) :
    (Service.new cap broadcasts tickMs : Service α).Invariant cap tickMs where
  alive := rfl
  session := .new
  source := rfl
  period := rfl
  ahead := fun _ h => nomatch h
  near := fun _ h => nomatch h

variable (inv : s.Invariant cap tickMs)

include inv

theorem period_pos : 0 < s.period := by
  rw [inv.period]
  exact Nat.le_max_right tickMs 1

theorem setNow {now : ℕ} (later : s.now ≤ now)
    (quiet : ∀ alarm, s.alarm = some alarm → now < alarm.due) :
    { s with now := now }.Invariant cap tickMs where
  alive := inv.alive
  session := inv.session
  source := inv.source
  period := inv.period
  ahead := quiet
  near := fun alarm armed =>
    (inv.near alarm armed).trans (Nat.add_le_add_right later s.period)

/-- **The source follows every step of the dispatcher.** -/
theorem apply (c : Call α) : (s.apply (s.dispatcher.step c)).1.Invariant cap tickMs := by
  have hfollow := (s.dispatcher.session.move_step c.input).ticking? inv.session.invariant
  have hperiod := inv.period_pos
  have hsource : (s.reset (s.dispatcher.step c).order).map (·.generation) =
      (s.dispatcher.step c).order.follow (s.alarm.map (·.generation)) := by
    cases (s.dispatcher.step c).order <;> rfl
  have hreset : ∀ alarm, s.reset (s.dispatcher.step c).order = some alarm →
      s.now < alarm.due ∧ alarm.due ≤ s.now + s.period := by
    intro alarm armed
    cases horder : (s.dispatcher.step c).order with
    | keep =>
      rw [horder] at armed
      exact ⟨inv.ahead alarm armed, inv.near alarm armed⟩
    | arm generation =>
      rw [horder] at armed
      cases armed
      exact ⟨by simp only; omega, Nat.le_refl _⟩
    | disarm => rw [horder] at armed; cases armed
  refine
    { alive := inv.alive
      session := ?_
      source := ?_
      period := inv.period
      ahead := fun alarm armed => (hreset alarm armed).1
      near := fun alarm armed => (hreset alarm armed).2 }
  · change (s.dispatcher.step c).dispatcher.session.Reachable cap
    rw [Dispatcher.session_step]
    exact .step inv.session c.isFed_input
  · change (s.reset (s.dispatcher.step c).order).map (·.generation) =
      (s.dispatcher.step c).dispatcher.session.ticking?
    rw [hsource, inv.source, Dispatcher.session_step, ← hfollow, Dispatcher.step_eq_apply]
    rfl

theorem fire {alarm : Alarm} (armed : s.alarm = some alarm) :
    (s.fire alarm).1.Invariant cap tickMs := by
  have hperiod := inv.period_pos
  have hnext : { s with
      now := alarm.due
      alarm := some { alarm with due := alarm.due + s.period } }.Invariant cap tickMs :=
    { alive := inv.alive
      session := inv.session
      source := by rw [← inv.source, armed]; rfl
      period := inv.period
      ahead := fun _ h => by cases h; exact Nat.lt_add_of_pos_right hperiod
      near := fun _ h => by cases h; exact Nat.le_refl _ }
  exact hnext.apply (.tick alarm.generation)

omit inv

/-- **The ticks of a time keep the invariant**, and none of them is left over. -/
theorem passes {deadline : ℕ} {s' : Service α} {activity : Activity α}
    (h : Passes deadline s s' activity) (inv : s.Invariant cap tickMs) (hnow : s.now ≤ deadline) :
    s'.Invariant cap tickMs ∧ s'.now ≤ deadline ∧
      ∀ alarm, s'.alarm = some alarm → deadline < alarm.due := by
  induction h with
  | rest quiet => exact ⟨inv, hnow, quiet⟩
  | fire armed due _ ih => exact ih (inv.fire armed) due

include inv

theorem elapse (ms : ℕ) : (s.elapse ms).1.Invariant cap tickMs := by
  obtain ⟨s', activity, hpasses, helapse⟩ := passes_elapse inv.alive inv.period_pos inv.ahead ms
  obtain ⟨inv', hnow, quiet⟩ := inv.passes hpasses (Nat.le_add_right s.now ms)
  rw [helapse]
  exact inv'.setNow hnow quiet

theorem generation {alarm : Alarm} (armed : s.alarm = some alarm) :
    alarm.generation = s.dispatcher.session.generation := by
  have hsource := inv.source
  rw [armed, Option.map_some, Session.ticking?, eq_comm, Option.ite_none_right_eq_some] at hsource
  exact (Option.some.inj hsource.2).symm

theorem answer_request (act : Dispatcher α → Dispatch α) :
    answer (s.request act) = s.apply (act s.dispatcher) := by
  simp only [request, inv.alive]
  rfl

theorem step_evaluate (text document : String) (caller : Handlers α) :
    s.step (.evaluate text document caller) =
      s.apply (s.dispatcher.evaluate text document caller) :=
  inv.answer_request _

theorem step_stop : s.step .stop = s.apply s.dispatcher.stop := inv.answer_request _

theorem step_retry : s.step .retry = s.apply s.dispatcher.retry := inv.answer_request _

theorem step_view : s.step .view = (s, {}) := inv.answer_request _

theorem step_tick {alarm : Alarm} (armed : s.alarm = some alarm) : s.step .tick = s.fire alarm := by
  simp only [Service.step, inv.alive, armed]

theorem step_tick_none (unarmed : s.alarm = none) : s.step .tick = (s, {}) := by
  simp only [Service.step, inv.alive, unarmed]

/-- **Every occurrence takes one of the courses.** -/
theorem course_step (o : Occurrence α) : s.Course (s.step o) := by
  cases o with
  | evaluate text document caller =>
    rw [inv.step_evaluate]
    exact .call (.evaluate text document caller)
  | stop =>
    rw [inv.step_stop]
    exact .call .stop
  | retry =>
    rw [inv.step_retry]
    exact .call .retry
  | view =>
    rw [inv.step_view]
    exact .nothing
  | tick =>
    cases armed : s.alarm with
    | none =>
      rw [inv.step_tick_none armed]
      exact .nothing
    | some alarm =>
      rw [inv.step_tick armed]
      exact .fire armed
  | elapse ms => exact .elapse ms

/-- **Whatever happens keeps the invariant.** -/
theorem step (o : Occurrence α) : (s.step o).1.Invariant cap tickMs := by
  have course := inv.course_step o
  generalize s.step o = r at course
  cases course with
  | nothing => exact inv
  | call c => exact inv.apply c
  | fire armed => exact inv.fire armed
  | elapse ms => exact inv.elapse ms

end Invariant

theorem Reachable.invariant {cap : UInt32} {tickMs : ℕ} {s : Service α}
    (h : s.Reachable cap tickMs) : s.Invariant cap tickMs := by
  induction h with
  | new broadcasts => exact .new broadcasts
  | step _ o ih => exact ih.step o

/-! ## The session of a service -/

theorem Passes.session {deadline : ℕ} {s s' : Service α} {activity : Activity α}
    (h : Passes deadline s s' activity) :
    ∃ is, s'.dispatcher.session = s.dispatcher.session.after is := by
  induction h with
  | rest => exact ⟨[], rfl⟩
  | @fire s s' alarm activity armed due h ih =>
    obtain ⟨is, his⟩ := ih
    exact ⟨.tick alarm.generation :: is, his⟩

theorem Invariant.session_step {cap : UInt32} {tickMs : ℕ} {s : Service α}
    (inv : s.Invariant cap tickMs) (o : Occurrence α) :
    ∃ is, (s.step o).1.dispatcher.session = s.dispatcher.session.after is := by
  have course := inv.course_step o
  generalize s.step o = r at course
  cases course with
  | nothing => exact ⟨[], rfl⟩
  | call c => exact ⟨[c.input], s.dispatcher.session_step c⟩
  | @fire alarm armed => exact ⟨[.tick alarm.generation], rfl⟩
  | elapse ms =>
    obtain ⟨s', activity, hpasses, helapse⟩ := passes_elapse inv.alive inv.period_pos inv.ahead ms
    rw [helapse]
    exact hpasses.session

theorem Invariant.session_after {cap : UInt32} {tickMs : ℕ} {s : Service α}
    (inv : s.Invariant cap tickMs) (os : List (Occurrence α)) :
    ∃ is, (s.after os).dispatcher.session = s.dispatcher.session.after is := by
  induction os generalizing s with
  | nil => exact ⟨[], rfl⟩
  | cons o os ih =>
    obtain ⟨is, his⟩ := inv.session_step o
    obtain ⟨js, hjs⟩ := ih (inv.step o)
    refine ⟨is ++ js, ?_⟩
    rw [Session.after_append, ← his]
    exact hjs

/-! ## The source and the session -/

theorem elapse_unarmed {s : Service α} (alive : s.liveness = .open) (unarmed : s.alarm = none)
    (ms : ℕ) : s.elapse ms = ({ s with now := s.now + ms }, {}) := by
  simp only [elapse, alive, fireAll, unarmed]

/-- **The source of ticks follows the session.** It ticks exactly while the timer runs or is paused on
its way, for the generation of the session, which is the number of its orders. -/
theorem source_follows_session {cap : UInt32} {tickMs : ℕ} {s : Service α}
    (h : s.Reachable cap tickMs) :
    let session := s.dispatcher.session
    (s.alarm.isSome = true ↔
        session.phase = .running ∨ session.phase = .paused ∧ session.started = true) ∧
      (∀ alarm, s.alarm = some alarm → alarm.generation = session.generation) ∧
      (session.phase = .running → ∃ alarm d e, s.alarm = some alarm ∧
        s.now < alarm.due ∧ alarm.due ≤ s.now + s.period ∧
        session.declaration = some d ∧ session.plan.entries[session.position]? = some e ∧
        (s.dispatcher.tick alarm.generation).deliveries.head? =
          some (s.dispatcher.bound, session.passed d e)) ∧
      (∀ os alarm later, s.alarm = some alarm → (s.after os).alarm = some later →
        later.generation = alarm.generation →
        (s.after os).dispatcher.session.plan = session.plan ∧
          ∀ c, session.declaration = some c →
            ∃ d, (s.after os).dispatcher.session.declaration = some d ∧ c.sameContent d = true) ∧
      (session.phase = .idle → ∀ ms, s.elapse ms = ({ s with now := s.now + ms }, {})) ∧
      ∃ is, session = (Session.new cap).after is ∧
        session.generation = ((Session.new cap).run is).countP (·.order != .keep) := by
  intro session
  have inv := h.invariant
  have hsource : s.alarm.map (·.generation) = session.ticking? := inv.source
  have hgeneration : ∀ alarm, s.alarm = some alarm → alarm.generation = session.generation :=
    fun alarm armed => inv.generation armed
  refine ⟨?_, hgeneration, fun running => ?_, fun os alarm later armed armed' same => ?_,
    fun idle ms => ?_, ?_⟩
  · rw [← Option.isSome_map (f := (·.generation)), hsource, Session.ticking?]
    split <;> simp_all
  · rw [Session.ticking?, if_pos (.inl running), Option.map_eq_some_iff] at hsource
    obtain ⟨alarm, armed, hcurrent⟩ := hsource
    obtain ⟨d, e, held, entry, -⟩ := inv.session.invariant.countdown running
    refine ⟨alarm, d, e, armed, inv.ahead alarm armed, inv.near alarm armed, held, entry, ?_⟩
    have hhead := Session.head_events_tick running held entry
    rw [hcurrent]
    change (List.map _ (session.tick session.generation).events).head? = _
    rw [List.head?_map, hhead]
    rfl
  · obtain ⟨is, his⟩ := inv.session_after os
    have inv' := (h.after os).invariant
    rw [his]
    refine Session.plan_after is ?_
    rw [← his, ← inv'.generation armed', same, hgeneration alarm armed]
  · rw [Session.ticking?_of_idle idle, Option.map_eq_none_iff] at hsource
    exact elapse_unarmed inv.alive hsource ms
  · obtain ⟨is, -, his⟩ := inv.session.exists_after
    refine ⟨is, his, ?_⟩
    rw [← Session.generation_after_new, ← his]

/-- A timer is paused half a second after its first tick. -/
theorem source_follows_session_while_paused :
    let s : Service Unit := (Service.new 99 false 1000).after
      [.evaluate "[2s] tea" "doc" {}, .elapse 1500, .evaluate "[-2s] tea" "doc" {}]
    s.dispatcher.session.phase = .paused ∧ s.alarm.isSome = true ∧
      ∀ alarm, s.alarm = some alarm → alarm.generation = 1 := by
  intro s
  have hpaused : s.dispatcher.session.phase = .paused := by decide +kernel
  have hstarted : s.dispatcher.session.started = true := by decide +kernel
  have hgeneration : s.dispatcher.session.generation = 1 := by decide +kernel
  have hnew : (Service.new 99 false 1000 : Service Unit).Reachable 99 1000 := .new false
  have h := source_follows_session (hnew.after
    [.evaluate "[2s] tea" "doc" {}, .elapse 1500, .evaluate "[-2s] tea" "doc" {}])
  exact ⟨hpaused, h.1.2 (.inr ⟨hpaused, hstarted⟩),
    fun alarm armed => (h.2.1 alarm armed).trans hgeneration⟩

end Service

end TaskTimer
