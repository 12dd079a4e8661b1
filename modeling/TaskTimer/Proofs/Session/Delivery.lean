import Mathlib.Data.List.Forall2
import TaskTimer.Proofs.Session.Pause
import TaskTimer.Session.Dispatcher

/-!
# Who hears what

A dispatcher passes every event of its session on, to the handlers of the caller or to those bound
to the timer. Whoever was told that a timer starts is told how it gets on.

* `Call`, `Dispatcher.step`, `Dispatcher.run`, `Dispatcher.after`: sequences of calls.
* `StartedLast`: the handlers that received the last start among some deliveries.
* `Session.Move.started`, `Session.Move.progress`: which moves report a start, and which progress.
* `Dispatcher.startedLast_step`: handlers stay bound to the timer that was started for them.
* `Notice.Tells`: the notice of an event, part by part.
* **`Dispatcher.events_reach_their_handlers`**: the deliveries and notices of a whole run.
-/

namespace TaskTimer

/-! ## Calls -/

/-- Something that a dispatcher is asked for. -/
inductive Call (α : Type) where
  | evaluate (text document : String) (caller : Handlers α)
  | tick (generation : Nat)
  | stop
  | retry

namespace Call

variable {α : Type}

/-- The handlers that come with a call. -/
def caller? : Call α → Option (Handlers α)
  | .evaluate _ _ caller => some caller
  | .tick _ | .stop | .retry => none

/-- What the session is told. -/
def input : Call α → Input
  | .evaluate text document _ => .evaluate (scan text document) document
  | .tick generation => .tick generation
  | .stop => .stop
  | .retry => .retry

theorem isFed_input (c : Call α) : c.input.IsFed := by
  cases c with
  | evaluate text document => exact .evaluate text document
  | tick generation => exact .tick generation
  | stop => exact .stop
  | retry => exact .retry

end Call

namespace Dispatcher

variable {α : Type}

/-- The step that a call causes. -/
def step (p : Dispatcher α) : Call α → Dispatch α
  | .evaluate text document caller => p.evaluate text document caller
  | .tick generation => p.tick generation
  | .stop => p.stop
  | .retry => p.retry

/-- The results of a sequence of calls, one after the other. -/
def run : Dispatcher α → List (Call α) → List (Dispatch α)
  | _, [] => []
  | p, c :: cs => p.step c :: (p.step c).dispatcher.run cs

/-- The dispatcher after a sequence of calls. -/
def after : Dispatcher α → List (Call α) → Dispatcher α
  | p, [] => p
  | p, c :: cs => (p.step c).dispatcher.after cs

variable (p : Dispatcher α) (c : Call α)

/-- **A step passes on the step of the session.** -/
theorem step_eq_apply : p.step c = p.apply (p.session.step c.input) c.caller? := by
  cases c <;> rfl

theorem session_step : (p.step c).dispatcher.session = (p.session.step c.input).session := by
  rw [step_eq_apply]
  rfl

theorem broadcasts_step : (p.step c).dispatcher.broadcasts = p.broadcasts := by
  rw [step_eq_apply]
  rfl

end Dispatcher

/-! ## Starts and progress -/

/-- A timer starts. -/
def Event.isStart : Event → Bool
  | .start _ => true
  | .interval .. | .step .. | .finish .. | .cancel => false

theorem Event.isStart_of_isProgress {event : Event} (h : event.isProgress = true) :
    event.isStart = false := by
  cases event with
  | start => cases h
  | interval | step | finish | cancel => rfl

namespace Session

variable {s : Session} {i : Input} {t : Transition}

/-- Once started, a timer keeps its handlers up to the next start. -/
theorem Move.started (h : s.Move i t) (started : t.session.started = true) :
    (s.started = true ∧ t.adopted = false ∧ ∀ event ∈ t.events, event.isStart = false) ∨
      (∃ events d, t.events = events ++ [.start d]) ∧ (t.adopted = true ∨ i = .retry) := by
  cases h with
  | unchanged | pause | resume | note | ignore | stillMissing | elsewhere | idle | lost | stopIdle
  | retryNothing => exact .inl ⟨started, rfl, fun event hevent => nomatch hevent⟩
  | nothing | count =>
    refine .inl ⟨started, rfl, fun event hevent => ?_⟩
    rw [List.mem_singleton.1 hevent]
    rfl
  | advance =>
    refine .inl ⟨started, rfl, fun event hevent => ?_⟩
    rcases List.mem_cons.1 hevent with rfl | hevent
    · rfl
    · exact Event.isStart_of_isProgress (Plan.isProgress_ending hevent)
  | firstStart => exact .inr ⟨⟨[], _, rfl⟩, .inl rfl⟩
  | launch => exact .inr ⟨⟨s.cancellation, _, rfl⟩, .inl rfl⟩
  | retry => exact .inr ⟨⟨[], _, rfl⟩, .inr rfl⟩
  | drop | take | remove | finish | stop => cases started

theorem isProgress_of_mem_cancellation {event : Event} (h : event ∈ s.cancellation) :
    event.isProgress = false := by
  unfold cancellation at h
  split at h
  · rw [List.mem_singleton.1 h]
    rfl
  · cases h

theorem Move.progress (h : s.Move i t) {event : Event} (hevent : event ∈ t.events)
    (progress : event.isProgress = true) : s.phase = .running ∧ ∃ g, i = .tick g := by
  cases h with
  | unchanged | pause | resume | note | ignore | stillMissing | elsewhere | idle | lost | stopIdle
  | retryNothing => cases hevent
  | firstStart | nothing | remove | stop | retry =>
    rw [List.mem_singleton.1 hevent] at progress
    cases progress
  | drop | take => rw [isProgress_of_mem_cancellation hevent] at progress; cases progress
  | launch =>
    rcases List.mem_append.1 hevent with hevent | hevent
    · rw [isProgress_of_mem_cancellation hevent] at progress
      cases progress
    · rw [List.mem_singleton.1 hevent] at progress
      cases progress
  | count current running | advance current running | finish current running =>
    exact ⟨running, _, rfl⟩

end Session

/-! ## The last start -/

section StartedLast

variable {α : Type} {h : Handlers α} {ds later : List (Handlers α × Event)}

/-- The handlers `h` received the last start among some deliveries. -/
def StartedLast (h : Handlers α) (ds : List (Handlers α × Event)) : Prop :=
  ∃ before d behind, ds = before ++ (h, Event.start d) :: behind ∧
    ∀ r ∈ behind, r.2.isStart = false

theorem startedLast_concat (ds : List (Handlers α × Event)) (h : Handlers α) (d : Declaration) :
    StartedLast h (ds ++ [(h, .start d)]) :=
  ⟨ds, d, [], rfl, fun _ hr => nomatch hr⟩

theorem StartedLast.append (last : StartedLast h ds) (none : ∀ r ∈ later, r.2.isStart = false) :
    StartedLast h (ds ++ later) := by
  obtain ⟨before, d, behind, rfl, hbehind⟩ := last
  refine ⟨before, d, behind ++ later, by rw [List.append_assoc, List.cons_append], fun r hr => ?_⟩
  exact (List.mem_append.1 hr).elim (hbehind r) (none r)

end StartedLast

namespace Dispatcher

variable {α : Type} {p : Dispatcher α} {earlier : List (Handlers α × Event)}

/-- **Handlers stay bound to the timer that was started for them.** -/
theorem startedLast_step (follows : p.session.started = true → StartedLast p.bound earlier)
    (c : Call α) (started : (p.step c).dispatcher.session.started = true) :
    StartedLast (p.step c).dispatcher.bound (earlier ++ (p.step c).deliveries) := by
  rw [step_eq_apply] at started ⊢
  generalize ht : p.session.step c.input = t at started ⊢
  have move : p.session.Move c.input t := ht ▸ p.session.move_step c.input
  rcases move.started started with ⟨before, kept, quiet⟩ | ⟨⟨events, d, hevents⟩, own⟩
  · have hbound : (p.apply t c.caller?).dispatcher.bound = p.bound := if_neg (by rw [kept]; decide)
    rw [hbound]
    refine (follows before).append fun r hr => ?_
    obtain ⟨event, hevent, rfl⟩ := List.mem_map.1 hr
    exact quiet event hevent
  · have hbound : (p.apply t c.caller?).dispatcher.bound = c.caller?.getD p.bound := by
      rcases own with adopted | retried
      · exact if_pos adopted
      · cases c with
        | retry => exact ite_self _
        | evaluate | tick | stop => cases retried
    have hdeliveries : (p.apply t c.caller?).deliveries =
        events.map (fun event => (p.receiver c.caller? event, event)) ++
          [(c.caller?.getD p.bound, .start d)] := by
      simp only [apply, hevents, List.map_append, List.map_singleton]
      rfl
    rw [hbound, hdeliveries, ← List.append_assoc]
    exact startedLast_concat _ _ d

theorem startedLast_of_progress {cap : UInt32} (inv : p.session.Invariant cap)
    (follows : p.session.started = true → StartedLast p.bound earlier) {c : Call α}
    {before behind : List (Handlers α × Event)} {h : Handlers α} {event : Event}
    (hstep : (p.step c).deliveries = before ++ (h, event) :: behind)
    (progress : event.isProgress = true) : StartedLast h (earlier ++ before) := by
  rw [step_eq_apply] at hstep
  have move := p.session.move_step c.input
  have mem_iff : ∀ r, r ∈ before ++ (h, event) :: behind ↔ ∃ e ∈ (p.session.step c.input).events,
      (p.receiver c.caller? e, e) = r := fun r => by rw [← hstep]; exact List.mem_map
  obtain ⟨e, he, heq⟩ := (mem_iff (h, event)).1 (by simp)
  obtain ⟨rfl, rfl⟩ := Prod.mk.inj heq
  obtain ⟨running, generation, hinput⟩ := move.progress he progress
  have hbound : p.receiver c.caller? e = p.bound := if_pos progress
  rw [hbound]
  refine (follows (inv.running running).1).append fun r hr => ?_
  obtain ⟨e', he', rfl⟩ := (mem_iff r).1 (List.mem_append_left _ hr)
  rw [hinput] at he'
  exact Event.isStart_of_isProgress (p.session.isProgress_tick generation e' he')

theorem startedLast_run {cap : UInt32} (reached : p.session.Reachable cap)
    (follows : p.session.started = true → StartedLast p.bound earlier) {cs : List (Call α)}
    {before behind : List (Handlers α × Event)} {h : Handlers α} {event : Event}
    (hrun : (p.run cs).flatMap (·.deliveries) = before ++ (h, event) :: behind)
    (progress : event.isProgress = true) : StartedLast h (earlier ++ before) := by
  induction cs generalizing p earlier before with
  | nil => simp [run] at hrun
  | cons c cs ih =>
    rw [run, List.flatMap_cons, List.append_eq_append_iff] at hrun
    rcases hrun with ⟨rest, rfl, hrest⟩ | ⟨rest, hstep, hrest⟩
    · rw [← List.append_assoc]
      refine ih ?_ (startedLast_step follows c) hrest
      rw [session_step]
      exact .step reached c.isFed_input
    · cases rest with
      | nil =>
        -- the event is the first one of the later steps
        rw [List.append_nil] at hstep
        have hlater : StartedLast h ((earlier ++ (p.step c).deliveries) ++ []) := by
          refine ih ?_ (startedLast_step follows c) hrest.symm
          rw [session_step]
          exact .step reached c.isFed_input
        rwa [List.append_nil, hstep] at hlater
      | cons r rest =>
        obtain ⟨rfl, -⟩ := List.cons.inj hrest
        exact startedLast_of_progress reached.invariant follows hstep progress

end Dispatcher

/-! ## Notices -/

/-- The notice tells of the event: it has the parts of the event, and the label of the declaration
stands for the declaration. -/
inductive Notice.Tells : Event → Notice → Prop
  | interval (remaining duration : Duration) (step : String) (symbol : Option String)
      (d : Declaration) :
      Tells (.interval remaining duration step symbol d)
        (.interval remaining duration step symbol d.label)
  | step (step : String) (symbol : Option String) (d : Declaration) :
      Tells (.step step symbol d) (.step step symbol d.label)
  | finish (d : Declaration) : Tells (.finish d) (.finish d.label)

/-- **Of some events, those that are progress have a notice each.** -/
theorem Notice.tells_filterMap (events : List Event) :
    List.Forall₂ Notice.Tells (events.filter (·.isProgress)) (events.filterMap Notice.ofEvent?) := by
  induction events with
  | nil => exact .nil
  | cons event events ih =>
    cases event with
    | start | cancel => exact ih
    | interval => exact .cons (.interval ..) ih
    | step => exact .cons (.step ..) ih
    | finish => exact .cons (.finish _) ih

namespace Dispatcher

variable {α : Type}

theorem deliveries_run (p : Dispatcher α) (cs : List (Call α)) :
    (p.run cs).map (fun r => r.deliveries.map Prod.snd) =
      (p.session.run (cs.map Call.input)).map (·.events) := by
  induction cs generalizing p with
  | nil => rfl
  | cons c cs ih =>
    rw [run, List.map_cons, ih, session_step, List.map_cons, Session.run, List.map_cons,
      step_eq_apply]
    simp only [apply, List.map_map]
    exact congrArg (· :: _) (List.map_id _)

theorem notices_step {p : Dispatcher α} (on : p.broadcasts = true) (c : Call α) :
    (p.step c).notices = (p.session.step c.input).events.filterMap Notice.ofEvent? := by
  rw [step_eq_apply]
  exact if_pos on

theorem notices_run (p : Dispatcher α) (on : p.broadcasts = true) (cs : List (Call α)) :
    List.Forall₂
      (fun t r => List.Forall₂ Notice.Tells (t.events.filter (·.isProgress)) r.notices)
      (p.session.run (cs.map Call.input)) (p.run cs) := by
  induction cs generalizing p with
  | nil => exact .nil
  | cons c cs ih =>
    rw [run, List.map_cons, Session.run, ← session_step]
    refine .cons ?_ (ih _ ((p.broadcasts_step c).trans on))
    rw [notices_step on]
    exact Notice.tells_filterMap _

theorem notices_run_off (p : Dispatcher α) (off : p.broadcasts = false) (cs : List (Call α)) :
    ∀ r ∈ p.run cs, r.notices = [] := by
  induction cs generalizing p with
  | nil => exact fun r hr => nomatch hr
  | cons c cs ih =>
    intro r hr
    rcases List.mem_cons.1 hr with rfl | hr
    · rw [step_eq_apply]
      exact if_neg (by rw [off]; decide)
    · exact ih _ ((p.broadcasts_step c).trans off) r hr

/-- **Every event reaches the handlers that it is meant for**, once and in order. All progress goes
to those that received the last start, and has a notice each if there are broadcasts. -/
theorem events_reach_their_handlers (cap : UInt32) (broadcasts : Bool) (cs : List (Call α)) :
    let p : Dispatcher α := .new cap broadcasts
    let ts := (Session.new cap).run (cs.map Call.input)
    (p.run cs).map (fun r => r.deliveries.map Prod.snd) = ts.map (·.events) ∧
      (∀ before c behind, cs = before ++ c :: behind →
        ∀ h event, (h, event) ∈ ((p.after before).step c).deliveries →
          h = if event.isProgress then (p.after before).bound
            else c.caller?.getD (p.after before).bound) ∧
      (∀ before h event behind,
        (p.run cs).flatMap (·.deliveries) = before ++ (h, event) :: behind →
          event.isProgress = true → StartedLast h before) ∧
      if broadcasts then
        List.Forall₂
          (fun t r => List.Forall₂ Notice.Tells (t.events.filter (·.isProgress)) r.notices)
          ts (p.run cs)
      else ∀ r ∈ p.run cs, r.notices = [] := by
  intro p ts
  refine ⟨p.deliveries_run cs, fun before c behind _ h event hmem => ?_,
    fun before h event behind hrun progress => ?_, ?_⟩
  · rw [step_eq_apply] at hmem
    obtain ⟨e, -, heq⟩ := List.mem_map.1 hmem
    obtain ⟨rfl, rfl⟩ := Prod.mk.inj heq
    rfl
  · have follows : p.session.started = true → StartedLast p.bound [] := nofun
    exact startedLast_run .new follows hrun progress
  · cases broadcasts with
    | true => exact p.notices_run rfl cs
    | false => exact p.notices_run_off rfl cs

/-- A timer is found paused for one caller, started for another, and found again for the first. -/
theorem events_reach_their_handlers_after_pause :
    let named (name : String) : Handlers String := { finish := some fun _ => name }
    let p : Dispatcher String := .new 99 true
    let cs : List (Call String) :=
      [.evaluate "[-1s] tea" "doc" (named "first"), .evaluate "[1s] tea" "doc" (named "second"),
        .evaluate "[1s] tea" "doc" (named "first"), .tick 2]
    ∃ before h event, (p.run cs).flatMap (·.deliveries) = before ++ [(h, event)] ∧
      event.isFinish = true ∧ h.react event = some "second" ∧ StartedLast h before := by
  intro named p cs
  set ds := (p.run cs).flatMap (·.deliveries) with hds
  have hlast : ds.getLast?.map (fun r => (r.2.isFinish, r.2.isProgress, r.1.react r.2)) =
      some (true, true, some "second") := by
    rw [hds]
    decide +kernel
  obtain ⟨⟨h, event⟩, hget, heq⟩ := Option.map_eq_some_iff.1 hlast
  obtain ⟨before, hsplit⟩ := List.getLast?_eq_some_iff.1 hget
  simp only [Prod.mk.injEq] at heq
  obtain ⟨finishes, progress, reacts⟩ := heq
  exact ⟨before, h, event, hsplit, finishes, reacts,
    (events_reach_their_handlers 99 true cs).2.2.1 before h event [] hsplit progress⟩

end Dispatcher

end TaskTimer
