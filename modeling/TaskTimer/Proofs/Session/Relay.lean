import TaskTimer.Proofs.Notice.Bus
import TaskTimer.Proofs.Session.Delivery

/-!
# Listeners at a distance

The notices of a dispatcher go to a bus, whose subscribers read when they like. None of them loses
count: what a subscriber finds, and what it is told that it has missed, add up to the progress of
the timer.

* `Relay`, `Act`: a dispatcher with its bus, and what can be done to either.
* `Relay.found`, `Relay.progress`: what a subscriber finds, and what the session reports.
* `Relay.step_place`, `Relay.covers_found`: one act, and then a run, keep a subscriber's account.
* `Relay.drained`: what a subscriber finds that had read everything before.
* `Relay.found_filter`: other subscribers make no difference.
* **`Relay.every_event_accounted`**: the account of a subscriber, over every run.
-/

namespace TaskTimer

/-- A dispatcher whose notices go to a bus. -/
structure Relay (α : Type) where
  dispatcher : Dispatcher α
  bus : Bus

/-- Something that is done to the dispatcher or to the bus. -/
inductive Act (α : Type) where
  | call (c : Call α)
  | subscribe (name : String)
  | drop (name : String)
  | drain (name : String)

namespace Act

variable {α : Type}

/-- What the session is told. -/
def input? : Act α → Option Input
  | .call c => some c.input
  | .subscribe _ | .drop _ | .drain _ => none

/-- The act leaves the subscription of `name` alone. -/
def Keeps (name : String) : Act α → Prop
  | .subscribe other | .drop other => other ≠ name
  | .call _ | .drain _ => True

/-- The act is a call, or is about the subscription of `name`. -/
def concerns (name : String) : Act α → Bool
  | .call _ => true
  | .subscribe other | .drop other | .drain other => other == name

end Act

namespace Relay

variable {α : Type}

/-- A relay whose bus keeps at least `capacity` notices. -/
def new (cap : UInt32) (capacity : ℕ) : Relay α :=
  { dispatcher := .new cap true, bus := .new capacity }

/-- What is sent during an act. -/
def tells (r : Relay α) : Act α → List Notice
  | .call c => (r.dispatcher.step c).notices
  | .subscribe _ | .drop _ | .drain _ => []

def step (r : Relay α) : Act α → Relay α
  | .call c =>
    let d := r.dispatcher.step c
    { dispatcher := d.dispatcher, bus := r.bus.sendAll d.notices }
  | .subscribe name => { r with bus := r.bus.subscribe name }
  | .drop name => { r with bus := r.bus.drop name }
  | .drain name => { r with bus := (r.bus.drain name).2 }

/-- What `name` finds during an act. -/
def finds (r : Relay α) (name : String) : Act α → List Received
  | .drain other => if other = name then (r.bus.drain other).1.toList else []
  | .call _ | .subscribe _ | .drop _ => []

/-- The relay after a sequence of acts. -/
def after : Relay α → List (Act α) → Relay α
  | r, [] => r
  | r, a :: as => (r.step a).after as

/-- What is sent during a sequence of acts. -/
def sent : Relay α → List (Act α) → List Notice
  | _, [] => []
  | r, a :: as => r.tells a ++ (r.step a).sent as

/-- What `name` finds each time it reads, in order. -/
def found (name : String) : Relay α → List (Act α) → List Received
  | _, [] => []
  | r, a :: as => r.finds name a ++ (r.step a).found name as

/-- The ticks, steps and ends that the session reports during a sequence of acts. -/
def progress (r : Relay α) (as : List (Act α)) : List Event :=
  (r.dispatcher.session.reports (as.filterMap Act.input?)).filter (·.isProgress)

variable (r : Relay α) (name : String)

theorem after_append (as bs : List (Act α)) : r.after (as ++ bs) = (r.after as).after bs := by
  induction as generalizing r with
  | nil => rfl
  | cons a as ih => exact ih _

theorem found_append (as bs : List (Act α)) :
    r.found name (as ++ bs) = r.found name as ++ (r.after as).found name bs := by
  induction as generalizing r with
  | nil => rfl
  | cons a as ih => rw [List.cons_append, found, found, ih, List.append_assoc, after]

theorem found_eq_nil {as : List (Act α)} (silent : ∀ a ∈ as, a ≠ .drain name) :
    r.found name as = [] := by
  induction as generalizing r with
  | nil => rfl
  | cons a as ih =>
    rw [List.forall_mem_cons] at silent
    have hfinds : r.finds name a = [] := by
      cases a with
      | call | subscribe | drop => rfl
      | drain other => exact if_neg fun h => silent.1 (by rw [h])
    rw [found, hfinds, ih _ silent.2]
    rfl

/-! ## What is sent is the progress of the session -/

theorem broadcasts_step (a : Act α) :
    (r.step a).dispatcher.broadcasts = r.dispatcher.broadcasts := by
  cases a with
  | call c => exact r.dispatcher.broadcasts_step c
  | subscribe | drop | drain => rfl

theorem broadcasts_after (as : List (Act α)) :
    (r.after as).dispatcher.broadcasts = r.dispatcher.broadcasts := by
  induction as generalizing r with
  | nil => rfl
  | cons a as ih => rw [after, ih, broadcasts_step]

theorem capacity_step (a : Act α) : (r.step a).bus.capacity = r.bus.capacity := by
  cases a with
  | call c => exact r.bus.capacity_sendAll _
  | subscribe | drop => rfl
  | drain other => exact (Bus.drain_sent other).2

theorem capacity_after (as : List (Act α)) : (r.after as).bus.capacity = r.bus.capacity := by
  induction as generalizing r with
  | nil => rfl
  | cons a as ih => rw [after, ih, capacity_step]

/-- **Every piece of progress is sent once, and nothing else is.** -/
theorem tells_progress (on : r.dispatcher.broadcasts = true) (as : List (Act α)) :
    List.Forall₂ Notice.Tells (r.progress as) (r.sent as) := by
  induction as generalizing r with
  | nil => exact .nil
  | cons a as ih =>
    have ih := ih (r.step a) ((r.broadcasts_step a).trans on)
    cases a with
    | subscribe | drop | drain => exact ih
    | call c =>
      have hprogress : r.progress (.call c :: as) =
          (r.dispatcher.session.step c.input).events.filter (·.isProgress) ++
            (r.step (.call c)).progress as := by
        rw [progress, progress, List.filterMap_cons, Act.input?, Session.reports_cons,
          List.filter_append, step, Dispatcher.session_step]
      rw [hprogress, sent, tells, Dispatcher.notices_step on]
      exact List.rel_append (Notice.tells_filterMap _) ih

/-! ## The account of a subscriber -/

section Account

variable {r name}

/-- **One act keeps a subscriber's account**: what it finds or counts as missed, and what it has not
read. -/
theorem step_place {read : ℕ} (place : r.bus.subscribers.lookup name = some read)
    (within : read ≤ r.bus.sent.size) {a : Act α} (keeps : a.Keeps name) :
    ∃ later seen, (r.step a).bus.subscribers.lookup name = some later ∧
      later ≤ (r.step a).bus.sent.size ∧
      r.bus.unread read ++ r.tells a = seen ++ (r.step a).bus.unread later ∧
      Covers seen ((r.finds name a).flatMap Received.known) := by
  cases a with
  | call c =>
    have hsize : r.bus.sent.size ≤ (r.bus.sendAll (r.dispatcher.step c).notices).sent.size := by
      rw [← Array.length_toList, ← Array.length_toList, Bus.sent_sendAll, List.length_append]
      exact Nat.le_add_right _ _
    refine ⟨read, [], ?_, within.trans hsize, ?_, .nil⟩
    · rwa [step, Bus.subscribers_sendAll]
    · rw [step, Bus.unread_sendAll _ within, tells, List.nil_append]
  | subscribe other =>
    refine ⟨read, [], ?_, within, List.append_nil _, .nil⟩
    rwa [step, Bus.lookup_subscribe_of_ne _ keeps]
  | drop other =>
    refine ⟨read, [], ?_, within, List.append_nil _, .nil⟩
    rwa [step, Bus.lookup_drop_of_ne _ keeps]
  | drain other =>
    by_cases hother : other = name
    · subst hother
      have hdrain := Bus.drain_eq place
      refine ⟨r.bus.sent.size, r.bus.unread read, ?_, ?_, ?_, ?_⟩
      · rw [step, hdrain]
        exact r.bus.lookup_subscribe other
      · rw [step, hdrain]
        exact le_refl _
      · rw [step, hdrain, tells]
        exact congrArg _ r.bus.unread_size.symm
      · rw [finds, if_pos rfl, hdrain]
        simpa using r.bus.covers_received read
    · obtain ⟨hsent, -⟩ := Bus.drain_sent (b := r.bus) other
      refine ⟨read, [], ?_, ?_, ?_, ?_⟩
      · rwa [step, Bus.lookup_drain_of_ne _ hother]
      · rwa [step, hsent]
      · rw [step, Bus.unread, Bus.unread, hsent, tells, List.append_nil, List.nil_append]
      · rw [finds, if_neg hother]
        exact .nil

/-- **A run keeps a subscriber's account.** -/
theorem covers_found {read : ℕ} (place : r.bus.subscribers.lookup name = some read)
    (within : read ≤ r.bus.sent.size) {as : List (Act α)} (keeps : ∀ a ∈ as, a.Keeps name) :
    ∃ later seen, (r.after as).bus.subscribers.lookup name = some later ∧
      r.bus.unread read ++ r.sent as = seen ++ (r.after as).bus.unread later ∧
      Covers seen ((r.found name as).flatMap Received.known) := by
  induction as generalizing r read with
  | nil => exact ⟨read, [], place, List.append_nil _, .nil⟩
  | cons a as ih =>
    rw [List.forall_mem_cons] at keeps
    obtain ⟨later, seen, place, within, hseen, covers⟩ := step_place place within keeps.1
    obtain ⟨last, seen', place, hseen', covers'⟩ := ih place within keeps.2
    refine ⟨last, seen ++ seen', place, ?_, ?_⟩
    · rw [sent, after, ← List.append_assoc, hseen, List.append_assoc, hseen', List.append_assoc]
    · rw [found, List.flatMap_append]
      exact covers.append covers'

/-- `name` has just subscribed or read, so that it has nothing left to read. -/
def UpToDate (r : Relay α) (name : String) : Prop :=
  r.bus.subscribers.lookup name = some r.bus.sent.size

theorem upToDate_subscribe (r : Relay α) (name : String) :
    (r.step (.subscribe name)).UpToDate name :=
  r.bus.lookup_subscribe name

theorem upToDate_drain {read : ℕ} (place : r.bus.subscribers.lookup name = some read) :
    (r.step (.drain name)).UpToDate name := by
  rw [UpToDate, step, Bus.drain_eq place]
  exact r.bus.lookup_subscribe name

theorem UpToDate.covers_found (h : r.UpToDate name) {as : List (Act α)}
    (keeps : ∀ a ∈ as, a.Keeps name) :
    ∃ later seen, (r.after as).bus.subscribers.lookup name = some later ∧
      r.sent as = seen ++ (r.after as).bus.unread later ∧
      Covers seen ((r.found name as).flatMap Received.known) := by
  have hcovers := Relay.covers_found h (le_refl _) keeps
  rwa [Bus.unread_size, List.nil_append] at hcovers

/-- **A subscriber that had read everything finds the latest of what was sent since.** -/
theorem UpToDate.drained (h : r.UpToDate name) {as : List (Act α)}
    (keeps : ∀ a ∈ as, a.Keeps name) (silent : ∀ a ∈ as, a ≠ .drain name) :
    ∃ later, (r.after as).bus.subscribers.lookup name = some later ∧
      (r.after as).bus.received later =
        { missed := (r.sent as).length - r.bus.capacity
          notices := (r.sent as).drop ((r.sent as).length - r.bus.capacity) } := by
  obtain ⟨later, seen, place, hseen, covers⟩ := h.covers_found keeps
  rw [r.found_eq_nil name silent] at covers
  rw [List.forall₂_nil_right_iff.1 covers, List.nil_append] at hseen
  exact ⟨later, place, by rw [Bus.received_eq, ← hseen, capacity_after]⟩

end Account

/-! ## Other subscribers -/

/-- Two relays that look the same to `name`. -/
structure Alike (name : String) (r r' : Relay α) : Prop where
  dispatcher : r.dispatcher = r'.dispatcher
  capacity : r.bus.capacity = r'.bus.capacity
  sent : r.bus.sent = r'.bus.sent
  place : r.bus.subscribers.lookup name = r'.bus.subscribers.lookup name

namespace Alike

variable {name : String} {r r' : Relay α}

theorem step_left (h : Alike name r r') {a : Act α} (others : a.concerns name = false) :
    Alike name (r.step a) r' ∧ r.finds name a = [] := by
  cases a with
  | call => cases others
  | subscribe other =>
    have hne : other ≠ name := beq_eq_false_iff_ne.1 others
    exact ⟨⟨h.dispatcher, h.capacity, h.sent, (r.bus.lookup_subscribe_of_ne hne).trans h.place⟩, rfl⟩
  | drop other =>
    have hne : other ≠ name := beq_eq_false_iff_ne.1 others
    exact ⟨⟨h.dispatcher, h.capacity, h.sent, (r.bus.lookup_drop_of_ne hne).trans h.place⟩, rfl⟩
  | drain other =>
    have hne : other ≠ name := beq_eq_false_iff_ne.1 others
    obtain ⟨hsent, hcapacity⟩ := Bus.drain_sent (b := r.bus) other
    exact ⟨⟨h.dispatcher, hcapacity.trans h.capacity, hsent.trans h.sent,
      (r.bus.lookup_drain_of_ne hne).trans h.place⟩, if_neg hne⟩

theorem step (h : Alike name r r') {a : Act α} (own : a.concerns name = true) :
    Alike name (r.step a) (r'.step a) ∧ r.finds name a = r'.finds name a := by
  obtain ⟨hdispatcher, hcapacity, hsent, hplace⟩ := h
  cases a with
  | call c =>
    refine ⟨⟨by rw [Relay.step, Relay.step, hdispatcher], ?_, ?_, ?_⟩, rfl⟩
    · rw [Relay.step, Relay.step, Bus.capacity_sendAll, Bus.capacity_sendAll, hcapacity]
    · rw [Relay.step, Relay.step, ← Array.toList_inj, Bus.sent_sendAll, Bus.sent_sendAll, hsent,
        hdispatcher]
    · rw [Relay.step, Relay.step, Bus.subscribers_sendAll, Bus.subscribers_sendAll, hplace]
  | subscribe other =>
    obtain rfl : other = name := beq_iff_eq.1 own
    refine ⟨⟨hdispatcher, hcapacity, hsent, ?_⟩, rfl⟩
    rw [Relay.step, Relay.step, Bus.lookup_subscribe, Bus.lookup_subscribe, hsent]
  | drop other =>
    obtain rfl : other = name := beq_iff_eq.1 own
    refine ⟨⟨hdispatcher, hcapacity, hsent, ?_⟩, rfl⟩
    rw [Relay.step, Relay.step, Bus.lookup_drop, Bus.lookup_drop]
  | drain other =>
    obtain rfl : other = name := beq_iff_eq.1 own
    rw [Relay.step, Relay.step, finds, finds, if_pos rfl, if_pos rfl]
    cases hread : r.bus.subscribers.lookup other with
    | none =>
      rw [Bus.drain_none hread, Bus.drain_none (hplace.symm.trans hread)]
      exact ⟨⟨hdispatcher, hcapacity, hsent, hplace⟩, rfl⟩
    | some read =>
      have hreceived : r.bus.received read = r'.bus.received read := by
        rw [Bus.received, Bus.received, hsent, hcapacity]
      rw [Bus.drain_eq hread, Bus.drain_eq (hplace.symm.trans hread), hreceived]
      refine ⟨⟨hdispatcher, hcapacity, hsent, ?_⟩, rfl⟩
      rw [Bus.lookup_subscribe, Bus.lookup_subscribe, hsent]

/-- **Without the others everything looks the same.** -/
theorem found_filter (h : Alike name r r') (as : List (Act α)) :
    r.found name as = r'.found name (as.filter (·.concerns name)) := by
  induction as generalizing r r' with
  | nil => rfl
  | cons a as ih =>
    cases hown : a.concerns name with
    | true =>
      obtain ⟨hstep, hfinds⟩ := h.step hown
      rw [List.filter_cons_of_pos hown, found, found, hfinds, ih hstep]
    | false =>
      obtain ⟨hstep, hfinds⟩ := h.step_left hown
      rw [List.filter_cons_of_neg (by rw [hown]; exact Bool.false_ne_true), found, hfinds,
        ih hstep, List.nil_append]

end Alike

/-! ## The account of a subscriber, over a whole run -/

theorem tells_of_covers {events : List Event} {ns : List Notice} {known : List (Option Notice)}
    (tells : List.Forall₂ Notice.Tells events ns) (covers : Covers ns known) :
    List.Forall₂ (fun event k => ∀ n ∈ k, Notice.Tells event n) events known := by
  induction tells generalizing known with
  | nil =>
    cases covers
    exact .nil
  | cons told tells ih =>
    cases covers with
    | cons same covers =>
      refine .cons (fun n hn => ?_) (ih covers)
      rw [same n hn]
      exact told

/-- **A subscriber can account for every event.** What it finds, with a gap for what it has missed,
has one place for each notice, and the latest notices are found as far as they are kept. -/
theorem every_event_accounted (cap : UInt32) (capacity : ℕ) (name : String)
    (before as : List (Act α)) (keeps : ∀ a ∈ as, a.Keeps name) :
    let start : Relay α := ((new cap capacity).after before).step (.subscribe name)
    let kept := (max capacity 1).nextPowerOfTwo
    (∀ us vs, as = us ++ .drain name :: vs → (∀ a ∈ vs, a ≠ .drain name) →
      List.Forall₂ (fun event k => ∀ n ∈ k, Notice.Tells event n) (start.progress us)
        ((start.found name as).flatMap Received.known)) ∧
    (∀ us vs ws, as = us ++ (vs ++ .drain name :: ws) → (∀ a ∈ vs, a ≠ .drain name) →
      (us = [] ∨ ∃ us', us = us' ++ [.drain name]) →
        let pending := (start.after us).progress vs
        let bus := ((start.after us).after vs).bus
        ∃ place missed notices, bus.subscribers.lookup name = some place ∧
          (bus.drain name).1 = some { missed := missed, notices := notices } ∧
          bus.readings place =
            (if missed = 0 then [] else [.lagged missed]) ++ notices.map .notice ∧
          missed = pending.length - kept ∧
          (missed ≠ 0 → kept < pending.length ∧ notices.length = kept) ∧
          List.Forall₂ Notice.Tells (pending.drop missed) notices) ∧
    ∀ acts : List (Act α), (new cap capacity).found name acts =
      (new cap capacity).found name (acts.filter (·.concerns name)) := by
  intro start kept
  have fresh : start.UpToDate name := upToDate_subscribe _ name
  have on : start.dispatcher.broadcasts = true :=
    (broadcasts_step _ _).trans (broadcasts_after _ _)
  have capacity_start : start.bus.capacity = kept := (capacity_step _ _).trans (capacity_after _ _)
  refine ⟨fun us vs has silent => ?_, fun us vs ws has silent ends => ?_, fun acts => ?_⟩
  · -- the last reading takes what was not read before
    subst has
    rw [List.forall_mem_append] at keeps
    obtain ⟨later, seen, place, hseen, covers⟩ := fresh.covers_found keeps.1
    have hfound : start.found name (us ++ .drain name :: vs) =
        start.found name us ++ [(start.after us).bus.received later] := by
      rw [found_append, found, found_eq_nil _ name silent, finds, if_pos rfl, Bus.drain_eq place]
      rfl
    have hknown := covers.append ((start.after us).bus.covers_received later)
    rw [← hseen] at hknown
    rw [hfound, List.flatMap_append, List.flatMap_singleton]
    exact tells_of_covers (start.tells_progress on us) hknown
  · subst has
    simp only [List.forall_mem_append] at keeps
    -- right behind its subscription or a reading of its own, `name` has read everything
    have hus : (start.after us).UpToDate name := by
      rcases ends with rfl | ⟨us', rfl⟩
      · exact fresh
      · obtain ⟨later, -, place, -⟩ := fresh.covers_found (List.forall_mem_append.1 keeps.1).1
        rw [after_append]
        exact upToDate_drain place
    have tells := (start.after us).tells_progress ((broadcasts_after _ us).trans on) vs
    have hlength := tells.length_eq
    obtain ⟨later, place, hreceived⟩ := hus.drained keeps.2.1 silent
    rw [capacity_after, capacity_start, ← hlength] at hreceived
    refine ⟨later, _, ((start.after us).sent vs).drop (((start.after us).progress vs).length - kept),
      place, ?_, ?_, rfl, fun hmissed => ?_, ?_⟩
    · rw [Bus.drain_eq place, hreceived]
    · rw [Bus.readings_eq, hreceived]
      rfl
    · rw [List.length_drop, ← hlength]
      omega
    · exact List.forall₂_drop _ tells
  · exact Alike.found_filter ⟨rfl, rfl, rfl, rfl⟩ acts

/-- A bus that keeps one notice, and a subscriber that reads at the end. -/
theorem every_event_accounted_late :
    let acts : List (Act Unit) :=
      [.call (.evaluate "[(1s)2] tea" "doc" {}), .subscribe "quick", .call (.tick 1),
        .drain "quick", .call (.tick 1)]
    let start : Relay Unit := ((new 99 0).after []).step (.subscribe "slow")
    (∀ a ∈ acts ++ [.drain "slow"], a.Keeps "slow") ∧
      start.found "slow" (acts ++ [.drain "slow"]) =
        [{ missed := 3, notices := [.finish "tea"] }] ∧
      List.Forall₂ (fun event k => ∀ n ∈ k, Notice.Tells event n) (start.progress acts)
        ((start.found "slow" (acts ++ [.drain "slow"])).flatMap Received.known) := by
  intro acts start
  have keeps : ∀ a ∈ acts ++ [.drain "slow"], a.Keeps "slow" := by
    simp [acts, Act.Keeps]
  have accounted := (every_event_accounted 99 0 "slow" [] (acts ++ [.drain "slow"]) keeps).1
  have silent : ∀ a ∈ ([] : List (Act Unit)), a ≠ .drain "slow" := by simp
  refine ⟨keeps, by decide +kernel, ?_⟩
  exact accounted acts [] rfl silent

end Relay

end TaskTimer
