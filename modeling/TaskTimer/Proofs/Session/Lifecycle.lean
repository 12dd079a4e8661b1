import TaskTimer.Proofs.Session.Run

/-!
# The life of a plan

A plan is open from its start until the next end or cancellation. What a session reports is told
apart by that: progress is made by the plan that is open, and by no other.

* `openPlan`: the plan that is open after some events.
* `Along`: what holds of every event together with the plan that is open when it comes.
* `Session.Tracks`: a session has started a timer exactly while a plan is open, and holds it.
* `Session.Tracks.move`: every move keeps that and reports what it allows.
* `Session.Move.events_of_finish`, `Session.Move.cancels`: how plans end.
* **`Session.plans_live_in_order`**: the whole life of every plan.
-/

namespace TaskTimer

namespace Event

/-- The plan that is open after an event, if `opened` was open before: the declaration with which
it started. -/
def openAfter (opened : Option Declaration) : Event → Option Declaration
  | .start d => some d
  | .finish _ | .cancel => none
  | .interval .. | .step .. => opened

/-- The event ends the plan that is open. -/
def closes : Event → Bool
  | .finish _ | .cancel => true
  | .start _ | .interval .. | .step .. => false

/-- Progress is made by the plan that is open, under a declaration with the same content. -/
def IsOwned (opened : Option Declaration) (event : Event) : Prop :=
  event.isProgress = true →
    ∃ d c, opened = some d ∧ event.declaration? = some c ∧ d.sameContent c = true

/-- What may be reported in answer to `i` while `opened` says which plan is open. -/
structure IsAllowed (i : Input) (opened : Option Declaration) (event : Event) : Prop where
  owned : event.IsOwned opened
  /-- A start comes while no plan is open, unless a timer starts over. -/
  inTime : ∀ d, event = .start d → opened ≠ none → i = .retry

end Event

/-- The plan that is open after some events: that of the last start, if neither an end nor a
cancellation has come since. -/
def openPlan (events : List Event) : Option Declaration := events.foldl Event.openAfter none

/-- Every event satisfies `p` together with the plan that is open when it comes. -/
def Along (p : Option Declaration → Event → Prop) : Option Declaration → List Event → Prop
  | _, [] => True
  | opened, event :: events => p opened event ∧ Along p (event.openAfter opened) events

section Along

variable {p q : Option Declaration → Event → Prop} {opened : Option Declaration}

theorem along_append {xs ys : List Event} :
    Along p opened (xs ++ ys) ↔
      Along p opened xs ∧ Along p (xs.foldl Event.openAfter opened) ys := by
  induction xs generalizing opened with
  | nil => simp [Along]
  | cons x xs ih => simp only [List.cons_append, Along, ih, List.foldl_cons, and_assoc]

theorem Along.mono (hpq : ∀ opened event, p opened event → q opened event) {xs : List Event}
    (h : Along p opened xs) : Along q opened xs := by
  induction xs generalizing opened with
  | nil => trivial
  | cons x xs ih => exact ⟨hpq _ _ h.1, ih h.2⟩

theorem Along.at {xs earlier later : List Event} {event : Event} (h : Along p opened xs)
    (hxs : xs = earlier ++ event :: later) : p (earlier.foldl Event.openAfter opened) event := by
  rw [hxs, along_append] at h
  exact h.2.1

end Along

theorem mem_of_foldl_openAfter {xs : List Event} {opened : Option Declaration} {d : Declaration}
    (h : xs.foldl Event.openAfter opened = some d) : opened = some d ∨ Event.start d ∈ xs := by
  induction xs generalizing opened with
  | nil => exact .inl h
  | cons x xs ih =>
    rcases ih h with hnow | hlater
    · cases x <;> simp_all [Event.openAfter]
    · exact .inr (List.mem_cons_of_mem _ hlater)

theorem start_mem_of_closes {earlier between : List Event} {event : Event} {d : Declaration}
    (closes : event.closes = true) (h : openPlan (earlier ++ event :: between) = some d) :
    Event.start d ∈ between := by
  have closed : ∀ opened, event.openAfter opened = none := by
    intro opened
    cases event with
    | finish | cancel => rfl
    | start | interval | step => cases closes
  rw [openPlan, List.foldl_append, List.foldl_cons, closed] at h
  rcases mem_of_foldl_openAfter h with h | h
  · cases h
  · exact h

namespace Plan

variable {p : Plan} {i : ℕ} {d : Declaration} {opened : Option Declaration}

theorem along_ending {q : Option Declaration → Event → Prop}
    (h : ∀ event ∈ p.ending d i, q opened event) : Along q opened (p.ending d i) := by
  unfold ending at h ⊢
  split
  · split <;> simp_all [Along]
  · simp_all [Along]

theorem foldl_openAfter_ending_next {next : Entry} (follows : p.entries[i + 1]? = some next) :
    (p.ending d i).foldl Event.openAfter opened = opened := by
  simp only [ending, follows]
  split <;> rfl

theorem foldl_openAfter_ending_last (last : p.entries[i + 1]? = none) :
    (p.ending d i).foldl Event.openAfter opened = none := by
  simp [ending, last, Event.openAfter]

end Plan

namespace Session

/-- The session has started a timer exactly while a plan is open, and the declaration that it then
holds is that of the plan, maybe in another form. -/
structure Tracks (s : Session) (opened : Option Declaration) : Prop where
  closed : opened = none → s.started = false
  held : ∀ d, opened = some d →
    s.started = true ∧ ∃ c, s.declaration = some c ∧ d.sameContent c = true

namespace Tracks

theorem waiting {s : Session} (waiting : s.started = false) : s.Tracks none where
  closed := fun _ => waiting
  held := fun _ h => nomatch h

theorem started {s : Session} {d : Declaration} (started : s.started = true)
    (held : s.declaration = some d) : s.Tracks (some d) where
  closed := fun h => nomatch h
  held := by
    rintro _ ⟨⟩
    exact ⟨started, d, held, d.sameContent_refl⟩

variable {cap : UInt32} {s : Session} {opened : Option Declaration} (h : s.Tracks opened)

include h

theorem eq_none (waiting : s.started = false) : opened = none := by
  cases hopened : opened with
  | none => rfl
  | some d =>
    have hstarted := (h.held d hopened).1
    simp [waiting] at hstarted

theorem same {s' : Session} (started : s'.started = s.started)
    (held : ∀ c, s.declaration = some c →
      ∃ c', s'.declaration = some c' ∧ c.sameContent c' = true) : s'.Tracks opened where
  closed := fun hopened => started.trans (h.closed hopened)
  held := by
    intro d hopened
    obtain ⟨hstarted, c, hc, hsame⟩ := h.held d hopened
    obtain ⟨c', hc', hsame'⟩ := held c hc
    exact ⟨started.trans hstarted, c', hc', Declaration.sameContent_trans hsame hsame'⟩

theorem keep {s' : Session} (started : s'.started = s.started)
    (held : s'.declaration = s.declaration) : s'.Tracks opened :=
  h.same started fun c hc => ⟨c, held.trans hc, c.sameContent_refl⟩

theorem hold {c d : Declaration} (held : s.declaration = some c) (same : c.sameContent d = true)
    (phase : Phase) : { s.hold d with phase := phase }.Tracks opened := by
  refine h.same rfl fun c' hc' => ⟨d, rfl, ?_⟩
  obtain rfl : c = c' := Option.some.inj (held.symm.trans hc')
  exact same

/-! ## Moves -/

omit h in
theorem along_cancellation {i : Input} :
    Along (Event.IsAllowed i) opened s.cancellation := by
  unfold cancellation
  split
  · exact ⟨⟨nofun, nofun⟩, trivial⟩
  · trivial

variable {i : Input} (inv : s.Invariant cap)

include inv

theorem running (running : s.phase = .running) {d : Declaration} (held : s.declaration = some d) :
    ∃ d₀, opened = some d₀ ∧ d₀.sameContent d = true := by
  have hstarted := (inv.running running).1
  cases hopened : opened with
  | none => exact nomatch hstarted.symm.trans (h.closed hopened)
  | some d₀ =>
    obtain ⟨-, c, hc, same⟩ := h.held d₀ hopened
    obtain rfl : d = c := Option.some.inj (held.symm.trans hc)
    exact ⟨d₀, rfl, same⟩

theorem foldl_cancellation : s.cancellation.foldl Event.openAfter opened = none := by
  unfold cancellation
  split
  · rfl
  · rename_i inactive
    have idle : s.phase = .idle := by simpa [isActive] using inactive
    exact h.eq_none (inv.idle idle).2

theorem allowed (running : s.phase = .running) {d : Declaration} (held : s.declaration = some d)
    {event : Event} (hprogress : event.isProgress = true)
    (hevent : event.declaration? = some d) : event.IsAllowed i opened := by
  obtain ⟨d₀, hopened, same⟩ := h.running inv running held
  refine ⟨fun _ => ⟨d₀, d, hopened, hevent, same⟩, ?_⟩
  rintro d' rfl
  cases hprogress

theorem along_ending (running : s.phase = .running) {d : Declaration}
    (held : s.declaration = some d) (position : ℕ) :
    Along (Event.IsAllowed i) opened (s.plan.ending d position) := by
  refine Plan.along_ending fun event hevent => ?_
  exact h.allowed inv running held (Plan.isProgress_ending hevent) (Plan.declaration_ending hevent)

/-- **Every move reports what the plan that is open allows**, and still holds what is open. -/
theorem move {t : Transition} (hmove : s.Move i t) :
    Along (Event.IsAllowed i) opened t.events ∧
      t.session.Tracks (t.events.foldl Event.openAfter opened) := by
  cases hmove with
  | unchanged | ignore | stillMissing | elsewhere | idle | lost | stopIdle | retryNothing =>
    exact ⟨trivial, h.keep rfl rfl⟩
  | pause held same | resume held same | note held same => exact ⟨trivial, h.hold held same _⟩
  | firstStart _ _ _ _ _ waiting =>
    refine ⟨⟨⟨nofun, fun d _ hopened => ?_⟩, trivial⟩, .started rfl rfl⟩
    exact absurd (h.eq_none waiting) hopened
  | drop | take => exact ⟨along_cancellation, h.foldl_cancellation inv ▸ .waiting rfl⟩
  | launch =>
    rw [along_append, List.foldl_append, h.foldl_cancellation inv]
    refine ⟨⟨along_cancellation, ⟨nofun, fun d _ hopened => ?_⟩, trivial⟩, .started rfl rfl⟩
    exact absurd rfl hopened
  | nothing free =>
    exact ⟨⟨⟨nofun, nofun⟩, trivial⟩, .waiting (inv.idle (inv.idle_of_free free)).2⟩
  | remove | stop => exact ⟨⟨⟨nofun, nofun⟩, trivial⟩, .waiting rfl⟩
  | count _ running held =>
    exact ⟨⟨h.allowed inv running held rfl rfl, trivial⟩, h.keep rfl rfl⟩
  | advance _ running held _ _ follows =>
    refine ⟨⟨h.allowed inv running held rfl rfl, h.along_ending inv running held _⟩, ?_⟩
    rw [List.foldl_cons, Plan.foldl_openAfter_ending_next follows]
    exact h.keep rfl rfl
  | finish _ running held _ _ last =>
    refine ⟨⟨h.allowed inv running held rfl rfl, h.along_ending inv running held _⟩, ?_⟩
    rw [List.foldl_cons, Plan.foldl_openAfter_ending_last last]
    exact .waiting rfl
  | retry => exact ⟨⟨⟨nofun, fun _ _ _ => rfl⟩, trivial⟩, .started rfl rfl⟩

end Tracks

/-! ## How plans end -/

/-- What `s` holds is not held in `s'`, where there may be another timer or none. -/
def GivesUp (s s' : Session) : Prop :=
  ∀ c c', s.declaration = some c → s'.declaration = some c' → c.sameContent c' = false

namespace Move

variable {s : Session} {i : Input} {t : Transition}

/-- **Plans end on their last tick**, which reports first that nothing is left. -/
theorem events_of_finish (h : s.Move i t) {d : Declaration} (hfinish : Event.finish d ∈ t.events) :
    ∃ generation duration label symbol, i = .tick generation ∧
      t.events = [.interval 0 duration label symbol d, .finish d] := by
  have quiet : Event.finish d ∉ s.cancellation := by
    unfold cancellation
    split <;> simp
  cases h with
  | unchanged | pause | resume | note | ignore | stillMissing | elsewhere | idle | lost | stopIdle
  | retryNothing => cases hfinish
  | firstStart | nothing | remove | stop | retry => simp at hfinish
  | drop | take => exact absurd hfinish quiet
  | launch => simp [quiet] at hfinish
  | count => simp [passed] at hfinish
  | advance _ _ _ _ _ follows =>
    simp only [Plan.ending, follows, passed, List.mem_cons, reduceCtorEq, false_or] at hfinish
    split at hfinish <;> simp at hfinish
  | @finish generation d' e _ _ _ _ ended last =>
    obtain rfl : d = d' := by simpa [Plan.ending, last, passed] using hfinish
    refine ⟨generation, e.seconds, e.stepLabel, e.symbol, rfl, ?_⟩
    simp only [Plan.ending, last, passed, ended]

/-- **What gives way is cancelled**, once and before anything else. -/
theorem cancels {cap : UInt32} {scanned : Option Declaration} {document : String}
    (h : s.Move (.evaluate scanned document) t) (inv : s.Invariant cap)
    (active : s.isActive = true) (gone : s.GivesUp t.session) :
    ∃ rest, t.events = .cancel :: rest ∧ Event.cancel ∉ rest := by
  have hcancel : s.cancellation = [.cancel] := if_pos active
  cases h with
  | @unchanged c _ _ held | @ignore c _ _ held | @elsewhere c _ held =>
    exact nomatch c.sameContent_refl.symm.trans (gone c c held held)
  | pause held same | resume held same | firstStart held same | note held same =>
    exact nomatch same.symm.trans (gone _ _ held rfl)
  | drop | take => exact ⟨[], hcancel, List.not_mem_nil⟩
  | @launch d => exact ⟨[.start d], by rw [hcancel]; rfl, by simp⟩
  | stillMissing free | nothing free => simp [isActive, inv.idle_of_free free] at active
  | remove => exact ⟨[], rfl, List.not_mem_nil⟩

end Move

/-! ## Runs -/

theorem Tracks.reports {cap : UInt32} {s : Session} {opened : Option Declaration}
    (h : s.Tracks opened) (inv : s.Invariant cap) {is : List Input} (fed : ∀ i ∈ is, i.IsFed) :
    Along Event.IsOwned opened (s.reports is) ∧
      (s.after is).Tracks ((s.reports is).foldl Event.openAfter opened) := by
  induction is generalizing s opened with
  | nil => exact ⟨trivial, h⟩
  | cons i is ih =>
    rw [List.forall_mem_cons] at fed
    obtain ⟨hnow, hnext⟩ := h.move inv (s.move_step i)
    obtain ⟨hlater, hlast⟩ := ih hnext (inv.move (s.move_step i) fed.1) fed.2
    rw [reports_cons, along_append, List.foldl_append]
    exact ⟨⟨hnow.mono fun _ _ allowed => allowed.owned, hlater⟩, hlast⟩

/-- **Plans live in order.** Progress belongs to the plan that is open, no plan ends twice or starts
twice without starting over, and one that gives way is cancelled once. -/
theorem plans_live_in_order {cap : UInt32} {is : List Input} (fed : ∀ i ∈ is, i.IsFed) :
    let s := Session.new cap
    (∀ earlier event later, s.reports is = earlier ++ event :: later → event.isProgress = true →
      ∃ d c, openPlan earlier = some d ∧ event.declaration? = some c ∧ d.sameContent c = true) ∧
    (∀ earlier x between y later, s.reports is = earlier ++ x :: (between ++ y :: later) →
      x.closes = true → y.isProgress = true → ∃ d, Event.start d ∈ between) ∧
    ∀ before i behind, is = before ++ i :: behind →
      let current := s.after before
      let t := current.step i
      (∀ earlier d later, t.events = earlier ++ .start d :: later →
        openPlan (s.reports before ++ earlier) ≠ none → i = .retry) ∧
      (∀ earlier d later, t.events = earlier ++ .finish d :: later →
        ∃ generation duration label symbol, i = .tick generation ∧
          earlier = [.interval 0 duration label symbol d]) ∧
      (∀ scanned document, i = .evaluate scanned document → current.isActive = true →
        current.GivesUp t.session → ∃ rest, t.events = .cancel :: rest ∧ Event.cancel ∉ rest) := by
  intro s
  have hnew : s.Tracks none := .waiting rfl
  have progress : ∀ earlier event later, s.reports is = earlier ++ event :: later →
      event.isProgress = true → ∃ d c, openPlan earlier = some d ∧
        event.declaration? = some c ∧ d.sameContent c = true := by
    intro earlier event later hreports hprogress
    exact (hnew.reports (.new cap) fed).1.at hreports hprogress
  refine ⟨progress, fun earlier x between y later hreports hx hy => ?_,
    fun before i behind his => ?_⟩
  · obtain ⟨d, c, hopen, -⟩ := progress (earlier ++ x :: between) y later (by simp [hreports]) hy
    exact ⟨d, start_mem_of_closes hx hopen⟩
  · intro current t
    subst his
    have fedBefore : ∀ j ∈ before, j.IsFed := fun j hj => fed j (List.mem_append_left _ hj)
    have hmove : current.Move i t := current.move_step i
    have inv : current.Invariant cap := (Reachable.new.after fedBefore).invariant
    have htracks := (hnew.reports (.new cap) fedBefore).2
    refine ⟨fun earlier d later hevents hopen => ?_, fun earlier d later hevents => ?_, ?_⟩
    · rw [openPlan, List.foldl_append] at hopen
      exact ((htracks.move inv hmove).1.at hevents).inTime d rfl hopen
    · obtain ⟨generation, duration, label, symbol, hi, hfinish⟩ :=
        hmove.events_of_finish (d := d) (by rw [hevents]; simp)
      refine ⟨generation, duration, label, symbol, hi, ?_⟩
      rw [hfinish] at hevents
      rcases earlier with _ | ⟨first, _ | ⟨second, more⟩⟩ <;> simp_all
    · rintro scanned document rfl active gone
      exact hmove.cancels inv active gone

/-- A timer ends, is started over, and gives way to the eggs of a list. -/
theorem plans_live_in_order_eggs :
    let tea : Declaration := ⟨"doc", 0, 0, false, "1s", [.leaf 1 none], "tea"⟩
    let eggs : Declaration := ⟨"list", 0, 0, false, "2s", [.leaf 2 none], "eggs"⟩
    let before : List Input := [.evaluate (scan "[1s] tea" "doc") "doc", .tick 1, .retry]
    let i : Input := .evaluate (scan "[2s] eggs" "list") "list"
    let s := Session.new 99
    (∀ j ∈ before ++ [i], j.IsFed) ∧
      s.reports (before ++ [i]) = [.start tea, .interval 0 1 "" none tea, .finish tea, .start tea,
        .cancel, .start eggs] ∧
      (∃ d c, openPlan [.start tea] = some d ∧ some tea = some c ∧ d.sameContent c = true) ∧
      ∃ rest, ((s.after before).step i).events = .cancel :: rest ∧ Event.cancel ∉ rest := by
  intro tea eggs before i s
  have fed : ∀ j ∈ before ++ [i], j.IsFed := by
    simp only [before, i, List.cons_append, List.nil_append, List.forall_mem_cons]
    exact ⟨.evaluate _ _, .tick 1, .retry, .evaluate _ _, by simp⟩
  have hreports : s.reports (before ++ [i]) = [.start tea, .interval 0 1 "" none tea, .finish tea,
      .start tea, .cancel, .start eggs] := by decide +kernel
  obtain ⟨progress, -, steps⟩ := @plans_live_in_order 99 _ fed
  obtain ⟨-, -, gives⟩ := steps before i [] rfl
  have htea : (s.after before).declaration = some tea := by decide +kernel
  have heggs : ((s.after before).step i).session.declaration = some eggs := by decide +kernel
  refine ⟨fed, hreports, progress [.start tea] _ _ hreports rfl,
    gives _ _ rfl (by decide +kernel) fun c c' hc hc' => ?_⟩
  obtain rfl : tea = c := Option.some.inj (htea.symm.trans hc)
  obtain rfl : eggs = c' := Option.some.inj (heggs.symm.trans hc')
  decide

end Session

end TaskTimer
