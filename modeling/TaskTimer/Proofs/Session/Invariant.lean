import TaskTimer.Proofs.Session.Move
import TaskTimer.Proofs.Task.Content

/-!
# What holds of every session

* `Input.IsFed`, `Session.Reachable`: inputs that come from texts, and the sessions they lead to.
* `Session.Invariant`: how the parts of a session fit together.
* `Session.Invariant.move`: every move keeps the invariant.
* `Session.Reachable.invariant`: the invariant holds of every session that is reached.
* **`Session.reachable_consistent`**: so a timer that runs always has a countdown to go on with.
-/

namespace TaskTimer

/-- An input as it comes from outside: an evaluation hands over what the scan of a text found. -/
inductive Input.IsFed : Input → Prop
  | evaluate (text document : String) : IsFed (.evaluate (scan text document) document)
  | tick (generation : Nat) : IsFed (.tick generation)
  | stop : IsFed .stop
  | retry : IsFed .retry

theorem Input.IsFed.isScanned {d : Declaration} {document : String}
    (fed : (Input.evaluate (some d) document).IsFed) : d.IsScanned := by
  generalize hfound : some d = found at fed
  cases fed with
  | evaluate text => exact ⟨text, document, hfound.symm⟩

namespace Session

/-- The sessions that inputs from texts lead to. -/
inductive Reachable (cap : UInt32) : Session → Prop
  | new : Reachable cap (.new cap)
  | step {s : Session} {i : Input} (h : Reachable cap s) (fed : i.IsFed) :
      Reachable cap (s.step i).session

/-- How the parts of a session with the loop cap `cap` fit together. -/
structure Invariant (cap : UInt32) (s : Session) : Prop where
  loopCap : s.loopCap = cap
  /-- The last declaration that was taken up comes from a document and has something to run. -/
  latest : ∀ d, s.latest = some d → d.IsScanned ∧ (Plan.layout cap d.nodes).size ≠ 0
  held : ∀ d, s.declaration = some d → s.latest = some d ∧ s.plan = Plan.layout cap d.nodes
  idle : s.phase = .idle → s.remaining = 0 ∧ s.started = false
  active : s.phase ≠ .idle → ∃ d e, s.declaration = some d ∧
    s.plan.entries[s.position]? = some e ∧ s.remaining ≤ e.seconds ∧
    (s.remaining = 0 → e.seconds = 0)
  running : s.phase = .running →
    s.started = true ∧ ∀ d, s.declaration = some d → d.paused = false
  paused : s.phase = .paused → ∀ d, s.declaration = some d → d.paused = true
  /-- A timer that waits for its first start is untouched. -/
  waiting : s.phase = .paused → s.started = false →
    s.position = 0 ∧ ∀ e, s.plan.entries[0]? = some e → s.remaining = e.seconds

namespace Invariant

theorem rest {cap : UInt32} {s : Session} (loopCap : s.loopCap = cap)
    (latest : ∀ d, s.latest = some d → d.IsScanned ∧ (Plan.layout cap d.nodes).size ≠ 0)
    (held : ∀ d, s.declaration = some d → s.latest = some d ∧ s.plan = Plan.layout cap d.nodes)
    (phase : s.phase = .idle) (remaining : s.remaining = 0) (started : s.started = false) :
    s.Invariant cap where
  loopCap := loopCap
  latest := latest
  held := held
  idle := fun _ => ⟨remaining, started⟩
  active := fun h => absurd phase h
  running := fun h => nomatch phase.symm.trans h
  paused := fun h => nomatch phase.symm.trans h
  waiting := fun h => nomatch phase.symm.trans h

theorem new (cap : UInt32) : (Session.new cap).Invariant cap :=
  .rest rfl (fun _ h => nomatch h) (fun _ h => nomatch h) rfl rfl rfl

variable {cap : UInt32} {s : Session} (inv : s.Invariant cap)

include inv

theorem countdown (running : s.phase = .running) : ∃ d e, s.declaration = some d ∧
    s.plan.entries[s.position]? = some e ∧ s.remaining ≤ e.seconds ∧
    (s.remaining = 0 → e.seconds = 0) :=
  inv.active (by rw [running]; decide)

theorem idle_of_free (free : s.declaration = none) : s.phase = .idle := by
  by_contra active
  obtain ⟨d, -, held, -⟩ := inv.active active
  cases held.symm.trans free

/-! ## The parts of a move -/

theorem setCleared (cleared : Option String) : { s with cleared := cleared }.Invariant cap :=
  ⟨inv.loopCap, inv.latest, inv.held, inv.idle, inv.active, inv.running, inv.paused, inv.waiting⟩

theorem halt (position : Nat) : { s with position := position }.halt.Invariant cap :=
  .rest inv.loopCap inv.latest inv.held rfl rfl rfl

theorem release (plan : Plan) (cleared : Option String) :
    { s.release with plan := plan, cleared := cleared }.Invariant cap :=
  .rest inv.loopCap inv.latest (fun _ h => nomatch h) rfl rfl rfl

omit inv in
/-- **A scanned declaration at the start of its plan.** -/
theorem install {d : Declaration} {plan : Plan} {started : Bool} (hcap : s.loopCap = cap)
    (hlatest : s.latest = some d) (hscan : d.IsScanned)
    (hplan : plan = Plan.layout s.loopCap d.nodes) (hsize : plan.size ≠ 0)
    (hstart : d.paused = false → started = true) :
    { s.install d plan with started := started }.Invariant cap := by
  rw [hcap] at hplan
  obtain ⟨e, he⟩ := Plan.exists_first hsize
  have hremaining : (s.install d plan).remaining = e.seconds := s.remaining_install d he
  refine
    { loopCap := hcap
      latest := fun d' h => ?_
      held := fun d' h => ?_
      idle := fun h => absurd h (s.phase_install_ne_idle d plan)
      active := fun _ => ⟨d, e, rfl, he, ?_, fun h => ?_⟩
      running := fun h => ?_
      paused := fun h d' hd' => ?_
      waiting := fun _ _ => ⟨rfl, fun e' he' => ?_⟩ }
  · obtain rfl : d = d' := Option.some.inj (hlatest.symm.trans h)
    exact ⟨hscan, hplan ▸ hsize⟩
  · obtain rfl : d = d' := Option.some.inj h
    exact ⟨hlatest, hplan⟩
  · change (s.install d plan).remaining ≤ e.seconds
    rw [hremaining]
    exact UInt64.le_refl _
  · rw [← hremaining]
    exact h
  · have hd : d.paused = false := (s.phase_install_running d plan).1 h
    exact ⟨hstart hd, fun d' hd' => Option.some.inj hd' ▸ hd⟩
  · exact Option.some.inj hd' ▸ (s.phase_install_paused d plan).1 h
  · obtain rfl : e = e' := Option.some.inj (he.symm.trans he')
    exact hremaining

/-- **The same timer in another form.** The notation has not changed, so neither have the nodes. -/
theorem hold {c d : Declaration} {phase : Phase} {started : Bool} {generation : Nat}
    (held : s.declaration = some c) (same : c.sameContent d = true) (hscan : d.IsScanned)
    (hidle : phase = .idle → s.phase = .idle ∧ started = s.started)
    (hactive : phase ≠ .idle → s.phase ≠ .idle)
    (hrunning : phase = .running → started = true ∧ d.paused = false)
    (hpaused : phase = .paused → d.paused = true ∧
      (started = false → s.phase = .paused ∧ s.started = false)) :
    { s.hold d with phase := phase, started := started, generation := generation }.Invariant
      cap := by
  obtain ⟨hlatest, hplan⟩ := inv.held c held
  obtain ⟨hc, hsize⟩ := inv.latest c hlatest
  have hnodes : c.nodes = d.nodes := hc.nodes_eq hscan same
  rw [hnodes] at hplan hsize
  refine
    { loopCap := inv.loopCap
      latest := fun d' h => ?_
      held := fun d' h => ?_
      idle := fun h => ?_
      active := fun h => ?_
      running := fun h => ⟨(hrunning h).1, fun d' hd' => Option.some.inj hd' ▸ (hrunning h).2⟩
      paused := fun h d' hd' => Option.some.inj hd' ▸ (hpaused h).1
      waiting := fun h hstarted => ?_ }
  · obtain rfl : d = d' := Option.some.inj h
    exact ⟨hscan, hsize⟩
  · obtain rfl : d = d' := Option.some.inj h
    exact ⟨rfl, hplan⟩
  · obtain ⟨hphase, hstarted⟩ := hidle h
    obtain ⟨hremaining, hs⟩ := inv.idle hphase
    exact ⟨hremaining, hstarted.trans hs⟩
  · obtain ⟨-, e, -, rest⟩ := inv.active (hactive h)
    exact ⟨d, e, rfl, rest⟩
  · obtain ⟨hphase, hs⟩ := (hpaused h).2 hstarted
    exact inv.waiting hphase hs

theorem proceed {d : Declaration} {e : Entry} {position : Nat} {remaining : Duration}
    (held : s.declaration = some d) (running : s.phase = .running)
    (entry : s.plan.entries[position]? = some e) (hle : remaining ≤ e.seconds)
    (hzero : remaining = 0 → e.seconds = 0) :
    { s with position := position, remaining := remaining }.Invariant cap where
  loopCap := inv.loopCap
  latest := inv.latest
  held := inv.held
  idle := fun h => nomatch running.symm.trans h
  active := fun _ => ⟨d, e, held, entry, hle, hzero⟩
  running := inv.running
  paused := inv.paused
  waiting := fun h => nomatch running.symm.trans h

/-! ## Moves -/

/-- **Every move keeps the invariant.** -/
theorem move {i : Input} {t : Transition} (h : s.Move i t) (fed : i.IsFed) :
    t.session.Invariant cap := by
  cases h with
  | unchanged held same => exact inv.setCleared none
  | pause held same before after running =>
    have hstarted : s.started = true := (inv.running running).1
    exact inv.hold held same fed.isScanned (fun h => nomatch h)
      (fun _ => by rw [running]; decide) (fun h => nomatch h)
      (fun _ => ⟨after, fun h => nomatch hstarted.symm.trans h⟩)
  | resume held same before after paused started =>
    exact inv.hold held same fed.isScanned (fun h => nomatch h)
      (fun _ => by rw [paused]; decide) (fun _ => ⟨started, after⟩)
      (fun h => nomatch h)
  | firstStart held same before after paused waiting =>
    exact inv.hold held same fed.isScanned (fun h => nomatch h)
      (fun _ => by rw [paused]; decide) (fun _ => ⟨rfl, after⟩)
      (fun h => nomatch h)
  | note held same changed running paused =>
    exact inv.hold held same fed.isScanned (fun h => ⟨h, rfl⟩) id
      (fun h => ⟨(inv.running h).1, running h⟩) (fun h => ⟨paused h, fun hs => ⟨h, hs⟩⟩)
  | ignore held other paused => exact inv.setCleared none
  | drop free empty => exact inv.release _ none
  | take free plan hyphen =>
    exact install (s := { s with cleared := none, latest := some _ }) inv.loopCap rfl fed.isScanned
      rfl plan (fun h => nomatch hyphen.symm.trans h)
  | launch free plan hyphen =>
    exact install (s := { s with cleared := none, latest := some _ }) inv.loopCap rfl fed.isScanned
      rfl plan (fun _ => rfl)
  | stillMissing free known => exact inv
  | nothing free new => exact inv.setCleared _
  | elsewhere held other => exact inv
  | remove held own => exact inv.release {} _
  | idle late => exact inv
  | lost current running missing => exact inv
  | @count generation d e current running held entry more =>
    obtain ⟨-, e', -, entry', hle, -⟩ := inv.countdown running
    obtain rfl : e = e' := Option.some.inj (entry.symm.trans entry')
    refine inv.proceed held running entry ?_ fun h => absurd h more
    rw [UInt64.le_iff_toNat_le] at hle ⊢
    rw [Duration.toNat_pred]
    omega
  | advance current running held entry ended follows =>
    exact inv.proceed held running follows (UInt64.le_refl _) id
  | finish current running held entry ended last => exact inv.halt _
  | stop active => exact inv.halt s.position
  | stopIdle inactive => exact inv
  | @retry d known plan =>
    exact install inv.loopCap known (inv.latest d known).1 rfl plan (fun _ => rfl)
  | retryNothing none => exact inv

end Invariant

/-- **The invariant holds of every session that inputs from texts lead to.** -/
theorem Reachable.invariant {cap : UInt32} {s : Session} (h : Reachable cap s) :
    s.Invariant cap := by
  induction h with
  | new => exact .new cap
  | @step s i _ fed ih => exact ih.move (s.move_step i) fed

/-- **Every session that is reached is consistent**, so a tick of a running timer always finds a
countdown. -/
theorem reachable_consistent {cap : UInt32} {s : Session} (h : Reachable cap s) :
    (s.phase ≠ .idle → ∃ d e, s.declaration = some d ∧ s.position < s.plan.size ∧
      s.plan.entries[s.position]? = some e ∧ s.remaining ≤ e.seconds ∧
      (s.remaining = 0 → e.seconds = 0)) ∧
    (s.phase = .idle → s.remaining = 0 ∧ s.started = false) ∧
    (s.phase = .running →
      s.started = true ∧ ∃ d, s.declaration = some d ∧ d.paused = false) ∧
    (s.phase = .paused → ∃ d, s.declaration = some d ∧ d.paused = true) ∧
    (s.phase = .paused → s.started = false →
      s.position = 0 ∧ ∃ e, s.plan.entries[0]? = some e ∧ s.remaining = e.seconds) ∧
    (∀ d, s.declaration = some d → s.latest = some d ∧ s.plan = Plan.layout cap d.nodes) ∧
    (s.phase = .running → ∃ d e, s.declaration = some d ∧
      s.plan.entries[s.position]? = some e ∧
      (s.tick s.generation).events.head? = some (s.passed d e)) := by
  have inv := h.invariant
  have ofPaused : s.phase = .paused → s.phase ≠ .idle := by
    intro hphase
    rw [hphase]
    decide
  refine ⟨fun hactive => ?_, inv.idle, fun running => ?_, fun paused => ?_,
    fun paused waiting => ?_, inv.held, fun running => ?_⟩
  · obtain ⟨d, e, held, entry, hle, hzero⟩ := inv.active hactive
    exact ⟨d, e, held, (Array.getElem?_eq_some_iff.1 entry).1, entry, hle, hzero⟩
  · obtain ⟨d, -, held, -⟩ := inv.countdown running
    obtain ⟨hstarted, hhyphen⟩ := inv.running running
    exact ⟨hstarted, d, held, hhyphen d held⟩
  · obtain ⟨d, -, held, -⟩ := inv.active (ofPaused paused)
    exact ⟨d, held, inv.paused paused d held⟩
  · obtain ⟨hposition, hremaining⟩ := inv.waiting paused waiting
    obtain ⟨-, e, -, entry, -⟩ := inv.active (ofPaused paused)
    rw [hposition] at entry
    exact ⟨hposition, e, entry, hremaining e entry⟩
  · obtain ⟨d, e, held, entry, -⟩ := inv.countdown running
    exact ⟨d, e, held, entry, head_events_tick running held entry⟩

/-- The hyphen is added when one of two seconds is left. -/
theorem reachable_consistent_after_pause :
    let s := ((((Session.new 99).step (.evaluate (scan "[2s] tea" "doc") "doc")).session.step
      (.tick 1)).session.step (.evaluate (scan "[-2s] tea" "doc") "doc")).session
    Reachable 99 s ∧ s.phase = .paused ∧ s.remaining = 1 ∧
      ∃ d, s.declaration = some d ∧ d.paused = true := by
  intro s
  have h : Reachable 99 s :=
    .step (.step (.step .new (.evaluate "[2s] tea" "doc")) (.tick 1))
      (.evaluate "[-2s] tea" "doc")
  have hpaused : s.phase = .paused := by decide +kernel
  exact ⟨h, hpaused, by decide +kernel, (reachable_consistent h).2.2.2.1 hpaused⟩

end Session

end TaskTimer
