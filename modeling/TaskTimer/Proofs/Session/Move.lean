import TaskTimer.Proofs.Plan.Trace
import TaskTimer.Session.Step

/-!
# The moves of a session

A step of a session takes one of a few courses. Each course is a move, with the conditions under
which it is taken and its exact result, so that what holds of every step is shown move by move.

* `Session.hold`, `Session.load`, `Session.release`: how a session changes what it holds.
* `Session.passed`: what a second of a countdown reports.
* `Session.GivesWay`: the declaration that is held gives way to another.
* `Session.Move`: the moves.
* `Session.tick_stale`, `Session.tick_count`, `Session.tick_advance`, `Session.tick_finish`: the
  courses of a tick.
* `Session.evaluate_ignored`, `Session.evaluate_elsewhere`: scans of other documents.
* **`Session.move_step`**: every step is a move.
-/

namespace TaskTimer

namespace Session

/-- The session after another form of the declaration that it holds was found. -/
def hold (s : Session) (d : Declaration) : Session :=
  { s with cleared := none, latest := some d, declaration := some d }

/-- The session at the start of the plan of `d`, found just now. -/
def load (s : Session) (d : Declaration) : Session :=
  { s with cleared := none, latest := some d }.install d (Plan.layout s.loopCap d.nodes)

theorem phase_install_ne_idle (s : Session) (d : Declaration) (plan : Plan) :
    (s.install d plan).phase ≠ .idle := by
  rw [install]
  cases d.paused <;> exact fun h => nomatch h

theorem phase_install_running (s : Session) (d : Declaration) (plan : Plan) :
    (s.install d plan).phase = .running ↔ d.paused = false := by
  rw [install]
  cases d.paused <;> simp

theorem phase_install_paused (s : Session) (d : Declaration) (plan : Plan) :
    (s.install d plan).phase = .paused ↔ d.paused = true := by
  rw [install]
  cases d.paused <;> simp

theorem phase_load_running (s : Session) (d : Declaration) :
    (s.load d).phase = .running ↔ d.paused = false :=
  phase_install_running _ d _

theorem remaining_install (s : Session) (d : Declaration) {plan : Plan} {e : Entry}
    (first : plan.entries[0]? = some e) : (s.install d plan).remaining = e.seconds := by
  rw [install, first]
  rfl

/-- The session without its timer and without a declaration. -/
def release (s : Session) : Session := { s.halt with declaration := none }

/-- The cancellation of the timer that is given up, if it is active. -/
def cancellation (s : Session) : List Event := if s.isActive then [.cancel] else []

/-- What a second of the countdown `e` reports. -/
def passed (s : Session) (d : Declaration) (e : Entry) : Event :=
  .interval s.remaining.pred e.seconds e.stepLabel e.symbol d

/-- What the session holds gives way to `d`: it has other content, and it is not a paused timer of
another document. -/
def GivesWay (s : Session) (d : Declaration) : Prop :=
  ∀ c, s.declaration = some c →
    c.sameContent d = false ∧ (c.document = d.document ∨ s.phase ≠ .paused)

/-- The courses that a step can take from `s`. -/
inductive Move (s : Session) : Input → Transition → Prop
  /-- The declaration that is held was found unchanged. -/
  | unchanged {c d : Declaration} {document : String} (held : s.declaration = some c)
      (same : c.sameTimer d = true) :
      Move s (.evaluate (some d) document) { session := { s with cleared := none } }
  /-- The hyphen was added while the timer runs. -/
  | pause {c d : Declaration} {document : String} (held : s.declaration = some c)
      (same : c.sameContent d = true) (before : c.paused = false) (after : d.paused = true)
      (running : s.phase = .running) :
      Move s (.evaluate (some d) document) { session := { s.hold d with phase := .paused } }
  /-- The hyphen was removed from a timer that was paused on its way. -/
  | resume {c d : Declaration} {document : String} (held : s.declaration = some c)
      (same : c.sameContent d = true) (before : c.paused = true) (after : d.paused = false)
      (paused : s.phase = .paused) (started : s.started = true) :
      Move s (.evaluate (some d) document) { session := { s.hold d with phase := .running } }
  /-- The hyphen was removed from a timer that was paused from the beginning. -/
  | firstStart {c d : Declaration} {document : String} (held : s.declaration = some c)
      (same : c.sameContent d = true) (before : c.paused = true) (after : d.paused = false)
      (paused : s.phase = .paused) (waiting : s.started = false) :
      Move s (.evaluate (some d) document)
        { session :=
            { s.hold d with phase := .running, started := true, generation := s.generation + 1 }
          events := [.start d]
          order := .arm (s.generation + 1)
          adopted := true }
  /-- The hyphen was added or removed where that has no effect. -/
  | note {c d : Declaration} {document : String} (held : s.declaration = some c)
      (same : c.sameContent d = true) (changed : c.paused = !d.paused)
      (running : s.phase = .running → d.paused = false)
      (paused : s.phase = .paused → d.paused = true) :
      Move s (.evaluate (some d) document) { session := s.hold d }
  /-- A declaration was found in another document while the timer is paused. -/
  | ignore {c d : Declaration} {document : String} (held : s.declaration = some c)
      (other : c.document ≠ d.document) (paused : s.phase = .paused) :
      Move s (.evaluate (some d) document) { session := { s with cleared := none } }
  /-- A declaration was found whose plan is empty. -/
  | drop {d : Declaration} {document : String} (free : s.GivesWay d)
      (empty : (Plan.layout s.loopCap d.nodes).size = 0) :
      Move s (.evaluate (some d) document)
        { session := { s.release with cleared := none }
          events := s.cancellation
          order := .disarm }
  /-- A declaration was found that is paused from the beginning. -/
  | take {d : Declaration} {document : String} (free : s.GivesWay d)
      (plan : (Plan.layout s.loopCap d.nodes).size ≠ 0) (hyphen : d.paused = true) :
      Move s (.evaluate (some d) document)
        { session := s.load d, events := s.cancellation, order := .disarm, adopted := true }
  /-- A declaration was found, and its timer starts. -/
  | launch {d : Declaration} {document : String} (free : s.GivesWay d)
      (plan : (Plan.layout s.loopCap d.nodes).size ≠ 0) (hyphen : d.paused = false) :
      Move s (.evaluate (some d) document)
        { session := (s.load d).start
          events := s.cancellation ++ [.start d]
          order := .arm (s.generation + 1)
          adopted := true }
  /-- Nothing is held, and the document is known to declare nothing. -/
  | stillMissing {document : String} (free : s.declaration = none)
      (known : s.cleared = some document) : Move s (.evaluate none document) { session := s }
  /-- Nothing is held, and the document declares nothing. -/
  | nothing {document : String} (free : s.declaration = none) (new : s.cleared ≠ some document) :
      Move s (.evaluate none document)
        { session := { s with cleared := some document }, events := [.cancel] }
  /-- Another document than that of the timer declares nothing. -/
  | elsewhere {c : Declaration} {document : String} (held : s.declaration = some c)
      (other : c.document ≠ document) : Move s (.evaluate none document) { session := s }
  /-- The declaration that is held was removed from its document. -/
  | remove {c : Declaration} {document : String} (held : s.declaration = some c)
      (own : c.document = document) :
      Move s (.evaluate none document)
        { session := { s.release with plan := {}, cleared := some document }
          events := [.cancel]
          order := .disarm }
  /-- The tick is stale, or the timer does not run. -/
  | idle {generation : Nat} (late : generation = s.generation → s.phase ≠ .running) :
      Move s (.tick generation) { session := s }
  /-- There is nothing to count down. -/
  | lost {generation : Nat} (current : generation = s.generation) (running : s.phase = .running)
      (missing : s.declaration = none ∨ s.plan.entries[s.position]? = none) :
      Move s (.tick generation) { session := s }
  /-- A second of the countdown has passed, and it is not over. -/
  | count {generation : Nat} {d : Declaration} {e : Entry} (current : generation = s.generation)
      (running : s.phase = .running) (held : s.declaration = some d)
      (entry : s.plan.entries[s.position]? = some e) (more : s.remaining.pred ≠ 0) :
      Move s (.tick generation)
        { session := { s with remaining := s.remaining.pred }, events := [s.passed d e] }
  /-- The last second of the countdown has passed, and another countdown follows. -/
  | advance {generation : Nat} {d : Declaration} {e next : Entry}
      (current : generation = s.generation) (running : s.phase = .running)
      (held : s.declaration = some d) (entry : s.plan.entries[s.position]? = some e)
      (ended : s.remaining.pred = 0) (follows : s.plan.entries[s.position + 1]? = some next) :
      Move s (.tick generation)
        { session := { s with position := s.position + 1, remaining := next.seconds }
          events := s.passed d e :: s.plan.ending d s.position }
  /-- The last second of the last countdown has passed. -/
  | finish {generation : Nat} {d : Declaration} {e : Entry} (current : generation = s.generation)
      (running : s.phase = .running) (held : s.declaration = some d)
      (entry : s.plan.entries[s.position]? = some e) (ended : s.remaining.pred = 0)
      (last : s.plan.entries[s.position + 1]? = none) :
      Move s (.tick generation)
        { session := { s with position := s.position + 1 }.halt
          events := s.passed d e :: s.plan.ending d s.position
          order := .disarm }
  /-- The timer is given up. -/
  | stop (active : s.isActive = true) :
      Move s .stop { session := s.halt, events := [.cancel], order := .disarm }
  /-- There is no timer to give up. -/
  | stopIdle (inactive : s.isActive = false) : Move s .stop { session := s }
  /-- The last declaration that was taken up starts over. -/
  | retry {d : Declaration} (known : s.latest = some d)
      (plan : (Plan.layout s.loopCap d.nodes).size ≠ 0) :
      Move s .retry
        { session := (s.install d (Plan.layout s.loopCap d.nodes)).start
          events := [.start d]
          order := .arm (s.generation + 1) }
  /-- There is no timer to start over. -/
  | retryNothing (none : ∀ d, s.latest = some d → (Plan.layout s.loopCap d.nodes).size = 0) :
      Move s .retry { session := s }

/-! ## The courses of a tick -/

section Tick

variable {s : Session} {d : Declaration} {e : Entry}

theorem tick_stale {generation : ℕ} (late : generation = s.generation → s.phase ≠ .running) :
    s.tick generation = { session := s } := by
  rw [tick, if_pos]
  rw [Bool.or_eq_true, bne_iff_ne, bne_iff_ne]
  by_cases h : generation = s.generation
  · exact .inr (late h)
  · exact .inl h

variable (running : s.phase = .running)

include running

theorem tick_current : ¬ (s.generation != s.generation || s.phase != .running) = true := by
  rw [Bool.or_eq_true, bne_iff_ne, bne_iff_ne, not_or, not_not, not_not]
  exact ⟨rfl, running⟩

theorem tick_lost (missing : s.declaration = none ∨ s.plan.entries[s.position]? = none) :
    s.tick s.generation = { session := s } := by
  rw [tick, if_neg (tick_current running)]
  split
  · rename_i d e held entry
    rcases missing with h | h
    · exact nomatch held.symm.trans h
    · exact nomatch entry.symm.trans h
  · rfl

variable (held : s.declaration = some d) (entry : s.plan.entries[s.position]? = some e)

include held entry

theorem tick_count (more : s.remaining.pred ≠ 0) :
    s.tick s.generation =
      { session := { s with remaining := s.remaining.pred }, events := [s.passed d e] } := by
  rw [tick, if_neg (tick_current running)]
  simp only [held, entry]
  rw [if_pos (bne_iff_ne.2 more)]
  rfl

variable (ended : s.remaining.pred = 0)

include ended

theorem tick_advance {next : Entry} (follows : s.plan.entries[s.position + 1]? = some next) :
    s.tick s.generation =
      { session := { s with position := s.position + 1, remaining := next.seconds }
        events := s.passed d e :: s.plan.ending d s.position } := by
  rw [tick, if_neg (tick_current running), Plan.ending]
  simp only [held, entry, follows]
  rw [if_neg (by rw [bne_iff_ne, not_not]; exact ended)]
  by_cases announced : s.plan.announces (s.position + 1) = true
  · rw [if_pos announced, if_pos announced]
    rfl
  · rw [if_neg announced, if_neg announced]
    rfl

theorem tick_finish (last : s.plan.entries[s.position + 1]? = none) :
    s.tick s.generation =
      { session := { s with position := s.position + 1 }.halt
        events := s.passed d e :: s.plan.ending d s.position
        order := .disarm } := by
  rw [tick, if_neg (tick_current running), Plan.ending]
  simp only [held, entry, last]
  rw [if_neg (by rw [bne_iff_ne, not_not]; exact ended)]
  rfl

omit ended

/-- Whatever a tick leads to, it reports first that a second has passed. -/
theorem head_events_tick : (s.tick s.generation).events.head? = some (s.passed d e) := by
  by_cases ended : s.remaining.pred = 0
  · cases follows : s.plan.entries[s.position + 1]? with
    | none => rw [tick_finish running held entry ended follows, List.head?_cons]
    | some next => rw [tick_advance running held entry ended follows, List.head?_cons]
  · rw [tick_count running held entry ended, List.head?_cons]

end Tick

/-! ## Scans that are passed over -/

section PassedOver

variable {s : Session} {c : Declaration}

theorem evaluate_ignored {d : Declaration} (document : String) (held : s.declaration = some c)
    (other : c.document ≠ d.document) (paused : s.phase = .paused) :
    s.evaluate (some d) document = { session := { s with cleared := none } } := by
  have differs : c.sameContent d = false := by simp [Declaration.sameContent, other]
  simp [evaluate, found, held, paused, other, differs, Declaration.sameTimer]

theorem evaluate_elsewhere {document : String} (held : s.declaration = some c)
    (other : c.document ≠ document) : s.evaluate none document = { session := s } := by
  change s.missing document = _
  simp [missing, held, other]

end PassedOver

/-! ## Every step is a move -/

variable (s : Session)

theorem move_adopt {d : Declaration} (document : String) (free : s.GivesWay d) :
    s.Move (.evaluate (some d) document) ({ s with cleared := none }.adopt d) := by
  rw [adopt]
  by_cases hplan : (Plan.layout s.loopCap d.nodes).size = 0
  · rw [if_pos hplan]
    exact .drop free hplan
  · rw [if_neg hplan]
    cases hd : d.paused with
    | true => exact .take free hplan hd
    | false => exact .launch free hplan hd

theorem move_togglePause {c d : Declaration} (document : String) (held : s.declaration = some c)
    (same : c.sameContent d = true) (changed : c.paused = !d.paused) :
    s.Move (.evaluate (some d) document) ({ s with cleared := none }.togglePause d) := by
  simp only [togglePause]
  split
  · rename_i hd hphase
    exact .pause held same (by rw [changed, hd]; rfl) hd hphase
  · rename_i hd hphase
    by_cases hstarted : s.started = true
    · rw [if_pos hstarted]
      exact .resume held same (by rw [changed, hd]; rfl) hd hphase hstarted
    · rw [if_neg hstarted]
      exact .firstStart held same (by rw [changed, hd]; rfl) hd hphase
        (Bool.eq_false_iff.2 hstarted)
  · rename_i hpause hresume
    refine .note held same changed (fun h => ?_) (fun h => ?_)
    · exact Bool.eq_false_iff.2 fun hd => hpause hd h
    · exact Bool.not_eq_false _ ▸ fun hd => hresume hd h

theorem move_found (d : Declaration) (document : String) :
    s.Move (.evaluate (some d) document) ({ s with cleared := none }.found d) := by
  rw [found]
  split
  · rename_i held
    exact s.move_adopt document fun c hc => nomatch held.symm.trans hc
  · rename_i c held
    by_cases htimer : c.sameTimer d = true
    · rw [if_pos htimer]
      exact .unchanged held htimer
    rw [if_neg htimer]
    by_cases hcontent : c.sameContent d = true
    · rw [if_pos hcontent]
      refine s.move_togglePause document held hcontent ?_
      rw [Declaration.sameTimer, hcontent, Bool.true_and, beq_iff_eq] at htimer
      exact Bool.eq_not.2 htimer
    rw [if_neg hcontent]
    by_cases hother : (c.document != d.document && s.phase == .paused) = true
    · rw [if_pos hother]
      rw [Bool.and_eq_true, bne_iff_ne, beq_iff_eq] at hother
      exact .ignore held hother.1 hother.2
    · rw [if_neg hother]
      rw [Bool.and_eq_true, bne_iff_ne, beq_iff_eq] at hother
      refine s.move_adopt document fun c' hc' => ?_
      obtain rfl : c = c' := Option.some.inj (held.symm.trans hc')
      refine ⟨Bool.eq_false_iff.2 hcontent, ?_⟩
      by_cases hdoc : c.document = d.document
      · exact .inl hdoc
      · exact .inr fun hphase => hother ⟨hdoc, hphase⟩

theorem move_missing (document : String) :
    s.Move (.evaluate none document) (s.missing document) := by
  rw [missing]
  split
  · rename_i held
    by_cases hknown : s.cleared = some document
    · rw [if_pos hknown]
      exact .stillMissing held hknown
    · rw [if_neg hknown]
      exact .nothing held hknown
  · rename_i c held
    by_cases hother : c.document = document
    · rw [if_neg (by rw [bne_iff_ne]; exact fun h => h hother)]
      exact .remove held hother
    · rw [if_pos (bne_iff_ne.2 hother)]
      exact .elsewhere held hother

theorem move_tick (generation : Nat) : s.Move (.tick generation) (s.tick generation) := by
  by_cases late : generation = s.generation → s.phase ≠ .running
  · rw [tick_stale late]
    exact .idle late
  rw [Classical.not_imp, not_not] at late
  obtain ⟨rfl, running⟩ := late
  cases held : s.declaration with
  | none =>
    rw [tick_lost running (.inl held)]
    exact .lost rfl running (.inl held)
  | some d =>
    cases entry : s.plan.entries[s.position]? with
    | none =>
      rw [tick_lost running (.inr entry)]
      exact .lost rfl running (.inr entry)
    | some e =>
      by_cases ended : s.remaining.pred = 0
      · cases follows : s.plan.entries[s.position + 1]? with
        | none =>
          rw [tick_finish running held entry ended follows]
          exact .finish rfl running held entry ended follows
        | some next =>
          rw [tick_advance running held entry ended follows]
          exact .advance rfl running held entry ended follows
      · rw [tick_count running held entry ended]
        exact .count rfl running held entry ended

theorem declaration_tick (generation : Nat) :
    (s.tick generation).session.declaration = s.declaration ∧
      (s.tick generation).session.cleared = s.cleared := by
  have move := s.move_tick generation
  generalize s.tick generation = t at move
  cases move <;> exact ⟨rfl, rfl⟩

theorem move_stop : s.Move .stop s.stop := by
  rw [stop]
  by_cases hactive : s.isActive = true
  · rw [if_pos hactive]
    exact .stop hactive
  · rw [if_neg hactive]
    exact .stopIdle (Bool.eq_false_iff.2 hactive)

theorem move_retry : s.Move .retry s.retry := by
  rw [retry]
  split
  · rename_i known
    exact .retryNothing fun d hd => nomatch known.symm.trans hd
  · rename_i d known
    by_cases hplan : (Plan.layout s.loopCap d.nodes).size = 0
    · rw [if_pos hplan]
      refine .retryNothing fun d' hd' => ?_
      obtain rfl : d = d' := Option.some.inj (known.symm.trans hd')
      exact hplan
    · rw [if_neg hplan]
      exact .retry known hplan

/-- **Every step is a move.** -/
theorem move_step : ∀ i : Input, s.Move i (s.step i)
  | .evaluate (some d) document => s.move_found d document
  | .evaluate none document => s.move_missing document
  | .tick generation => s.move_tick generation
  | .stop => s.move_stop
  | .retry => s.move_retry

end Session

end TaskTimer
