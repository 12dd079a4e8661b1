import TaskTimer.Proofs.Session.Countdown
import TaskTimer.Proofs.Session.Run

/-!
# Scanning a document again

Documents are scanned on every keystroke, and most scans find what the scan before found. Such a
scan goes by without a trace, however the first one ended and however far the timer has run since.

* `Session.Knows`: the scan of a document would tell the session nothing new.
* `Session.knows_evaluate`: the session knows a scan that it has just been told.
* `Session.Knows.tick`, `Session.Knows.ticks`: it still does after any number of ticks.
* `Session.Knows.evaluate_eq`: what it knows changes nothing of the timer.
* **`Session.rescan_changes_nothing`**: all of it in one statement.
-/

namespace TaskTimer

theorem Declaration.sameTimer_refl (d : Declaration) : d.sameTimer d = true := by
  simp [sameTimer, d.sameContent_refl]

namespace Session

/-- The scan of `document` that found `scanned` would tell the session nothing new. -/
inductive Knows (s : Session) : Option Declaration → String → Prop
  /-- The timer that was found is held. -/
  | same {c d : Declaration} {document : String} (held : s.declaration = some c)
      (same : c.sameTimer d = true) : Knows s (some d) document
  /-- A paused timer of another document is held. -/
  | ignored {c d : Declaration} {document : String} (held : s.declaration = some c)
      (other : c.document ≠ d.document) (paused : s.phase = .paused) : Knows s (some d) document
  /-- The timer that was found has nothing to run, and none is held. -/
  | dropped {d : Declaration} {document : String} (free : s.declaration = none)
      (idle : s.phase = .idle) (remaining : s.remaining = 0) (started : s.started = false)
      (empty : (Plan.layout s.loopCap d.nodes).size = 0) : Knows s (some d) document
  /-- The document is known to declare nothing, and no timer is held. -/
  | known {document : String} (free : s.declaration = none) (known : s.cleared = some document) :
      Knows s none document
  /-- Nothing was found, and a timer of another document is held. -/
  | elsewhere {c : Declaration} {document : String} (held : s.declaration = some c)
      (other : c.document ≠ document) : Knows s none document

/-- **What a session has been told it knows.** -/
theorem knows_evaluate (s : Session) (scanned : Option Declaration) (document : String) :
    (s.evaluate scanned document).session.Knows scanned document := by
  have move := s.move_step (.evaluate scanned document)
  change s.Move _ (s.evaluate scanned document) at move
  generalize s.evaluate scanned document = t at move
  cases move with
  | unchanged held same => exact .same held same
  | pause | resume | firstStart | note | take | launch =>
    exact .same rfl (Declaration.sameTimer_refl _)
  | ignore held other paused => exact .ignored held other paused
  | drop free empty => exact .dropped rfl rfl rfl rfl empty
  | stillMissing free known => exact .known free known
  | nothing free => exact .known free rfl
  | elsewhere held other => exact .elsewhere held other
  | remove => exact .known rfl rfl

/-! ## Ticks in between -/

namespace Knows

variable {s : Session} {scanned : Option Declaration} {document : String}

theorem tick (h : s.Knows scanned document) (generation : ℕ) :
    (s.tick generation).session.Knows scanned document := by
  -- a tick of a timer that does not run changes nothing, so that it may be supposed to run
  by_cases running : s.phase = .running
  · obtain ⟨hdeclaration, hcleared⟩ := s.declaration_tick generation
    cases h with
    | same held same => exact .same (hdeclaration.trans held) same
    | ignored _ _ paused => cases running.symm.trans paused
    | dropped _ idle => cases running.symm.trans idle
    | known free known => exact .known (hdeclaration.trans free) (hcleared.trans known)
    | elsewhere held other => exact .elsewhere (hdeclaration.trans held) other
  · rwa [tick_not_running running]

theorem ticks (h : s.Knows scanned document) (generations : List ℕ) :
    (s.after (generations.map .tick)).Knows scanned document := by
  induction generations generalizing s with
  | nil => exact h
  | cons generation generations ih => exact ih (h.tick generation)

/-! ## The second scan -/

/-- **A scan that is known reports nothing and changes nothing of the timer.** -/
theorem evaluate_eq (h : s.Knows scanned document) : ∃ generation cleared order,
    s.evaluate scanned document =
      { session := { s with generation := generation, cleared := cleared }, order := order } := by
  cases h with
  | same held same =>
    refine ⟨s.generation, none, .keep, ?_⟩
    simp [evaluate, found, held, same]
  | ignored held other paused =>
    exact ⟨s.generation, none, .keep, evaluate_ignored document held other paused⟩
  | dropped free idle remaining started empty =>
    -- what is given up is at rest already, only its generation ends
    refine ⟨s.generation + 1, none, .disarm, ?_⟩
    simp [evaluate, found, adopt, halt, isActive, free, idle, remaining, started, empty]
  | known free known =>
    have quiet : s.missing document = { session := s } := by simp [missing, free, known]
    exact ⟨s.generation, s.cleared, .keep, quiet⟩
  | elsewhere held other =>
    exact ⟨s.generation, s.cleared, .keep, evaluate_elsewhere held other⟩

end Knows

/-- **Scanning a document again changes nothing**, whatever the session was and however many ticks
have passed. -/
theorem rescan_changes_nothing (s : Session) (text document : String) (generations : List ℕ) :
    let first := (s.evaluate (scan text document) document).session
    let ticked := first.after (generations.map .tick)
    let again := ticked.evaluate (scan text document) document
    again.events = [] ∧ again.adopted = false ∧
      again.session.declaration = ticked.declaration ∧ again.session.latest = ticked.latest ∧
      again.session.plan = ticked.plan ∧ again.session.position = ticked.position ∧
      again.session.remaining = ticked.remaining ∧ again.session.phase = ticked.phase ∧
      again.session.started = ticked.started := by
  intro first ticked again
  have known : ticked.Knows (scan text document) document :=
    (s.knows_evaluate (scan text document) document).ticks generations
  obtain ⟨generation, cleared, order, h⟩ := known.evaluate_eq
  simp [again, h]

end Session

end TaskTimer
