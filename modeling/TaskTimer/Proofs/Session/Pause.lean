import TaskTimer.Proofs.Session.Countdown
import TaskTimer.Proofs.Session.Run

/-!
# Pausing and looking again

A timer is looked up in its document again and again while it runs, and it may be paused for a
while. None of that shows in what it reports.

* `Declaration.unplaced`, `Event.unplaced`: what is left when lines and columns are forgotten.
* `Session.Spares`, `Session.SparesAll`: inputs that do not disturb a timer.
* `Session.counted`: how many of the inputs count the timer down.
* `Session.Mirrors`: two sessions that are equally far with the same timer.
* `Session.Mirrors.beat`: both sessions report the same when both count down.
* `Session.Mirrors.rest`: an input that does not count down reports nothing.
* **`Session.pausing_loses_nothing`**: the timer reports what it would have reported undisturbed.
-/

namespace TaskTimer

/-- The declaration without its place in the document. -/
def Declaration.unplaced (d : Declaration) : Declaration := { d with line := 0, column := 0 }

/-- The event without the place of the declaration that it carries. -/
def Event.unplaced : Event → Event
  | .start d => .start d.unplaced
  | .interval remaining duration label symbol d =>
    .interval remaining duration label symbol d.unplaced
  | .step label symbol d => .step label symbol d.unplaced
  | .finish d => .finish d.unplaced
  | .cancel => .cancel

theorem Event.isProgress_unplaced (event : Event) :
    event.unplaced.isProgress = event.isProgress := by
  cases event <;> rfl

theorem Declaration.IsScanned.unplaced_eq {a b : Declaration} (ha : a.IsScanned) (hb : b.IsScanned)
    (same : a.sameContent b = true) (hyphen : a.paused = b.paused) : a.unplaced = b.unplaced := by
  obtain ⟨hdocument, hraw, hlabel⟩ := sameContent_iff.1 same
  have hnodes := ha.nodes_eq hb same
  rw [unplaced, unplaced, hdocument, hraw, hlabel, hnodes, hyphen]

theorem Plan.map_unplaced_ending {d d' : Declaration} (hplace : d'.unplaced = d.unplaced) (p : Plan)
    (i : ℕ) : (p.ending d' i).map Event.unplaced = (p.ending d i).map Event.unplaced := by
  rw [ending, ending]
  split
  · split <;> simp [Event.unplaced, hplace]
  · simp [Event.unplaced, hplace]

namespace Session

/-! ## Inputs that do not disturb a timer -/

/-- The input does not disturb the timer that `d` declares in the session `s`. -/
inductive Spares (d : Declaration) (s : Session) : Input → Prop
  /-- A tick, of whatever run. -/
  | tick (generation : ℕ) : Spares d s (.tick generation)
  /-- The document is found to declare the timer still, in any place and with or without hyphen. -/
  | found {text : String} {d' : Declaration} (declares : scan text d.document = some d')
      (same : d.sameContent d' = true) :
      Spares d s (.evaluate (scan text d.document) d.document)
  /-- Another document declares no timer. -/
  | missing {text document : String} (other : document ≠ d.document)
      (nothing : scan text document = none) : Spares d s (.evaluate (scan text document) document)
  /-- Another document holds whatever it may hold, while the timer is paused. -/
  | foreign {text document : String} (other : document ≠ d.document) (paused : s.phase = .paused) :
      Spares d s (.evaluate (scan text document) document)

/-- None of the inputs, one after the other, disturbs the timer that `d` declares. -/
def SparesAll (d : Declaration) : Session → List Input → Prop
  | _, [] => True
  | s, i :: is => Spares d s i ∧ SparesAll d (s.step i).session is

/-- How many of the inputs are ticks of the current run that come while the timer runs. -/
def counted : Session → List Input → ℕ
  | _, [] => 0
  | s, i :: is =>
    (if s.phase = .running ∧ i = .tick s.generation then 1 else 0) + counted (s.step i).session is

theorem Spares.isFed {d : Declaration} {s : Session} {i : Input} (h : Spares d s i) : i.IsFed := by
  cases h with
  | tick generation => exact .tick generation
  | found | missing | foreign => exact .evaluate _ _

/-! ## Two sessions with one timer -/

/-- The session `b` is as far with the timer of `d` as `a`, which is never disturbed. -/
structure Mirrors (d : Declaration) (a b : Session) : Prop where
  plan : b.plan = a.plan
  position : b.position = a.position
  remaining : b.remaining = a.remaining
  idle : b.phase = .idle ↔ a.phase = .idle
  /-- The timer of `b` starts at most once. -/
  started : b.phase ≠ .idle → b.started = true
  held : a.declaration = some d
  unpaused : a.phase ≠ .paused
  same : ∃ d', b.declaration = some d' ∧ d.sameContent d' = true

namespace Mirrors

theorem refl {cap : UInt32} {s : Session} {d : Declaration} (inv : s.Invariant cap)
    (running : s.phase = .running) (held : s.declaration = some d) : Mirrors d s s where
  plan := rfl
  position := rfl
  remaining := rfl
  idle := Iff.rfl
  started := fun _ => (inv.running running).1
  held := held
  unpaused := by
    intro paused
    cases running.symm.trans paused
  same := ⟨d, held, d.sameContent_refl⟩

variable {d : Declaration} {a b : Session} (h : Mirrors d a b)

include h

theorem setCleared (cleared : Option String) : Mirrors d a { b with cleared := cleared } :=
  ⟨h.plan, h.position, h.remaining, h.idle, h.started, h.held, h.unpaused, h.same⟩

theorem hold {d' : Declaration} {phase : Phase} (same : d.sameContent d' = true)
    (idle : phase = .idle ↔ b.phase = .idle) : Mirrors d a { b.hold d' with phase := phase } where
  plan := h.plan
  position := h.position
  remaining := h.remaining
  idle := idle.trans h.idle
  started := fun hphase => h.started fun hb => hphase (idle.2 hb)
  held := h.held
  unpaused := h.unpaused
  same := ⟨d', rfl, same⟩

theorem proceed {position position' : ℕ} {remaining remaining' : Duration}
    (hposition : position' = position) (hremaining : remaining' = remaining) :
    Mirrors d { a with position := position, remaining := remaining }
      { b with position := position', remaining := remaining' } :=
  ⟨h.plan, hposition, hremaining, h.idle, h.started, h.held, h.unpaused, h.same⟩

theorem halt {position position' : ℕ} (hposition : position' = position) :
    Mirrors d { a with position := position }.halt { b with position := position' }.halt where
  plan := h.plan
  position := hposition
  remaining := rfl
  idle := Iff.rfl
  started := fun hphase => absurd rfl hphase
  held := h.held
  unpaused := fun hphase => nomatch hphase
  same := h.same

theorem phase_running (running : b.phase = .running) : a.phase = .running := by
  cases ha : a.phase with
  | running => rfl
  | paused => exact absurd ha h.unpaused
  | idle => exact nomatch running.symm.trans (h.idle.2 ha)

theorem document : ∃ c, b.declaration = some c ∧ c.document = d.document := by
  obtain ⟨c, held, same⟩ := h.same
  exact ⟨c, held, (Declaration.sameContent_iff.1 same).1.symm⟩

/-! ## An input that does not count down -/

theorem found {d' : Declaration} {document : String} {t : Transition}
    (move : b.Move (.evaluate (some d') document) t) (same : d.sameContent d' = true) :
    t.events = [] ∧ Mirrors d a t.session := by
  obtain ⟨c, hc, hsame⟩ := h.same
  have hc' : c.sameContent d' = true :=
    Declaration.sameContent_trans (Declaration.sameContent_symm hsame) same
  have keeps : ¬ b.GivesWay d' := by
    intro free
    have hother := (free c hc).1
    rw [hc'] at hother
    cases hother
  cases move with
  | unchanged => exact ⟨rfl, h.setCleared none⟩
  | pause held _ _ _ running =>
    refine ⟨rfl, h.hold same ?_⟩
    rw [running]
    decide
  | resume held _ _ _ paused =>
    refine ⟨rfl, h.hold same ?_⟩
    rw [paused]
    decide
  | firstStart held _ _ _ paused waiting =>
    have hstarted := h.started (by rw [paused]; decide)
    rw [waiting] at hstarted
    cases hstarted
  | note => exact ⟨rfl, h.hold same Iff.rfl⟩
  | ignore held other =>
    obtain rfl : c = _ := Option.some.inj (hc.symm.trans held)
    exact absurd (Declaration.sameContent_iff.1 hc').1 other
  | drop free | take free | launch free => exact absurd free keeps

theorem foreign {d' : Declaration} (document : String) (other : d'.document ≠ d.document)
    (paused : b.phase = .paused) :
    (b.evaluate (some d') document).events = [] ∧
      Mirrors d a (b.evaluate (some d') document).session := by
  obtain ⟨c, hc, hdocument⟩ := h.document
  rw [evaluate_ignored document hc (hdocument.trans_ne other.symm) paused]
  exact ⟨rfl, h.setCleared none⟩

theorem missing {document : String} (other : document ≠ d.document) :
    (b.evaluate none document).events = [] ∧
      Mirrors d a (b.evaluate none document).session := by
  obtain ⟨c, hc, hdocument⟩ := h.document
  rw [evaluate_elsewhere hc (hdocument.trans_ne other.symm)]
  exact ⟨rfl, h⟩

/-- **An input that does not count down reports nothing and changes nothing of the timer.** -/
theorem rest {i : Input} (spares : Spares d b i)
    (uncounted : ¬ (b.phase = .running ∧ i = .tick b.generation)) :
    (b.step i).events = [] ∧ Mirrors d a (b.step i).session := by
  cases spares with
  | tick generation =>
    have late : generation = b.generation → b.phase ≠ .running := by
      intro current running
      exact uncounted ⟨running, congrArg Input.tick current⟩
    rw [step, tick_stale late]
    exact ⟨rfl, h⟩
  | found declares same =>
    rw [declares]
    exact h.found (b.move_step _) same
  | missing other nothing =>
    rw [nothing]
    exact h.missing other
  | @foreign text document other paused =>
    cases hscan : scan text document with
    | none => exact h.missing other
    | some d' =>
      refine h.foreign document ?_ paused
      rw [scan_document hscan]
      exact other

/-! ## A tick that counts down -/

/-- What `b` holds differs from `d` at most in its place while both timers run. -/
theorem held_unplaced {cap : UInt32} (inva : a.Invariant cap) (invb : b.Invariant cap)
    (running : b.phase = .running) :
    ∃ d', b.declaration = some d' ∧ d'.unplaced = d.unplaced := by
  obtain ⟨d', held', same⟩ := h.same
  have hd : d.IsScanned := (inva.latest d (inva.held d h.held).1).1
  have hd' : d'.IsScanned := (invb.latest d' (invb.held d' held').1).1
  have hhyphen : d.paused = d'.paused := by
    rw [(inva.running (h.phase_running running)).2 d h.held, (invb.running running).2 d' held']
  exact ⟨d', held', (hd.unplaced_eq hd' same hhyphen).symm⟩

/-- **When both sessions count down, they report the same**, and stay equally far. -/
theorem beat {cap : UInt32} (inva : a.Invariant cap) (invb : b.Invariant cap)
    (running : b.phase = .running) :
    (b.tick b.generation).events.map Event.unplaced =
        (a.tick a.generation).events.map Event.unplaced ∧
      Mirrors d (a.tick a.generation).session (b.tick b.generation).session := by
  obtain ⟨d', held', hplace⟩ := h.held_unplaced inva invb running
  have running' := h.phase_running running
  obtain ⟨-, e, -, entry, -⟩ := inva.countdown running'
  have entry' : b.plan.entries[b.position]? = some e := by rw [h.plan, h.position, entry]
  have hpassed : (b.passed d' e).unplaced = (a.passed d e).unplaced := by
    rw [passed, passed, Event.unplaced, Event.unplaced, h.remaining, hplace]
  have hending : (b.plan.ending d' b.position).map Event.unplaced =
      (a.plan.ending d a.position).map Event.unplaced := by
    rw [h.plan, h.position, Plan.map_unplaced_ending hplace]
  by_cases ended : a.remaining.pred = 0
  · have ended' : b.remaining.pred = 0 := by rw [h.remaining, ended]
    cases follows : a.plan.entries[a.position + 1]? with
    | none =>
      have last : b.plan.entries[b.position + 1]? = none := by rw [h.plan, h.position, follows]
      rw [tick_finish running held' entry' ended' last,
        tick_finish running' h.held entry ended follows, List.map_cons, List.map_cons, hpassed,
        hending]
      exact ⟨rfl, h.halt (congrArg (· + 1) h.position)⟩
    | some next =>
      have follows' : b.plan.entries[b.position + 1]? = some next := by
        rw [h.plan, h.position, follows]
      rw [tick_advance running held' entry' ended' follows',
        tick_advance running' h.held entry ended follows, List.map_cons, List.map_cons, hpassed,
        hending]
      exact ⟨rfl, h.proceed (congrArg (· + 1) h.position) rfl⟩
  · have more : b.remaining.pred ≠ 0 := by rw [h.remaining]; exact ended
    rw [tick_count running held' entry' more, tick_count running' h.held entry ended,
      List.map_singleton, List.map_singleton, hpassed]
    exact ⟨rfl, h.proceed h.position (congrArg Duration.pred h.remaining)⟩

end Mirrors

/-! ## Many inputs -/

/-- **Sessions that are equally far stay so**, when one is left alone and the other is not
disturbed. -/
theorem Mirrors.run {cap : UInt32} {d : Declaration} {a b : Session} (h : Mirrors d a b)
    (inva : a.Invariant cap) (invb : b.Invariant cap) {is : List Input}
    (spared : SparesAll d b is) :
    ((b.run is).flatMap (·.events)).map Event.unplaced =
        ((a.beats (b.counted is)).flatMap (·.events)).map Event.unplaced ∧
      Mirrors d (a.afterBeats (b.counted is)) (b.after is) := by
  induction is generalizing a b with
  | nil => exact ⟨rfl, h⟩
  | cons i is ih =>
    obtain ⟨spares, spared⟩ := spared
    have invb' : (b.step i).session.Invariant cap := invb.move (b.move_step i) spares.isFed
    rw [Session.run, List.flatMap_cons, List.map_append, counted, after]
    by_cases beats : b.phase = .running ∧ i = .tick b.generation
    · obtain ⟨running, rfl⟩ := beats
      obtain ⟨hevents, hnext⟩ := h.beat inva invb running
      obtain ⟨hrest, hlast⟩ := ih hnext (invariant_tick inva a.generation) invb' spared
      rw [if_pos ⟨running, rfl⟩, Nat.add_comm, Session.beats, List.flatMap_cons, List.map_append]
      exact ⟨congr (congrArg (· ++ ·) hevents) hrest, hlast⟩
    · obtain ⟨hevents, hnext⟩ := h.rest spares beats
      obtain ⟨hrest, hlast⟩ := ih hnext inva invb' spared
      rw [if_neg beats, Nat.zero_add, hevents, hrest]
      exact ⟨rfl, hlast⟩

theorem isProgress_tick (s : Session) (generation : ℕ) :
    ∀ event ∈ (s.tick generation).events, event.isProgress = true := by
  generalize ht : s.tick generation = t
  have move := s.move_tick generation
  rw [ht] at move
  cases move with
  | idle | lost => exact fun event hevent => nomatch hevent
  | count =>
    intro event hevent
    rw [List.mem_singleton.1 hevent]
    rfl
  | advance | finish =>
    intro event hevent
    rcases List.mem_cons.1 hevent with rfl | hevent
    · rfl
    · exact Plan.isProgress_ending hevent

theorem isProgress_beats (n : ℕ) (s : Session) :
    ∀ event ∈ (s.beats n).flatMap (·.events), event.isProgress = true := by
  induction n generalizing s with
  | zero => exact fun event hevent => nomatch hevent
  | succ n ih =>
    intro event hevent
    rw [beats, List.flatMap_cons, List.mem_append] at hevent
    rcases hevent with hnow | hlater
    · exact s.isProgress_tick s.generation event hnow
    · exact ih _ event hlater

/-- **Pausing loses nothing.** The ticks of a timer that is paused and resumed report what they
would have reported had it been left alone. -/
theorem pausing_loses_nothing {cap : UInt32} {s : Session} {d : Declaration} (h : Reachable cap s)
    (running : s.phase = .running) (held : s.declaration = some d) {is : List Input}
    (spared : SparesAll d s is) :
    let k := s.counted is
    ((s.run is).flatMap (·.events)).map Event.unplaced =
        ((s.beats k).flatMap (·.events)).map Event.unplaced ∧
      (∀ event ∈ (s.run is).flatMap (·.events), event.isProgress = true) ∧
      (s.after is).plan = (s.afterBeats k).plan ∧
      (s.after is).position = (s.afterBeats k).position ∧
      (s.after is).remaining = (s.afterBeats k).remaining := by
  intro k
  have inv := h.invariant
  obtain ⟨hevents, hend⟩ := (Mirrors.refl inv running held).run inv inv spared
  refine ⟨hevents, fun event hevent => ?_, hend.plan, hend.position, hend.remaining⟩
  -- the place of an event does not matter, and the events agree up to their places
  have hmem : event.unplaced ∈ ((s.beats k).flatMap (·.events)).map Event.unplaced := by
    rw [← hevents]
    exact List.mem_map_of_mem hevent
  obtain ⟨event', hevent', heq⟩ := List.mem_map.1 hmem
  rw [← event.isProgress_unplaced, ← heq, event'.isProgress_unplaced]
  exact isProgress_beats k s event' hevent'

/-- A timer is paused after one second, passed over by a tick and a list, and resumed in another
line. -/
theorem pausing_loses_nothing_between_ticks :
    let s := ((Session.new 99).step (.evaluate (scan "[3s] tea" "doc") "doc")).session
    let is : List Input :=
      [.tick 1, .evaluate (scan "[-3s] tea" "doc") "doc", .tick 1,
        .evaluate (scan "[5s] eggs" "list") "list", .evaluate (scan "\n[3s] tea" "doc") "doc",
        .evaluate (scan "" "list") "list", .tick 1]
    ((s.run is).flatMap (·.events)).map Event.unplaced =
        ((s.beats 2).flatMap (·.events)).map Event.unplaced ∧
      (s.after is).remaining = 1 := by
  intro s is
  let d : Declaration := ⟨"doc", 0, 0, false, "3s", [.leaf 3 none], "tea"⟩
  have h : Reachable 99 s := .step .new (.evaluate "[3s] tea" "doc")
  have running : s.phase = .running := by decide +kernel
  have held : s.declaration = some d := by decide +kernel
  have hyphen : scan "[-3s] tea" d.document = some { d with paused := true } := by decide +kernel
  have moved : scan "\n[3s] tea" d.document = some { d with line := 1 } := by decide +kernel
  have other : "list" ≠ d.document := by decide
  have spared : SparesAll d s is :=
    ⟨.tick 1, .found hyphen (by decide), .tick 1, .foreign other (by decide +kernel),
      .found moved (by decide), .missing other (by decide +kernel), .tick 1, trivial⟩
  have hcounted : s.counted is = 2 := by decide +kernel
  obtain ⟨hevents, -, -, -, hremaining⟩ := pausing_loses_nothing h running held spared
  rw [hcounted] at hevents hremaining
  exact ⟨hevents, hremaining.trans (by decide +kernel)⟩

end Session

end TaskTimer
