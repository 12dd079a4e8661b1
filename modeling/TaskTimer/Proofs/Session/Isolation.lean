import TaskTimer.Proofs.Session.Countdown
import TaskTimer.Proofs.Session.Run

/-!
# Other documents

Many documents are scanned, and a session follows the timer of one of them. What becomes of the
others does not show in it: not while its own document declares the timer and the others nothing,
and not at all while the timer is paused.

* `Session.Sprinkled`: a sequence of inputs with scans of other documents put in.
* `Session.Padded`: transitions with others put in that leave no trace.
* `Session.Sprinkled.padded`: scans of other documents that find nothing leave no trace.
* `Session.essential`: what a session consists of, without a note that is not looked at any more.
* `Session.map_essential_run`: sessions with the same essentials run alike.
* `Session.run_foreign`: a paused timer is not moved by other documents.
* **`Session.other_documents_leave_no_trace`**: both in one statement.
-/

namespace TaskTimer

/-- A tick, or the scan of another document than `document`, whatever it finds. -/
inductive Input.IsForeign (document : String) : Input → Prop
  | tick (generation : ℕ) : IsForeign document (.tick generation)
  | evaluate (text : String) {other : String} (h : other ≠ document) :
      IsForeign document (.evaluate (scan text other) other)

namespace Session

/-- The second inputs are the first ones with scans put in, each of which finds nothing in another
document than `document` and comes while a declaration of `document` is held. -/
inductive Sprinkled (document : String) : Session → List Input → List Input → Prop
  | nil (s : Session) : Sprinkled document s [] []
  | own {s : Session} {i : Input} {is js : List Input}
      (h : Sprinkled document (s.step i).session is js) : Sprinkled document s (i :: is) (i :: js)
  | extra {s : Session} {c : Declaration} {text other : String} {is js : List Input}
      (held : s.declaration = some c) (own : c.document = document) (foreign : other ≠ document)
      (nothing : scan text other = none)
      (h : Sprinkled document (s.step (.evaluate (scan text other) other)).session is js) :
      Sprinkled document s is (.evaluate (scan text other) other :: js)

/-- The second transitions, which start from `s`, are the first ones with others put in that report
nothing, give no order and leave the session as it is. -/
inductive Padded : Session → List Transition → List Transition → Prop
  | nil (s : Session) : Padded s [] []
  | own {s : Session} {t : Transition} {ts us : List Transition} (h : Padded t.session ts us) :
      Padded s (t :: ts) (t :: us)
  | extra {s : Session} {ts us : List Transition} (h : Padded s ts us) :
      Padded s ts ({ session := s } :: us)

theorem Padded.flatMap_events {s : Session} {ts us : List Transition} (h : Padded s ts us) :
    us.flatMap (·.events) = ts.flatMap (·.events) := by
  induction h with
  | nil => rfl
  | own _ ih => simp only [List.flatMap_cons, ih]
  | extra _ ih => simpa using ih

theorem Padded.filter_orders {s : Session} {ts us : List Transition} (h : Padded s ts us) :
    (us.map (·.order)).filter (· != .keep) = (ts.map (·.order)).filter (· != .keep) := by
  induction h with
  | nil => rfl
  | own _ ih => simp only [List.map_cons, List.filter_cons, ih]
  | extra _ ih => simpa using ih

/-! ## Documents without a timer -/

theorem step_nothing {s : Session} {c : Declaration} {document text other : String}
    (held : s.declaration = some c) (own : c.document = document) (foreign : other ≠ document)
    (nothing : scan text other = none) :
    s.step (.evaluate (scan text other) other) = { session := s } := by
  rw [nothing]
  exact evaluate_elsewhere held (own.trans_ne foreign.symm)

theorem Sprinkled.padded {document : String} {s : Session} {is js : List Input}
    (h : Sprinkled document s is js) : Padded s (s.run is) (s.run js) := by
  induction h with
  | nil s => exact .nil s
  | own _ ih => exact .own ih
  | @extra s c text other is js held own foreign nothing h ih =>
    have hstep := step_nothing held own foreign nothing
    rw [hstep] at ih
    rw [run, hstep]
    exact .extra ih

theorem Sprinkled.after_eq {document : String} {s : Session} {is js : List Input}
    (h : Sprinkled document s is js) : s.after js = s.after is := by
  induction h with
  | nil s => rfl
  | own _ ih => exact ih
  | @extra s c text other is js held own foreign nothing h ih =>
    have hstep := step_nothing held own foreign nothing
    rw [hstep] at ih
    rw [after_cons, hstep]
    exact ih

/-! ## A note that is not looked at -/

/-- The session without the note which document is known to declare nothing, unless no declaration
is held: the note is read only then, and nothing leads there without writing it anew. -/
def essential (s : Session) : Session :=
  { s with cleared := if s.declaration.isSome then none else s.cleared }

end Session

namespace Transition

/-- The transition up to the essentials of the session that it leads to. -/
def essential (t : Transition) : Transition := { t with session := t.session.essential }

/-- The transition to a session with another note. -/
def noting (t : Transition) (cleared : Option String) : Transition :=
  { t with session := { t.session with cleared := cleared } }

theorem essential_noting {t : Transition} {c : Declaration} (held : t.session.declaration = some c)
    (cleared : Option String) : (t.noting cleared).essential = t.essential := by
  simp [essential, noting, Session.essential, held]

end Transition

namespace Session

section Noting

variable (s : Session) (cleared : Option String)

theorem tick_noting (generation : ℕ) :
    { s with cleared := cleared }.tick generation = (s.tick generation).noting cleared := by
  have move := s.move_tick generation
  generalize s.tick generation = t at move ⊢
  cases move with
  | idle late => exact tick_stale late
  | lost current running missing =>
    subst current
    exact tick_lost running missing
  | count current running held entry more =>
    subst current
    exact tick_count running held entry more
  | advance current running held entry ended follows =>
    subst current
    exact tick_advance (s := { s with cleared := cleared }) running held entry ended follows
  | finish current running held entry ended last =>
    subst current
    exact tick_finish running held entry ended last

theorem stop_noting : { s with cleared := cleared }.stop = s.stop.noting cleared := by
  unfold stop isActive
  dsimp only
  split <;> rfl

theorem retry_noting : { s with cleared := cleared }.retry = s.retry.noting cleared := by
  unfold retry
  dsimp only
  split
  · rfl
  · split <;> rfl

variable {s} {c : Declaration} (held : s.declaration = some c)

include held

theorem missing_noting (document : String) :
    ({ s with cleared := cleared }.missing document).essential = (s.missing document).essential := by
  by_cases own : c.document = document
  · simp [missing, held, own, halt]
  · simp [missing, held, own, Transition.essential, essential]

/-- **The note does not show while a declaration is held.** -/
theorem essential_step_noting (i : Input) :
    ({ s with cleared := cleared }.step i).essential = (s.step i).essential := by
  cases i with
  | evaluate scanned document =>
    cases scanned with
    | none => exact missing_noting cleared held document
    | some d => rfl
  | tick generation =>
    have still : (s.tick generation).session.declaration = some c :=
      (s.declaration_tick generation).1.trans held
    simp only [step, tick_noting, Transition.essential_noting still]
  | stop =>
    have still : s.stop.session.declaration = some c := by
      have move := s.move_stop
      generalize s.stop = t at move
      cases move <;> exact held
    simp only [step, stop_noting, Transition.essential_noting still]
  | retry =>
    have still : ∃ c', s.retry.session.declaration = some c' := by
      have move := s.move_retry
      generalize s.retry = t at move
      cases move with
      | retry => exact ⟨_, rfl⟩
      | retryNothing => exact ⟨c, held⟩
    obtain ⟨c', still⟩ := still
    simp only [step, retry_noting, Transition.essential_noting still]

end Noting

theorem essential_step (s : Session) (i : Input) :
    (s.essential.step i).essential = (s.step i).essential := by
  cases held : s.declaration with
  | none =>
    have kept : (if s.declaration.isSome then none else s.cleared) = s.cleared := by simp [held]
    rw [essential, kept]
  | some c => exact essential_step_noting _ held i

/-- **Sessions with the same essentials run alike.** -/
theorem map_essential_run {s s' : Session} (h : s.essential = s'.essential) (is : List Input) :
    (s.run is).map Transition.essential = (s'.run is).map Transition.essential := by
  induction is generalizing s s' with
  | nil => rfl
  | cons i is ih =>
    have hstep : (s.step i).essential = (s'.step i).essential := by
      rw [← essential_step, h, essential_step]
    rw [run, run, List.map_cons, List.map_cons, hstep,
      ih (congrArg Transition.session hstep)]

/-! ## A paused timer -/

section Paused

variable {s : Session} {c : Declaration} (held : s.declaration = some c) (paused : s.phase = .paused)

include held paused

theorem step_foreign {i : Input} (foreign : i.IsForeign c.document) :
    ∃ cleared, s.step i = { session := { s with cleared := cleared } } := by
  have waits : s.phase ≠ .running := by simp [paused]
  cases foreign with
  | tick generation => exact ⟨s.cleared, tick_not_running waits generation⟩
  | @evaluate text other hother =>
    unfold step
    cases hscan : scan text other with
    | none => exact ⟨s.cleared, evaluate_elsewhere held hother.symm⟩
    | some d =>
      rw [← scan_document hscan] at hother
      exact ⟨none, evaluate_ignored other held hother.symm paused⟩

/-- **Other documents do not move a paused timer.** -/
theorem run_foreign {block : List Input} (foreign : ∀ i ∈ block, i.IsForeign c.document) :
    (∀ t ∈ s.run block, t.events = [] ∧ t.order = .keep) ∧
      ∃ cleared, s.after block = { s with cleared := cleared } := by
  induction block generalizing s with
  | nil => exact ⟨by simp [run], s.cleared, rfl⟩
  | cons i block ih =>
    rw [List.forall_mem_cons] at foreign
    obtain ⟨cleared, hstep⟩ := step_foreign held paused foreign.1
    obtain ⟨hquiet, cleared', hafter⟩ :=
      ih (s := { s with cleared := cleared }) held paused foreign.2
    rw [run, after_cons, hstep, List.forall_mem_cons]
    exact ⟨⟨⟨rfl, rfl⟩, hquiet⟩, cleared', hafter⟩

end Paused

/-- **Other documents leave no trace**: their scans may be put into a run or left out of it, where
they find nothing or the timer is paused. -/
theorem other_documents_leave_no_trace (s : Session) (document : String) :
    (∀ is js, Sprinkled document s is js →
      Padded s (s.run is) (s.run js) ∧ s.reports js = s.reports is ∧
        ((s.run js).map (·.order)).filter (· != .keep) =
          ((s.run is).map (·.order)).filter (· != .keep) ∧
        s.after js = s.after is) ∧
    (∀ c, s.declaration = some c → c.document = document → s.phase = .paused →
      ∀ block, (∀ i ∈ block, i.IsForeign document) →
        let behind := s.after block
        (∀ t ∈ s.run block, t.events = [] ∧ t.order = .keep) ∧
          (behind.declaration = s.declaration ∧ behind.latest = s.latest ∧
            behind.plan = s.plan ∧ behind.position = s.position ∧
            behind.remaining = s.remaining ∧ behind.phase = s.phase ∧
            behind.started = s.started ∧ behind.generation = s.generation) ∧
          ∀ is, (behind.run is).map Transition.essential = (s.run is).map Transition.essential) := by
  refine ⟨fun is js h => ?_, fun c held own paused block foreign => ?_⟩
  · have hpadded := h.padded
    exact ⟨hpadded, hpadded.flatMap_events, hpadded.filter_orders, h.after_eq⟩
  · intro behind
    obtain ⟨hquiet, cleared, hbehind⟩ := run_foreign held paused (own ▸ foreign)
    have hsame : behind.essential = s.essential := by
      simp [behind, hbehind, essential, held]
    refine ⟨hquiet, ?_, map_essential_run hsame⟩
    simp [behind, hbehind]

/-- A list with eggs is scanned while the timer is paused, and one without while it runs. -/
theorem other_documents_leave_no_trace_eggs :
    let s := (Session.new 99).after [.evaluate (scan "[-3s] tea" "doc") "doc",
      .evaluate (scan "" "doc") "doc", .retry]
    let block : List Input := [.evaluate (scan "[5s] eggs" "list") "list", .tick s.generation]
    let is : List Input := [.evaluate (scan "[3s] tea" "doc") "doc", .tick s.generation]
    let js : List Input := [.evaluate (scan "[3s] tea" "doc") "doc",
      .evaluate (scan "" "list") "list", .tick s.generation]
    (s.after block).cleared ≠ s.cleared ∧ s.reports block = [] ∧
      ((s.after block).run is).map Transition.essential = (s.run is).map Transition.essential ∧
      s.reports is ≠ [] ∧ s.after js = s.after is := by
  intro s block is js
  let d : Declaration := ⟨"doc", 0, 0, true, "3s", [.leaf 3 none], "tea"⟩
  have held : s.declaration = some d := by decide +kernel
  have paused : s.phase = .paused := by decide +kernel
  have resumed : (s.step (.evaluate (scan "[3s] tea" "doc") "doc")).session.declaration =
      some { d with paused := false } := by decide +kernel
  have foreign : ∀ i ∈ block, i.IsForeign "doc" := by
    simp only [block, List.forall_mem_cons]
    exact ⟨.evaluate _ (by decide), .tick _, by simp⟩
  have sprinkled : Sprinkled "doc" s is js :=
    .own (.extra resumed rfl (by decide) (by decide +kernel) (.own (.nil _)))
  obtain ⟨hmissing, hpaused⟩ := other_documents_leave_no_trace s "doc"
  obtain ⟨-, -, hruns⟩ := hpaused d held rfl paused block foreign
  obtain ⟨-, -, -, hafter⟩ := hmissing is js sprinkled
  exact ⟨by decide +kernel, by decide +kernel, hruns is, by decide +kernel, hafter⟩

end Session

end TaskTimer
