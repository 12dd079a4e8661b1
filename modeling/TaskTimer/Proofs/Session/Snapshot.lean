import TaskTimer.Proofs.Plan.Room
import TaskTimer.Proofs.Session.Run

/-!
# What a session shows

A snapshot puts the declaration, the position and the plan side by side. They agree as long as a
declaration is held. There are two ways to give one up without another in its place, and each
leaves something behind: when the declaration was removed from its document the position stays, and
when one with nothing to run was found the plan stays as well. What is left is shown until the next
declaration is taken up.

* `Session.Reachable.position_le`: the position is within the plan while a declaration is held.
* `Session.StaysFree`, `Session.GaveUp`: how long ago a declaration was given up.
* `Session.Move.free`, `Session.Move.givesUp`: what a step leaves of a session without declaration.
* `Session.exists_gaveUp`: a session without declaration is fresh, or has given one up.
* `Session.GaveUp.after`: what is left from then on.
* `Session.GaveUp.position_le_iff`, `Session.GaveUp.plan_empty_iff`: when that agrees.
* **`Session.snapshots_agree`**: what every snapshot shows, and when its parts agree.
* `Session.snapshots_show_leftovers`: both ways in which they do not.
-/

namespace TaskTimer

theorem Declaration.IsScanned.size_layout_ne_zero {d : Declaration} (h : d.IsScanned)
    {cap : UInt32} (hcap : cap ≠ 0) : (Plan.layout cap d.nodes).size ≠ 0 := by
  rw [ne_eq, Plan.size_layout_eq_zero_iff, runCount_eq_zero_iff_leafCount hcap]
  exact h.leafCount_ne_zero

namespace Session

/-! ## While a declaration is held -/

section Held

variable {s : Session} {i : Input} {t : Transition}

theorem Move.position_le (h : s.Move i t)
    (within : s.declaration ≠ none → s.position ≤ s.plan.size)
    (held : t.session.declaration ≠ none) : t.session.position ≤ t.session.plan.size := by
  cases h with
  | unchanged | ignore | stillMissing | nothing | elsewhere | idle | lost | count | stop
  | stopIdle | retryNothing => exact within held
  | pause before | resume before | firstStart before | note before =>
    exact within (by rw [before]; exact Option.some_ne_none _)
  | drop | remove => exact absurd rfl held
  | take | launch | retry => exact Nat.zero_le _
  | advance _ _ _ entry | finish _ _ _ entry => exact (Array.getElem?_eq_some_iff.1 entry).1

end Held

theorem Reachable.position_le {cap : UInt32} {s : Session} (h : Reachable cap s) :
    s.declaration ≠ none → s.position ≤ s.plan.size := by
  induction h with
  | new => exact fun _ => Nat.zero_le _
  | @step s i _ _ ih => exact (s.move_step i).position_le ih

/-! ## After a declaration was given up -/

section Free

variable {s : Session} {i : Input} {t : Transition}

theorem Move.free (h : s.Move i t) (before : s.declaration = none)
    (after : t.session.declaration = none) :
    t.session.position = s.position ∧ t.session.plan = s.plan := by
  cases h with
  | unchanged held | pause held | resume held | firstStart held | note held | ignore held
  | elsewhere held | remove held | count _ _ held | advance _ _ held | finish _ _ held =>
    cases held.symm.trans before
  | take | launch | retry => cases after
  | drop | stillMissing | nothing | idle | lost | stop | stopIdle | retryNothing => exact ⟨rfl, rfl⟩

/-- A declaration is given up when it is removed, or found replaced by one with nothing to run. -/
theorem Move.givesUp (h : s.Move i t) (before : s.declaration ≠ none)
    (after : t.session.declaration = none) :
    t.session.position = s.position ∧
      ((∃ document, i = .evaluate none document) ∧ t.session.plan = {} ∨
        ∃ d document, i = .evaluate (some d) document ∧
          (Plan.layout s.loopCap d.nodes).size = 0 ∧ t.session.plan = s.plan) := by
  cases h with
  | remove => exact ⟨rfl, .inl ⟨⟨_, rfl⟩, rfl⟩⟩
  | drop free empty => exact ⟨rfl, .inr ⟨_, _, rfl, empty, rfl⟩⟩
  | pause | resume | firstStart | note | take | launch | retry => cases after
  | unchanged | ignore | stillMissing | nothing | elsewhere | idle | lost | count | advance | finish
  | stop | stopIdle | retryNothing => exact absurd after before

end Free

/-- The session holds no declaration at any point of the run. -/
def StaysFree : Session → List Input → Prop
  | s, [] => s.declaration = none
  | s, i :: is => s.declaration = none ∧ StaysFree (s.step i).session is

/-- The input `i` after the run `before` makes the session give up a declaration, and in the run
`behind` after that it takes up no other. -/
structure GaveUp (s : Session) (before : List Input) (i : Input) (behind : List Input) : Prop where
  held : (s.after before).declaration ≠ none
  free : ((s.after before).step i).session.StaysFree behind

variable {s : Session} {is before behind : List Input} {i : Input}

theorem StaysFree.first (h : s.StaysFree is) : s.declaration = none := by
  cases is with
  | nil => exact h
  | cons i is => exact h.1

theorem StaysFree.after (h : s.StaysFree is) : (s.after is).declaration = none ∧
    (s.after is).position = s.position ∧ (s.after is).plan = s.plan := by
  induction is generalizing s with
  | nil => exact ⟨h, rfl, rfl⟩
  | cons i is ih =>
    obtain ⟨hposition, hplan⟩ := (s.move_step i).free h.1 h.2.first
    obtain ⟨hfree, hposition', hplan'⟩ := ih h.2
    exact ⟨hfree, hposition'.trans hposition, hplan'.trans hplan⟩

/-- **A session without a declaration** never had one, or gave up a last one. -/
theorem exists_gaveUp (free : (s.after is).declaration = none) :
    s.StaysFree is ∨ ∃ before i behind, is = before ++ i :: behind ∧ s.GaveUp before i behind := by
  induction is generalizing s with
  | nil => exact .inl free
  | cons i is ih =>
    rcases ih free with stays | ⟨before, j, behind, rfl, gaveUp⟩
    · by_cases held : s.declaration = none
      · exact .inl ⟨held, stays⟩
      · exact .inr ⟨[], i, is, rfl, held, stays⟩
    · exact .inr ⟨i :: before, j, behind, rfl, gaveUp.held, gaveUp.free⟩

/-- **What is left of a declaration that was given up**, until another is taken up. -/
theorem GaveUp.after (h : s.GaveUp before i behind) :
    (s.after (before ++ i :: behind)).declaration = none ∧
      (s.after (before ++ i :: behind)).position = (s.after before).position ∧
      ((∃ document, i = .evaluate none document) ∧
          (s.after (before ++ i :: behind)).plan = {} ∨
        ∃ d document, i = .evaluate (some d) document ∧
          (Plan.layout (s.after before).loopCap d.nodes).size = 0 ∧
          (s.after (before ++ i :: behind)).plan = (s.after before).plan) := by
  obtain ⟨hfree, hposition, hplan⟩ := h.free.after
  obtain ⟨hleft, hcourse⟩ := ((s.after before).move_step i).givesUp h.held h.free.first
  rw [after_append, after_cons, hplan]
  exact ⟨hfree, hposition.trans hleft, hcourse⟩

section Leftovers

variable {cap : UInt32} (reached : Reachable cap (s.after before)) (h : s.GaveUp before i behind)

include reached h

theorem GaveUp.position_le_iff :
    (s.after (before ++ i :: behind)).position ≤ (s.after (before ++ i :: behind)).plan.size ↔
      ((∃ document, i = .evaluate none document) → (s.after before).position = 0) := by
  obtain ⟨-, hposition, ⟨removed, hplan⟩ | ⟨d, document, rfl, -, hplan⟩⟩ := h.after
  · rw [hposition, hplan]
    exact ⟨fun hle _ => Nat.le_zero.1 hle, fun hzero => Nat.le_of_eq (hzero removed)⟩
  · rw [hposition, hplan]
    exact iff_of_true (reached.position_le h.held) fun removed => nomatch removed

theorem GaveUp.plan_empty_iff :
    (s.after (before ++ i :: behind)).plan.size = 0 ↔ ∃ document, i = .evaluate none document := by
  have inv := reached.invariant
  obtain ⟨c, held⟩ := Option.ne_none_iff_exists'.1 h.held
  obtain ⟨hlatest, hlayout⟩ := inv.held c held
  have hsize : (s.after before).plan.size ≠ 0 := hlayout ▸ (inv.latest c hlatest).2
  obtain ⟨-, -, ⟨removed, hplan⟩ | ⟨d, document, rfl, -, hplan⟩⟩ := h.after
  · rw [hplan]
    exact iff_of_true rfl removed
  · rw [hplan]
    exact iff_of_false hsize fun removed => nomatch removed

end Leftovers

/-! ## Snapshots -/

theorem snapshot_idle (idle : s.phase = .idle) : s.snapshot.remaining = 0 ∧
    s.snapshot.duration = 0 ∧ s.snapshot.step = "" ∧ s.snapshot.symbol = none := by
  simp [snapshot, entry?, isActive, idle]

theorem snapshot_active {e : Entry} (active : s.phase ≠ .idle)
    (entry : s.plan.entries[s.position]? = some e) : s.snapshot.remaining = s.remaining ∧
      s.snapshot.duration = e.seconds ∧ s.snapshot.step = e.stepLabel ∧
      s.snapshot.symbol = e.symbol := by
  simp [snapshot, entry?, isActive, active, entry]

theorem snapshot_document : s.snapshot.document = none ↔ s.declaration = none :=
  Option.map_eq_none_iff

section Fed

variable {cap : UInt32} (fed : ∀ i ∈ is, i.IsFed)

include fed

theorem reachable_before (his : is = before ++ i :: behind) :
    Reachable cap ((Session.new cap).after before) :=
  Reachable.new.after fun j hj => fed j (his ▸ List.mem_append_left _ hj)

/-- **The position leaves the plan** exactly when the plan was removed and the position was not. -/
theorem snapshot_within_iff :
    ((Session.new cap).after is).snapshot.position ≤
      ((Session.new cap).after is).snapshot.planSize ↔
      ∀ before document behind, is = before ++ .evaluate none document :: behind →
        (Session.new cap).GaveUp before (.evaluate none document) behind →
          ((Session.new cap).after before).position = 0 := by
  constructor
  · rintro within before document behind rfl gaveUp
    exact (gaveUp.position_le_iff (reachable_before fed rfl)).1 within ⟨document, rfl⟩
  · intro h
    by_cases free : ((Session.new cap).after is).declaration = none
    · rcases exists_gaveUp free with stays | ⟨before, i, behind, rfl, gaveUp⟩
      · exact le_of_eq_of_le stays.after.2.1 (Nat.zero_le _)
      · refine (gaveUp.position_le_iff (reachable_before fed rfl)).2 ?_
        rintro ⟨document, rfl⟩
        exact h before document behind rfl gaveUp
    · exact (Reachable.new.after fed).position_le free

/-- **A plan without a declaration** was given up for one with nothing to run. -/
theorem snapshot_empty_iff :
    (((Session.new cap).after is).snapshot.document = none →
      ((Session.new cap).after is).snapshot.planSize = 0) ↔
      ∀ before d document behind, is = before ++ .evaluate (some d) document :: behind →
        ¬ (Session.new cap).GaveUp before (.evaluate (some d) document) behind := by
  constructor
  · rintro h before d document behind rfl gaveUp
    have hempty := h (snapshot_document.2 gaveUp.after.1)
    exact nomatch (gaveUp.plan_empty_iff (reachable_before fed rfl)).1 hempty
  · intro h free
    rcases exists_gaveUp (snapshot_document.1 free) with
      stays | ⟨before, i, behind, rfl, gaveUp⟩
    · exact congrArg Plan.size stays.after.2.2
    · obtain ⟨-, -, ⟨removed, -⟩ | ⟨d, document, rfl, -⟩⟩ := gaveUp.after
      · exact (gaveUp.plan_empty_iff (reachable_before fed rfl)).2 removed
      · exact absurd gaveUp (h before d document behind rfl)

theorem not_gaveUp_found (hcap : cap ≠ 0) {d : Declaration} {document : String}
    (his : is = before ++ .evaluate (some d) document :: behind) :
    ¬ (Session.new cap).GaveUp before (.evaluate (some d) document) behind := by
  intro gaveUp
  have scanned : d.IsScanned :=
    (fed _ (his ▸ List.mem_append_right _ List.mem_cons_self)).isScanned
  have hloopCap : ((Session.new cap).after before).loopCap = cap :=
    (reachable_before fed his).invariant.loopCap
  obtain ⟨-, -, ⟨⟨_, removed⟩, -⟩ | ⟨_, _, found, hempty, -⟩⟩ := gaveUp.after
  · cases removed
  · cases found
    rw [hloopCap] at hempty
    exact scanned.size_layout_ne_zero hcap hempty

end Fed

/-- **What a snapshot shows** agrees with itself, but for what is left of a declaration that was
given up. -/
theorem snapshots_agree {cap : UInt32} (fed : ∀ i ∈ is, i.IsFed) :
    let fresh := Session.new cap
    let s := fresh.after is
    let v := s.snapshot
    (v.phase = .idle →
      v.remaining = 0 ∧ v.duration = 0 ∧ v.step = "" ∧ v.symbol = none) ∧
    (v.phase ≠ .idle → v.document ≠ none ∧ v.position < v.planSize ∧ v.remaining ≤ v.duration ∧
      ∃ e, s.plan.entries[v.position]? = some e ∧ v.duration = e.seconds ∧ v.step = e.stepLabel ∧
        v.symbol = e.symbol) ∧
    (v.document ≠ none → v.position ≤ v.planSize) ∧
    (v.position ≤ v.planSize ↔ ∀ before document behind,
      is = before ++ .evaluate none document :: behind →
      fresh.GaveUp before (.evaluate none document) behind → (fresh.after before).position = 0) ∧
    ((v.document = none → v.planSize = 0) ↔ ∀ before d document behind,
      is = before ++ .evaluate (some d) document :: behind →
      ¬ fresh.GaveUp before (.evaluate (some d) document) behind) ∧
    (cap ≠ 0 → v.document = none → v.planSize = 0) := by
  intro fresh s v
  have reached : Reachable cap s := Reachable.new.after fed
  refine ⟨snapshot_idle, fun active => ?_,
    fun held => reached.position_le (mt snapshot_document.2 held), snapshot_within_iff fed,
    snapshot_empty_iff fed, fun hcap => (snapshot_empty_iff fed).2
      fun before d document behind his => not_gaveUp_found fed hcap his⟩
  obtain ⟨d, e, held, entry, hle, -⟩ := reached.invariant.active active
  obtain ⟨hremaining, hduration, hstep, hsymbol⟩ := snapshot_active active entry
  refine ⟨?_, (Array.getElem?_eq_some_iff.1 entry).1, ?_, e, entry, hduration, hstep, hsymbol⟩
  · rw [ne_eq, snapshot_document, held]
    exact Option.some_ne_none d
  · rw [hremaining, hduration]
    exact hle

/-- The third second runs in the second repetition of its group. -/
theorem snapshots_agree_on_the_way :
    let is : List Input :=
      [.evaluate (scan "[1s (1s)2 4s] tea" "doc") "doc", .tick 1, .tick 1]
    let v := ((Session.new 99).after is).snapshot
    v.phase = .running ∧ v.position = 2 ∧ v.position < v.planSize ∧ v.remaining ≤ v.duration ∧
      v.step = "2" := by
  intro is v
  have fed : ∀ i ∈ is, i.IsFed := by
    simp only [is, List.forall_mem_cons]
    exact ⟨.evaluate _ _, .tick 1, .tick 1, nofun⟩
  have running : v.phase = .running := by decide +kernel
  obtain ⟨-, hactive, -⟩ := @snapshots_agree is 99 fed
  obtain ⟨-, hwithin, hle, -⟩ := hactive (by rw [running]; decide)
  exact ⟨running, by decide +kernel, hwithin, hle, by decide +kernel⟩

/-- **Snapshots show what is left** of a timer that was removed, or gave way to one with nothing to
run. -/
theorem snapshots_show_leftovers :
    let removed : List Input :=
      [.evaluate (scan "[1s 1s] tea" "doc") "doc", .tick 1, .evaluate (scan "tea" "doc") "doc"]
    let dropped : List Input :=
      [.evaluate (scan "[1s] tea" "doc") "doc", .evaluate (scan "[(1s)] eggs" "doc") "doc"]
    let v := ((Session.new 99).after removed).snapshot
    let w := ((Session.new 0).after dropped).snapshot
    ((∀ i ∈ removed, i.IsFed) ∧ ¬ v.position ≤ v.planSize) ∧
      (∀ i ∈ dropped, i.IsFed) ∧ ¬ (w.document = none → w.planSize = 0) := by
  intro removed dropped v w
  have hremoved : ∀ i ∈ removed, i.IsFed := by
    simp only [removed, List.forall_mem_cons]
    exact ⟨.evaluate _ _, .tick 1, .evaluate _ _, nofun⟩
  have hdropped : ∀ i ∈ dropped, i.IsFed := by
    simp only [dropped, List.forall_mem_cons]
    exact ⟨.evaluate _ _, .evaluate _ _, nofun⟩
  exact ⟨⟨hremoved, by decide +kernel⟩, hdropped, by decide +kernel⟩

end Session

end TaskTimer
