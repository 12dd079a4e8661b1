import TaskTimer.Proofs.Session.Generation

/-!
# Starting afresh

A timer is started because a document declares it, because the hyphen of a timer that waits was
removed, or because it is to start over. Whatever the session was before, it then stands where a
session that has seen nothing else would stand.

* `Session.StandsAs`: two sessions have reached the same point of the same timer.
* `Session.yieldsTo`: an active timer is replaced by another.
* `Session.Move.adopts`: what taking up a declaration leads to.
* `Session.isSome_latest_after`: there is something to start over as soon as a declaration was
  taken up.
* `Session.Invariant.retry`: what starting over leads to.
* **`Session.starts_carry_no_residue`**: starts and restarts depend on nothing that was before.
-/

namespace TaskTimer

namespace Session

/-- The sessions have reached the same point of the same timer. -/
structure StandsAs (s s' : Session) : Prop where
  declaration : s.declaration = s'.declaration
  latest : s.latest = s'.latest
  plan : s.plan = s'.plan
  position : s.position = s'.position
  remaining : s.remaining = s'.remaining
  phase : s.phase = s'.phase

namespace StandsAs

variable {s s' s'' : Session}

theorem trans (h : s.StandsAs s') (h' : s'.StandsAs s'') : s.StandsAs s'' where
  declaration := h.declaration.trans h'.declaration
  latest := h.latest.trans h'.latest
  plan := h.plan.trans h'.plan
  position := h.position.trans h'.position
  remaining := h.remaining.trans h'.remaining
  phase := h.phase.trans h'.phase

theorem start (s : Session) : s.start.StandsAs s :=
  ⟨rfl, rfl, rfl, rfl, rfl, rfl⟩

theorem install {plan plan' : Plan} (latest : s.latest = s'.latest) (d : Declaration)
    (hplan : plan = plan') : (s.install d plan).StandsAs (s'.install d plan') := by
  rw [hplan]
  exact ⟨rfl, latest, rfl, rfl, rfl, rfl⟩

theorem load (loopCap : s.loopCap = s'.loopCap) (d : Declaration) :
    (s.load d).StandsAs (s'.load d) := by
  refine install ?_ d (by rw [loopCap])
  rfl

/-- A fresh session stands at the start of the plan of the first declaration that it is given. -/
theorem evaluate_new {cap : UInt32} {d : Declaration} (document : String)
    (hplan : (Plan.layout cap d.nodes).size ≠ 0) :
    ((Session.new cap).load d).StandsAs
      ((Session.new cap).evaluate (some d) document).session := by
  change StandsAs _ ((Session.new cap).adopt d).session
  rw [adopt]
  change StandsAs _ (if (Plan.layout cap d.nodes).size = 0 then _ else _ : Transition).session
  rw [if_neg hplan]
  cases d.paused <;> exact ⟨rfl, rfl, rfl, rfl, rfl, rfl⟩

end StandsAs

/-! ## Taking up a declaration -/

/-- The session has an active timer whose content is other than that of `d`. -/
def yieldsTo (s : Session) (d : Declaration) : Bool :=
  s.isActive && !s.declaration.any (·.sameContent d)

variable {cap : UInt32} {s : Session} {d : Declaration}

theorem yieldsTo_same {c : Declaration} (held : s.declaration = some c)
    (same : c.sameContent d = true) : s.yieldsTo d = false := by
  rw [yieldsTo, held, Option.any_some, same, Bool.not_true, Bool.and_false]

theorem GivesWay.cancellation_eq (free : s.GivesWay d) :
    s.cancellation = if s.yieldsTo d then [.cancel] else [] := by
  have differs : s.declaration.any (·.sameContent d) = false := by
    cases held : s.declaration with
    | none => rfl
    | some c => exact (free c held).1
  rw [cancellation, yieldsTo, differs, Bool.not_false, Bool.and_true]

/-- **What taking up a declaration leads to.** The only trace of the session before is its
cancellation. -/
theorem Move.adopts {document : String} {t : Transition} (inv : s.Invariant cap)
    (scanned : d.IsScanned) (h : s.Move (.evaluate (some d) document) t)
    (adopted : t.adopted = true) :
    (Plan.layout cap d.nodes).size ≠ 0 ∧ t.session.StandsAs ((Session.new cap).load d) ∧
      t.events = (if s.yieldsTo d then [.cancel] else []) ++
        if d.paused then [] else [.start d] := by
  have hcap : s.loopCap = (Session.new cap).loopCap := inv.loopCap
  cases h with
  | unchanged | pause | resume | note | ignore | drop => cases adopted
  | take free plan hyphen =>
    rw [inv.loopCap] at plan
    refine ⟨plan, .load hcap d, ?_⟩
    rw [free.cancellation_eq, hyphen, if_pos rfl, List.append_nil]
  | launch free plan hyphen =>
    rw [inv.loopCap] at plan
    refine ⟨plan, (StandsAs.start _).trans (.load hcap d), ?_⟩
    rw [free.cancellation_eq, hyphen, if_neg Bool.false_ne_true]
  | @firstStart c _ _ held same before after paused waiting =>
    -- the timer has waited since it was taken up, in another form with the same nodes
    obtain ⟨hlatest, hplan⟩ := inv.held c held
    obtain ⟨hc, hsize⟩ := inv.latest c hlatest
    rw [hc.nodes_eq scanned same] at hplan hsize
    obtain ⟨hposition, hremaining⟩ := inv.waiting paused waiting
    obtain ⟨e, he⟩ := Plan.exists_first hsize
    refine ⟨hsize, ⟨rfl, rfl, hplan, hposition, ?_, ?_⟩, ?_⟩
    · exact (hremaining e (hplan ▸ he)).trans
        (remaining_install { Session.new cap with latest := some d } d he).symm
    · exact (((Session.new cap).phase_load_running d).2 after).symm
    · rw [yieldsTo_same held same, after]
      rfl

/-! ## Starting over -/

theorem Move.isSome_latest {i : Input} {t : Transition} (inv : s.Invariant cap) (h : s.Move i t) :
    t.session.latest.isSome = (s.latest.isSome || t.adopted) := by
  cases h with
  | unchanged | ignore | drop | stillMissing | nothing | elsewhere | remove | idle | lost | count
  | advance | finish | stop | stopIdle | retry | retryNothing => exact (Bool.or_false _).symm
  | take | launch | firstStart => exact (Bool.or_true _).symm
  | pause held | resume held | note held =>
    rw [(inv.held _ held).1]
    rfl

theorem isSome_latest_after (h : Reachable cap s) {is : List Input} (fed : ∀ i ∈ is, i.IsFed) :
    (s.after is).latest.isSome = (s.latest.isSome || (s.run is).any (·.adopted)) := by
  induction is generalizing s with
  | nil => exact (Bool.or_false _).symm
  | cons i is ih =>
    rw [List.forall_mem_cons] at fed
    rw [after_cons, ih (.step h fed.1) fed.2, (s.move_step i).isSome_latest h.invariant, run,
      List.any_cons, Bool.or_assoc]

namespace Invariant

variable (inv : s.Invariant cap)

include inv

theorem phase_active (active : s.phase ≠ .idle) (held : s.declaration = some d) :
    s.phase = if d.paused then .paused else .running := by
  cases hphase : s.phase with
  | idle => exact absurd hphase active
  | running => rw [(inv.running hphase).2 d held]; rfl
  | paused => rw [inv.paused hphase d held]; rfl

/-- **What starting over leads to**: the last declaration starts in a new generation, or waits. -/
theorem retry (known : s.latest = some d) :
    s.retry.events = [.start d] ∧ s.retry.order = .arm (s.generation + 1) ∧
      s.retry.session.StandsAs ((Session.new cap).load d) ∧
      (s.isActive = true → s.retry.session.phase = s.phase) := by
  have hplan : (Plan.layout s.loopCap d.nodes).size ≠ 0 := by
    rw [inv.loopCap]
    exact (inv.latest d known).2
  have hmove : s.Move .retry s.retry := s.move_step .retry
  generalize s.retry = t at hmove ⊢
  cases hmove with
  | retryNothing none => exact absurd (none d known) hplan
  | @retry d' known' plan' =>
    obtain rfl : d = d' := Option.some.inj (known.symm.trans known')
    refine ⟨rfl, rfl, ?_, fun active => ?_⟩
    · exact (StandsAs.start _).trans (.install known d (by rw [inv.loopCap]; rfl))
    · have active : s.phase ≠ .idle := bne_iff_ne.1 active
      obtain ⟨c, -, held, -⟩ := inv.active active
      obtain rfl : c = d := Option.some.inj ((inv.held c held).1.symm.trans known)
      exact (inv.phase_active active held).symm

end Invariant

/-- **Starts and restarts carry no residue.** They leave a session where a fresh one would stand;
and starting over is always possible once anything was taken up. -/
theorem starts_carry_no_residue {is : List Input} (fed : ∀ i ∈ is, i.IsFed) :
    let ts := (Session.new cap).run is
    let s := (Session.new cap).after is
    (∀ d document, d.IsScanned →
      let t := s.evaluate (some d) document
      t.adopted = true →
        t.session.StandsAs ((Session.new cap).evaluate (some d) document).session ∧
        t.events = (if s.yieldsTo d then [.cancel] else []) ++
          if d.paused then [] else [.start d]) ∧
    ((∃ t ∈ ts, t.adopted = true) → ∃ d g, s.latest = some d ∧
      s.retry.events = [.start d] ∧ s.retry.order = .arm g ∧
      (∀ t ∈ ts, t.session.generation < g ∧ ∀ g', t.order = .arm g' → g' < g) ∧
      g = ts.countP (·.order != .keep) + 1 ∧
      s.retry.session.StandsAs
        ((Session.new cap).evaluate (some d) d.document).session ∧
      (s.isActive = true → s.retry.session.phase = s.phase)) := by
  intro ts s
  have reached : Reachable cap s := Reachable.new.after fed
  have inv : s.Invariant cap := reached.invariant
  refine ⟨fun d document scanned => ?_, fun ⟨t, ht, adopted⟩ => ?_⟩
  · intro t adopted
    obtain ⟨hplan, hsession, hevents⟩ :=
      (s.move_step (.evaluate (some d) document)).adopts inv scanned adopted
    exact ⟨hsession.trans (.evaluate_new document hplan), hevents⟩
  · have hsome : s.latest.isSome = true := by
      rw [isSome_latest_after .new fed]
      exact Bool.or_eq_true_iff.2 (.inr (List.any_eq_true.2 ⟨t, ht, adopted⟩))
    obtain ⟨d, known⟩ := Option.isSome_iff_exists.1 hsome
    obtain ⟨hevents, horder, hsession, hphase⟩ := inv.retry known
    have hplan := (inv.latest d known).2
    refine ⟨d, s.generation + 1, known, hevents, horder, fun t ht => ?_,
      congrArg (· + 1) (generation_after_new cap is), hsession.trans (.evaluate_new d.document hplan), hphase⟩
    have hle : t.session.generation ≤ s.generation := generation_le_of_mem_run ht
    refine ⟨Nat.lt_succ_of_le hle, fun g' harm => ?_⟩
    obtain ⟨before, i, behind, -, rfl⟩ := ((Session.new cap).mem_run_iff is).1 ht
    rw [← (generation_step_arm harm).2]
    exact Nat.lt_succ_of_le hle

/-- A timer that is paused on its way is started over, and replaced by other content. -/
theorem starts_carry_no_residue_paused :
    let is : List Input :=
      [.evaluate (scan "[2s 1s] tea" "doc") "doc", .tick 1, .tick 1,
        .evaluate (scan "[-2s 1s] tea" "doc") "doc", .evaluate (scan "[9s] rice" "other") "other"]
    let tea : Declaration := ⟨"doc", 0, 0, true, "2s 1s", [.leaf 2 none, .leaf 1 none], "tea"⟩
    let eggs : Declaration := ⟨"doc", 0, 0, false, "5s", [.leaf 5 none], "eggs"⟩
    let s := (Session.new 99).after is
    (s.phase = .paused ∧ s.position = 1 ∧ s.retry.events = [.start tea] ∧
      s.retry.session.phase = .paused ∧ s.retry.session.position = 0 ∧
      s.retry.session.remaining = 2) ∧
    (s.evaluate (some eggs) "doc").events = [.cancel, .start eggs] ∧
    (s.evaluate (some eggs) "doc").session.position = 0 := by
  intro is tea eggs s
  have fed : ∀ i ∈ is, i.IsFed := by
    simp only [is, List.forall_mem_cons]
    exact ⟨.evaluate _ _, .tick 1, .tick 1, .evaluate _ _, .evaluate _ _, nofun⟩
  obtain ⟨hadopts, hretry⟩ := @starts_carry_no_residue 99 is fed
  have hadopted : (s.evaluate (some eggs) "doc").adopted = true := by decide +kernel
  obtain ⟨hsession, hevents⟩ := hadopts eggs "doc" ⟨"[5s] eggs", "doc", by decide +kernel⟩ hadopted
  obtain ⟨d, g, known, hstart, -, -, -, hstands, hphase⟩ := hretry
    ⟨_, List.mem_cons_self, by decide +kernel⟩
  have htea : s.latest = some tea := by decide +kernel
  obtain rfl : tea = d := Option.some.inj (htea.symm.trans known)
  have hpaused : s.phase = .paused := by decide +kernel
  refine ⟨⟨hpaused, by decide +kernel, hstart, (hphase (by decide +kernel)).trans hpaused,
    hstands.position.trans (by decide +kernel), hstands.remaining.trans (by decide +kernel)⟩,
    hevents.trans (by decide +kernel), hsession.position.trans (by decide +kernel)⟩

end Session

end TaskTimer
