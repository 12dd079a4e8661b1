import TaskTimer.Proofs.Session.Run
import TaskTimer.Proofs.Lists

/-!
# Documents without a timer

As long as no timer is held, the scan of a document that declares none is reported as a
cancellation, and the session notes down the document so that it is not told again. The note has
room for one document: when several are scanned in turn, each scan takes the place of the one
before, and every one is told again.

* `Input.note`: what is noted down after an input. `Session.cleared_after`: after a whole run.
* `Session.evaluate_free`: a scan that finds nothing while no declaration is held.
* `Session.cancelled`: the documents that are told. `Session.cancelled_eq`: they are those that do
  not repeat the one before.
* **`Session.cancels_after_another_document`**: exactly which scans are told.
* `Session.document_cancels_twice`: a document that is told twice.
-/

namespace TaskTimer

namespace Input

/-- The document of a scan that finds nothing. -/
def missing? : Input → Option String
  | .evaluate none document => some document
  | _ => none

/-- What is noted down after an input, and before it: the document of the last scan, if that has
found nothing. -/
def note (before : Option String) : Input → Option String
  | .evaluate none document => some document
  | .evaluate (some _) _ => none
  | .tick _ | .stop | .retry => before

/-- A scan that finds nothing, or a tick. -/
inductive FindsNothing : Input → Prop
  | evaluate (document : String) : FindsNothing (.evaluate none document)
  | tick (generation : ℕ) : FindsNothing (.tick generation)

theorem foldl_note_eq {document : String} {is : List Input}
    (same : ∀ i ∈ is, i.note (some document) = some document) :
    is.foldl note (some document) = some document := by
  induction is with
  | nil => rfl
  | cons i is ih =>
    rw [List.forall_mem_cons] at same
    rw [List.foldl_cons, same.1, ih same.2]

end Input

namespace Session

/-! ## The note -/

section Note

variable {s : Session} {i : Input} {t : Transition} {note : Option String}

/-- **A session that comes to hold no declaration has noted down the last scan.** -/
theorem Move.cleared_eq (h : s.Move i t) (noted : s.declaration = none → s.cleared = note)
    (free : t.session.declaration = none) : t.session.cleared = i.note note := by
  cases h with
  | pause | resume | firstStart | note | take | launch | retry => cases free
  | elsewhere held => cases held.symm.trans free
  | unchanged | ignore | drop | nothing | remove => rfl
  | stillMissing _ known => exact known
  | idle | lost | count | advance | finish | stop | stopIdle | retryNothing => exact noted free

theorem cleared_after {is : List Input} (noted : s.declaration = none → s.cleared = note)
    (free : (s.after is).declaration = none) :
    (s.after is).cleared = is.foldl Input.note note := by
  induction is generalizing s note with
  | nil => exact noted free
  | cons i is ih => exact ih ((s.move_step i).cleared_eq noted) free

end Note

/-! ## Scans that find nothing -/

section Free

variable {s : Session} (free : s.declaration = none)

include free

/-- **A document without a timer is told unless it is noted down, and noted down.** -/
theorem evaluate_free (document : String) :
    s.evaluate none document =
      { session := { s with cleared := some document }
        events := if s.cleared = some document then [] else [.cancel] } := by
  change s.missing document = _
  have move := s.move_missing document
  generalize s.missing document = t at move
  cases move with
  | stillMissing _ known => rw [if_pos known, ← known]
  | nothing _ new => rw [if_neg new]
  | elsewhere held | remove held => cases held.symm.trans free

theorem tick_free (generation : ℕ) : s.tick generation = { session := s } := by
  have move := s.move_tick generation
  generalize s.tick generation = t at move
  cases move with
  | idle | lost => rfl
  | count _ _ held | advance _ _ held | finish _ _ held => cases held.symm.trans free

end Free

/-- The documents that are told to declare nothing, in the order of their scans. -/
def cancelled (s : Session) : List Input → List String
  | [] => []
  | i :: is =>
    (if .cancel ∈ (s.step i).events then i.missing? else none).toList ++
      cancelled (s.step i).session is

section Nothing

variable {s : Session} {is : List Input}

theorem cancelled_tick (free : s.declaration = none) (generation : ℕ) (is : List Input) :
    s.cancelled (.tick generation :: is) = s.cancelled is := by
  rw [cancelled, step, tick_free free]
  rfl

theorem cancelled_evaluate (free : s.declaration = none) (document : String) (is : List Input) :
    s.cancelled (.evaluate none document :: is) =
      (if s.cleared = some document then [] else [document]) ++
        { s with cleared := some document }.cancelled is := by
  rw [cancelled, step, evaluate_free free]
  by_cases known : s.cleared = some document <;> simp [known, Input.missing?]

variable (free : s.declaration = none) (nothing : ∀ i ∈ is, i.FindsNothing)

include free nothing

theorem after_nothing : s.after is = { s with cleared := is.foldl Input.note s.cleared } := by
  induction is generalizing s with
  | nil => rfl
  | cons i is ih =>
    rw [List.forall_mem_cons] at nothing
    obtain ⟨hi, his⟩ := nothing
    cases hi with
    | evaluate document =>
      rw [after_cons, step, evaluate_free free]
      exact ih free his
    | tick generation =>
      rw [after_cons, step, tick_free free]
      exact ih free his

theorem reports_nothing : s.reports is = (s.cancelled is).map fun _ => .cancel := by
  induction is generalizing s with
  | nil => rfl
  | cons i is ih =>
    rw [List.forall_mem_cons] at nothing
    obtain ⟨hi, his⟩ := nothing
    cases hi with
    | evaluate document =>
      rw [reports_cons, step, evaluate_free free, cancelled_evaluate free, List.map_append,
        ih (s := { s with cleared := some document }) free his]
      split <;> rfl
    | tick generation =>
      rw [reports_cons, step, tick_free free, cancelled_tick free, ih free his]
      rfl

/-- **Documents are told that do not repeat the one before.** -/
theorem cancelled_eq :
    s.cleared.toList ++ s.cancelled is =
      (s.cleared.toList ++ is.filterMap Input.missing?).destutter (· ≠ ·) := by
  induction is generalizing s with
  | nil => cases h : s.cleared <;> simp [cancelled]
  | cons i is ih =>
    rw [List.forall_mem_cons] at nothing
    obtain ⟨hi, his⟩ := nothing
    cases hi with
    | evaluate document =>
      have later := ih (s := { s with cleared := some document }) free his
      rw [cancelled_evaluate free, List.filterMap_cons_some (f := Input.missing?) rfl,
        destutter_toList_append_cons]
      by_cases known : s.cleared = some document
      · rw [if_pos known, if_pos known, known]
        exact later
      · rw [if_neg known, if_neg known]
        exact congrArg (s.cleared.toList ++ ·) later
    | tick generation =>
      rw [cancelled_tick free, List.filterMap_cons_none (f := Input.missing?) rfl, ih free his]

end Nothing

/-- **A document without a timer is told again only after another scan.** Scans that find nothing
tell their documents without those that repeat the one before. -/
theorem cancels_after_another_document (s : Session) (is : List Input) :
    (∀ document, (s.after is).declaration = none →
      ((s.after is).evaluate none document).events =
        if is.foldl Input.note s.cleared = some document then [] else [.cancel]) ∧
    (∀ document js, (∀ j ∈ js, j.note (some document) = some document) →
      let again := s.after (is ++ .evaluate none document :: js)
      again.declaration = none → (again.evaluate none document).events = []) ∧
    (s.declaration = none → (∀ i ∈ is, i.FindsNothing) →
      s.after is = { s with cleared := is.foldl Input.note s.cleared } ∧
      s.reports is = (s.cancelled is).map (fun _ => .cancel) ∧
      s.cleared.toList ++ s.cancelled is =
        (s.cleared.toList ++ is.filterMap Input.missing?).destutter (· ≠ ·)) := by
  have told : ∀ js document, (s.after js).declaration = none →
      ((s.after js).evaluate none document).events =
        if js.foldl Input.note s.cleared = some document then [] else [.cancel] := by
    intro js document free
    rw [evaluate_free free, cleared_after (fun _ => rfl) free]
  refine ⟨told is, fun document js same => ?_, fun free nothing =>
    ⟨after_nothing free nothing, reports_nothing free nothing, cancelled_eq free nothing⟩⟩
  intro again free
  have noted : (is ++ .evaluate none document :: js).foldl Input.note s.cleared =
      some document := by
    rw [List.foldl_append, List.foldl_cons]
    exact Input.foldl_note_eq same
  rw [told _ document free, if_pos noted]

/-- The tea is looked for twice, and then the eggs. -/
theorem cancels_after_another_document_tea :
    let s := Session.new 99
    let is : List Input :=
      [.evaluate none "tea", .tick 0, .evaluate none "tea", .evaluate none "eggs"]
    s.declaration = none ∧ (∀ i ∈ is, i.FindsNothing) ∧ s.cancelled is = ["tea", "eggs"] ∧
      s.reports is = [.cancel, .cancel] ∧ (s.after is).cleared = some "eggs" := by
  intro s is
  have nothing : ∀ i ∈ is, i.FindsNothing := by
    simp only [is, List.forall_mem_cons]
    exact ⟨.evaluate _, .tick _, .evaluate _, .evaluate _, nofun⟩
  obtain ⟨-, -, hrun⟩ := cancels_after_another_document s is
  obtain ⟨hafter, hreports, hcancelled⟩ := hrun rfl nothing
  have htold : s.cancelled is = ["tea", "eggs"] := hcancelled.trans (by decide)
  exact ⟨rfl, nothing, htold, by rw [hreports, htold]; rfl, by rw [hafter]; rfl⟩

/-- **A document is told twice** if another one is scanned in between. -/
theorem document_cancels_twice :
    let s := Session.new 99
    let is : List Input := [.evaluate (scan "tea" "doc") "doc",
      .evaluate (scan "eggs" "list") "list", .evaluate (scan "tea" "doc") "doc"]
    Reachable 99 s ∧ s.declaration = none ∧ (∀ i ∈ is, i.FindsNothing) ∧
      ¬ (s.cancelled is).count "doc" ≤ 1 := by
  intro s is
  have htea : scan "tea" "doc" = none := by decide +kernel
  have heggs : scan "eggs" "list" = none := by decide +kernel
  refine ⟨.new, rfl, ?_, ?_⟩
  · simp only [is, htea, heggs, List.forall_mem_cons]
    exact ⟨.evaluate _, .evaluate _, .evaluate _, nofun⟩
  · simp only [is, htea, heggs]
    decide

end Session

end TaskTimer
