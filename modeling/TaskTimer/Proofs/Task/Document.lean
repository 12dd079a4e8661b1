import TaskTimer.Proofs.Task.Line
import TaskTimer.Proofs.Text.Lines
import TaskTimer.Task.Declaration

/-!
# The line that decides

The first task line alone decides what a document declares and what is wrong with it. Lines behind
it do not matter, and lines in front of it only count.

* `NoTaskLine`, `noTaskLine_or_first`: a document has a first task line, or none at all.
* `FirstTaskLine`, `firstTaskLine_eq_some_iff`: a text of which the first task line has these parts
  and this index.
* `Verdict`: what is declared and what is diagnosed. **`FirstTaskLine.verdict`**: the first task line
  decides both, although only the diagnosis asks for errors.
* `FirstTaskLine.same`, `FirstTaskLine.shift`: the same first task line in another text, at the same
  index or at another.
* **`first_task_line_decides`**: all of it in one statement.
-/

namespace TaskTimer

/-! ## The first task line -/

/-- None of the lines is a task line. -/
def NoTaskLine (ls : List (List Char)) : Prop := ∀ line ∈ ls, ¬ TaskLine.IsTaskLine line

theorem noTaskLine_or_first (ls : List (List Char)) :
    NoTaskLine ls ∨ ∃ before task after, ls = before ++ TaskLine.text task :: after ∧
      NoTaskLine before ∧ task.Fits := by
  induction ls with
  | nil => exact .inl (List.forall_mem_nil _)
  | cons line ls ih =>
    by_cases hline : TaskLine.IsTaskLine line
    · obtain ⟨task, fits, rfl⟩ := hline
      exact .inr ⟨[], task, ls, rfl, List.forall_mem_nil _, fits⟩
    · rcases ih with hnone | ⟨before, task, after, rfl, hnone, fits⟩
      · exact .inl (List.forall_mem_cons.2 ⟨hline, hnone⟩)
      · exact .inr ⟨line :: before, task, after, rfl, List.forall_mem_cons.2 ⟨hline, hnone⟩, fits⟩

theorem TaskLine.ofText?_eq_none {line : List Char} (h : ¬ IsTaskLine line) :
    ofText? line = none := by
  rw [Option.eq_none_iff_forall_ne_some]
  exact fun l hl => h ⟨l, fits_of_ofText? hl⟩

theorem firstTaskLineFrom_append {before : List (List Char)} (h : NoTaskLine before) (i : ℕ)
    (ls : List (List Char)) :
    firstTaskLineFrom i (before ++ ls) = firstTaskLineFrom (i + before.length) ls := by
  induction before generalizing i with
  | nil => rfl
  | cons line before ih =>
    obtain ⟨hline, hbefore⟩ := List.forall_mem_cons.1 h
    rw [List.cons_append, firstTaskLineFrom, TaskLine.ofText?_eq_none hline, ih hbefore,
      List.length_cons, Nat.add_assoc, Nat.add_comm 1]

/-- The text has a first task line, with these parts, behind `i` other lines. -/
def FirstTaskLine (text : String) (i : ℕ) (task : TaskLine) : Prop :=
  ∃ before after, WritesLines '\n' '\r' (before ++ task.text :: after) text.toList ∧
    before.length = i ∧ NoTaskLine before ∧ task.Fits

theorem textLines_eq_iff {ls : List (List Char)} {text : String} :
    textLines text.toList = ls ↔ WritesLines '\n' '\r' ls text.toList :=
  lines_eq_iff (by decide)

theorem FirstTaskLine.firstTaskLine_eq {text : String} {i : ℕ} {task : TaskLine}
    (h : FirstTaskLine text i task) : firstTaskLine text = some (i, task) := by
  obtain ⟨before, after, hlines, rfl, hbefore, fits⟩ := h
  rw [firstTaskLine, textLines_eq_iff.2 hlines, firstTaskLineFrom_append hbefore, firstTaskLineFrom,
    TaskLine.ofText?_eq_some_iff.2 ⟨fits, rfl⟩, Nat.zero_add]

theorem firstTaskLine_eq_none {text : String} {ls : List (List Char)}
    (hlines : WritesLines '\n' '\r' ls text.toList) (h : NoTaskLine ls) :
    firstTaskLine text = none := by
  rw [firstTaskLine, textLines_eq_iff.2 hlines, ← List.append_nil ls, firstTaskLineFrom_append h,
    firstTaskLineFrom]

theorem firstTaskLine_eq_some_iff {text : String} {i : ℕ} {task : TaskLine} :
    firstTaskLine text = some (i, task) ↔ FirstTaskLine text i task := by
  refine ⟨fun h => ?_, FirstTaskLine.firstTaskLine_eq⟩
  have hlines := textLines_eq_iff.1 (Eq.refl (textLines text.toList))
  rcases noTaskLine_or_first (textLines text.toList) with
    hnone | ⟨before, task', after, hsplit, hbefore, fits⟩
  · cases (firstTaskLine_eq_none hlines hnone).symm.trans h
  · rw [hsplit] at hlines
    have hfirst : FirstTaskLine text before.length task' := ⟨before, after, hlines, rfl, hbefore, fits⟩
    cases hfirst.firstTaskLine_eq.symm.trans h
    exact hfirst

theorem FirstTaskLine.fits {text : String} {i : ℕ} {task : TaskLine}
    (h : FirstTaskLine text i task) : task.Fits := by
  obtain ⟨-, -, -, -, -, fits⟩ := h
  exact fits

theorem FirstTaskLine.feed_not_mem {text : String} {i : ℕ} {task : TaskLine}
    (h : FirstTaskLine text i task) : '\n' ∉ task.text := by
  obtain ⟨before, after, hlines, -, -, -⟩ := h
  exact hlines.feed_not_mem _ List.mem_append_cons_self

theorem TaskLine.Fits.firstTaskLine {l : TaskLine} (fits : l.Fits) (hline : '\n' ∉ l.text) :
    FirstTaskLine (.ofList l.text) 0 l := by
  refine ⟨[], [], ?_, rfl, List.forall_mem_nil _, fits⟩
  rw [String.toList_ofList]
  refine .unended hline fun h => ?_
  have hopen : '[' ∈ l.text := by simp [l.text_eq]
  rw [h] at hopen
  cases hopen

/-! ## What it decides -/

/-- What is declared and what is diagnosed if the first task line has these parts and stands behind
`i` other lines: its timer, or that there is no countdown in it, or the error in its notation. -/
inductive Verdict (document : String) (i : ℕ) (task : TaskLine) :
    Option Declaration → Option (ℕ × SyntaxError) → Prop
  | declares {nodes : List Node} (reads : parse (.ofList task.body) = .ok nodes)
      (counts : leafCount nodes ≠ 0) :
      Verdict document i task (some (task.declaration document i nodes)) none
  | empty {nodes : List Node} (reads : parse (.ofList task.body) = .ok nodes)
      (counts : leafCount nodes = 0) : Verdict document i task none (some (i, .empty))
  | malformed {e : SyntaxError} (fails : parse (.ofList task.body) = .error e) :
      Verdict document i task none (some (i, e))

theorem FirstTaskLine.scan_eq {text : String} {i : ℕ} {task : TaskLine}
    (h : FirstTaskLine text i task) (document : String) :
    scan text document =
      if leafCount (nodesOrNone (.ofList task.body)) = 0 then none
      else some (task.declaration document i (nodesOrNone (.ofList task.body))) := by
  rw [scan, h.firstTaskLine_eq]
  rfl

/-- **The first task line decides what is declared and what is diagnosed**, although only the
diagnosis asks for errors. -/
theorem FirstTaskLine.verdict {text : String} {i : ℕ} {task : TaskLine}
    (h : FirstTaskLine text i task) (document : String) :
    Verdict document i task (scan text document) (diagnose text) := by
  rw [h.scan_eq document, diagnose, h.firstTaskLine_eq]
  cases hparse : parse (.ofList task.body) with
  | error e =>
    rw [nodesOrNone_of_error hparse]
    simp only [hparse]
    exact .malformed hparse
  | ok nodes =>
    rw [nodesOrNone_of_ok hparse]
    simp only [hparse]
    by_cases hcounts : leafCount nodes = 0
    · rw [if_pos hcounts, if_pos hcounts]
      exact .empty hparse hcounts
    · rw [if_neg hcounts, if_neg hcounts]
      exact .declares hparse hcounts

theorem FirstTaskLine.same {text text' : String} {i : ℕ} {task : TaskLine}
    (h : FirstTaskLine text i task) (h' : FirstTaskLine text' i task) (document : String) :
    scan text' document = scan text document ∧ diagnose text' = diagnose text := by
  have hfirst := h'.firstTaskLine_eq.trans h.firstTaskLine_eq.symm
  rw [scan, scan, diagnose, diagnose, hfirst]
  exact ⟨rfl, rfl⟩

theorem FirstTaskLine.shift {text text' : String} {i j : ℕ} {task : TaskLine}
    (h : FirstTaskLine text i task) (h' : FirstTaskLine text' j task) (document : String) :
    scan text' document = (scan text document).map (fun d => { d with line := j }) ∧
      diagnose text' = (diagnose text).map fun wrong => (j, wrong.2) := by
  rw [h.scan_eq, h'.scan_eq, diagnose, diagnose, h.firstTaskLine_eq, h'.firstTaskLine_eq]
  constructor
  · split
    · rfl
    · rfl
  · cases hparse : parse (.ofList task.body) with
    | error e => simp only [hparse, Option.map_some]
    | ok nodes =>
      simp only [hparse]
      split
      · rfl
      · rfl

/-- **The first task line decides.** Lines behind it do not matter, and lines in front of it only
move its index. -/
theorem first_task_line_decides (text document : String) :
    ∃ ls, (∀ ls', WritesLines '\n' '\r' ls' text.toList ↔ ls' = ls) ∧
      (NoTaskLine ls ∧ scan text document = none ∧ diagnose text = none ∨
        ∃ before task after, ls = before ++ TaskLine.text task :: after ∧ NoTaskLine before ∧
          task.Fits ∧ Verdict document before.length task (scan text document) (diagnose text) ∧
          scan text document =
            (if leafCount (nodesOrNone (.ofList task.body)) = 0 then none
            else some (task.declaration document before.length (nodesOrNone (.ofList task.body)))) ∧
          ∀ (text' : String) (before' after' : List (List Char)),
            WritesLines '\n' '\r' (before' ++ task.text :: after') text'.toList →
            NoTaskLine before' →
            scan text' document =
                (scan text document).map (fun d => { d with line := before'.length }) ∧
              diagnose text' = (diagnose text).map (fun wrong => (before'.length, wrong.2)) ∧
              (before'.length = before.length →
                scan text' document = scan text document ∧ diagnose text' = diagnose text)) := by
  refine ⟨textLines text.toList, fun ls' => by rw [← textLines_eq_iff, eq_comm], ?_⟩
  have hlines := textLines_eq_iff.1 (Eq.refl (textLines text.toList))
  rcases noTaskLine_or_first (textLines text.toList) with
    hnone | ⟨before, task, after, hsplit, hbefore, fits⟩
  · have hfirst := firstTaskLine_eq_none hlines hnone
    refine .inl ⟨hnone, ?_, ?_⟩
    · rw [scan, hfirst]
    · rw [diagnose, hfirst]
  · rw [hsplit] at hlines
    have hfirst : FirstTaskLine text before.length task := ⟨before, after, hlines, rfl, hbefore, fits⟩
    refine .inr ⟨before, task, after, hsplit, hbefore, fits, hfirst.verdict document,
      hfirst.scan_eq document, fun text' before' after' hlines' hbefore' => ?_⟩
    have hfirst' : FirstTaskLine text' before'.length task :=
      ⟨before', after', hlines', rfl, hbefore', fits⟩
    obtain ⟨hscan, hdiagnose⟩ := hfirst.shift hfirst' document
    refine ⟨hscan, hdiagnose, fun hlength => ?_⟩
    rw [hlength] at hfirst'
    exact hfirst.same hfirst' document

example : scan "intro\r\n[()3] tea\n[p1] later" "doc" = none ∧
    diagnose "intro\r\n[()3] tea\n[p1] later" = some (1, .empty) := by decide +kernel

end TaskTimer
