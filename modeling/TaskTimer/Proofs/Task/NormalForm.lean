import TaskTimer.Proofs.Task.Content
import TaskTimer.Proofs.Task.Document

/-!
# Declarations in normal form

What a declaration keeps of its line is in normal form: it can be written down again as it is, and
is then found as it was.

* `Opener.isWord`, `OpensTimer.squeeze`: squeezing does not hide how a timer opens.
* `TaskLine.Fits.rewritten`: a task line with squeezed brackets and a trimmed label.
* `FirstTaskLine.scan_of_holds`: what is declared by a line that holds a timer.
* `Declaration.written`: the line that declares the timer in normal form.
* **`written_declaration_is_found`**: the timer is found on that line.
-/

namespace TaskTimer

/-! ## Squeezed brackets -/

theorem Opener.isWord {opener : List Char} (h : Opener opener) : IsWord opener := by
  cases h with
  | group => exact isWord_singleton rfl
  | amount hd => exact isWord_singleton (isBlank_of_isDecimalDigit hd)
  | minutes hd =>
    have hdigit := isWord_singleton (isBlank_of_isDecimalDigit hd)
    exact ⟨List.cons_ne_nil _ _, List.forall_mem_cons.2 ⟨rfl, hdigit.2⟩⟩

theorem OpensTimer.squeeze {cs : List Char} (h : OpensTimer cs) :
    OpensTimer (TaskTimer.squeeze cs) := by
  obtain ⟨gap, opener, rest, rfl, hgap, hopener⟩ := h
  obtain ⟨rest', hrest⟩ := squeeze_append hopener.isWord rest
  rw [squeeze_append_blanks hgap, hrest]
  exact ⟨[], opener, rest', rfl, List.forall_mem_nil _, hopener⟩

namespace TaskLine

/-- The brackets of a task line may be squeezed, and what stands around them may be exchanged. -/
theorem Fits.rewritten {l l' : TaskLine} (h : l.Fits) (hbody : l'.body = squeeze l.body)
    (hindent : IsGap l'.indent)
    (hbullet : ∀ mark blank, l'.bullet = some (mark, blank) →
      (mark = '-' ∨ mark = '*') ∧ isBlank blank = true)
    (hcheckbox : ∀ blank, l'.checkbox = some blank → isBlank blank = true) : l'.Fits := by
  refine ⟨hindent, hbullet, hcheckbox, hbody ▸ h.opens.squeeze, fun hmem => ?_⟩
  rw [hbody] at hmem
  rcases mem_squeeze hmem with hspace | hmem
  · exact absurd hspace (by decide)
  · exact h.ends hmem

theorem Holds.rewritten {l l' : TaskLine} {nodes : List Node} (h : l.Holds nodes)
    (hbody : l'.body = squeeze l.body) : l'.Holds nodes := by
  refine ⟨parse_eq_ok_of_words ?_ h.reads, h.counts⟩
  rw [String.toList_ofList, String.toList_ofList, hbody, words_squeeze]

end TaskLine

theorem FirstTaskLine.scan_of_holds {text : String} {i : ℕ} {task : TaskLine} {nodes : List Node}
    (h : FirstTaskLine text i task) (holds : task.Holds nodes) (document : String) :
    scan text document = some (task.declaration document i nodes) :=
  scan_eq_some_iff.2 ⟨i, task, nodes, h.firstTaskLine_eq, holds, rfl⟩

/-! ## The line in normal form -/

namespace Declaration

/-- The line that declares the timer in normal form: its notation and its label as they are kept,
behind an indent, a bullet and a checkbox with one space each, with the hyphen or without it. -/
def written (d : Declaration) (indent : List Char) (bullet : Option Char) (checkbox paused : Bool) :
    String :=
  .ofList (indent ++ (match bullet with | some mark => [mark, ' '] | none => []) ++
    (if checkbox then ['[', ' ', ']', ' '] else []) ++ '[' :: (if paused then ['-'] else []) ++
    d.rawSyntax.toList ++ ']' :: ' ' :: d.label.toList)

/-- The parts of that line, for a declaration that was made by `task`. -/
def writtenLine (task : TaskLine) (indent : List Char) (bullet : Option Char)
    (checkbox paused : Bool) : TaskLine :=
  ⟨indent, bullet.map fun mark => (mark, ' '), if checkbox then some ' ' else none, paused,
    squeeze task.body, ' ' :: task.label⟩

variable (task : TaskLine) (indent : List Char) (bullet : Option Char) (checkbox paused : Bool)

theorem written_eq (document : String) (i : ℕ) (nodes : List Node) :
    (task.declaration document i nodes).written indent bullet checkbox paused =
      .ofList (writtenLine task indent bullet checkbox paused).text := by
  cases bullet <;> cases checkbox <;> simp [written, writtenLine, TaskLine.declaration,
    TaskLine.text, TaskLine.bulletText, TaskLine.checkboxText]

theorem column_writtenLine : (writtenLine task indent bullet checkbox paused).column =
    if checkbox then indent.length + (if bullet.isSome then 2 else 0) else 0 := by
  cases bullet <;> cases checkbox <;> rfl

theorem label_writtenLine :
    (writtenLine task indent bullet checkbox paused).label = task.label :=
  trim_cons_trim (by decide) task.tail

theorem declaration_writtenLine (document : String) (nodes : List Node) :
    (writtenLine task indent bullet checkbox paused).declaration document 0 nodes =
      { task.declaration document 0 nodes with
        column := (writtenLine task indent bullet checkbox paused).column, paused := paused } := by
  rw [TaskLine.declaration, label_writtenLine, writtenLine, squeeze_squeeze]
  rfl

variable {task indent bullet}

theorem feed_not_mem_writtenLine (htask : '\n' ∉ task.text) (hindent : '\n' ∉ indent)
    (hbullet : ∀ mark ∈ bullet, mark = '-' ∨ mark = '*') :
    '\n' ∉ (writtenLine task indent bullet checkbox paused).text := by
  have hbody : '\n' ∉ squeeze task.body := fun hmem => by
    rcases mem_squeeze hmem with hspace | hmem
    · exact absurd hspace (by decide)
    · exact htask (by simp [task.text_eq, hmem])
  have hlabel : '\n' ∉ task.label := fun hmem =>
    htask (by simp [task.text_eq, mem_of_mem_trim hmem])
  have hmark : '\n' ∉ bullet.toList := fun hmem => by
    rcases hbullet _ (Option.mem_toList.1 hmem) with h | h <;> exact absurd h (by decide)
  cases bullet <;> cases checkbox <;> cases paused <;>
    simp_all [writtenLine, TaskLine.text, TaskLine.bulletText, TaskLine.checkboxText]

end Declaration

/-- **A declaration is in normal form.** What it keeps of its line, written down again, is found as
the same timer. -/
theorem written_declaration_is_found {text document : String} {d : Declaration}
    (h : scan text document = some d) {indent : List Char} (hindent : IsGap indent)
    (hline : '\n' ∉ indent) {bullet : Option Char}
    (hbullet : ∀ mark ∈ bullet, mark = '-' ∨ mark = '*') (checkbox paused : Bool) :
    let line := d.written indent bullet checkbox paused
    let column := if checkbox then indent.length + (if bullet.isSome then 2 else 0) else 0
    scan line document = some { d with line := 0, column := column, paused := paused } ∧
      (∀ d', scan line document = some d' → d'.sameContent d = true) ∧
      (∀ hyphen, scan (d.written indent bullet checkbox hyphen) document =
        (scan line document).map fun d' => { d' with paused := hyphen }) ∧
      ∀ i task text', FirstTaskLine text i task →
        FirstTaskLine text' i { task with paused := paused } →
        scan text' document = some { d with paused := paused } := by
  intro line column
  obtain ⟨i, task, nodes, hfound, holds, rfl⟩ := scan_eq_some_iff.1 h
  have hfirst := firstTaskLine_eq_some_iff.1 hfound
  have hrewritten : ∀ hyphen, scan ((task.declaration document i nodes).written indent bullet
      checkbox hyphen) document = some { task.declaration document i nodes with
        line := 0, column := column, paused := hyphen } := by
    intro hyphen
    have fits : (Declaration.writtenLine task indent bullet checkbox hyphen).Fits := by
      refine hfirst.fits.rewritten rfl hindent (fun mark blank hmark => ?_) fun blank hblank => ?_
      · obtain ⟨mark', hmark', heq⟩ := Option.map_eq_some_iff.1 hmark
        cases heq
        exact ⟨hbullet _ hmark', by decide⟩
      · cases checkbox <;> cases hblank
        decide
    have hfeed := Declaration.feed_not_mem_writtenLine checkbox hyphen hfirst.feed_not_mem hline
      hbullet
    have hscan := (fits.firstTaskLine hfeed).scan_of_holds
      (holds.rewritten rfl) document
    rw [Declaration.written_eq, hscan, Declaration.declaration_writtenLine,
      Declaration.column_writtenLine]
    rfl
  have hscan : scan line document = some { task.declaration document i nodes with
    line := 0, column := column, paused := paused } := hrewritten paused
  refine ⟨hscan, fun d' hd' => ?_, fun hyphen => ?_, fun j task' text' hfirst' hhyphen => ?_⟩
  · cases hscan.symm.trans hd'
    exact Declaration.sameContent_refl _
  · rw [hscan]
    exact hrewritten hyphen
  · cases hfirst.firstTaskLine_eq.symm.trans hfirst'.firstTaskLine_eq
    exact hhyphen.scan_of_holds ⟨holds.reads, holds.counts⟩ document

/-- A declaration is written behind a wide space and a tab, and without its hyphen. -/
theorem written_declaration_is_found_unpaused :
    let d : Declaration := ⟨"doc", 1, 0, true, "(25m🍅 5m )2",
      [.group [.leaf 1500 (some "🍅"), .leaf 300 none] 2], "two  words"⟩
    scan "intro\r\n* [-(25m🍅  5m )2 ]  two  words \n[p1] tea" "doc" = some d ∧
      scan "\u3000\t- [ ] [(25m🍅 5m )2] two  words" "doc" =
        some { d with line := 0, column := 4, paused := false } := by
  intro d
  have hscan : scan "intro\r\n* [-(25m🍅  5m )2 ]  two  words \n[p1] tea" "doc" = some d := by
    decide +kernel
  have hbullet : ∀ mark ∈ some '-', mark = '-' ∨ mark = '*' := by
    rintro _ ⟨⟩
    exact .inl rfl
  have hindent : IsGap ['\u3000', '\t'] := by decide
  have hfound := (written_declaration_is_found hscan hindent (by decide) hbullet true false).1
  have hwritten : d.written ['\u3000', '\t'] (some '-') true false =
      "\u3000\t- [ ] [(25m🍅 5m )2] two  words" := by decide +kernel
  rw [hwritten] at hfound
  exact ⟨hscan, hfound⟩

end TaskTimer
