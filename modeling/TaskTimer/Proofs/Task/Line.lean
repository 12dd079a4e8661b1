import TaskTimer.Proofs.Notation.Spelling
import TaskTimer.Task.Line

/-!
# The grammar of task lines

The parts of a task line can be read off in one way only.

* `Opener`, `OpensTimer`: how a timer opens.
* `TaskLine.Bracketed`: the parts of a line with brackets, each as long as it can be.
* `TaskLine.Fits`, `TaskLine.IsTaskLine`: the parts of a task line, and a line that has such parts.
* `TaskLine.ofText?_text`: a line with brackets is a task line if a timer opens in them.
* **`TaskLine.ofText?_eq_some_iff`**: a task line is read as the parts it is written with.
* **`TaskLine.Fits.unique`**: those are the only parts it is written with.
-/

namespace TaskTimer

/-! ## How a timer opens -/

/-- The characters with which a timer opens: a parenthesis, a digit, or a `p` and a digit. -/
inductive Opener : List Char → Prop
  | group : Opener ['(']
  | amount {d : Char} (hd : isDecimalDigit d = true) : Opener [d]
  | minutes {d : Char} (hd : isDecimalDigit d = true) : Opener ['p', d]

/-- The text opens like a timer, behind any blanks. -/
def OpensTimer (cs : List Char) : Prop :=
  ∃ gap opener rest, cs = gap ++ (opener ++ rest) ∧ IsGap gap ∧ Opener opener

theorem isBlank_of_isDecimalDigit {d : Char} (hd : isDecimalDigit d = true) : isBlank d = false := by
  obtain ⟨z, hz, hrange⟩ := List.any_eq_true.1 hd
  have hapart : ∀ z ∈ zeroDigits, 0x20 < z ∧ (z + 10 ≤ 0x85 ∨ 0xA0 < z) ∧
      (z + 10 ≤ 0x1680 ∨ 0x1680 < z) ∧ (z + 10 ≤ 0x2000 ∨ 0x205F < z) ∧
      (z + 10 ≤ 0x3000 ∨ 0x3000 < z) := by
    decide
  have hz := hapart z hz
  rw [Bool.and_eq_true, decide_eq_true_eq, decide_eq_true_eq] at hrange
  rw [Bool.eq_false_iff]
  intro hblank
  simp only [isBlank, Bool.or_eq_true, Bool.and_eq_true, decide_eq_true_eq, beq_iff_eq] at hblank
  omega

theorem Opener.eq_cons {opener : List Char} (h : Opener opener) :
    ∃ c cs, opener = c :: cs ∧ isBlank c = false ∧ c ≠ '-' ∧ ']' ∉ opener := by
  cases h with
  | group => exact ⟨'(', [], rfl, by decide, by decide, by decide⟩
  | @amount d hd =>
    refine ⟨d, [], rfl, isBlank_of_isDecimalDigit hd, ?_, ?_⟩
    · rintro rfl
      exact absurd hd (by decide)
    · rintro hmem
      rw [← List.mem_singleton.1 hmem] at hd
      exact absurd hd (by decide)
  | @minutes d hd =>
    refine ⟨'p', [d], rfl, by decide, by decide, fun hmem => ?_⟩
    rcases List.mem_cons.1 hmem with hp | hmem
    · exact absurd hp (by decide)
    · rw [← List.mem_singleton.1 hmem] at hd
      exact absurd hd (by decide)

theorem TaskLine.opensTimer_iff {cs : List Char} : opensTimer cs = true ↔ OpensTimer cs := by
  constructor
  · intro h
    have hgap : IsGap (cs.takeWhile isBlank) := fun c hc => List.mem_takeWhile_imp hc
    have hsplit : ∀ r, trimStart cs = r → cs = cs.takeWhile isBlank ++ r := by
      rintro _ rfl
      exact List.takeWhile_append_dropWhile.symm
    rw [opensTimer] at h
    split at h
    · next rest htrim => exact ⟨_, ['('], rest, hsplit _ htrim, hgap, .group⟩
    · next d rest htrim => exact ⟨_, ['p', d], rest, hsplit _ htrim, hgap, .minutes h⟩
    · next d rest _ _ htrim => exact ⟨_, [d], rest, hsplit _ htrim, hgap, .amount h⟩
    · cases h
  · rintro ⟨gap, opener, rest, rfl, hgap, hopener⟩
    have htrim : trimStart (gap ++ (opener ++ rest)) = opener ++ rest := by
      obtain ⟨c, cs, rfl, hc, -⟩ := hopener.eq_cons
      refine dropWhile_append_stop (fun d hd => ?_) hgap
      rwa [← Option.mem_some_iff.1 hd]
    rw [opensTimer, htrim]
    cases hopener with
    | group => rfl
    | @amount d hd =>
      rw [List.singleton_append]
      split
      · rfl
      · next d' rest' heq =>
        obtain ⟨rfl, -⟩ := List.cons.inj heq
        exact absurd hd (by decide)
      · next d' rest' _ _ heq =>
        obtain ⟨rfl, -⟩ := List.cons.inj heq
        exact hd
      · next heq => cases heq
    | minutes hd => exact hd

namespace TaskLine

/-! ## Lines with brackets -/

/-- A bullet, which takes exactly one blank, and brackets that end with the first `]`. The hyphen in
them counts as a mark, and a checkbox with a blank behind it as a checkbox. -/
structure Bracketed (l : TaskLine) : Prop where
  indent : IsGap l.indent
  bullet : ∀ mark blank, l.bullet = some (mark, blank) →
    (mark = '-' ∨ mark = '*') ∧ isBlank blank = true
  checkbox : ∀ blank, l.checkbox = some blank → isBlank blank = true
  ends : ']' ∉ l.body
  hyphen : l.paused = false → l.body.head? ≠ some '-'
  unticked : l.checkbox = none → l.paused = false → l.body = [' '] →
    ∀ c ∈ l.tail.head?, isBlank c = false

/-- The characters of the hyphen. -/
def pauseText (l : TaskLine) : List Char := if l.paused then ['-'] else []

theorem append_cons_cancel {c : Char} {a b r s : List Char} (ha : c ∉ a) (hb : c ∉ b)
    (h : a ++ c :: r = b ++ c :: s) : a = b ∧ r = s := by
  rcases List.append_eq_append_iff.1 h with ⟨mid, rfl, hr⟩ | ⟨mid, rfl, hs⟩
  · cases mid with
    | nil => exact ⟨(List.append_nil a).symm, (List.cons.inj hr).2⟩
    | cons d mid =>
      rw [(List.cons.inj hr).1] at hb
      exact absurd (List.mem_append_cons_self) hb
  · cases mid with
    | nil => exact ⟨List.append_nil b, (List.cons.inj hs).2.symm⟩
    | cons d mid =>
      rw [(List.cons.inj hs).1] at ha
      exact absurd (List.mem_append_cons_self) ha

theorem takeBullet_open (rest : List Char) : takeBullet ('[' :: rest) = (none, '[' :: rest) := by
  cases rest <;> rfl

theorem takeBullet_mark {mark blank : Char} (hmark : mark = '-' ∨ mark = '*')
    (hblank : isBlank blank = true) (rest : List Char) :
    takeBullet (mark :: blank :: rest) = (some (mark, blank), rest) := by
  rw [takeBullet, hblank]
  rcases hmark with rfl | rfl <;> rfl

theorem takeCheckbox_blank {blank : Char} (hblank : isBlank blank = true) (rest : List Char) :
    takeCheckbox ('[' :: ' ' :: ']' :: blank :: rest) = (some blank, rest) := by
  rw [takeCheckbox, if_pos hblank]

theorem takeCheckbox_none {cs : List Char}
    (h : ∀ blank rest, cs = '[' :: ' ' :: ']' :: blank :: rest → isBlank blank = false) :
    takeCheckbox cs = (none, cs) := by
  unfold takeCheckbox
  split
  · next blank rest => rw [if_neg (Bool.eq_false_iff.1 (h blank rest rfl))]
  · rfl

theorem takePause_none {cs : List Char} (h : cs.head? ≠ some '-') : takePause cs = (false, cs) := by
  unfold takePause
  split
  · exact absurd rfl h
  · rfl

namespace Bracketed

variable {l : TaskLine} (h : l.Bracketed)

include h

theorem takeBullet_eq (rest : List Char) :
    takeBullet (l.bulletText ++ (l.checkboxText ++ '[' :: rest)) =
      (l.bullet, l.checkboxText ++ '[' :: rest) := by
  rw [bulletText]
  cases hbullet : l.bullet with
  | none =>
    rw [checkboxText]
    cases l.checkbox <;> exact takeBullet_open _
  | some bullet =>
    obtain ⟨hmark, hblank⟩ := h.bullet _ _ hbullet
    exact takeBullet_mark hmark hblank _

theorem takeCheckbox_eq :
    takeCheckbox (l.checkboxText ++ '[' :: (l.pauseText ++ (l.body ++ ']' :: l.tail))) =
      (l.checkbox, '[' :: (l.pauseText ++ (l.body ++ ']' :: l.tail))) := by
  rw [checkboxText]
  cases hcheckbox : l.checkbox with
  | some blank => exact takeCheckbox_blank (h.checkbox blank hcheckbox) _
  | none =>
    refine takeCheckbox_none fun blank rest heq => ?_
    have heq := (List.cons.inj heq).2
    rw [pauseText] at heq
    cases hpaused : l.paused with
    | true =>
      rw [hpaused] at heq
      exact absurd (List.cons.inj heq).1 (by decide)
    | false =>
      rw [hpaused] at heq
      -- the brackets hold one space, so this is a checkbox unless no blank follows
      obtain ⟨hbody, htail⟩ := append_cons_cancel h.ends (by decide : ']' ∉ [' ']) heq
      refine h.unticked hcheckbox hpaused hbody blank ?_
      rw [htail]
      rfl

theorem takePause_eq : takePause (l.pauseText ++ (l.body ++ ']' :: l.tail)) =
    (l.paused, l.body ++ ']' :: l.tail) := by
  rw [pauseText]
  cases hpaused : l.paused with
  | true => rfl
  | false =>
    refine takePause_none ?_
    have hhyphen := h.hyphen hpaused
    cases hbody : l.body with
    | nil => exact nofun
    | cons c cs =>
      rw [hbody] at hhyphen
      exact hhyphen

end Bracketed

theorem text_eq (l : TaskLine) : l.text = l.indent ++ (l.bulletText ++ (l.checkboxText ++
    '[' :: (l.pauseText ++ (l.body ++ ']' :: l.tail)))) := by
  rw [text, ← pauseText]
  simp only [List.append_assoc, List.cons_append]

theorem ofText?_text {l : TaskLine} (h : l.Bracketed) :
    ofText? l.text = if opensTimer l.body then some l else none := by
  have hends : ∀ c ∈ l.body, (c != ']') = true := fun c hc => by
    rw [bne_iff_ne]
    rintro rfl
    exact h.ends hc
  have hstop : ∀ c ∈ (']' :: l.tail).head?, (c != ']') = false := by
    rintro _ ⟨⟩
    rfl
  have hbehind : ∀ c ∈ (l.bulletText ++ (l.checkboxText ++
      '[' :: (l.pauseText ++ (l.body ++ ']' :: l.tail)))).head?, isBlank c = false := by
    rw [bulletText, checkboxText]
    cases hbullet : l.bullet with
    | none =>
      cases l.checkbox <;>
      · rintro _ ⟨⟩
        rfl
    | some bullet =>
      rintro _ ⟨⟩
      rcases (h.bullet _ _ hbullet).1 with hmark | hmark <;> rw [hmark] <;> rfl
  rw [text_eq, ofText?, takeWhile_append_stop hbehind h.indent,
    dropWhile_append_stop hbehind h.indent]
  simp only [h.takeBullet_eq, h.takeCheckbox_eq, h.takePause_eq, takeWhile_append_stop hstop hends,
    dropWhile_append_stop hstop hends]

/-! ## Task lines -/

/-- The parts of a task line: blanks, a bullet and a blank, a checkbox and a blank, and brackets in
which a timer opens, with or without a hyphen in front of it. -/
structure Fits (l : TaskLine) : Prop where
  indent : IsGap l.indent
  bullet : ∀ mark blank, l.bullet = some (mark, blank) →
    (mark = '-' ∨ mark = '*') ∧ isBlank blank = true
  checkbox : ∀ blank, l.checkbox = some blank → isBlank blank = true
  opens : OpensTimer l.body
  ends : ']' ∉ l.body

/-- The line can be written as a task line. -/
def IsTaskLine (line : List Char) : Prop := ∃ l : TaskLine, l.Fits ∧ l.text = line

/-- A timer does not open with a hyphen, nor is a blank alone a timer. -/
theorem Fits.bracketed {l : TaskLine} (h : l.Fits) : l.Bracketed := by
  obtain ⟨gap, opener, rest, hbody, hgap, hopener⟩ := h.opens
  obtain ⟨c, cs, rfl, hc, hne, -⟩ := hopener.eq_cons
  refine ⟨h.indent, h.bullet, h.checkbox, h.ends, fun _ hhyphen => ?_, fun _ _ hspace => ?_⟩
  · rw [hbody] at hhyphen
    cases gap with
    | nil => exact hne (Option.some.inj hhyphen)
    | cons b gap =>
      have hb := hgap b List.mem_cons_self
      rw [Option.some.inj hhyphen] at hb
      exact absurd hb (by decide)
  · rw [hbody] at hspace
    cases gap with
    | nil =>
      rw [(List.cons.inj hspace).1] at hc
      exact absurd hc (by decide)
    | cons b gap => simp at hspace

theorem takeBullet_spec (cs : List Char) :
    ∃ bullet rest, takeBullet cs = (bullet, rest) ∧
      (∀ l : TaskLine, l.bullet = bullet → l.bulletText ++ rest = cs) ∧
      ∀ mark blank, bullet = some (mark, blank) →
        (mark = '-' ∨ mark = '*') ∧ isBlank blank = true := by
  have hnone : ∀ (l : TaskLine) (cs : List Char), l.bullet = none → l.bulletText ++ cs = cs :=
    fun l cs hl => by rw [bulletText, hl]; rfl
  have habsent : ∀ mark blank, none = some (mark, blank) →
      (mark = '-' ∨ mark = '*') ∧ isBlank blank = true := by
    rintro _ _ ⟨⟩
  unfold takeBullet
  split
  · next mark blank rest =>
    split
    · next hmark =>
      rw [Bool.and_eq_true, Bool.or_eq_true, beq_iff_eq, beq_iff_eq] at hmark
      refine ⟨_, _, rfl, fun l hl => by rw [bulletText, hl]; rfl, ?_⟩
      rintro _ _ ⟨⟩
      exact hmark
    · exact ⟨_, _, rfl, fun l => hnone l _, habsent⟩
  · exact ⟨_, _, rfl, fun l => hnone l _, habsent⟩

theorem takeCheckbox_spec (cs : List Char) :
    ∃ checkbox rest, takeCheckbox cs = (checkbox, rest) ∧
      (∀ l : TaskLine, l.checkbox = checkbox → l.checkboxText ++ rest = cs) ∧
      ∀ blank, checkbox = some blank → isBlank blank = true := by
  have hnone : ∀ (l : TaskLine) (cs : List Char), l.checkbox = none → l.checkboxText ++ cs = cs :=
    fun l cs hl => by rw [checkboxText, hl]; rfl
  have habsent : ∀ blank, none = some blank → isBlank blank = true := by
    rintro _ ⟨⟩
  unfold takeCheckbox
  split
  · next blank rest =>
    split
    · next hblank =>
      refine ⟨_, _, rfl, fun l hl => by rw [checkboxText, hl]; rfl, ?_⟩
      rintro _ ⟨⟩
      exact hblank
    · exact ⟨_, _, rfl, fun l => hnone l _, habsent⟩
  · exact ⟨_, _, rfl, fun l => hnone l _, habsent⟩

theorem takePause_spec (cs : List Char) :
    ∃ paused rest, takePause cs = (paused, rest) ∧
      ∀ l : TaskLine, l.paused = paused → l.pauseText ++ rest = cs := by
  unfold takePause
  split
  · exact ⟨_, _, rfl, fun l hl => by rw [pauseText, hl]; rfl⟩
  · exact ⟨_, _, rfl, fun l hl => by rw [pauseText, hl]; rfl⟩

theorem fits_of_ofText? {cs : List Char} {l : TaskLine} (h : ofText? cs = some l) :
    l.Fits ∧ l.text = cs := by
  obtain ⟨bullet, cs₁, hbullet, htext₁, hmark⟩ := takeBullet_spec (cs.dropWhile isBlank)
  obtain ⟨checkbox, cs₂, hcheckbox, htext₂, hblank⟩ := takeCheckbox_spec cs₁
  rw [ofText?] at h
  simp only [hbullet, hcheckbox] at h
  split at h
  · next cs₃ =>
    obtain ⟨paused, cs₄, hpaused, htext₄⟩ := takePause_spec cs₃
    simp only [hpaused] at h
    split at h
    · next c tail hclose =>
      split at h
      · next hopens =>
        cases h
        have hc : c = ']' := by
          have hhead := List.head?_dropWhile_not (· != ']') cs₄
          rw [hclose] at hhead
          simpa using hhead
        refine ⟨⟨fun c hc => List.mem_takeWhile_imp hc, hmark, hblank, opensTimer_iff.1 hopens,
          fun hmem => ?_⟩, ?_⟩
        · exact absurd (List.mem_takeWhile_imp hmem) (by decide)
        · rw [text_eq]
          have hbody : cs₄.takeWhile (· != ']') ++ ']' :: tail = cs₄ := by
            rw [hc] at hclose
            rw [← hclose, List.takeWhile_append_dropWhile]
          rw [hbody, htext₄ _ rfl, htext₂ _ rfl, htext₁ _ rfl, List.takeWhile_append_dropWhile]
      · cases h
    · cases h
  · cases h

/-- **A line is read as a task line exactly when it is written as one.** -/
theorem ofText?_eq_some_iff {cs : List Char} {l : TaskLine} :
    ofText? cs = some l ↔ l.Fits ∧ l.text = cs := by
  refine ⟨fits_of_ofText?, ?_⟩
  rintro ⟨h, rfl⟩
  rw [ofText?_text h.bracketed, if_pos (opensTimer_iff.2 h.opens)]

/-- **A task line is written with one choice of parts only.** -/
theorem Fits.unique {l l' : TaskLine} (h : l.Fits) (h' : l'.Fits) (same : l.text = l'.text) :
    l = l' := by
  have hl := ofText?_eq_some_iff.2 ⟨h, same⟩
  rw [ofText?_eq_some_iff.2 ⟨h', rfl⟩] at hl
  exact (Option.some.inj hl).symm

end TaskLine

end TaskTimer
