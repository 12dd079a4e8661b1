import TaskTimer.Proofs.Task.Line
import TaskTimer.Proofs.Text.Lines
import TaskTimer.Task.Declaration

/-!
# Task lines as a pattern

The same lines, given by the regular expression

```text
^\s*(?:[-*]\s)?(?:(?P<checkbox>\[ \])\s)?\[(?P<pause>-)?(?P<dsl>\s*(?:\(|p\d|\d)[^\]]*)\]\s*(?P<label>.*)$
```

A matcher tries the ways in which a pattern can match one after the other. The first way that leads
to a match decides, here without a choice: all ways lead to the same parts.

* `Pattern`, `Pattern.matchesAt`: patterns and their matches, in the order in which they are tried.
* `Pattern.Takes`: what a pattern matches, without the order. `Pattern.mem_matchesAt`.
* `Pattern.taskLine`: the pattern of task lines.
* **`map_candidate_firstMatch?`**: the first match holds the parts of the line.
* **`task_line_grammar`**: the grammar, the parts and the pattern in one statement.
-/

namespace TaskTimer

/-- The parts of a match that are kept. -/
inductive PatternGroup where
  | checkbox
  | pause
  | body
  | label
  deriving DecidableEq

/-- The groups of a match, each with the position where it starts and its text. -/
abbrev Groups := List (PatternGroup × ℕ × List Char)

/-- A regular expression. -/
inductive Pattern where
  /-- A character of a class. -/
  | one (p : Char → Bool)
  /-- Characters of a class, rather more than fewer. -/
  | many (p : Char → Bool)
  /-- The one pattern and then the other. -/
  | seq (a b : Pattern)
  /-- The first pattern rather than the second. -/
  | either (a b : Pattern)
  /-- The pattern rather than nothing. -/
  | maybe (a : Pattern)
  /-- A pattern whose match is kept. -/
  | group (name : PatternGroup) (a : Pattern)

/-- What was matched, what follows it, and the groups. -/
structure Match where
  text : List Char
  rest : List Char
  groups : Groups

namespace Pattern

/-- The longest run of a class, then one character less, and so on down to none. -/
def runs (p : Char → Bool) (cs : List Char) : List Match :=
  (List.range ((cs.takeWhile p).length + 1)).reverse.map fun k => ⟨cs.take k, cs.drop k, []⟩

/-- The matches of a pattern at the start of a text that stands at `position`, in the order in which
they are tried. -/
def matchesAt : Pattern → ℕ → List Char → List Match
  | .one _, _, [] => []
  | .one p, _, c :: cs => if p c then [⟨[c], cs, []⟩] else []
  | .many p, _, cs => runs p cs
  | .seq a b, position, cs =>
    (a.matchesAt position cs).flatMap fun m =>
      (b.matchesAt (position + m.text.length) m.rest).map fun m' =>
        ⟨m.text ++ m'.text, m'.rest, m.groups ++ m'.groups⟩
  | .either a b, position, cs => a.matchesAt position cs ++ b.matchesAt position cs
  | .maybe a, position, cs => a.matchesAt position cs ++ [⟨[], cs, []⟩]
  | .group name a, position, cs =>
    (a.matchesAt position cs).map fun m => { m with groups := (name, position, m.text) :: m.groups }

/-- The first match that takes the whole text. -/
def firstMatch? (p : Pattern) (cs : List Char) : Option Match :=
  (p.matchesAt 0 cs).find? (·.rest.isEmpty)

/-! ## What a pattern matches -/

/-- The pattern matches the text, which stands at `position`, and keeps the groups. -/
def Takes : Pattern → (position : ℕ) → List Char → Groups → Prop
  | .one p, _, cs, groups => ∃ c, p c = true ∧ cs = [c] ∧ groups = []
  | .many p, _, cs, groups => (∀ c ∈ cs, p c = true) ∧ groups = []
  | .seq a b, position, cs, groups => ∃ cs₁ groups₁ cs₂ groups₂, a.Takes position cs₁ groups₁ ∧
      b.Takes (position + cs₁.length) cs₂ groups₂ ∧ cs = cs₁ ++ cs₂ ∧ groups = groups₁ ++ groups₂
  | .either a b, position, cs, groups => a.Takes position cs groups ∨ b.Takes position cs groups
  | .maybe a, position, cs, groups => a.Takes position cs groups ∨ cs = [] ∧ groups = []
  | .group name a, position, cs, groups => ∃ inner, a.Takes position cs inner ∧
      groups = (name, position, cs) :: inner

theorem mem_runs {p : Char → Bool} {cs text rest : List Char} {groups : Groups} :
    ⟨text, rest, groups⟩ ∈ runs p cs ↔
      cs = text ++ rest ∧ (∀ c ∈ text, p c = true) ∧ groups = [] := by
  rw [runs, List.mem_map]
  constructor
  · rintro ⟨k, hk, heq⟩
    cases heq
    rw [List.mem_reverse, List.mem_range, Nat.lt_succ_iff] at hk
    refine ⟨(List.take_append_drop k cs).symm, fun c hc => ?_, rfl⟩
    rw [← List.takeWhile_append_dropWhile (p := p) (l := cs), List.take_append_of_le_length hk] at hc
    exact List.mem_takeWhile_imp (List.mem_of_mem_take hc)
  · rintro ⟨rfl, hall, rfl⟩
    refine ⟨text.length, ?_, by rw [List.take_left, List.drop_left]⟩
    rw [List.mem_reverse, List.mem_range, List.takeWhile_append_of_pos hall, List.length_append]
    omega

/-- **The matches of a pattern are the ways in which it takes a start of the text.** -/
theorem mem_matchesAt {p : Pattern} {position : ℕ} {cs text rest : List Char} {groups : Groups} :
    ⟨text, rest, groups⟩ ∈ p.matchesAt position cs ↔
      cs = text ++ rest ∧ p.Takes position text groups := by
  induction p generalizing position cs text rest groups with
  | one p =>
    cases cs with
    | nil =>
      refine ⟨nofun, ?_⟩
      rintro ⟨htext, c, -, rfl, -⟩
      cases htext
    | cons c cs =>
      rw [matchesAt]
      constructor
      · intro h
        split at h
        · next hc =>
          cases List.mem_singleton.1 h
          exact ⟨rfl, c, hc, rfl, rfl⟩
        · cases h
      · rintro ⟨htext, d, hd, rfl, rfl⟩
        obtain ⟨rfl, rfl⟩ := List.cons.inj htext
        rw [if_pos hd]
        exact List.mem_singleton.2 rfl
  | many p => exact mem_runs
  | seq a b iha ihb =>
    rw [matchesAt, List.mem_flatMap]
    constructor
    · rintro ⟨⟨text₁, rest₁, groups₁⟩, hm, h⟩
      obtain ⟨⟨text₂, rest₂, groups₂⟩, hm', heq⟩ := List.mem_map.1 h
      obtain ⟨rfl, first⟩ := iha.1 hm
      obtain ⟨rfl, second⟩ := ihb.1 hm'
      cases heq
      exact ⟨(List.append_assoc ..).symm, _, _, _, _, first, second, rfl, rfl⟩
    · rintro ⟨rfl, text₁, groups₁, text₂, groups₂, first, second, rfl, rfl⟩
      refine ⟨⟨text₁, text₂ ++ rest, groups₁⟩, iha.2 ⟨List.append_assoc .., first⟩, ?_⟩
      exact List.mem_map.2 ⟨⟨text₂, rest, groups₂⟩, ihb.2 ⟨rfl, second⟩, rfl⟩
  | either a b iha ihb => rw [matchesAt, List.mem_append, iha, ihb, Takes, and_or_left]
  | maybe a ih =>
    rw [matchesAt, List.mem_append, ih, List.mem_singleton, Match.mk.injEq, Takes, and_or_left]
    refine or_congr_right ⟨?_, ?_⟩
    · rintro ⟨rfl, rfl, rfl⟩
      exact ⟨rfl, rfl, rfl⟩
    · rintro ⟨rfl, rfl, rfl⟩
      exact ⟨rfl, rfl, rfl⟩
  | group name a ih =>
    rw [matchesAt, List.mem_map]
    constructor
    · rintro ⟨⟨text, rest, inner⟩, hm, heq⟩
      cases heq
      obtain ⟨htext, h⟩ := ih.1 hm
      exact ⟨htext, inner, h, rfl⟩
    · rintro ⟨htext, inner, h, rfl⟩
      exact ⟨⟨text, rest, inner⟩, ih.2 ⟨htext, h⟩, rfl⟩

end Pattern

/-! ## The pattern of task lines -/

namespace Pattern

/-- A character. -/
def char (c : Char) : Pattern := .one (· == c)

def bullet : Pattern := .maybe (.seq (.one fun c => c == '-' || c == '*') (.one isBlank))

def checkbox : Pattern :=
  .maybe (.seq (.group .checkbox (.seq (char '[') (.seq (char ' ') (char ']')))) (.one isBlank))

def pause : Pattern := .maybe (.group .pause (char '-'))

def body : Pattern :=
  .group .body (.seq (.many isBlank) (.seq
    (.either (char '(') (.either (.seq (char 'p') (.one isDecimalDigit)) (.one isDecimalDigit)))
    (.many (· != ']'))))

/-- The pattern up to the end of the brackets. -/
def upToBrackets : Pattern :=
  .seq (.many isBlank) (.seq bullet (.seq checkbox (.seq (char '[') (.seq pause
    (.seq body (char ']'))))))

def label : Pattern := .seq (.many isBlank) (.group .label (.many (· != '\n')))

/-- The pattern of a task line. -/
def taskLine : Pattern := .seq upToBrackets label

/-! ### What its parts match -/

theorem takes_char {c : Char} {position : ℕ} {cs : List Char} {groups : Groups} :
    (char c).Takes position cs groups ↔ cs = [c] ∧ groups = [] := by
  constructor
  · rintro ⟨d, hd, rfl, rfl⟩
    rw [beq_iff_eq.1 hd]
    exact ⟨rfl, rfl⟩
  · rintro ⟨rfl, rfl⟩
    exact ⟨c, beq_self_eq_true c, rfl, rfl⟩

theorem takes_bullet {position : ℕ} {cs : List Char} {groups : Groups} :
    bullet.Takes position cs groups ↔ groups = [] ∧ ∃ b : Option (Char × Char),
      (∀ mark blank, b = some (mark, blank) → (mark = '-' ∨ mark = '*') ∧ isBlank blank = true) ∧
      ∀ l : TaskLine, l.bullet = b → l.bulletText = cs := by
  constructor
  · rintro (⟨_, _, _, _, ⟨mark, hmark, rfl, rfl⟩, ⟨blank, hblank, rfl, rfl⟩, rfl, rfl⟩ | ⟨rfl, rfl⟩)
    · rw [Bool.or_eq_true, beq_iff_eq, beq_iff_eq] at hmark
      refine ⟨rfl, some (mark, blank), ?_, fun l hl => by rw [TaskLine.bulletText, hl]; rfl⟩
      rintro _ _ ⟨⟩
      exact ⟨hmark, hblank⟩
    · refine ⟨rfl, none, ?_, fun l hl => by rw [TaskLine.bulletText, hl]⟩
      rintro _ _ ⟨⟩
  · rintro ⟨rfl, b, hb, htext⟩
    have hcs := htext ⟨[], b, none, false, [], []⟩ rfl
    subst hcs
    cases b with
    | none => exact .inr ⟨rfl, rfl⟩
    | some b =>
      obtain ⟨hmark, hblank⟩ := hb b.1 b.2 rfl
      refine .inl ⟨[b.1], [], [b.2], [], ⟨b.1, ?_, rfl, rfl⟩, ⟨b.2, hblank, rfl, rfl⟩, rfl, rfl⟩
      rwa [Bool.or_eq_true, beq_iff_eq, beq_iff_eq]

theorem takes_box {position : ℕ} {cs : List Char} {groups : Groups} :
    (seq (char '[') (seq (char ' ') (char ']'))).Takes position cs groups ↔
      cs = ['[', ' ', ']'] ∧ groups = [] := by
  constructor
  · rintro ⟨_, _, _, _, hopen, ⟨_, _, _, _, hspace, hclose, rfl, rfl⟩, rfl, rfl⟩
    obtain ⟨rfl, rfl⟩ := takes_char.1 hopen
    obtain ⟨rfl, rfl⟩ := takes_char.1 hspace
    obtain ⟨rfl, rfl⟩ := takes_char.1 hclose
    exact ⟨rfl, rfl⟩
  · rintro ⟨rfl, rfl⟩
    refine ⟨['['], [], [' ', ']'], [], takes_char.2 ⟨rfl, rfl⟩, ?_, rfl, rfl⟩
    exact ⟨[' '], [], [']'], [], takes_char.2 ⟨rfl, rfl⟩, takes_char.2 ⟨rfl, rfl⟩, rfl, rfl⟩

theorem takes_checkbox {position : ℕ} {cs : List Char} {groups : Groups} :
    checkbox.Takes position cs groups ↔ ∃ b : Option Char,
      (∀ blank, b = some blank → isBlank blank = true) ∧
      (∀ l : TaskLine, l.checkbox = b → l.checkboxText = cs) ∧
      groups = b.toList.map fun _ => (.checkbox, position, ['[', ' ', ']']) := by
  constructor
  · rintro (⟨_, _, _, _, ⟨_, hbox, rfl⟩, ⟨blank, hblank, rfl, rfl⟩, rfl, rfl⟩ | ⟨rfl, rfl⟩)
    · obtain ⟨rfl, rfl⟩ := takes_box.1 hbox
      refine ⟨some blank, ?_, fun l hl => by rw [TaskLine.checkboxText, hl]; rfl, rfl⟩
      rintro _ ⟨⟩
      exact hblank
    · refine ⟨none, ?_, fun l hl => by rw [TaskLine.checkboxText, hl], rfl⟩
      rintro _ ⟨⟩
  · rintro ⟨b, hb, htext, rfl⟩
    have hcs := htext ⟨[], none, b, false, [], []⟩ rfl
    subst hcs
    cases b with
    | none => exact .inr ⟨rfl, rfl⟩
    | some blank =>
      exact .inl ⟨['[', ' ', ']'], _, [blank], [], ⟨[], takes_box.2 ⟨rfl, rfl⟩, rfl⟩,
        ⟨blank, hb blank rfl, rfl, rfl⟩, rfl, rfl⟩

theorem takes_pause {position : ℕ} {cs : List Char} {groups : Groups} :
    pause.Takes position cs groups ↔ ∃ paused : Bool,
      (∀ l : TaskLine, l.paused = paused → l.pauseText = cs) ∧
      groups = if paused then [(.pause, position, ['-'])] else [] := by
  constructor
  · rintro (⟨_, h, rfl⟩ | ⟨rfl, rfl⟩)
    · obtain ⟨rfl, rfl⟩ := takes_char.1 h
      exact ⟨true, fun l hl => by rw [TaskLine.pauseText, hl]; rfl, rfl⟩
    · exact ⟨false, fun l hl => by rw [TaskLine.pauseText, hl]; rfl, rfl⟩
  · rintro ⟨paused, htext, rfl⟩
    have hcs := htext ⟨[], none, none, paused, [], []⟩ rfl
    subst hcs
    cases paused with
    | false => exact .inr ⟨rfl, rfl⟩
    | true => exact .inl ⟨[], takes_char.2 ⟨rfl, rfl⟩, rfl⟩

theorem takes_opener {position : ℕ} {cs : List Char} {groups : Groups} :
    (either (char '(') (either (seq (char 'p') (one isDecimalDigit)) (one isDecimalDigit))).Takes
      position cs groups ↔ Opener cs ∧ groups = [] := by
  constructor
  · rintro (h | ⟨_, _, _, _, h, ⟨d, hd, rfl, rfl⟩, rfl, rfl⟩ | ⟨d, hd, rfl, rfl⟩)
    · obtain ⟨rfl, rfl⟩ := takes_char.1 h
      exact ⟨.group, rfl⟩
    · obtain ⟨rfl, rfl⟩ := takes_char.1 h
      exact ⟨.minutes hd, rfl⟩
    · exact ⟨.amount hd, rfl⟩
  · rintro ⟨h, rfl⟩
    cases h with
    | group => exact .inl (takes_char.2 ⟨rfl, rfl⟩)
    | amount hd => exact .inr (.inr ⟨_, hd, rfl, rfl⟩)
    | minutes hd =>
      exact .inr (.inl ⟨_, _, _, _, takes_char.2 ⟨rfl, rfl⟩, ⟨_, hd, rfl, rfl⟩, rfl, rfl⟩)

theorem takes_body {position : ℕ} {cs : List Char} {groups : Groups} :
    body.Takes position cs groups ↔
      OpensTimer cs ∧ ']' ∉ cs ∧ groups = [(.body, position, cs)] := by
  have hends : ∀ rest : List Char, (∀ c ∈ rest, (c != ']') = true) ↔ ']' ∉ rest := by
    intro rest
    refine ⟨fun h hmem => absurd (h _ hmem) (by decide), fun h c hc => bne_iff_ne.2 ?_⟩
    rintro rfl
    exact h hc
  constructor
  · rintro ⟨_, ⟨gap, _, _, _, ⟨hgap, rfl⟩, ⟨opener, _, rest, _, h, ⟨hrest, rfl⟩, rfl, rfl⟩, rfl, rfl⟩,
      rfl⟩
    obtain ⟨hopener, rfl⟩ := takes_opener.1 h
    refine ⟨⟨gap, opener, rest, rfl, hgap, hopener⟩, fun hmem => ?_, rfl⟩
    obtain ⟨-, -, -, -, -, hplain⟩ := hopener.eq_cons
    rcases List.mem_append.1 hmem with hmem | hmem
    · exact absurd (hgap _ hmem) (by decide)
    · rcases List.mem_append.1 hmem with hmem | hmem
      · exact hplain hmem
      · exact (hends rest).1 hrest hmem
  · rintro ⟨⟨gap, opener, rest, rfl, hgap, hopener⟩, hplain, rfl⟩
    rw [List.mem_append, List.mem_append, not_or, not_or] at hplain
    refine ⟨[], ⟨gap, [], opener ++ rest, [], ⟨hgap, rfl⟩, ?_, rfl, rfl⟩, rfl⟩
    exact ⟨opener, [], rest, [], takes_opener.2 ⟨hopener, rfl⟩, ⟨(hends rest).2 hplain.2.2, rfl⟩,
      rfl, rfl⟩

end Pattern

/-! ### What the whole pattern matches -/

/-- The groups of a task line that are matched up to the end of the brackets. -/
def TaskLine.groups (l : TaskLine) : Groups :=
  let box := l.indent.length + l.bulletText.length
  let hyphen := box + l.checkboxText.length + 1
  (l.checkbox.toList.map fun _ => (.checkbox, box, ['[', ' ', ']'])) ++
    ((if l.paused then [(.pause, hyphen, ['-'])] else []) ++
      [(.body, hyphen + l.pauseText.length, l.body)])

namespace Pattern

theorem fits_of_takes {cs : List Char} {groups : Groups} (h : upToBrackets.Takes 0 cs groups)
    (tail : List Char) :
    ∃ l : TaskLine, l.Fits ∧ l.text = cs ++ tail ∧ l.tail = tail ∧ groups = l.groups := by
  obtain ⟨indent, _, _, _, ⟨hindent, rfl⟩, h, rfl, rfl⟩ := h
  obtain ⟨bulletText, _, _, _, hbullet, h, rfl, rfl⟩ := h
  obtain ⟨checkboxText, _, _, _, hcheckbox, h, rfl, rfl⟩ := h
  obtain ⟨_, _, _, _, hopen, h, rfl, rfl⟩ := h
  obtain ⟨pauseText, _, _, _, hpause, h, rfl, rfl⟩ := h
  obtain ⟨body, _, _, _, hbody, hclose, rfl, rfl⟩ := h
  obtain ⟨rfl, bullet, hmark, hbulletText⟩ := takes_bullet.1 hbullet
  obtain ⟨checkbox, hblank, hcheckboxText, rfl⟩ := takes_checkbox.1 hcheckbox
  obtain ⟨rfl, rfl⟩ := takes_char.1 hopen
  obtain ⟨paused, hpauseText, rfl⟩ := takes_pause.1 hpause
  obtain ⟨hopens, hends, rfl⟩ := takes_body.1 hbody
  obtain ⟨rfl, rfl⟩ := takes_char.1 hclose
  let l : TaskLine := ⟨indent, bullet, checkbox, paused, body, tail⟩
  obtain rfl : l.bulletText = bulletText := hbulletText l rfl
  obtain rfl : l.checkboxText = checkboxText := hcheckboxText l rfl
  obtain rfl : l.pauseText = pauseText := hpauseText l rfl
  refine ⟨l, ⟨hindent, hmark, hblank, hopens, hends⟩, ?_, rfl, ?_⟩
  · rw [l.text_eq]
    simp only [List.append_assoc, List.cons_append, List.nil_append]
    rfl
  · rw [TaskLine.groups, List.nil_append, List.nil_append, List.append_nil, Nat.zero_add]
    rfl

theorem Takes.seq {a b : Pattern} {position : ℕ} {cs cs' : List Char} {groups groups' : Groups}
    (first : a.Takes position cs groups) (second : b.Takes (position + cs.length) cs' groups') :
    (seq a b).Takes position (cs ++ cs') (groups ++ groups') :=
  ⟨cs, groups, cs', groups', first, second, rfl, rfl⟩

theorem takes_of_fits {l : TaskLine} (h : l.Fits) :
    ∃ cs groups, l.text = cs ++ l.tail ∧ upToBrackets.Takes 0 cs groups := by
  have hbullet : ∀ position, bullet.Takes position l.bulletText [] := fun position =>
    takes_bullet.2 ⟨rfl, l.bullet, h.bullet, fun l' hl' => by
      rw [TaskLine.bulletText, TaskLine.bulletText, hl']⟩
  have hcheckbox : ∀ position, checkbox.Takes position l.checkboxText _ := fun position =>
    takes_checkbox.2 ⟨l.checkbox, h.checkbox, fun l' hl' => by
      rw [TaskLine.checkboxText, TaskLine.checkboxText, hl'], rfl⟩
  have hpause : ∀ position, pause.Takes position l.pauseText _ := fun position =>
    takes_pause.2 ⟨l.paused, fun l' hl' => by
      rw [TaskLine.pauseText, TaskLine.pauseText, hl'], rfl⟩
  have hbody : ∀ position, body.Takes position l.body _ := fun position =>
    takes_body.2 ⟨h.opens, h.ends, rfl⟩
  have hchar : ∀ c position, (char c).Takes position [c] [] := fun c position =>
    takes_char.2 ⟨rfl, rfl⟩
  refine ⟨_, _, ?_, Takes.seq ⟨h.indent, rfl⟩ <| (hbullet _).seq <| (hcheckbox _).seq <|
    (hchar '[' _).seq <| (hpause _).seq <| (hbody _).seq <| hchar ']' _⟩
  rw [l.text_eq]
  simp only [List.append_assoc, List.cons_append, List.nil_append]

theorem runs_eq_cons (p : Char → Bool) (cs : List Char) :
    ∃ more, runs p cs = ⟨cs.takeWhile p, cs.dropWhile p, []⟩ :: more := by
  have hsplit : ∀ a b, cs = a ++ b → cs.take a.length = a ∧ cs.drop a.length = b := by
    rintro a b rfl
    exact ⟨List.take_left, List.drop_left⟩
  obtain ⟨htake, hdrop⟩ := hsplit _ _ (List.takeWhile_append_dropWhile (p := p)).symm
  rw [runs, List.range_succ, List.reverse_append, List.reverse_singleton, List.singleton_append,
    List.map_cons, htake, hdrop]
  exact ⟨_, rfl⟩

theorem head?_label_matchesAt {cs : List Char} (hcs : '\n' ∉ cs) (position : ℕ) :
    ∃ start, (label.matchesAt position cs).head? =
      some ⟨cs, [], [(.label, start, trimStart cs)]⟩ := by
  have hsplit : cs.takeWhile isBlank ++ trimStart cs = cs := List.takeWhile_append_dropWhile
  have hline : ∀ c ∈ trimStart cs, (c != '\n') = true := fun c hc => by
    rw [bne_iff_ne]
    rintro rfl
    exact hcs (hsplit ▸ List.mem_append_right _ hc)
  obtain ⟨more, hgap⟩ := runs_eq_cons isBlank cs
  obtain ⟨more', hrest⟩ := runs_eq_cons (· != '\n') (trimStart cs)
  rw [List.takeWhile_eq_self_iff.2 hline, List.dropWhile_eq_nil_iff.2 hline] at hrest
  have htake : (many (· != '\n')).matchesAt (position + (cs.takeWhile isBlank).length)
      (cs.dropWhile isBlank) = ⟨trimStart cs, [], []⟩ :: more' := hrest
  refine ⟨position + (cs.takeWhile isBlank).length, ?_⟩
  rw [label, matchesAt, matchesAt, hgap, List.flatMap_cons, matchesAt, htake, List.map_cons,
    List.map_cons, List.cons_append, List.head?_cons, hsplit]
  rfl

end Pattern

/-! ## Task lines -/

/-- What is kept of a match: the position of the checkbox, zero without one, whether there is a
hyphen, and the texts in the brackets and behind them, the latter without the blanks at its end. -/
def Match.candidate (m : Match) : ℕ × Bool × List Char × List Char :=
  (((m.groups.lookup .checkbox).map Prod.fst).getD 0, (m.groups.lookup .pause).isSome,
    ((m.groups.lookup .body).map Prod.snd).getD [],
    trimEnd (((m.groups.lookup .label).map Prod.snd).getD []))

theorem TaskLine.candidate_groups (l : TaskLine) (text rest : List Char) (start : ℕ) :
    Match.candidate ⟨text, rest, l.groups ++ [(.label, start, trimStart l.tail)]⟩ =
      (l.column, l.paused, l.body, l.label) := by
  rw [groups, column, label, trim]
  cases l.checkbox <;> cases l.paused <;> rfl

/-- **The first match of the pattern holds the parts of the line.** -/
theorem map_candidate_firstMatch? {line : List Char} (hline : '\n' ∉ line) :
    (Pattern.taskLine.firstMatch? line).map Match.candidate =
      (TaskLine.ofText? line).map fun l => (l.column, l.paused, l.body, l.label) := by
  rw [Pattern.firstMatch?, Pattern.taskLine, Pattern.matchesAt]
  cases hmatches : Pattern.upToBrackets.matchesAt 0 line with
  | nil =>
    cases hread : TaskLine.ofText? line with
    | none => rfl
    | some l =>
      obtain ⟨fits, htext⟩ := TaskLine.ofText?_eq_some_iff.1 hread
      obtain ⟨cs, groups, hcs, takes⟩ := Pattern.takes_of_fits fits
      have hmem := Pattern.mem_matchesAt.2 ⟨htext.symm.trans hcs, takes⟩
      rw [hmatches] at hmem
      cases hmem
  | cons m more =>
    -- the first way to get to the end of the brackets is the only one, and the rest of the line
    -- can always be matched
    obtain ⟨text, rest, groups⟩ := m
    obtain ⟨rfl, takes⟩ := Pattern.mem_matchesAt.1 (hmatches ▸ List.mem_cons_self)
    obtain ⟨l, fits, htext, rfl, rfl⟩ := Pattern.fits_of_takes takes rest
    have hrest : '\n' ∉ l.tail := fun hmem => hline (List.mem_append_right _ hmem)
    obtain ⟨start, hhead⟩ := Pattern.head?_label_matchesAt hrest (0 + text.length)
    obtain ⟨more', hlabel⟩ := List.head?_eq_some_iff.1 hhead
    rw [List.flatMap_cons, hlabel, List.map_cons, List.cons_append, List.find?_cons_of_pos rfl,
      TaskLine.ofText?_eq_some_iff.2 ⟨fits, htext⟩, Option.map_some, Option.map_some,
      l.candidate_groups]

theorem firstTaskLine_of_not_mem {line : List Char} (hline : '\n' ∉ line) :
    firstTaskLine (.ofList line) = (TaskLine.ofText? line).map fun l => (0, l) := by
  rw [firstTaskLine, String.toList_ofList, textLines]
  by_cases hne : line = []
  · rw [hne, lines_nil]
    rfl
  · rw [lines_of_not_mem hline hne, firstTaskLineFrom]
    cases TaskLine.ofText? line <;> rfl

/-- **A line is a task line exactly when it can be written as one, which is possible in one way
only.** The first match of the pattern says the same. -/
theorem task_line_grammar {line : List Char} (hline : '\n' ∉ line) :
    (∀ l : TaskLine, TaskLine.ofText? line = some l ↔ l.Fits ∧ l.text = line) ∧
      (∀ l l' : TaskLine, l.Fits → l'.Fits → l.text = line → l'.text = line → l = l') ∧
      (∀ l : TaskLine, TaskLine.ofText? line = some l →
        l.column = (if l.checkbox.isSome then (l.indent ++ l.bulletText).length else 0) ∧
        IsTrimmed l.tail l.label) ∧
      (∀ l : TaskLine, l.Bracketed → ¬ OpensTimer l.body → l.text = line →
        TaskLine.ofText? line = none) ∧
      firstTaskLine (.ofList line) = (TaskLine.ofText? line).map (fun l => (0, l)) ∧
      (Pattern.taskLine.firstMatch? line).map Match.candidate =
        (TaskLine.ofText? line).map fun l => (l.column, l.paused, l.body, l.label) := by
  refine ⟨fun l => TaskLine.ofText?_eq_some_iff, fun l l' h h' htext htext' => ?_, fun l _ => ?_,
    fun l h hopens htext => ?_, firstTaskLine_of_not_mem hline, map_candidate_firstMatch? hline⟩
  · exact h.unique h' (htext.trans htext'.symm)
  · refine ⟨?_, isTrimmed_trim l.tail⟩
    rw [TaskLine.column, List.length_append]
    cases l.checkbox <;> rfl
  · rw [← htext, TaskLine.ofText?_text h, if_neg (mt TaskLine.opensTimer_iff.1 hopens)]

/-- A wide space, a star, a checkbox, a hyphen and a digit of another script. -/
theorem task_line_grammar_scripts :
    let line := "\u3000* [ ] [-p٣ (] 茶 ".toList
    let l : TaskLine := ⟨['\u3000'], some ('*', ' '), some ' ', true, "p٣ (".toList, " 茶 ".toList⟩
    '\n' ∉ line ∧ l.Fits ∧ l.text = line ∧ TaskLine.ofText? line = some l ∧ l.column = 3 ∧
      IsTrimmed l.tail ['茶'] ∧ (Pattern.taskLine.firstMatch? line).map Match.candidate =
        some (3, true, "p٣ (".toList, ['茶']) := by
  intro line l
  have hline : '\n' ∉ line := by decide +kernel
  have htext : l.text = line := by decide +kernel
  have hlabel : l.label = ['茶'] := by decide +kernel
  have fits : l.Fits := by
    refine ⟨by decide, ?_, ?_, ⟨[], ['p', '٣'], " (".toList, rfl, by decide, .minutes (by decide)⟩,
      by decide⟩
    · rintro _ _ ⟨⟩
      exact ⟨.inr rfl, by decide⟩
    · rintro _ ⟨⟩
      decide
  obtain ⟨grammar, -, parts, -, -, pattern⟩ := task_line_grammar hline
  have hread := (grammar l).2 ⟨fits, htext⟩
  obtain ⟨hcolumn, htrimmed⟩ := parts l hread
  rw [hlabel] at htrimmed
  rw [hread, Option.map_some, hcolumn, hlabel] at pattern
  exact ⟨hline, fits, htext, hread, hcolumn, htrimmed, pattern⟩

end TaskTimer
