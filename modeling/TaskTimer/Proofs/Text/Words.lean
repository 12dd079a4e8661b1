import Mathlib.Data.List.TakeWhile
import TaskTimer.Text.Basic

/-!
# The words of a text

Squeezing a text keeps its words, so two texts squeeze to the same text when they have the same
words.

* `IsWord`, `EndsWord`: a run without blanks, and a text that does not continue such a run.
* `takeWhile_append_stop`, `dropWhile_append_stop`: a run of characters ends where one does not
  belong to it.
* `takeWhile_append_endsWord`, `dropWhile_append_endsWord`: a run of characters that are not blank
  stops at the end of a word.
* `IsTrimmed`, **`isTrimmed_trim`**, `IsTrimmed.trim_eq`: a text without the blanks at its ends.
* `words_append`: the words of a text that starts with a word.
* **`words_squeeze`**, **`words_eq_of_squeeze_eq`**: the words of a squeezed text.
* `squeeze_squeeze`, `mem_squeeze`, `squeeze_append`: a squeezed text is squeezed, holds nothing new,
  and keeps its start.
-/

namespace TaskTimer

/-- A text with at least one character and without a blank. -/
def IsWord (w : List Char) : Prop := w ≠ [] ∧ ∀ c ∈ w, isBlank c = false

theorem isWord_singleton {c : Char} (hc : isBlank c = false) : IsWord [c] := by
  refine ⟨List.cons_ne_nil _ _, fun c' hc' => ?_⟩
  rwa [List.mem_singleton.1 hc']

/-- The text is empty or starts with a blank: a word in front of it ends there. -/
def EndsWord (cs : List Char) : Prop := ∀ b ∈ cs.head?, isBlank b = true

theorem endsWord_nil : EndsWord [] := fun _ hb => absurd hb (by simp)

theorem endsWord_cons {b : Char} (hb : isBlank b = true) (cs : List Char) : EndsWord (b :: cs) := by
  intro c hc
  rw [List.head?_cons, Option.mem_some_iff] at hc
  rwa [← hc]

theorem endsWord_dropWhile (cs : List Char) : EndsWord (cs.dropWhile (!isBlank ·)) := by
  intro b hb
  have h := List.head?_dropWhile_not (!isBlank ·) cs
  rw [Option.mem_def.1 hb] at h
  simpa using h

/-! ## Runs that stop -/

section Stop

variable {α : Type} {p : α → Bool} {r : List α} (hr : ∀ c ∈ r.head?, p c = false)

include hr

theorem takeWhile_stop : r.takeWhile p = [] := by
  cases r with
  | nil => rfl
  | cons c r => rw [List.takeWhile_cons, hr c rfl, if_neg Bool.false_ne_true]

theorem dropWhile_stop : r.dropWhile p = r := by
  cases r with
  | nil => rfl
  | cons c r => rw [List.dropWhile_cons, hr c rfl, if_neg Bool.false_ne_true]

theorem takeWhile_append_stop {cs : List α} (hcs : ∀ c ∈ cs, p c = true) :
    (cs ++ r).takeWhile p = cs := by
  rw [List.takeWhile_append_of_pos hcs, takeWhile_stop hr, List.append_nil]

theorem dropWhile_append_stop {cs : List α} (hcs : ∀ c ∈ cs, p c = true) :
    (cs ++ r).dropWhile p = r := by
  rw [List.dropWhile_append_of_pos hcs, dropWhile_stop hr]

end Stop

/-! ## Runs that stop at a blank -/

section Runs

variable {p : Char → Bool} (hp : ∀ b, isBlank b = true → p b = false) {r : List Char}
  (hr : EndsWord r)

include hp hr

theorem takeWhile_endsWord : r.takeWhile p = [] :=
  takeWhile_stop fun b hb => hp b (hr b hb)

theorem dropWhile_endsWord : r.dropWhile p = r :=
  dropWhile_stop fun b hb => hp b (hr b hb)

/-- **A run that avoids blanks does not see what follows the word.** -/
theorem takeWhile_append_endsWord (cs : List Char) :
    (cs ++ r).takeWhile p = cs.takeWhile p := by
  induction cs with
  | nil => exact takeWhile_endsWord hp hr
  | cons c cs ih =>
    rw [List.cons_append, List.takeWhile_cons, List.takeWhile_cons, ih]

theorem dropWhile_append_endsWord (cs : List Char) :
    (cs ++ r).dropWhile p = cs.dropWhile p ++ r := by
  induction cs with
  | nil => exact dropWhile_endsWord hp hr
  | cons c cs ih =>
    rw [List.cons_append, List.dropWhile_cons, List.dropWhile_cons, ih]
    split <;> rfl

end Runs

/-! ## Trimming -/

/-- The text `t` is what is left of `cs` without the blanks at both ends. -/
structure IsTrimmed (cs t : List Char) : Prop where
  inside : ∃ before after, cs = before ++ t ++ after ∧ ∀ c ∈ before ++ after, isBlank c = true
  starts : ∀ c ∈ t.head?, isBlank c = false
  ends : ∀ c ∈ t.getLast?, isBlank c = false

theorem head?_dropWhile_blank {cs : List Char} : ∀ c ∈ (cs.dropWhile isBlank).head?,
    isBlank c = false := by
  intro c hc
  have h := List.head?_dropWhile_not isBlank cs
  rw [Option.mem_def.1 hc] at h
  simpa using h

theorem isTrimmed_trim (cs : List Char) : IsTrimmed cs (trim cs) := by
  have hstart : cs = cs.takeWhile isBlank ++ trimStart cs := List.takeWhile_append_dropWhile.symm
  have hend : trimStart cs = trim cs ++ ((trimStart cs).reverse.takeWhile isBlank).reverse := by
    rw [trim, trimEnd, ← List.reverse_append, List.takeWhile_append_dropWhile, List.reverse_reverse]
  refine ⟨⟨cs.takeWhile isBlank, ((trimStart cs).reverse.takeWhile isBlank).reverse, ?_, ?_⟩,
    fun c hc => ?_, fun c hc => ?_⟩
  · rw [List.append_assoc, ← hend, ← hstart]
  · intro c hc
    rcases List.mem_append.1 hc with hc | hc
    · exact List.mem_takeWhile_imp hc
    · exact List.mem_takeWhile_imp (List.mem_reverse.1 hc)
  · have hhead : c ∈ (trimStart cs).head? := by
      rw [hend, List.head?_append, Option.mem_def.1 hc]
      rfl
    exact head?_dropWhile_blank c hhead
  · rw [trim, trimEnd, List.getLast?_reverse] at hc
    exact head?_dropWhile_blank c hc

theorem IsTrimmed.trim_eq {cs t : List Char} (h : IsTrimmed cs t) : trim cs = t := by
  obtain ⟨before, after, rfl, hblank⟩ := h.inside
  have hbefore : ∀ c ∈ before, isBlank c = true := fun c hc => hblank c (List.mem_append_left _ hc)
  have hafter : ∀ c ∈ after.reverse, isBlank c = true := fun c hc =>
    hblank c (List.mem_append_right _ (List.mem_reverse.1 hc))
  have hends : ∀ c ∈ t.reverse.head?, isBlank c = false := by
    rw [List.head?_reverse]
    exact h.ends
  cases t with
  | nil =>
    have hstart : trimStart (before ++ [] ++ after) = [] := by
      rw [List.append_nil, trimStart, List.dropWhile_eq_nil_iff]
      exact hblank
    rw [trim, hstart]
    rfl
  | cons c t =>
    have hstarts : ∀ x ∈ (c :: t ++ after).head?, isBlank x = false := h.starts
    have hstart : trimStart (before ++ c :: t ++ after) = c :: t ++ after := by
      rw [List.append_assoc]
      exact dropWhile_append_stop hstarts hbefore
    rw [trim, hstart, trimEnd, List.reverse_append, dropWhile_append_stop hends hafter,
      List.reverse_reverse]

theorem mem_of_mem_trim {cs : List Char} {c : Char} (hc : c ∈ trim cs) : c ∈ cs := by
  obtain ⟨before, after, hcs, -⟩ := (isTrimmed_trim cs).inside
  rw [hcs]
  exact List.mem_append_left _ (List.mem_append_right _ hc)

theorem trim_cons_trim {b : Char} (hb : isBlank b = true) (cs : List Char) :
    trim (b :: trim cs) = trim cs := by
  have h := isTrimmed_trim cs
  refine IsTrimmed.trim_eq ⟨⟨[b], [], by simp, ?_⟩, h.starts, h.ends⟩
  simpa using hb

/-! ## Words -/

theorem words_nil : words [] = [] := by
  unfold words
  rfl

theorem words_cons (c : Char) (cs : List Char) : words (c :: cs) =
    if isBlank c then words cs
    else (c :: cs.takeWhile (!isBlank ·)) :: words (cs.dropWhile (!isBlank ·)) := by
  conv => lhs; unfold words

theorem words_cons_blank {b : Char} (hb : isBlank b = true) (cs : List Char) :
    words (b :: cs) = words cs := by
  rw [words_cons, if_pos hb]

theorem words_append {w r : List Char} (hw : IsWord w) (hr : EndsWord r) :
    words (w ++ r) = w :: words r := by
  obtain ⟨hne, hw⟩ := hw
  cases w with
  | nil => exact absurd rfl hne
  | cons c w =>
    have hc : isBlank c = false := hw c List.mem_cons_self
    have hrest : ∀ x ∈ w, (!isBlank x) = true := fun x hx => by
      rw [hw x (List.mem_cons_of_mem _ hx)]; rfl
    have hstop : ∀ b, isBlank b = true → (!isBlank b) = false := fun b hb => by rw [hb]; rfl
    rw [List.cons_append, words_cons, if_neg (by rw [hc]; exact Bool.false_ne_true),
      List.takeWhile_append_of_pos hrest, List.dropWhile_append_of_pos hrest,
      takeWhile_endsWord hstop hr, dropWhile_endsWord hstop hr, List.append_nil]

theorem isWord_of_mem_words (cs : List Char) : ∀ w ∈ words cs, IsWord w := by
  fun_induction words cs with
  | case1 => exact fun w hw => absurd hw List.not_mem_nil
  | case2 c cs hc ih => exact ih
  | case3 c cs hc ih =>
    intro w hw
    rcases List.mem_cons.1 hw with rfl | hw
    · refine ⟨List.cons_ne_nil _ _, fun x hx => ?_⟩
      rcases List.mem_cons.1 hx with rfl | hx
      · exact Bool.eq_false_iff.2 hc
      · simpa using List.mem_takeWhile_imp hx
    · exact ih w hw

theorem words_append_blanks {gap : List Char} (hgap : ∀ b ∈ gap, isBlank b = true)
    (cs : List Char) : words (gap ++ cs) = words cs := by
  induction gap with
  | nil => rfl
  | cons b gap ih =>
    obtain ⟨hb, hgap⟩ := List.forall_mem_cons.1 hgap
    rw [List.cons_append, words_cons_blank hb, ih hgap]

theorem mem_of_mem_words {c : Char} (cs : List Char) : ∀ w ∈ words cs, c ∈ w → c ∈ cs := by
  fun_induction words cs with
  | case1 => exact fun w hw => absurd hw List.not_mem_nil
  | case2 b cs hb ih => exact fun w hw hc => List.mem_cons_of_mem b (ih w hw hc)
  | case3 b cs hb ih =>
    intro w hw hc
    rcases List.mem_cons.1 hw with rfl | hw
    · exact List.cons_subset_cons b (List.takeWhile_subset _) hc
    · exact List.mem_cons_of_mem b ((List.dropWhile_sublist _).subset (ih w hw hc))

/-! ## Squeezing -/

theorem words_intercalate (ws : List (List Char)) (hws : ∀ w ∈ ws, IsWord w) :
    words ([' '].intercalate ws) = ws := by
  induction ws with
  | nil => exact words_nil
  | cons w ws ih =>
    have hw : IsWord w := hws w List.mem_cons_self
    have ih := ih fun v hv => hws v (List.mem_cons_of_mem _ hv)
    cases ws with
    | nil =>
      rw [List.intercalate_singleton, ← List.append_nil w, words_append hw endsWord_nil, words_nil,
        List.append_nil]
    | cons v ws =>
      have hspace : isBlank ' ' = true := by decide
      rw [List.intercalate_cons_cons, List.append_assoc, List.singleton_append,
        words_append hw (endsWord_cons hspace _), words_cons_blank hspace, ih]

/-- **Squeezing a text keeps its words.** -/
theorem words_squeeze (cs : List Char) : words (squeeze cs) = words cs :=
  words_intercalate _ (isWord_of_mem_words cs)

/-- **Texts that squeeze to the same text have the same words.** -/
theorem words_eq_of_squeeze_eq {xs ys : List Char} (h : squeeze xs = squeeze ys) :
    words xs = words ys := by
  rw [← words_squeeze xs, h, words_squeeze]

theorem squeeze_squeeze (cs : List Char) : squeeze (squeeze cs) = squeeze cs := by
  rw [squeeze, words_squeeze, squeeze]

theorem squeeze_append_blanks {gap : List Char} (hgap : ∀ b ∈ gap, isBlank b = true)
    (cs : List Char) : squeeze (gap ++ cs) = squeeze cs := by
  rw [squeeze, words_append_blanks hgap, squeeze]

theorem squeeze_append {w : List Char} (hw : IsWord w) (cs : List Char) :
    ∃ rest, squeeze (w ++ cs) = w ++ rest := by
  have hword : IsWord (w ++ cs.takeWhile (!isBlank ·)) := by
    refine ⟨fun h => hw.1 (List.append_eq_nil_iff.1 h).1, fun c hc => ?_⟩
    rcases List.mem_append.1 hc with hc | hc
    · exact hw.2 c hc
    · simpa using List.mem_takeWhile_imp hc
  have hwords := words_append hword (endsWord_dropWhile cs)
  rw [List.append_assoc, List.takeWhile_append_dropWhile] at hwords
  rw [squeeze, hwords]
  cases words (cs.dropWhile (!isBlank ·)) with
  | nil => exact ⟨_, List.intercalate_singleton⟩
  | cons v vs =>
    rw [List.intercalate_cons_cons, List.append_assoc, List.append_assoc]
    exact ⟨_, rfl⟩

theorem mem_intercalate {c s : Char} {ws : List (List Char)} (h : c ∈ [s].intercalate ws) :
    c = s ∨ ∃ w ∈ ws, c ∈ w := by
  induction ws with
  | nil => exact absurd h List.not_mem_nil
  | cons w ws ih =>
    cases ws with
    | nil =>
      rw [List.intercalate_singleton] at h
      exact .inr ⟨w, List.mem_cons_self, h⟩
    | cons v ws =>
      rw [List.intercalate_cons_cons, List.mem_append, List.mem_append, List.mem_singleton] at h
      rcases h with (h | h) | h
      · exact .inr ⟨w, List.mem_cons_self, h⟩
      · exact .inl h
      · exact (ih h).imp_right fun ⟨u, hu, hc⟩ => ⟨u, List.mem_cons_of_mem w hu, hc⟩

theorem mem_squeeze {cs : List Char} {c : Char} (h : c ∈ squeeze cs) : c = ' ' ∨ c ∈ cs :=
  (mem_intercalate h).imp_right fun ⟨w, hw, hc⟩ => mem_of_mem_words cs w hw hc

end TaskTimer
