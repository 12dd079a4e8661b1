import Mathlib.Data.List.Basic
import TaskTimer.Proofs.Text.Words
import TaskTimer.Text.Basic

/-!
# The lines of a text

A text can be cut into lines in one way only, whatever endings it mixes.

* `line_induction`: from the end of a text to its start, line by line.
* `lines_append`, `lines_append_feed`, `lines_of_not_mem`: a line or more up to a line feed, and a
  line without one.
* `WritesLines`: the text is written with these lines, each with an ending of its own choice.
* **`lines_eq_iff`**: those lines are read off the text, and no others.
-/

namespace TaskTimer

/-! ## Line by line -/

section Lines

variable {α : Type} [BEq α] {lf cr : α} {line : List α}

omit [BEq α] in
/-- A text is one line without an ending, or a line, its line feed and a later text. -/
theorem line_induction (lf : α) {P : List α → Prop} (unended : ∀ line, lf ∉ line → P line)
    (ended : ∀ line later, lf ∉ line → P later → P (line ++ lf :: later)) (text : List α) :
    P text := by
  induction h : text.length using Nat.strong_induction_on generalizing text with
  | h n ih =>
    by_cases hfeed : lf ∈ text
    · obtain ⟨line, later, rfl, hline⟩ := List.eq_append_cons_of_mem hfeed
      refine ended line later hline (ih _ ?_ later rfl)
      rw [← h, List.length_append, List.length_cons]
      omega
    · exact unended text hfeed

theorem lines_nil : lines lf cr [] = [] := by
  unfold lines
  rfl

variable [LawfulBEq α]

theorem ne_feed_of_mem (hline : lf ∉ line) : ∀ c ∈ line, (c != lf) = true := by
  intro c hc
  rw [bne_iff_ne]
  rintro rfl
  exact hline hc

/-- **A line ends at its line feed.** -/
theorem lines_append (hline : lf ∉ line) (rest : List α) :
    lines lf cr (line ++ lf :: rest) = dropReturn cr line :: lines lf cr rest := by
  have hfeed : ∀ c ∈ (lf :: rest).head?, (c != lf) = false := by
    intro c hc
    rw [← Option.mem_some_iff.1 hc, bne_self_eq_false]
  have htake := takeWhile_append_stop hfeed (ne_feed_of_mem hline)
  have hdrop := dropWhile_append_stop hfeed (ne_feed_of_mem hline)
  conv => lhs; unfold lines
  split
  · next h =>
    rw [hdrop] at h
    cases h
  · next h =>
    rw [hdrop] at h
    cases h
    rw [htake]

theorem lines_append_feed (text rest : List α) :
    lines lf cr (text ++ lf :: rest) = lines lf cr (text ++ [lf]) ++ lines lf cr rest := by
  induction text using line_induction lf with
  | unended line hline =>
    rw [lines_append hline, lines_append hline, lines_nil]
    rfl
  | ended line later hline ih =>
    rw [List.append_assoc, List.append_assoc, List.cons_append, List.cons_append,
      lines_append hline, lines_append hline, ih, List.cons_append]

theorem lines_of_not_mem (hline : lf ∉ line) (hne : line ≠ []) : lines lf cr line = [line] := by
  have hdrop : line.dropWhile (· != lf) = [] :=
    List.dropWhile_eq_nil_iff.2 (ne_feed_of_mem hline)
  unfold lines
  split
  · rw [if_neg (by rwa [List.isEmpty_iff])]
  · next h =>
    rw [hdrop] at h
    cases h

/-! ### The carriage return of an ending -/

theorem dropReturn_of_getLast?_ne (h : line.getLast? ≠ some cr) : dropReturn cr line = line := by
  rw [dropReturn, if_neg (mt beq_iff_eq.1 h)]

theorem dropReturn_of_not_mem (hline : cr ∉ line) : dropReturn cr line = line :=
  dropReturn_of_getLast?_ne fun h => hline (List.mem_of_getLast? h)

theorem dropReturn_append (hline : cr ∉ line) (hne : line ≠ []) (u : List α) :
    dropReturn cr (u ++ line) = u ++ line := by
  refine dropReturn_of_getLast?_ne fun h => ?_
  rw [List.getLast?_append_of_ne_nil u hne] at h
  exact hline (List.mem_of_getLast? h)

theorem dropReturn_append_return (cr : α) (line : List α) :
    dropReturn cr (line ++ [cr]) = line := by
  rw [dropReturn, List.getLast?_concat, if_pos (beq_self_eq_true _), List.dropLast_concat]

end Lines

/-! ## The lines that a text is written with -/

section Writes

variable {α : Type} {lf cr : α}

/-- The text is written with these lines. A line ends with a line feed, with or without a carriage
return in front of it, and the last line may go without an ending. -/
inductive WritesLines (lf cr : α) : List (List α) → List α → Prop
  | nil : WritesLines lf cr [] []
  | unended {line : List α} (hline : lf ∉ line) (hne : line ≠ []) : WritesLines lf cr [line] line
  | feed {line text : List α} {later : List (List α)} (hline : lf ∉ line)
      (hreturn : line.getLast? ≠ some cr) (rest : WritesLines lf cr later text) :
      WritesLines lf cr (line :: later) (line ++ lf :: text)
  | returnFeed {line text : List α} {later : List (List α)} (hline : lf ∉ line)
      (rest : WritesLines lf cr later text) :
      WritesLines lf cr (line :: later) (line ++ cr :: lf :: text)

theorem WritesLines.feed_not_mem {ls : List (List α)} {text : List α}
    (h : WritesLines lf cr ls text) : ∀ line ∈ ls, lf ∉ line := by
  induction h with
  | nil => exact List.forall_mem_nil _
  | unended hline _ => exact List.forall_mem_cons.2 ⟨hline, List.forall_mem_nil _⟩
  | feed hline _ _ ih => exact List.forall_mem_cons.2 ⟨hline, ih⟩
  | returnFeed hline _ ih => exact List.forall_mem_cons.2 ⟨hline, ih⟩

variable [BEq α] [LawfulBEq α]

theorem WritesLines.lines_eq {ls : List (List α)} {text : List α} (h : WritesLines lf cr ls text)
    (hne : cr ≠ lf) : lines lf cr text = ls := by
  induction h with
  | nil => exact lines_nil
  | unended hline hne' => exact lines_of_not_mem hline hne'
  | feed hline hreturn rest ih =>
    rw [lines_append hline, dropReturn_of_getLast?_ne hreturn, ih]
  | @returnFeed line text later hline rest ih =>
    have hline' : lf ∉ line ++ [cr] := by
      rw [List.mem_append, List.mem_singleton, not_or]
      exact ⟨hline, hne.symm⟩
    rw [List.append_cons, lines_append hline', dropReturn_append_return, ih]

theorem writesLines_lines (text : List α) : WritesLines lf cr (lines lf cr text) text := by
  induction text using line_induction lf with
  | unended line hline =>
    by_cases hne : line = []
    · rw [hne, lines_nil]
      exact .nil
    · rw [lines_of_not_mem hline hne]
      exact .unended hline hne
  | ended line later hline rest =>
    rw [lines_append hline]
    -- a carriage return at the end of the line is taken for a part of its ending
    by_cases hreturn : line.getLast? = some cr
    · obtain ⟨line, rfl⟩ := List.getLast?_eq_some_iff.1 hreturn
      rw [dropReturn_append_return, List.append_assoc]
      exact .returnFeed (fun hmem => hline (List.mem_append_left _ hmem)) rest
    · rw [dropReturn_of_getLast?_ne hreturn]
      exact .feed hline hreturn rest

/-- **A text is written with the lines that are read off it, and with no others.** -/
theorem lines_eq_iff {ls : List (List α)} {text : List α} (hne : cr ≠ lf) :
    lines lf cr text = ls ↔ WritesLines lf cr ls text := by
  constructor
  · rintro rfl
    exact writesLines_lines text
  · exact fun h => h.lines_eq hne

end Writes

end TaskTimer
