import TaskTimer.Proofs.Notation.Spacing

/-!
# The forms of a lexeme

What is read where a lexeme starts, given the longest run of digits in it.

* `lexeme_blank`, `lexeme_open`, `lexeme_close`, `lexeme_minutes`, `lexeme_digit`,
  `lexeme_invalid`: one equation for each form, with every way in which the form can fail.
* `countdown_large`, `countdown_bare`, `countdown_unit`: the same for a countdown behind its amount.
-/

namespace TaskTimer

/-! ## The equations -/

theorem lexeme_blank {b : Char} (hb : isBlank b = true) (o : ℕ) (cs : List Char) :
    lexeme o b cs = .ok ⟨none, [b], cs⟩ := by
  rw [lexeme, if_pos hb]

theorem lexeme_open (o : ℕ) (cs : List Char) :
    lexeme o '(' cs = .ok ⟨some .openGroup, ['('], cs⟩ := by
  rw [lexeme, if_neg (by decide), if_pos rfl]

section Countdown

variable {digits rest : List Char} (o : ℕ)

theorem countdown_large (large : UInt64.size ≤ readDecimal digits) :
    countdown o digits rest = .error (.numberOverflow o) := if_pos large

theorem countdown_bare (fits : readDecimal digits < UInt64.size)
    (bare : ∀ u ∈ rest.head?, unitSeconds u = none) :
    countdown o digits rest = .error (.missingUnit (o + Utf8.byteLength digits)) := by
  unfold countdown
  rw [if_neg (Nat.not_le.2 fits)]
  cases rest with
  | nil => rfl
  | cons u rest => simp only [bare u rfl]

theorem countdown_unit {u : Char} {unit : ℕ} (letter : unitSeconds u = some unit)
    (pos : 0 < unit) :
    countdown o digits (u :: rest) =
      if UInt64.size ≤ unit * readDecimal digits then .error (.numberOverflow o)
      else .ok (timeLexeme (unit * readDecimal digits) (digits ++ [u]) rest) := by
  have hle : readDecimal digits ≤ unit * readDecimal digits := Nat.le_mul_of_pos_left _ pos
  by_cases large : UInt64.size ≤ readDecimal digits
  · rw [countdown_large o large, if_pos (large.trans hle)]
  · unfold countdown
    rw [if_neg large]
    simp only [letter]

end Countdown

section Digits

variable {digits rest : List Char} (hdigits : ∀ c ∈ digits, c.isDigit = true)
  (hrest : EndsDigits rest)

include hdigits hrest

theorem leadingDigits?_append :
    leadingDigits? (digits ++ rest) = if digits.isEmpty then none else some (digits, rest) := by
  rw [leadingDigits?, takeWhile_append_stop hrest hdigits, dropWhile_append_stop hrest hdigits]

theorem lexeme_close (o : ℕ) :
    lexeme o ')' (digits ++ rest) =
      if readDecimal digits < UInt32.size then
        .ok ⟨some (.closeGroup (UInt32.ofNat (readDecimal digits))), ')' :: digits, rest⟩
      else .error (.numberOverflow (o + 1)) := by
  rw [lexeme, if_neg (by decide), if_neg (by decide), if_pos rfl,
    leadingDigits?_append hdigits hrest]
  cases digits <;> rfl

theorem lexeme_minutes (o : ℕ) :
    lexeme o 'p' (digits ++ rest) =
      if digits.isEmpty then .error (.missingDigits (o + 1))
      else if UInt64.size ≤ 60 * readDecimal digits then .error (.numberOverflow (o + 1))
      else .ok (timeLexeme (60 * readDecimal digits) ('p' :: digits) rest) := by
  rw [lexeme, if_neg (by decide), if_neg (by decide), if_neg (by decide), if_pos rfl,
    leadingDigits?_append hdigits hrest]
  cases digits <;> rfl

theorem lexeme_digit {d : Char} (hd : d.isDigit = true) (o : ℕ) :
    lexeme o d (digits ++ rest) = countdown o (d :: digits) rest := by
  rw [lexeme, if_neg (Bool.eq_false_iff.1 (isBlank_of_isDigit hd)),
    if_neg (ne_of_isDigit hd (by decide)), if_neg (ne_of_isDigit hd (by decide)),
    if_neg (ne_of_isDigit hd (by decide)), if_pos hd, leadingDigits?_cons hd,
    takeWhile_append_stop hrest hdigits, dropWhile_append_stop hrest hdigits]

end Digits

/-- A character with which no lexeme starts. -/
structure StartsNothing (c : Char) : Prop where
  isBlank : isBlank c = false
  ne_open : c ≠ '('
  ne_close : c ≠ ')'
  ne_minutes : c ≠ 'p'
  isDigit : c.isDigit = false

theorem lexeme_invalid {c : Char} (hc : StartsNothing c) (o : ℕ) (cs : List Char) :
    lexeme o c cs = .error (.invalidCharacter c o) := by
  rw [lexeme, if_neg (Bool.eq_false_iff.1 hc.isBlank), if_neg hc.ne_open, if_neg hc.ne_close,
    if_neg hc.ne_minutes, if_neg (Bool.eq_false_iff.1 hc.isDigit)]

end TaskTimer
