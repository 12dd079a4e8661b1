import TaskTimer.Log.Timestamp
import TaskTimer.Proofs.Text.Digit

/-!
# Timestamps are read back

* `Timestamp.IsValid`: the instants that a clock shows.
* `readNumber_padded`, `readYear_yearText`, `readFraction_fractionText`: the parts of a text.
* **`Timestamp.ofText?_text`**: the whole text of an instant.
-/

namespace TaskTimer

namespace Timestamp

/-- The day exists in a year that can be written, and so does the time of day. A minute may have a
leap second. -/
structure IsValid (t : Timestamp) : Prop where
  date : t.date.isValid = true
  hour : t.hour < 24
  minute : t.minute < 60
  second : t.second ≤ 60
  nanosecond : t.nanosecond < 10 ^ 9

/-! ## Padded numbers -/

theorem isDigit_of_mem_padded {width n : ℕ} : ∀ c ∈ padded width n, c.isDigit = true := by
  intro c hc
  rcases List.mem_append.1 hc with hc | hc
  · rw [List.eq_of_mem_replicate hc]
    rfl
  · exact isDigit_of_mem_showDecimal c hc

theorem padded_ne_nil (width n : ℕ) : padded width n ≠ [] :=
  List.append_ne_nil_of_right_ne_nil _ (showDecimal_ne_nil n)

theorem readDecimal_padded (width n : ℕ) : readDecimal (padded width n) = n := by
  rw [padded, readDecimal_zeros, readDecimal_showDecimal]

theorem length_padded {width n : ℕ} (hwidth : 0 < width) (hn : n < 10 ^ width) :
    (padded width n).length = width := by
  have := length_showDecimal_le hwidth hn
  rw [padded, List.length_append, List.length_replicate]
  omega

theorem trimStart_digits {digits : List Char} (hne : digits ≠ [])
    (hdigits : ∀ c ∈ digits, c.isDigit = true) (rest : List Char) :
    trimStart (digits ++ rest) = digits ++ rest := by
  cases digits with
  | nil => exact absurd rfl hne
  | cons d ds =>
    have hd : isBlank d = false := isBlank_of_isDigit (hdigits d List.mem_cons_self)
    rw [trimStart, List.cons_append, List.dropWhile_cons, hd, if_neg Bool.false_ne_true]

theorem readNumber_padded {width n : ℕ} (hwidth : 0 < width) (hn : n < 10 ^ width)
    (rest : List Char) : readNumber width (padded width n ++ rest) = some (n, rest) := by
  have hlength := length_padded hwidth hn
  have hdigits : ((padded width n ++ rest).take width).takeWhile Char.isDigit = padded width n := by
    rw [List.take_append_of_le_length hlength.ge, List.take_of_length_le hlength.le]
    exact List.takeWhile_eq_self_iff.2 isDigit_of_mem_padded
  rw [readNumber]
  simp only [trimStart_digits (padded_ne_nil width n) isDigit_of_mem_padded, hdigits,
    List.isEmpty_eq_false_iff.2 (padded_ne_nil width n), readDecimal_padded, List.drop_left]
  rfl

theorem readMark_cons {mark : Char} (hmark : isBlank mark = false) (rest : List Char) :
    readMark mark (mark :: rest) = some rest := by
  rw [readMark, trimStart, List.dropWhile_cons, hmark]
  exact if_pos rfl

/-! ## The parts -/

section Parts

variable {rest : List Char} (hrest : EndsDigits rest)

include hrest

theorem digits_padded (width n : ℕ) :
    (padded width n ++ rest).takeWhile Char.isDigit = padded width n :=
  takeWhile_append_stop hrest isDigit_of_mem_padded

theorem readYear_yearText (year : ℤ) : readYear (yearText year ++ rest) = some (year, rest) := by
  unfold yearText
  split_ifs with hfour hneg
  · -- four digits, the first of which is no sign
    rw [Bool.and_eq_true, decide_eq_true_eq, decide_eq_true_eq] at hfour
    have hnumber : readNumber 4 (padded 4 year.toNat ++ rest) = some (year.toNat, rest) :=
      readNumber_padded (by decide) (by omega) rest
    have htrim := trimStart_digits (padded_ne_nil 4 year.toNat) isDigit_of_mem_padded rest
    rw [readYear, htrim]
    cases hpadded : padded 4 year.toNat with
    | nil => exact absurd hpadded (padded_ne_nil 4 year.toNat)
    | cons d ds =>
      have hd : d.isDigit = true := isDigit_of_mem_padded d (hpadded ▸ List.mem_cons_self)
      rw [hpadded] at hnumber
      split
      · next h =>
        cases h
        cases hd
      · next h =>
        cases h
        cases hd
      · rw [hnumber]
        simp only [Option.map_some, Int.toNat_of_nonneg hfour.1]
  · have hyear : -(year.natAbs : ℤ) = year := by omega
    generalize year.natAbs = n at hyear ⊢
    simp [readYear, trimStart, isBlank, digits_padded hrest, padded_ne_nil, readDecimal_padded,
      hyear]
  · have hyear : (year.natAbs : ℤ) = year := by omega
    generalize year.natAbs = n at hyear ⊢
    simp [readYear, trimStart, isBlank, digits_padded hrest, padded_ne_nil, readDecimal_padded,
      hyear]

theorem readFraction_padded {width n : ℕ} (hpos : 0 < width) (hwidth : width ≤ 9)
    (hn : n < 10 ^ width) :
    readFraction ('.' :: padded width n ++ rest) = some (n * 10 ^ (9 - width), rest) := by
  have hlength := length_padded hpos hn
  have hkept : (padded width n).take 9 = padded width n := List.take_of_length_le (by omega)
  rw [List.cons_append, readFraction]
  simp only [digits_padded hrest, List.isEmpty_eq_false_iff.2 (padded_ne_nil width n), hkept,
    readDecimal_padded, hlength]
  have hdrop : (padded width n ++ rest).drop width = rest := by
    rw [List.drop_append_of_le_length hlength.ge, List.drop_of_length_le hlength.le,
      List.nil_append]
  rw [hdrop]
  rfl

theorem readFraction_fractionText {nanosecond : ℕ} (h : nanosecond < 10 ^ 9)
    (hpoint : ∀ c ∈ rest.head?, c ≠ '.') :
    readFraction (fractionText nanosecond ++ rest) = some (nanosecond, rest) := by
  unfold fractionText
  split_ifs with hzero hmilli hmicro
  · cases rest with
    | nil => rw [hzero]; rfl
    | cons c rest =>
      rw [List.nil_append, readFraction, hzero]
      rintro _ ⟨⟩
      exact hpoint '.' rfl rfl
  · rw [readFraction_padded hrest (by decide) (by decide) (by omega)]
    congr 2
    omega
  · rw [readFraction_padded hrest (by decide) (by decide) (by omega)]
    congr 2
    omega
  · rw [readFraction_padded hrest (by decide) (by decide) h]
    congr 2
    omega

end Parts

theorem earlier_zero {t : Timestamp} (hhour : t.hour < 24) (hminute : t.minute < 60) :
    t.earlier 0 = t := by
  have hlower : ¬ 60 * (t.hour : ℤ) + t.minute - 0 < 0 := by omega
  have hupper : ¬ (1440 : ℤ) ≤ 60 * (t.hour : ℤ) + t.minute - 0 := by omega
  have hnat : (60 * (t.hour : ℤ) + t.minute - 0).toNat = 60 * t.hour + t.minute := by omega
  rw [earlier]
  simp only [if_neg hlower, if_neg hupper, hnat]
  have hh : (60 * t.hour + t.minute) / 60 = t.hour := by omega
  have hm : (60 * t.hour + t.minute) % 60 = t.minute := by omega
  rw [hh, hm]

theorem readNumber_two {n : ℕ} (hn : n < 100) (rest : List Char) :
    readNumber 2 (padded 2 n ++ rest) = some (n, rest) :=
  readNumber_padded (by decide) hn rest

theorem readDate_text {d : Date} (hd : d.isValid = true) (rest : List Char) :
    readDate (yearText d.year ++ '-' :: (padded 2 d.month ++ '-' :: (padded 2 d.day ++ rest))) =
      some (d, rest) := by
  have hdays : Date.daysIn d.year d.month ≤ 31 := by
    unfold Date.daysIn
    split_ifs <;> decide
  simp only [Date.isValid, Bool.and_eq_true, decide_eq_true_eq] at hd
  have hmonth : d.month < 100 := by omega
  have hday : d.day < 100 := by omega
  have hmark : ∀ cs, readMark '-' ('-' :: cs) = some cs := readMark_cons (by decide)
  rw [readDate, readYear_yearText (endsDigits_cons (by decide) _)]
  simp only [Option.bind_eq_bind, Option.bind_some, hmark, readNumber_two hmonth,
    readNumber_two hday]
  rfl

/-- **The text of an instant is read as the instant.** -/
theorem ofText?_text {t : Timestamp} (ht : t.IsValid) : ofText? t.text = some t := by
  obtain ⟨hdate, hhour, hminute, hsecond, hnanosecond⟩ := ht
  have hcolon : ∀ cs, readMark ':' (':' :: cs) = some cs := readMark_cons (by decide)
  have hpoint : ∀ c ∈ ['Z'].head?, c ≠ '.' := by
    rintro _ ⟨⟩
    decide
  have hfraction : readFraction (fractionText t.nanosecond ++ ['Z']) =
      some (t.nanosecond, ['Z']) :=
    readFraction_fractionText (endsDigits_cons (by decide) []) hnanosecond hpoint
  simp only [text, List.append_assoc, List.cons_append]
  rw [ofText?, readDate_text hdate]
  simp only [Option.bind_eq_bind, Option.bind_some, hcolon, hfraction,
    readNumber_two (show t.hour < 100 by omega), readNumber_two (show t.minute < 100 by omega),
    readNumber_two (show t.second < 100 by omega)]
  have hzone : readOffset (trimStart ['Z']) = some (0, []) := by decide
  rw [if_pos (by decide), hzone]
  simp only [Option.bind_some, earlier_zero hhour hminute]
  rw [if_pos]
  simp [hdate, hhour, hminute, hsecond, trimStart]

end Timestamp

end TaskTimer
