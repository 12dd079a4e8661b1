import Mathlib.Data.Nat.Digits.Defs
import TaskTimer.Proofs.Text.Words
import TaskTimer.Text.Basic

/-!
# Digits

* `isDigit_of_isBlank`: no digit is blank.
* `EndsDigits`: a text that does not continue a run of digits.
* `readDecimal_zeros`: zeros in front of a number do not change it.
* `length_showDecimal_le`: a number below a power of ten has no more digits than that.
-/

namespace TaskTimer

theorem isBlank_toNat {b : Char} (hb : isBlank b = true) : b.toNat < 0x30 ∨ 0x7F < b.toNat := by
  simp only [isBlank, Bool.or_eq_true, Bool.and_eq_true, decide_eq_true_eq, beq_iff_eq] at hb
  omega

theorem isDigit_of_isBlank (b : Char) (hb : isBlank b = true) : b.isDigit = false := by
  have hb := isBlank_toNat hb
  rw [Bool.eq_false_iff, ne_eq, Char.isDigit_iff_toNat]
  rintro ⟨h0, h9⟩
  change 48 ≤ b.toNat at h0
  change b.toNat ≤ 57 at h9
  omega

theorem isBlank_of_isDigit {c : Char} (hc : c.isDigit = true) : isBlank c = false := by
  rw [Bool.eq_false_iff]
  intro hblank
  rw [isDigit_of_isBlank c hblank] at hc
  cases hc

theorem ne_of_isDigit {c d : Char} (hc : c.isDigit = true) (hd : d.isDigit = false) : c ≠ d := by
  rintro rfl
  rw [hd] at hc
  cases hc

/-! ## Runs -/

/-- The text is empty or does not start with a digit: a run of digits in front of it ends there. -/
def EndsDigits (r : List Char) : Prop := ∀ c ∈ r.head?, c.isDigit = false

theorem endsDigits_nil : EndsDigits [] := fun _ hc => nomatch hc

theorem endsDigits_cons {c : Char} (hc : c.isDigit = false) (r : List Char) :
    EndsDigits (c :: r) := by
  intro d hd
  rwa [← Option.mem_some_iff.1 hd]

theorem isDigit_of_mem_takeWhile {cs : List Char} :
    ∀ c ∈ cs.takeWhile Char.isDigit, c.isDigit = true :=
  fun _ hc => List.mem_takeWhile_imp hc

theorem endsDigits_dropWhile (cs : List Char) : EndsDigits (cs.dropWhile Char.isDigit) := by
  intro c hc
  have h := List.head?_dropWhile_not Char.isDigit cs
  rw [Option.mem_def.1 hc] at h
  simpa using h

/-! ## Numbers -/

theorem readDecimal_zeros (k : ℕ) (digits : List Char) :
    readDecimal (List.replicate k '0' ++ digits) = readDecimal digits := by
  induction k with
  | zero => rfl
  | succ k ih =>
    rw [← ih, List.replicate_succ, List.cons_append]
    rfl

theorem isDigit_of_mem_showDecimal {n : ℕ} : ∀ c ∈ showDecimal n, c.isDigit = true :=
  fun _ hc => Nat.isDigit_of_mem_toDigits (by decide) (by decide) hc

theorem showDecimal_ne_nil (n : ℕ) : showDecimal n ≠ [] := Nat.toDigits_ne_nil

theorem length_showDecimal_le {n width : ℕ} (hwidth : 0 < width) (hn : n < 10 ^ width) :
    (showDecimal n).length ≤ width :=
  Nat.toDigits_length 10 n width hwidth hn

end TaskTimer
