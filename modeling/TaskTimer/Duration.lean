import TaskTimer.Text.Basic

/-!
# Durations

A duration is a whole number of seconds that fits 64 bits. Sums and products stop at the longest
duration instead of wrapping around.

* `Duration.add`, `Duration.repeated`: the sum of two durations, and a duration taken many times.
* `Duration.total`: the sum of a list.
* `Duration.clock`: the display form, `M:SS` and from one hour up `H:MM:SS`.
-/

namespace TaskTimer

/-- A whole number of seconds. -/
abbrev Duration := UInt64

namespace Duration

/-- The longest duration, in seconds. -/
def longest : Nat := UInt64.size - 1

/-- The duration of `n` seconds, or the longest one. -/
def ofNat (n : Nat) : Duration := UInt64.ofNat (min n longest)

/-- The sum, or the longest duration. -/
def add (a b : Duration) : Duration := ofNat (a.toNat + b.toNat)

/-- A duration taken `n` times, or the longest duration. -/
def repeated (a : Duration) (n : Nat) : Duration := ofNat (a.toNat * n)

/-- The sum of a list, or the longest duration. -/
def total (ds : List Duration) : Duration := ds.foldl add 0

/-- One second less, but not less than none. -/
def pred (d : Duration) : Duration := if d = 0 then 0 else d - 1

/-- The display form: minutes and seconds, with the hours in front if there are any. -/
def clock (d : Duration) : List Char :=
  let n := d.toNat
  let (h, m, s) := (n / 3600, n % 3600 / 60, n % 60)
  if h = 0 then showDecimal m ++ ':' :: twoDigits s
  else showDecimal h ++ ':' :: twoDigits m ++ ':' :: twoDigits s

/-! ## The value of a saturating operation -/

theorem toNat_ofNat (n : Nat) : (ofNat n).toNat = min n longest := by
  have : min n longest < UInt64.size := by simp only [longest, UInt64.size]; omega
  simp only [ofNat, UInt64.toNat_ofNat']
  exact Nat.mod_eq_of_lt this

theorem toNat_add (a b : Duration) : (add a b).toNat = min (a.toNat + b.toNat) longest :=
  toNat_ofNat _

theorem toNat_pred (d : Duration) : (pred d).toNat = d.toNat - 1 := by
  by_cases h : d = 0
  · rw [pred, if_pos h, h]
    rfl
  · have hd : d.toNat ≠ 0 := fun h0 => h (UInt64.toNat_inj.1 h0)
    have hle : (1 : UInt64) ≤ d := UInt64.le_iff_toNat_le.2 (Nat.one_le_iff_ne_zero.2 hd)
    rw [pred, if_neg h, UInt64.toNat_sub_of_le _ _ hle]
    rfl

theorem pred_eq_ofNat (d : Duration) : pred d = ofNat (d.toNat - 1) := by
  have hlt := UInt64.toNat_lt d
  refine UInt64.toNat_inj.1 ?_
  rw [toNat_pred, toNat_ofNat, longest, UInt64.size]
  omega

theorem toNat_repeated (a : Duration) (n : Nat) :
    (repeated a n).toNat = min (a.toNat * n) longest :=
  toNat_ofNat _

end Duration

end TaskTimer
