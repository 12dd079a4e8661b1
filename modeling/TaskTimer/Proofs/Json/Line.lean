import TaskTimer.Proofs.Json.Behind
import TaskTimer.Proofs.Text.ByteLines

/-!
# Values on lines of bytes

* `Json.ofBytes?`: the value of a line.
* `Json.ofBytes?_compact`, **`Json.ofBytes?_take`**: a value that was written, and one that is cut
  off after some of its bytes. `Json.byteLines_compact`: its line.
* `Json.Missing`, **`Json.ofBytes?_eq_none_iff`**: lines without a value.
* `Json.decoded?`: what a decoder makes of the value of a line.
-/

namespace TaskTimer

namespace Json

open Utf8 (encode decode? isText)

/-- The value of a line of bytes. -/
def ofBytes? (line : List UInt8) : Option Json := (decode? line).bind read

theorem ofBytes?_encode (text : List Char) : ofBytes? (encode text) = read text := by
  rw [ofBytes?, Utf8.decode?_encode, Option.bind_some]

theorem ofBytes?_compact {v : Json} (hv : v.IsPlain) : ofBytes? (encode v.compact) = some v := by
  rw [ofBytes?_encode, read_compact hv]

/-- **A value that is cut off is not read.** Only the start of a number may be another number. -/
theorem ofBytes?_take {v : Json} (hv : v.IsPlain) (hnumber : ∀ n, v ≠ .num n) {cut : ℕ}
    (hcut : cut < (encode v.compact).length) : ofBytes? ((encode v.compact).take cut) = none := by
  cases hdecode : decode? ((encode v.compact).take cut) with
  | none => rw [ofBytes?, hdecode, Option.bind_none]
  | some p =>
    have hbytes : (encode v.compact).take cut = encode p := Utf8.decode?_eq_some_iff.1 hdecode
    have hp : p <+: v.compact := Utf8.prefix_of_encode (hbytes ▸ List.take_prefix cut _)
    have hne : p ≠ v.compact := by
      rintro rfl
      have hlength := congrArg List.length hbytes
      rw [List.length_take_of_le (Nat.le_of_lt hcut)] at hlength
      omega
    rw [hbytes, ofBytes?_encode, read_torn_compact hv hnumber hp hne]

theorem not_mem_encode_compact {v : Json} (hv : v.IsPlain) {c : Char} (hc : c.toNat < 0x20) :
    UInt8.ofNat c.toNat ∉ encode v.compact := by
  rw [Utf8.mem_encode_iff (by omega)]
  exact fun hmem => absurd (space_le_of_mem_compact hv hmem) (Nat.not_le.2 hc)

theorem byteLines_compact {v : Json} (hv : v.IsPlain) (bytes : List UInt8) :
    byteLines (encode (v.compact ++ ['\n']) ++ bytes) = encode v.compact :: byteLines bytes := by
  have hfeed : 0x0A ∉ encode v.compact := not_mem_encode_compact hv (c := '\n') (by decide)
  have hreturn : 0x0D ∉ encode v.compact := not_mem_encode_compact hv (c := '\r') (by decide)
  rw [Utf8.encode_append, List.append_assoc]
  change byteLines (encode v.compact ++ 0x0A :: bytes) = _
  rw [byteLines, lines_append hfeed, dropReturn_of_not_mem hreturn, ← byteLines]

/-- Lines without a value. -/
inductive Missing : List UInt8 → Prop
  /-- The bytes are no text. -/
  | garbled {line : List UInt8} (h : isText line = false) : Missing line
  /-- The line is blank. -/
  | blank {text : List Char} (h : text.all isBlank = true) : Missing (encode text)
  /-- The line is the start of a value that was written. -/
  | torn {v : Json} {cut : ℕ} (hv : v.IsPlain) (hnumber : ∀ n, v ≠ .num n)
      (hcut : cut < (encode v.compact).length) : Missing ((encode v.compact).take cut)
  /-- The text is malformed in another way. -/
  | malformed {text : List Char} (h : read text = none) : Missing (encode text)

/-- **There is no value exactly on these lines.** -/
theorem ofBytes?_eq_none_iff {line : List UInt8} : ofBytes? line = none ↔ Missing line := by
  constructor
  · intro h
    cases hdecode : decode? line with
    | none => exact .garbled (by rw [isText, hdecode, Option.isSome_none])
    | some text =>
      rw [Utf8.decode?_eq_some_iff.1 hdecode] at h ⊢
      exact .malformed (by rwa [ofBytes?_encode] at h)
  · intro h
    cases h with
    | garbled h =>
      rw [isText, Option.isSome_eq_false_iff, Option.isNone_iff_eq_none] at h
      rw [ofBytes?, h, Option.bind_none]
    | blank h => rw [ofBytes?_encode, read_blank h]
    | torn hv hnumber hcut => exact ofBytes?_take hv hnumber hcut
    | malformed h => rw [ofBytes?_encode, h]

/-! ## What is decoded from a line -/

section Decoded

variable {α : Type} (decode : Json → Option α)

/-- What a decoder makes of the value of a line. -/
def decoded? (line : List UInt8) : Option α := (ofBytes? line).bind decode

theorem decoded?_eq (line : List UInt8) :
    decoded? decode line = (decode? line).bind fun text => (read text).bind decode :=
  Option.bind_assoc _ _ _

theorem decoded?_compact {v : Json} (hv : v.IsPlain) :
    decoded? decode (encode v.compact) = decode v := by
  rw [decoded?, ofBytes?_compact hv, Option.bind_some]

theorem decoded?_missing {line : List UInt8} (h : Missing line) : decoded? decode line = none := by
  rw [decoded?, ofBytes?_eq_none_iff.2 h, Option.bind_none]

end Decoded

end Json

end TaskTimer
