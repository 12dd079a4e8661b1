import Mathlib.Data.List.Basic
import TaskTimer.Text.Basic

/-!
# Texts as bytes

* `encode_append`, `decode?_eq_some_iff`, `decode?_encode_append`: the bytes of a text and the text
  of bytes, part by part.
* `mem_encode_ascii`: a byte below 128 is a character of its own.
* `splits`, **`decode?_take_encode`**: a text that is cut after some of its bytes is a text again
  unless the cut lies inside a character.
-/

namespace TaskTimer

namespace Utf8

/-! ## Encoding and decoding -/

theorem encode_eq_flatMap (text : List Char) : encode text = text.flatMap String.utf8EncodeChar := by
  simp [encode, String.toUTF8_eq_toByteArray, List.utf8Encode]

theorem encode_nil : encode [] = [] := encode_eq_flatMap []

theorem encode_cons (c : Char) (text : List Char) :
    encode (c :: text) = String.utf8EncodeChar c ++ encode text := by
  rw [encode_eq_flatMap, encode_eq_flatMap, List.flatMap_cons]

theorem encode_append (a b : List Char) : encode (a ++ b) = encode a ++ encode b := by
  rw [encode_eq_flatMap, encode_eq_flatMap, encode_eq_flatMap, List.flatMap_append]

/-- **The bytes hold a text exactly when they are its encoding.** -/
theorem decode?_eq_some_iff {bytes : List UInt8} {text : List Char} :
    decode? bytes = some text ↔ bytes = encode text := by
  constructor
  · intro h
    obtain ⟨chars, hchars, rfl⟩ := Option.map_eq_some_iff.1 h
    have hbytes : (ByteArray.mk bytes.toArray) = chars.toList.utf8Encode := by
      have := ByteArray.utf8Encode_get_utf8Decode? (h := Option.isSome_of_eq_some hchars)
      simpa only [hchars, Option.get_some] using this.symm
    rw [encode, String.toUTF8_eq_toByteArray, String.toByteArray_ofList, ← hbytes]
  · rintro rfl
    exact decode?_encode text

theorem prefix_of_encode {p text : List Char} (h : encode p <+: encode text) :
    p <+: text := by
  obtain ⟨rest, h⟩ := h
  refine List.isPrefix_of_utf8Encode_append_eq_utf8Encode ⟨rest.toArray⟩ ?_
  rw [encode_eq_flatMap, encode_eq_flatMap] at h
  apply ByteArray.ext
  simp [List.utf8Encode, ← h]

theorem decode?_encode_append (a : List Char) (bytes : List UInt8) :
    decode? (encode a ++ bytes) = (decode? bytes).map (a ++ ·) := by
  ext text
  rw [decode?_eq_some_iff, Option.map_eq_some_iff]
  constructor
  · intro h
    obtain ⟨b, rfl⟩ := prefix_of_encode ⟨bytes, h⟩
    rw [encode_append, List.append_cancel_left_eq] at h
    exact ⟨b, decode?_eq_some_iff.2 h, rfl⟩
  · rintro ⟨b, hb, rfl⟩
    rw [decode?_eq_some_iff.1 hb, encode_append]

/-! ## Characters of one byte -/

theorem encode_singleton_of_lt {c : Char} (h : c.toNat < 0x80) :
    encode [c] = [UInt8.ofNat c.toNat] := by
  have hsize : c.utf8Size = 1 := by
    rw [Char.utf8Size_eq_one_iff, UInt32.le_iff_toNat_le]
    exact Nat.le_of_lt_succ h
  rw [encode_cons, encode_nil, List.append_nil, String.utf8EncodeChar_eq_singleton hsize]
  rfl

theorem le_of_mem_utf8EncodeChar {c : Char} {b : UInt8} (hb : b ∈ String.utf8EncodeChar c)
    (hc : 0x80 ≤ c.toNat) : 0x80 ≤ b.toNat := by
  have hlong : ¬ c.val.toNat ≤ 0x7f := Nat.not_le.2 hc
  simp only [String.utf8EncodeChar, if_neg hlong] at hb
  -- two, three or four bytes, each a few bits of the character and a mark above them
  split at hb
  · simp only [List.mem_cons, List.not_mem_nil, or_false] at hb
    rcases hb with rfl | rfl <;> rw [UInt8.toNat_ofNat'] <;> omega
  · split at hb <;> simp only [List.mem_cons, List.not_mem_nil, or_false] at hb
    · rcases hb with rfl | rfl | rfl <;> rw [UInt8.toNat_ofNat'] <;> omega
    · rcases hb with rfl | rfl | rfl | rfl <;> rw [UInt8.toNat_ofNat'] <;> omega

/-- **A byte below 128 is a character of the text.** -/
theorem mem_encode_ascii {text : List Char} {b : UInt8} (hb : b ∈ encode text)
    (hlt : b.toNat < 0x80) : ∃ c ∈ text, c.toNat = b.toNat := by
  rw [encode_eq_flatMap, List.mem_flatMap] at hb
  obtain ⟨c, hc, hb⟩ := hb
  refine ⟨c, hc, ?_⟩
  by_cases hsmall : c.toNat < 0x80
  · have := encode_singleton_of_lt hsmall
    rw [encode_cons, encode_nil, List.append_nil] at this
    rw [this, List.mem_singleton] at hb
    rw [hb, UInt8.toNat_ofNat', Nat.mod_eq_of_lt (by omega)]
  · exact absurd (le_of_mem_utf8EncodeChar hb (Nat.le_of_not_lt hsmall)) (Nat.not_le.2 hlt)

/-! ## Texts that are cut -/

/-- The first `cut` bytes of the text end inside a character. -/
def splits : List Char → (cut : ℕ) → Bool
  | [], _ => false
  | c :: text, cut => if cut < c.utf8Size then cut != 0 else splits text (cut - c.utf8Size)

theorem decode?_take_utf8EncodeChar {c : Char} {cut : ℕ} (hpos : cut ≠ 0) (hcut : cut < c.utf8Size) :
    decode? ((String.utf8EncodeChar c).take cut) = none := by
  rw [Option.eq_none_iff_forall_ne_some]
  intro p hp
  have hbytes : (String.utf8EncodeChar c).take cut = encode p := decode?_eq_some_iff.1 hp
  have hlength : (encode p).length = cut := by
    rw [← hbytes, List.length_take, String.length_utf8EncodeChar, Nat.min_eq_left (Nat.le_of_lt hcut)]
  have hchar : encode [c] = String.utf8EncodeChar c := by rw [encode_cons, encode_nil, List.append_nil]
  have hprefix : p <+: [c] := by
    apply prefix_of_encode
    rw [← hbytes, hchar]
    exact List.take_prefix cut _
  rcases List.prefix_cons_iff.1 hprefix with rfl | ⟨t, rfl, ht⟩
  · exact hpos hlength.symm
  · rw [List.prefix_nil.1 ht, hchar, String.length_utf8EncodeChar] at hlength
    exact absurd hcut (by omega)

/-- **A text that is cut is a text again unless the cut lies inside a character.** -/
theorem decode?_take_encode (text : List Char) (cut : ℕ) :
    decode? ((encode text).take cut) = none ↔ splits text cut = true := by
  induction text generalizing cut with
  | nil =>
    rw [encode_nil, List.take_nil, splits, ← encode_nil, decode?_encode]
    decide
  | cons c text ih =>
    rw [encode_cons, splits]
    by_cases hcut : cut < c.utf8Size
    · rw [if_pos hcut, List.take_append_of_le_length (by rw [String.length_utf8EncodeChar]; omega)]
      by_cases hpos : cut = 0
      · rw [hpos, List.take_zero, ← encode_nil, decode?_encode]
        decide
      · simp only [decode?_take_utf8EncodeChar hpos hcut, bne_iff_ne, ne_eq, hpos, not_false_eq_true]
    · obtain ⟨more, rfl⟩ := Nat.exists_eq_add_of_le (Nat.le_of_not_lt hcut)
      have htake : (String.utf8EncodeChar c ++ encode text).take (c.utf8Size + more) =
          encode [c] ++ (encode text).take more := by
        rw [encode_cons, encode_nil, List.append_nil, ← String.length_utf8EncodeChar,
          List.take_length_add_append]
      rw [if_neg hcut, htake, decode?_encode_append, Option.map_eq_none_iff, ih,
        Nat.add_sub_cancel_left]

example : splits ['ä', 'b'] 1 = true ∧ splits ['ä', 'b'] 2 = false := by decide

theorem splits_append (a b : List Char) (cut : ℕ) :
    splits (a ++ b) ((encode a).length + cut) = splits b cut := by
  induction a with
  | nil => simp [encode_nil]
  | cons c a ih =>
    rw [List.cons_append, splits, encode_cons, List.length_append, String.length_utf8EncodeChar,
      if_neg (by omega), Nat.add_assoc, Nat.add_sub_cancel_left, ih]

/-- Whether a cut lies inside a character does not depend on what follows the cut. -/
theorem splits_append_left {a b : List Char} {cut : ℕ} (hcut : cut ≤ (encode a).length) :
    splits (a ++ b) cut = splits a cut := by
  rw [Bool.eq_iff_iff, ← decode?_take_encode, ← decode?_take_encode, encode_append,
    List.take_append_of_le_length hcut]

end Utf8

end TaskTimer
