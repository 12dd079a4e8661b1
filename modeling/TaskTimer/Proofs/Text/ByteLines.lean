import TaskTimer.Proofs.Text.Bytes
import TaskTimer.Proofs.Text.Lines

/-!
# The lines of a text in bytes

A text may be cut into lines before it is decoded or afterwards. The lines are the same, but bytes
that are no text have texts among their lines.

* `Utf8.isText`, `Utf8.isText_append`, `Utf8.isText_take_encode`: bytes that hold a text.
* `Utf8.mem_encode_iff`: line feeds and carriage returns are bytes of their own.
* `WritesLines.encode`, **`byteLines_encode`**: the lines of an encoded text.
* **`all_isText_byteLines`**: bytes are a text exactly when every line is one.
-/

namespace TaskTimer

namespace Utf8

/-- The bytes hold a text. -/
def isText (bytes : List UInt8) : Bool := (decode? bytes).isSome

theorem isText_iff {bytes : List UInt8} : isText bytes = true ↔ ∃ text, bytes = encode text := by
  rw [isText, Option.isSome_iff_exists]
  exact exists_congr fun text => decode?_eq_some_iff

theorem isText_encode (text : List Char) : isText (encode text) = true := isText_iff.2 ⟨text, rfl⟩

theorem isText_append {a b : List UInt8} (ha : isText a = true) (hb : isText b = true) :
    isText (a ++ b) = true := by
  obtain ⟨x, rfl⟩ := isText_iff.1 ha
  obtain ⟨y, rfl⟩ := isText_iff.1 hb
  rw [← encode_append]
  exact isText_encode _

theorem isText_take_encode (text : List Char) (cut : ℕ) :
    isText ((encode text).take cut) = !splits text cut := by
  have hcut := decode?_take_encode text cut
  cases hsplits : splits text cut with
  | true =>
    rw [isText, hcut.2 hsplits]
    rfl
  | false =>
    rw [Bool.not_false, isText, Option.isSome_iff_ne_none, ne_eq, hcut, hsplits]
    exact Bool.false_ne_true

/-- **A character below 128 is a byte of its own.** -/
theorem mem_encode_iff {c : Char} (hc : c.toNat < 0x80) {text : List Char} :
    UInt8.ofNat c.toNat ∈ encode text ↔ c ∈ text := by
  have hbyte : (UInt8.ofNat c.toNat).toNat = c.toNat := by
    rw [UInt8.toNat_ofNat', Nat.mod_eq_of_lt (by omega)]
  constructor
  · intro hmem
    obtain ⟨d, hd, heq⟩ := mem_encode_ascii hmem (by rwa [hbyte])
    rw [hbyte, Char.toNat_inj] at heq
    rwa [← heq]
  · intro hmem
    obtain ⟨a, b, rfl⟩ := List.append_of_mem hmem
    rw [← List.singleton_append, encode_append, encode_append, encode_singleton_of_lt hc]
    simp

theorem encode_injective : Function.Injective encode := fun a b h => by
  have := congrArg decode? h
  rwa [decode?_encode, decode?_encode, Option.some_inj] at this

theorem encode_ne_nil {text : List Char} (h : text ≠ []) : encode text ≠ [] := by
  rw [← encode_nil]
  exact encode_injective.ne h

theorem getLast?_of_encode {c : Char} (hc : c.toNat < 0x80) {text : List Char}
    (h : (encode text).getLast? = some (UInt8.ofNat c.toNat)) : text.getLast? = some c := by
  rcases List.eq_nil_or_concat' text with rfl | ⟨text, d, rfl⟩
  · rw [encode_nil] at h
    cases h
  · have hne : encode [d] ≠ [] := encode_ne_nil (List.cons_ne_nil d [])
    rw [encode_append, List.getLast?_append_of_ne_nil _ hne] at h
    have hmem := (mem_encode_iff hc).1 (List.mem_of_getLast? h)
    rw [List.getLast?_concat, List.mem_singleton.1 hmem]

theorem encode_append_feed (line text : List Char) :
    encode (line ++ '\n' :: text) = encode line ++ 0x0A :: encode text := by
  rw [Utf8.encode_append, Utf8.encode_cons]
  rfl

theorem encode_append_returnFeed (line text : List Char) :
    encode (line ++ '\r' :: '\n' :: text) = encode line ++ 0x0D :: 0x0A :: encode text := by
  rw [Utf8.encode_append, Utf8.encode_cons, Utf8.encode_cons]
  rfl

end Utf8

/-! ## Lines -/

open Utf8 (encode decode? isText)

/-- **The bytes of a text are written with the bytes of its lines.** -/
theorem WritesLines.encode {ls : List (List Char)} {text : List Char}
    (h : WritesLines '\n' '\r' ls text) :
    WritesLines 0x0A 0x0D (ls.map Utf8.encode) (Utf8.encode text) := by
  have hfeed {line : List Char} (hline : '\n' ∉ line) : 0x0A ∉ Utf8.encode line :=
    mt (Utf8.mem_encode_iff (c := '\n') (by decide)).1 hline
  induction h with
  | nil => exact Utf8.encode_nil ▸ .nil
  | unended hline hne => exact .unended (hfeed hline) (Utf8.encode_ne_nil hne)
  | feed hline hreturn rest ih =>
    rw [Utf8.encode_append_feed]
    exact .feed (hfeed hline) (mt (Utf8.getLast?_of_encode (c := '\r') (by decide)) hreturn) ih
  | returnFeed hline rest ih =>
    rw [Utf8.encode_append_returnFeed]
    exact .returnFeed (hfeed hline) ih

theorem byteLines_eq_iff {ls : List (List UInt8)} {bytes : List UInt8} :
    byteLines bytes = ls ↔ WritesLines 0x0A 0x0D ls bytes := lines_eq_iff (by decide)

theorem byteLines_encode (text : List Char) :
    byteLines (encode text) = (textLines text).map encode :=
  byteLines_eq_iff.2 (writesLines_lines text).encode

theorem filterMap_byteLines_encode {α : Type} (read : List Char → Option α) (text : List Char) :
    (byteLines (encode text)).filterMap (fun l => (decode? l).bind read) =
      (textLines text).filterMap read := by
  rw [byteLines_encode, List.filterMap_map]
  congr 1
  funext line
  rw [Function.comp_apply, Utf8.decode?_encode, Option.bind_some]

theorem WritesLines.isText {ls : List (List UInt8)} {bytes : List UInt8}
    (h : WritesLines 0x0A 0x0D ls bytes) (texts : ∀ l ∈ ls, Utf8.isText l = true) :
    Utf8.isText bytes = true := by
  induction h with
  | nil => exact Utf8.isText_encode []
  | unended => exact texts _ List.mem_cons_self
  | feed hline hreturn rest ih =>
    rw [List.forall_mem_cons] at texts
    exact Utf8.isText_append texts.1 (Utf8.isText_append (Utf8.isText_encode ['\n']) (ih texts.2))
  | returnFeed hline rest ih =>
    rw [List.forall_mem_cons] at texts
    exact Utf8.isText_append texts.1
      (Utf8.isText_append (Utf8.isText_encode ['\r', '\n']) (ih texts.2))

/-- **Bytes are a text exactly when every line of theirs is one.** -/
theorem all_isText_byteLines (bytes : List UInt8) :
    (byteLines bytes).all isText = isText bytes := by
  rw [Bool.eq_iff_iff, List.all_eq_true]
  constructor
  · exact (byteLines_eq_iff.1 rfl).isText
  · intro h l hl
    obtain ⟨text, rfl⟩ := Utf8.isText_iff.1 h
    rw [byteLines_encode, List.mem_map] at hl
    obtain ⟨line, -, rfl⟩ := hl
    exact Utf8.isText_encode line

end TaskTimer
