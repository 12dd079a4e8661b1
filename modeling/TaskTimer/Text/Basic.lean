/-!
# Texts

Texts are lists of characters. They are trimmed, cut into words and lines, and travel and rest as
bytes. The characters that separate words are those with the Unicode property `White_Space`. Numbers
are written in the ten ASCII digits, the test `Char.isDigit`; a task line may also open with a digit
of another script, so the whole class is needed too.

* `isBlank`: the blank characters. `trimStart`, `trimEnd`, `trim`: a text without those at its ends.
* `words`: the maximal runs of other characters. `squeeze`: the words, with one space in between.
* `textLines`, `byteLines`: lines of characters and lines of bytes, without their endings.
* `Utf8.encode`, `Utf8.decode?`: a text as bytes, and the text that bytes hold, if they hold one.
* `isDecimalDigit`: a character of the Unicode category `Nd`.
* `readDecimal`, `showDecimal`: the number that ASCII digits write, and the digits of a number.
-/

namespace TaskTimer

/-! ## Blanks -/

/-- A character with the Unicode property `White_Space`. -/
def isBlank (c : Char) : Bool :=
  let n := c.toNat
  (0x09 ≤ n && n ≤ 0x0D) || n == 0x20 || n == 0x85 || n == 0xA0 || n == 0x1680 ||
    (0x2000 ≤ n && n ≤ 0x200A) || n == 0x2028 || n == 0x2029 || n == 0x202F ||
    n == 0x205F || n == 0x3000

/-! ## Trimming -/

/-- The text from its first character that is not blank. -/
def trimStart (cs : List Char) : List Char := cs.dropWhile isBlank

/-- The text up to its last character that is not blank. -/
def trimEnd (cs : List Char) : List Char := (cs.reverse.dropWhile isBlank).reverse

/-- The text without the blanks at both ends. -/
def trim (cs : List Char) : List Char := trimEnd (trimStart cs)

/-! ## Words -/

theorem length_dropWhile_le {α : Type} (p : α → Bool) (l : List α) :
    (l.dropWhile p).length ≤ l.length :=
  (List.dropWhile_sublist p).length_le

/-- The maximal runs of characters that are not blank, in order. -/
def words : List Char → List (List Char)
  | [] => []
  | c :: cs =>
    if isBlank c then words cs
    else (c :: cs.takeWhile (!isBlank ·)) :: words (cs.dropWhile (!isBlank ·))
termination_by cs => cs.length
decreasing_by
  · simp
  · have := length_dropWhile_le (!isBlank ·) cs
    simp only [List.length_cons]
    omega

/-- The words of a text with one space between neighbours. -/
def squeeze (cs : List Char) : List Char := [' '].intercalate (words cs)

/-! ## Lines

A line ends at a line feed or at the end of the text. A carriage return right before the line feed
belongs to the ending; any other carriage return belongs to the line. -/

/-- The line without a carriage return at its end. -/
def dropReturn {α : Type} [BEq α] (cr : α) (line : List α) : List α :=
  if line.getLast? == some cr then line.dropLast else line

/-- The lines of a text whose line feed is `lf` and whose carriage return is `cr`. A text that ends
with a line feed has no further, empty line. -/
def lines {α : Type} [BEq α] (lf cr : α) (text : List α) : List (List α) :=
  match h : text.dropWhile (· != lf) with
  | [] => if text.isEmpty then [] else [text]
  | _ :: rest =>
    have : rest.length < text.length := by
      have := length_dropWhile_le (· != lf) text
      rw [h] at this
      exact this
    dropReturn cr (text.takeWhile (· != lf)) :: lines lf cr rest
termination_by text.length

/-- The lines of a text. -/
def textLines (text : List Char) : List (List Char) := lines '\n' '\r' text

/-- The lines of a stream of bytes. -/
def byteLines (bytes : List UInt8) : List (List UInt8) := lines 0x0A 0x0D bytes

/-! ## Bytes -/

namespace Utf8

/-- The bytes of a text. -/
def encode (text : List Char) : List UInt8 := (String.ofList text).toUTF8.data.toList

/-- The text that the bytes hold, if they are well-formed. -/
def decode? (bytes : List UInt8) : Option (List Char) :=
  (ByteArray.mk bytes.toArray).utf8Decode?.map Array.toList

/-- The length of a text in bytes. -/
def byteLength (text : List Char) : Nat := text.foldr (fun c n => c.utf8Size + n) 0

theorem decode?_encode (text : List Char) : decode? (encode text) = some text := by
  have : (ByteArray.mk (encode text).toArray) = text.utf8Encode := by
    simp [encode, String.toUTF8_eq_toByteArray]
  simp [decode?, this, List.utf8Decode?_utf8Encode]

end Utf8

/-! ## Digits -/

/-- The zero digits of the scripts that write decimal numbers; the digits one to nine follow each. -/
def zeroDigits : List Nat :=
  [0x30, 0x660, 0x6F0, 0x7C0, 0x966, 0x9E6, 0xA66, 0xAE6, 0xB66, 0xBE6, 0xC66, 0xCE6, 0xD66, 0xDE6,
    0xE50, 0xED0, 0xF20, 0x1040, 0x1090, 0x17E0, 0x1810, 0x1946, 0x19D0, 0x1A80, 0x1A90, 0x1B50,
    0x1BB0, 0x1C40, 0x1C50, 0xA620, 0xA8D0, 0xA900, 0xA9D0, 0xA9F0, 0xAA50, 0xABF0, 0xFF10,
    0x104A0, 0x10D30, 0x10D40, 0x11066, 0x110F0, 0x11136, 0x111D0, 0x112F0, 0x11450, 0x114D0,
    0x11650, 0x116C0, 0x116D0, 0x116DA, 0x11730, 0x118E0, 0x11950, 0x11BF0, 0x11C50, 0x11D50,
    0x11DA0, 0x11F50, 0x16130, 0x16A60, 0x16AC0, 0x16B50, 0x16D70, 0x1CCF0, 0x1D7CE, 0x1D7D8,
    0x1D7E2, 0x1D7EC, 0x1D7F6, 0x1E140, 0x1E2F0, 0x1E4F0, 0x1E5F1, 0x1E950, 0x1FBF0]

/-- A character of the Unicode category `Nd`, a decimal digit of any script. -/
def isDecimalDigit (c : Char) : Bool :=
  zeroDigits.any fun z => z ≤ c.toNat && c.toNat < z + 10

/-- The number that a list of ASCII digits writes, most significant digit first. -/
def readDecimal (digits : List Char) : Nat := Nat.ofDigitChars 10 digits 0

/-- The digits of a number, most significant first, without leading zeros. -/
def showDecimal (n : Nat) : List Char := Nat.toDigits 10 n

/-- The value of a hexadecimal digit. -/
def hexValue? (c : Char) : Option Nat :=
  if '0' ≤ c && c ≤ '9' then some (c.toNat - 48)
  else if 'a' ≤ c && c ≤ 'f' then some (c.toNat - 87)
  else if 'A' ≤ c && c ≤ 'F' then some (c.toNat - 55)
  else none

/-- The digits of a number with a zero in front of a single one. -/
def twoDigits (n : Nat) : List Char := if n < 10 then '0' :: showDecimal n else showDecimal n

theorem readDecimal_showDecimal (n : Nat) : readDecimal (showDecimal n) = n :=
  Nat.ofDigitChars_toDigits (by decide) (by decide)

end TaskTimer
