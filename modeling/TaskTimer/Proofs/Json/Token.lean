import Mathlib.Data.List.Infix
import TaskTimer.Json.Reader
import TaskTimer.Json.Writer
import TaskTimer.Proofs.Text.Digit

/-!
# The tokens of a JSON text

Tokens that are written one behind the other are read as these tokens, and a text of which the end
is missing is read as their start.

* `Escaped`: the three ways in which a character is written inside a text.
* `JsonToken.text`, `JsonToken.textOf`: the characters of a token and of several.
* `EndsNumber`, `Separated`: nothing behind a number can be read as a part of it.
* **`JsonToken.read_textOf`**: written tokens are read.
* `Torn`, **`JsonToken.read_torn`**: a strict start of the text gives a strict start of the tokens,
  and perhaps a shorter number behind them.
* `JsonToken.space_le_of_mem_textOf`: no control character is ever written.
-/

namespace TaskTimer

/-- A start of `a ++ b` is cut inside `a` or behind it. -/
theorem prefix_append_cases {α : Type} {p a b : List α} (h : p <+: a ++ b) :
    (p <+: a ∧ p ≠ a) ∨ ∃ q, p = a ++ q ∧ q <+: b := by
  by_cases ha : a <+: p
  · obtain ⟨q, rfl⟩ := ha
    exact .inr ⟨q, rfl, (List.prefix_append_right_inj a).1 h⟩
  · have hshort : p <+: a ∨ a <+: p :=
      List.prefix_or_prefix_of_prefix h (List.prefix_append a b)
    refine .inl ⟨hshort.resolve_right ha, ?_⟩
    rintro rfl
    exact ha (List.prefix_refl _)

/-! ## Characters inside a text -/

/-- The ways in which a character is written inside a text. -/
inductive Escaped (c : Char) : List Char → Prop
  | letter (e : Char) (short : JsonToken.shortEscape? e = some c) : Escaped c ['\\', e]
  | hex (control : c.toNat < 0x20) :
      Escaped c ['\\', 'u', '0', '0', hexDigit (c.toNat / 16), hexDigit (c.toNat % 16)]
  | plain (printed : 0x20 ≤ c.toNat) (noQuote : c ≠ '"') (noBackslash : c ≠ '\\') : Escaped c [c]

theorem escaped (c : Char) : Escaped c (escapeChar c) := by
  unfold escapeChar
  split_ifs with hquote hbackslash h1 h2 h3 h4 h5 hcontrol
  · exact .letter '"' (by rw [hquote]; rfl)
  · exact .letter '\\' (by rw [hbackslash]; rfl)
  · exact .letter 'b' (by rw [h1]; rfl)
  · exact .letter 't' (by rw [h2]; rfl)
  · exact .letter 'n' (by rw [h3]; rfl)
  · exact .letter 'f' (by rw [h4]; rfl)
  · exact .letter 'r' (by rw [h5]; rfl)
  · exact .hex hcontrol
  · exact .plain (Nat.le_of_not_lt hcontrol) hquote hbackslash

namespace JsonToken

theorem hexValue_hexDigit : ∀ d < 16, hexValue? (hexDigit d) = some d := by decide

theorem hex4_control {n : ℕ} (h : n < 0x20) :
    hex4? '0' '0' (hexDigit (n / 16)) (hexDigit (n % 16)) = some n := by
  have hzero : hexValue? '0' = some 0 := by decide
  rw [hex4?, hzero, hexValue_hexDigit _ (by omega), hexValue_hexDigit _ (by omega)]
  simp only [Option.bind_eq_bind, Option.bind_some, Option.pure_def, Option.some.injEq]
  omega

theorem ne_u_of_short {e c : Char} (h : shortEscape? e = some c) : e ≠ 'u' := by
  rintro rfl
  cases h

theorem space_le_of_short {e c : Char} (h : shortEscape? e = some c) : 0x20 ≤ e.toNat := by
  unfold shortEscape? at h
  split at h <;> first | decide | cases h

section Text

variable {acc : List Char} {sound : Bool}

theorem readText_short {e c : Char} (h : shortEscape? e = some c) (rest : List Char) :
    readText acc sound 0 ('\\' :: e :: rest) = readText (c :: acc) sound 0 rest := by
  rw [readText]
  · rw [h]
  · rintro _ _ _ _ _ rfl
    exact absurd rfl (ne_u_of_short h)

theorem readText_plain {c : Char} (printed : 0x20 ≤ c.toNat) (noQuote : c ≠ '"')
    (noBackslash : c ≠ '\\') (rest : List Char) :
    readText acc sound 0 (c :: rest) = readText (c :: acc) sound 0 rest := by
  rw [readText]
  · have hplain : ¬ (decide (c.toNat < 0x20) || decide (c = '\\')) = true := by
      simp only [Bool.or_eq_true, decide_eq_true_eq, not_or]
      exact ⟨Nat.not_lt.2 printed, noBackslash⟩
    rw [if_neg hplain]
  · exact noQuote
  · intro _ _ _ _ _ h
    exact absurd h noBackslash
  · intro _ _ h
    exact absurd h noBackslash

/-- **An escaped character is read back.** -/
theorem readText_escapeChar (c : Char) (rest : List Char) :
    readText acc sound 0 (escapeChar c ++ rest) = readText (c :: acc) sound 0 rest := by
  have hways := escaped c
  generalize escapeChar c = cs at hways ⊢
  cases hways with
  | letter e short => exact readText_short short rest
  | hex control =>
    have hhigh : isHighHalf c.toNat = false := by simp [isHighHalf]; omega
    have hlow : isLowHalf c.toNat = false := by simp [isLowHalf]; omega
    simp [readText, hex4_control control, hhigh, hlow]
  | plain printed noQuote noBackslash => exact readText_plain printed noQuote noBackslash rest

theorem readText_quoted (cs rest : List Char) :
    readText acc sound 0 (cs.flatMap escapeChar ++ '"' :: rest) =
      some (⟨.ofList (acc.reverse ++ cs), sound⟩, rest) := by
  induction cs generalizing acc with
  | nil => simp [readText]
  | cons c cs ih =>
    rw [List.flatMap_cons, List.append_assoc, readText_escapeChar, ih]
    simp

theorem readText_torn_escapeChar {c : Char} {p : List Char} (h : p <+: escapeChar c)
    (hne : p ≠ escapeChar c) : readText acc sound 0 p = none := by
  have hways := escaped c
  generalize escapeChar c = cs at hways h hne
  rw [← List.mem_inits] at h
  -- a lone backslash is refused, and so is one in front of a `u` without its four digits
  cases hways with
  | letter e short =>
    simp only [List.inits, List.map_cons, List.map_nil, List.mem_cons, List.not_mem_nil,
      or_false] at h
    rcases h with rfl | rfl | rfl
    · simp [readText]
    · simp [readText]
    · exact absurd rfl hne
  | hex control =>
    simp only [List.inits, List.map_cons, List.map_nil, List.mem_cons, List.not_mem_nil,
      or_false] at h
    rcases h with rfl | rfl | rfl | rfl | rfl | rfl | rfl
    iterate 6 simp [readText, shortEscape?]
    exact absurd rfl hne
  | plain =>
    simp only [List.inits, List.map_cons, List.map_nil, List.mem_cons, List.not_mem_nil,
      or_false] at h
    rcases h with rfl | rfl
    · simp [readText]
    · exact absurd rfl hne

theorem readText_torn {cs p : List Char} (h : p <+: cs.flatMap escapeChar) :
    readText acc sound 0 p = none := by
  induction cs generalizing p acc with
  | nil =>
    rw [List.prefix_nil.1 h]
    simp [readText]
  | cons c cs ih =>
    rw [List.flatMap_cons] at h
    rcases prefix_append_cases h with ⟨hp, hne⟩ | ⟨q, rfl, hq⟩
    · exact readText_torn_escapeChar hp hne
    · rw [readText_escapeChar]
      exact ih hq

end Text

/-! ## Numbers -/

/-- Nothing at the start of the text can be read as a part of a number in front of it. -/
def EndsNumber (cs : List Char) : Prop :=
  ∀ c ∈ cs.head?, c.isDigit = false ∧ c ≠ '.' ∧ c ≠ 'e' ∧ c ≠ 'E'

theorem endsNumber_nil : EndsNumber [] := fun _ hc => nomatch hc

theorem EndsNumber.start {p cs : List Char} (h : EndsNumber cs) (hp : p <+: cs) :
    EndsNumber p := by
  intro c hc
  obtain ⟨rest, rfl⟩ := hp
  exact h c (by rw [List.head?_append, Option.mem_def.1 hc]; rfl)

theorem readNumber_digits {digits rest : List Char} (hne : digits ≠ [])
    (hdigits : ∀ c ∈ digits, c.isDigit = true) (hrest : EndsNumber rest) :
    readNumber (digits ++ rest) =
      if digits.head? = some '0' ∧ digits.length ≠ 1 then none
      else some (⟨false, digits, [], none⟩, rest) := by
  have hstop : ∀ c ∈ rest.head?, c.isDigit = false := fun c hc => (hrest c hc).1
  have hminus : takeMinus (digits ++ rest) = (false, digits ++ rest) := by
    cases digits with
    | nil => exact absurd rfl hne
    | cons d ds =>
      rw [List.cons_append, takeMinus]
      rintro _ ⟨⟩
      exact absurd (hdigits '-' List.mem_cons_self) (by decide)
  have hfraction : readFraction rest = some ([], rest) := by
    cases rest with
    | nil => rfl
    | cons c rest =>
      rw [readFraction]
      rintro _ ⟨⟩
      exact (hrest '.' rfl).2.1 rfl
  have hexponent : readExponent rest = some (none, rest) := by
    cases rest with
    | nil => rfl
    | cons c rest => simp [readExponent, (hrest c rfl).2.2]
  simp [readNumber, hminus, takeWhile_append_stop hstop hdigits, hfraction, hexponent,
    dropWhile_append_stop hstop hdigits, hne]

theorem head_showDecimal {n : ℕ} (hn : n ≠ 0) : (showDecimal n).head? ≠ some '0' := by
  induction n using Nat.strong_induction_on with
  | h n ih =>
    unfold showDecimal at ih ⊢
    by_cases hlt : n < 10
    · have hdigit : ∀ d < 10, d ≠ 0 → [Nat.digitChar d].head? ≠ some '0' := by decide
      rw [Nat.toDigits_of_lt_base hlt]
      exact hdigit n hlt hn
    · rw [Nat.toDigits_of_base_le (by decide) (by omega),
        List.head?_append_of_ne_nil _ Nat.toDigits_ne_nil]
      exact ih (n / 10) (by omega) (by omega)

theorem readNumber_showDecimal (n : ℕ) {rest : List Char} (hrest : EndsNumber rest) :
    readNumber (showDecimal n ++ rest) = some (.ofNat n, rest) := by
  have hgood : ¬ ((showDecimal n).head? = some '0' ∧ (showDecimal n).length ≠ 1) := by
    rintro ⟨hhead, hlength⟩
    by_cases hn : n = 0
    · exact hlength (by rw [hn]; rfl)
    · exact head_showDecimal hn hhead
  rw [readNumber_digits (showDecimal_ne_nil n) isDigit_of_mem_showDecimal hrest, if_neg hgood]
  rfl

/-! ## One token -/

/-- The characters that write a token. -/
def text : JsonToken → List Char
  | .openArray => ['[']
  | .closeArray => [']']
  | .openObject => ['{']
  | .closeObject => ['}']
  | .comma => [',']
  | .colon => [':']
  | .null => ['n', 'u', 'l', 'l']
  | .bool true => ['t', 'r', 'u', 'e']
  | .bool false => ['f', 'a', 'l', 's', 'e']
  | .num n => n.text
  | .str s => quote s.text.toList

/-- A number is a natural number, and a text has no half of a character in it. -/
def IsPlain : JsonToken → Prop
  | .num n => ∃ k, n = .ofNat k
  | .str s => s.sound = true
  | _ => True

theorem text_ofNat (k : ℕ) : (Numeral.ofNat k).text = showDecimal k := by
  simp [Numeral.ofNat, Numeral.text]

theorem read_nil : read [] = some [] := by
  unfold read
  rfl

theorem read_cons {c : Char} (hc : isSpace c = false) (cs : List Char) :
    read (c :: cs) = (first? c cs).bind fun r => (read r.2).map (r.1 :: ·) := by
  conv => lhs; unfold read
  rw [if_neg (by rw [hc]; exact Bool.false_ne_true)]
  split
  · next h => rw [h]; rfl
  · next h => dsimp only; rw [h]; rfl

theorem read_cons_some {c : Char} {cs rest : List Char} {t : JsonToken} (hc : isSpace c = false)
    (h : first? c cs = some (t, rest)) : read (c :: cs) = (read rest).map (t :: ·) := by
  rw [read_cons hc, h]
  rfl

theorem read_cons_none {c : Char} {cs : List Char} (hc : isSpace c = false)
    (h : first? c cs = none) : read (c :: cs) = none := by
  rw [read_cons hc, h]
  rfl

theorem first?_digit {d : Char} (hd : d.isDigit = true) (cs : List Char) :
    first? d cs = (readNumber (d :: cs)).map fun (n, rest) => (.num n, rest) := by
  have hne : ∀ c, c.isDigit = false → d ≠ c := by
    rintro c hc rfl
    rw [hc] at hd
    cases hd
  unfold first?
  rw [if_neg (hne '[' (by decide)), if_neg (hne ']' (by decide)),
    if_neg (hne '{' (by decide)), if_neg (hne '}' (by decide)), if_neg (hne ',' (by decide)),
    if_neg (hne ':' (by decide)), if_neg (hne '"' (by decide)), if_pos (by rw [hd, Bool.or_true])]

theorem first?_blank {b : Char} (hb : isBlank b = true) (cs : List Char) : first? b cs = none := by
  have hne : ∀ c, isBlank c = false → b ≠ c := by
    rintro c hc rfl
    rw [hc] at hb
    cases hb
  have hnumber : ¬ (decide (b = '-') || b.isDigit) = true := by
    rw [isDigit_of_isBlank b hb, Bool.or_false, decide_eq_true_eq]
    exact hne '-' (by decide)
  unfold first?
  rw [if_neg (hne '[' (by decide)), if_neg (hne ']' (by decide)),
    if_neg (hne '{' (by decide)), if_neg (hne '}' (by decide)), if_neg (hne ',' (by decide)),
    if_neg (hne ':' (by decide)), if_neg (hne '"' (by decide)), if_neg hnumber]
  split
  · exact absurd rfl (hne 'n' (by decide))
  · exact absurd rfl (hne 't' (by decide))
  · exact absurd rfl (hne 'f' (by decide))
  · rfl

theorem isSpace_digit {d : Char} (hd : d.isDigit = true) : isSpace d = false := by
  rw [Bool.eq_false_iff]
  intro hspace
  simp only [isSpace, Bool.or_eq_true, decide_eq_true_eq] at hspace
  rcases hspace with ((rfl | rfl) | rfl) | rfl <;> exact absurd hd (by decide)

/-- **A written token is read**, if what follows a number cannot belong to it. -/
theorem read_text_append {t : JsonToken} (ht : t.IsPlain) {rest : List Char}
    (hrest : ∀ n, t = .num n → EndsNumber rest) :
    read (t.text ++ rest) = (read rest).map (t :: ·) := by
  cases t with
  | openArray | closeArray | openObject | closeObject | comma | colon | null =>
    exact read_cons_some (by decide) rfl
  | bool b => cases b <;> exact read_cons_some (by decide) rfl
  | num n =>
    obtain ⟨k, rfl⟩ := ht
    have hnumber := readNumber_showDecimal k (hrest _ rfl)
    rw [text, text_ofNat]
    cases hk : showDecimal k with
    | nil => exact absurd hk (showDecimal_ne_nil k)
    | cons d ds =>
      have hd : d.isDigit = true := isDigit_of_mem_showDecimal d (by rw [hk]; exact List.mem_cons_self)
      rw [hk, List.cons_append] at hnumber
      rw [List.cons_append]
      exact read_cons_some (isSpace_digit hd) (by rw [first?_digit hd, hnumber]; rfl)
  | str s =>
    obtain ⟨string, sound⟩ := s
    obtain rfl : sound = true := ht
    have hquoted : first? '"' (string.toList.flatMap escapeChar ++ '"' :: rest) =
        some (.str ⟨string, true⟩, rest) := by
      simp [first?, readText_quoted]
    simp only [text, quote, List.cons_append, List.append_assoc, List.nil_append]
    exact read_cons_some (by decide) hquoted

theorem read_torn_word {c d : Char} {p word : List Char} (hp : c :: p <+: d :: word)
    (hne : c :: p ≠ d :: word) (hd : isSpace d = false)
    (h : ∀ q ∈ word.inits, q ≠ word → first? d q = none) : read (c :: p) = none := by
  obtain ⟨rfl, hq⟩ := List.cons_prefix_cons.1 hp
  have hstrict : p ≠ word := fun hp => hne (congrArg (c :: ·) hp)
  exact read_cons_none hd (h p ((List.mem_inits p word).2 hq) hstrict)

theorem read_torn_text {t : JsonToken} (ht : t.IsPlain) {c : Char} {p : List Char}
    (hp : c :: p <+: t.text) (hne : c :: p ≠ t.text) {us : List JsonToken}
    (h : read (c :: p) = some us) : ∃ n n', t = .num n ∧ us = [.num n'] := by
  cases t with
  | openArray | closeArray | openObject | closeObject | comma | colon | null =>
    rw [read_torn_word hp hne (by decide) (by decide)] at h
    cases h
  | bool b =>
    cases b <;> rw [read_torn_word hp hne (by decide) (by decide)] at h <;> cases h
  | num n =>
    obtain ⟨k, rfl⟩ := ht
    rw [text, text_ofNat] at hp
    have hdigits : ∀ x ∈ c :: p, x.isDigit = true := fun x hx =>
      isDigit_of_mem_showDecimal x (hp.subset hx)
    have hc : c.isDigit = true := hdigits c List.mem_cons_self
    have hnumber := readNumber_digits (List.cons_ne_nil c p) hdigits endsNumber_nil
    rw [List.append_nil] at hnumber
    split_ifs at hnumber
    · rw [read_cons_none (isSpace_digit hc) (by rw [first?_digit hc, hnumber]; rfl)] at h
      cases h
    · rw [read_cons_some (isSpace_digit hc) (by rw [first?_digit hc, hnumber]; rfl), read_nil] at h
      cases h
      exact ⟨_, _, rfl, rfl⟩
  | str s =>
    obtain ⟨rfl, hq⟩ := List.cons_prefix_cons.1 hp
    rcases List.prefix_concat_iff.1 hq with hq | hq
    · exact absurd (congrArg ('"' :: ·) hq) hne
    · rw [read_cons_none (by decide) (by simp [first?, readText_torn hq])] at h
      cases h

/-! ## Several tokens -/

/-- The characters that write the tokens. -/
def textOf (ts : List JsonToken) : List Char := ts.flatMap text

@[simp] theorem textOf_nil : textOf [] = [] := rfl

@[simp] theorem textOf_cons (t : JsonToken) (ts : List JsonToken) :
    textOf (t :: ts) = t.text ++ textOf ts := List.flatMap_cons

@[simp] theorem textOf_append (ts us : List JsonToken) :
    textOf (ts ++ us) = textOf ts ++ textOf us := List.flatMap_append

/-- What follows a number cannot belong to it. -/
def Separated : List JsonToken → Prop
  | [] => True
  | t :: ts => (∀ n, t = .num n → EndsNumber (textOf ts)) ∧ Separated ts

/-- **Written tokens are read.** -/
theorem read_textOf {ts : List JsonToken} (hplain : ∀ t ∈ ts, t.IsPlain) (hts : Separated ts) :
    read (textOf ts) = some ts := by
  induction ts with
  | nil => exact read_nil
  | cons t ts ih =>
    rw [textOf_cons, read_text_append (hplain t List.mem_cons_self) hts.1,
      ih (fun u hu => hplain u (List.mem_cons_of_mem t hu)) hts.2]
    rfl

/-- The tokens `us` are a strict start of `ts`, or end with a number that is a start of a number. -/
inductive Torn : List JsonToken → List JsonToken → Prop
  | cut (t : JsonToken) (ts : List JsonToken) : Torn (t :: ts) []
  | number (n n' : Numeral) (ts : List JsonToken) : Torn (.num n :: ts) [.num n']
  | cons (t : JsonToken) {ts us : List JsonToken} (later : Torn ts us) : Torn (t :: ts) (t :: us)

/-- **A text of which the end is missing is read as torn tokens, if at all.** -/
theorem read_torn {ts : List JsonToken} (hplain : ∀ t ∈ ts, t.IsPlain) (hts : Separated ts)
    {p : List Char} (hp : p <+: textOf ts) (hne : p ≠ textOf ts) {us : List JsonToken}
    (h : read p = some us) : Torn ts us := by
  induction ts generalizing p us with
  | nil => exact absurd (List.prefix_nil.1 hp) hne
  | cons t ts ih =>
    have ht : t.IsPlain := hplain t List.mem_cons_self
    rw [textOf_cons] at hp hne
    rcases prefix_append_cases hp with ⟨hp, hstrict⟩ | ⟨q, rfl, hq⟩
    · cases p with
      | nil =>
        rw [read_nil] at h
        cases h
        exact .cut t ts
      | cons c p =>
        obtain ⟨n, n', rfl, rfl⟩ := read_torn_text ht hp hstrict h
        exact .number n n' ts
    · have hend : ∀ n, t = .num n → EndsNumber q := fun n hn => (hts.1 n hn).start hq
      rw [read_text_append ht hend, Option.map_eq_some_iff] at h
      obtain ⟨vs, hvs, rfl⟩ := h
      refine .cons t (ih (fun u hu => hplain u (List.mem_cons_of_mem t hu)) hts.2 hq ?_ hvs)
      rintro rfl
      exact hne rfl

/-! ## Control characters -/

theorem space_le_of_mem_escapeChar {c d : Char} (hd : d ∈ escapeChar c) : 0x20 ≤ d.toNat := by
  have hways := escaped c
  generalize escapeChar c = cs at hways hd
  cases hways with
  | letter e short =>
    rcases List.mem_pair.1 hd with rfl | rfl
    · decide
    · exact space_le_of_short short
  | hex control =>
    have hdigit : ∀ n < 16, 0x20 ≤ (hexDigit n).toNat := by decide
    have hhigh := hdigit (c.toNat / 16) (by omega)
    have hlow := hdigit (c.toNat % 16) (by omega)
    simp only [List.mem_cons, List.not_mem_nil, or_false] at hd
    rcases hd with rfl | rfl | rfl | rfl | rfl | rfl <;> first | assumption | decide
  | plain printed =>
    rw [List.mem_singleton.1 hd]
    exact printed

theorem space_le_of_all {cs : List Char} (h : cs.all (0x20 ≤ ·.toNat) = true) {c : Char}
    (hc : c ∈ cs) : 0x20 ≤ c.toNat :=
  of_decide_eq_true (List.all_eq_true.1 h c hc)

theorem space_le_of_mem_text {t : JsonToken} (ht : t.IsPlain) {c : Char} (hc : c ∈ t.text) :
    0x20 ≤ c.toNat := by
  cases t with
  | openArray | closeArray | openObject | closeObject | comma | colon | null =>
    exact space_le_of_all (by decide) hc
  | bool b => cases b <;> exact space_le_of_all (by decide) hc
  | num n =>
    obtain ⟨k, rfl⟩ := ht
    rw [text, text_ofNat] at hc
    have hdigit := isDigit_of_mem_showDecimal c hc
    rw [Char.isDigit, Bool.and_eq_true, decide_eq_true_eq, decide_eq_true_eq] at hdigit
    exact le_trans (by decide) (UInt32.le_iff_toNat_le.1 hdigit.1)
  | str s =>
    have hmark : 0x20 ≤ '"'.toNat := by decide
    simp only [text, quote, List.mem_append, List.mem_cons, List.mem_flatMap, List.not_mem_nil,
      or_false] at hc
    rcases hc with (rfl | ⟨d, -, hc⟩) | rfl
    · exact hmark
    · exact space_le_of_mem_escapeChar hc
    · exact hmark

/-- **No control character is ever written.** -/
theorem space_le_of_mem_textOf {ts : List JsonToken} (hplain : ∀ t ∈ ts, t.IsPlain) {c : Char}
    (hc : c ∈ textOf ts) : 0x20 ≤ c.toNat := by
  obtain ⟨t, ht, hc⟩ := List.mem_flatMap.1 hc
  exact space_le_of_mem_text (hplain t ht) hc

end JsonToken

end TaskTimer
