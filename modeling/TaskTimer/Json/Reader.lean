import TaskTimer.Json.Basic
import TaskTimer.Text.Basic

/-!
# Reading JSON

A text is cut into tokens, and the tokens are read from left to right beside a stack of the arrays
and objects that are still open.

* `JsonToken`: a punctuation mark or a value without parts.
* `JsonToken.Follows`: what is left of a text behind a number, which holds `isNumeric` characters.
* `JsonToken.read`: the tokens of a text.
* `Json.read`: the value that a text writes.
-/

namespace TaskTimer

/-- A token of a JSON text. -/
inductive JsonToken where
  | openArray
  | closeArray
  | openObject
  | closeObject
  | comma
  | colon
  | null
  | bool (b : Bool)
  | num (n : Numeral)
  | str (s : Quoted)
  deriving DecidableEq, Repr

namespace JsonToken

/-! ## Texts -/

/-- The value of four hexadecimal digits. -/
def hex4? (a b c d : Char) : Option Nat := do
  let a ← hexValue? a
  let b ← hexValue? b
  let c ← hexValue? c
  let d ← hexValue? d
  return ((a * 16 + b) * 16 + c) * 16 + d

/-- The character of an escape that is a single letter. -/
def shortEscape? : Char → Option Char
  | '"' => some '"'
  | '\\' => some '\\'
  | '/' => some '/'
  | 'b' => some '\x08'
  | 'f' => some '\x0c'
  | 'n' => some '\n'
  | 'r' => some '\r'
  | 't' => some '\t'
  | _ => none

/-- The first half of a character that is written as two escapes. -/
def isHighHalf (n : Nat) : Bool := 0xD800 ≤ n && n < 0xDC00

/-- The second half of a character that is written as two escapes. -/
def isLowHalf (n : Nat) : Bool := 0xDC00 ≤ n && n < 0xE000

/-- The second half in an escape that starts here. -/
def lowHalf? : List Char → Option Nat
  | '\\' :: 'u' :: a :: b :: c :: d :: _ => (hex4? a b c d).filter isLowHalf
  | _ => none

/-- Reads a text up to the closing quotation mark, behind the characters `acc`, last one first. The
characters `skip` belong to an escape that has been read already. -/
def readText (acc : List Char) (sound : Bool) : (skip : Nat) → List Char →
    Option (Quoted × List Char)
  | _, [] => none
  | n + 1, _ :: rest => readText acc sound n rest
  | 0, '"' :: rest => some (⟨.ofList acc.reverse, sound⟩, rest)
  | 0, '\\' :: 'u' :: a :: b :: c :: d :: rest =>
    match hex4? a b c d with
    | none => none
    | some n =>
      if isHighHalf n then
        match lowHalf? rest with
        | some low =>
          readText (Char.ofNat (0x10000 + (n - 0xD800) * 0x400 + (low - 0xDC00)) :: acc) sound 6 rest
        | none => readText ('\ufffd' :: acc) false 0 rest
      else if isLowHalf n then readText ('\ufffd' :: acc) false 0 rest
      else readText (Char.ofNat n :: acc) sound 0 rest
  | 0, '\\' :: e :: rest =>
    match shortEscape? e with
    | none => none
    | some c => readText (c :: acc) sound 0 rest
  | 0, c :: rest => if c.toNat < 0x20 || c = '\\' then none else readText (c :: acc) sound 0 rest

/-! ## Numbers -/

/-- The digits behind a point, if there is one, and what follows them. -/
def readFraction : List Char → Option (List Char × List Char)
  | '.' :: rest =>
    let digits := rest.takeWhile Char.isDigit
    if digits.isEmpty then none else some (digits, rest.dropWhile Char.isDigit)
  | cs => some ([], cs)

/-- Whether a text starts with a minus, and what follows it. -/
def takeMinus : List Char → Bool × List Char
  | '-' :: rest => (true, rest)
  | cs => (false, cs)

/-- Whether a text starts with a minus, and what follows the minus or a plus. -/
def takeSign : List Char → Bool × List Char
  | '-' :: rest => (true, rest)
  | '+' :: rest => (false, rest)
  | cs => (false, cs)

/-- The sign and the digits of an exponent, if there is one, and what follows them. -/
def readExponent : List Char → Option (Option (Bool × List Char) × List Char)
  | [] => some (none, [])
  | e :: rest =>
    if e = 'e' || e = 'E' then
      let (negative, rest) := takeSign rest
      let digits := rest.takeWhile Char.isDigit
      if digits.isEmpty then none
      else some (some (negative, digits), rest.dropWhile Char.isDigit)
    else some (none, e :: rest)

/-- The number at the start of a text and what follows it. A zero in front of another digit is no
number. -/
def readNumber (cs : List Char) : Option (Numeral × List Char) :=
  let (negative, cs) := takeMinus cs
  let whole := cs.takeWhile Char.isDigit
  if whole.isEmpty || (whole.head? == some '0' && whole.length != 1) then none
  else do
    let (fraction, cs) ← readFraction (cs.dropWhile Char.isDigit)
    let (exponent, cs) ← readExponent cs
    return (⟨negative, whole, fraction, exponent⟩, cs)

/-! ## What is left of a text -/

theorem length_readText {acc : List Char} {sound : Bool} {skip : Nat} {cs : List Char} {s : Quoted}
    {rest : List Char} (h : readText acc sound skip cs = some (s, rest)) :
    rest.length < cs.length := by
  fun_induction readText acc sound skip cs <;> simp at h ⊢ <;> grind

/-- A character that a number may hold. -/
def isNumeric (c : Char) : Bool :=
  c.isDigit || c = '-' || c = '+' || c = '.' || c = 'e' || c = 'E'

/-- Characters of a number lead from the second text to the first. -/
inductive Follows (rest : List Char) : List Char → Prop
  | here : Follows rest rest
  | behind {c : Char} {cs : List Char} (hc : isNumeric c = true) (h : Follows rest cs) :
      Follows rest (c :: cs)

theorem isNumeric_of_isDigit {c : Char} (hc : c.isDigit = true) : isNumeric c = true := by
  simp [isNumeric, hc]

theorem Follows.length_le {rest cs : List Char} (h : Follows rest cs) :
    rest.length ≤ cs.length := by
  induction h with
  | here => exact Nat.le_refl _
  | behind _ _ ih => exact Nat.le_succ_of_le ih

theorem Follows.trans {rest mid cs : List Char} (h : Follows rest mid) (h' : Follows mid cs) :
    Follows rest cs := by
  induction h' with
  | here => exact h
  | behind hc _ ih => exact .behind hc ih

theorem follows_digits (cs : List Char) : Follows (cs.dropWhile Char.isDigit) cs := by
  induction cs with
  | nil => exact .here
  | cons c cs ih =>
    rw [List.dropWhile_cons]
    split
    · next hc => exact .behind (isNumeric_of_isDigit hc) ih
    · exact .here

theorem follows_takeMinus (cs : List Char) : Follows (takeMinus cs).2 cs := by
  fun_cases takeMinus cs
  · exact .behind (by decide) .here
  · exact .here

theorem follows_takeSign (cs : List Char) : Follows (takeSign cs).2 cs := by
  fun_cases takeSign cs
  · exact .behind (by decide) .here
  · exact .behind (by decide) .here
  · exact .here

theorem follows_readFraction {cs digits rest : List Char}
    (h : readFraction cs = some (digits, rest)) : Follows rest cs := by
  unfold readFraction at h
  split at h
  · rw [Option.ite_none_left_eq_some] at h
    cases h.2
    exact .behind (by decide) (follows_digits _)
  · cases h
    exact .here

theorem follows_readExponent {cs rest : List Char} {e : Option (Bool × List Char)}
    (h : readExponent cs = some (e, rest)) : Follows rest cs := by
  unfold readExponent at h
  split at h
  · cases h
    exact .here
  · next c cs =>
    split at h
    · next hc =>
      rw [Option.ite_none_left_eq_some] at h
      cases h.2
      have hnumeric : isNumeric c = true := by
        rw [Bool.or_eq_true, decide_eq_true_eq, decide_eq_true_eq] at hc
        rcases hc with rfl | rfl <;> decide
      exact .behind hnumeric ((follows_digits _).trans (follows_takeSign cs))
    · cases h
      exact .here

/-- **A number has a digit**, and behind it nothing but characters of a number. -/
theorem follows_readNumber {cs rest : List Char} {n : Numeral}
    (h : readNumber cs = some (n, rest)) :
    ∃ d ds, d.isDigit = true ∧ Follows (d :: ds) cs ∧ Follows rest ds := by
  simp only [readNumber, Option.ite_none_left_eq_some, Option.bind_eq_bind,
    Option.bind_eq_some_iff] at h
  obtain ⟨hwhole, ⟨digits, cs₁⟩, hfraction, ⟨e, cs₂⟩, hexponent, h⟩ := h
  cases h
  have hrest := (follows_readExponent hexponent).trans (follows_readFraction hfraction)
  have hminus := follows_takeMinus cs
  cases hcs : (takeMinus cs).2 with
  | nil => simp [hcs] at hwhole
  | cons d ds =>
    rw [hcs] at hminus hwhole hrest
    by_cases hd : d.isDigit = true
    · rw [List.dropWhile_cons_of_pos hd] at hrest
      exact ⟨d, ds, hd, hminus, hrest.trans (follows_digits ds)⟩
    · simp [hd] at hwhole

theorem length_readNumber {cs rest : List Char} {n : Numeral}
    (h : readNumber cs = some (n, rest)) : rest.length < cs.length := by
  obtain ⟨d, ds, -, hcs, hrest⟩ := follows_readNumber h
  exact Nat.lt_of_le_of_lt hrest.length_le hcs.length_le

/-! ## Tokens -/

/-- A blank between tokens. -/
def isSpace (c : Char) : Bool := c = ' ' || c = '\t' || c = '\n' || c = '\r'

/-- The token at the start of the text `c :: cs`, and what follows it. -/
def first? (c : Char) (cs : List Char) : Option (JsonToken × List Char) :=
  if c = '[' then some (.openArray, cs)
  else if c = ']' then some (.closeArray, cs)
  else if c = '{' then some (.openObject, cs)
  else if c = '}' then some (.closeObject, cs)
  else if c = ',' then some (.comma, cs)
  else if c = ':' then some (.colon, cs)
  else if c = '"' then (readText [] true 0 cs).map fun (s, rest) => (.str s, rest)
  else if c = '-' || c.isDigit then (readNumber (c :: cs)).map fun (n, rest) => (.num n, rest)
  else
    match c, cs with
    | 'n', 'u' :: 'l' :: 'l' :: rest => some (.null, rest)
    | 't', 'r' :: 'u' :: 'e' :: rest => some (.bool true, rest)
    | 'f', 'a' :: 'l' :: 's' :: 'e' :: rest => some (.bool false, rest)
    | _, _ => none

theorem length_first? {c : Char} {cs rest : List Char} {t : JsonToken}
    (h : first? c cs = some (t, rest)) : rest.length < (c :: cs).length := by
  unfold first? at h
  iterate 6
    split at h
    · cases h; simp
  split at h
  · obtain ⟨⟨s, r⟩, hr, h⟩ := Option.map_eq_some_iff.1 h
    have := length_readText hr
    cases h
    simp only [List.length_cons]
    omega
  split at h
  · obtain ⟨⟨n, r⟩, hr, h⟩ := Option.map_eq_some_iff.1 h
    cases h
    exact length_readNumber hr
  split at h <;> cases h <;> simp only [List.length_cons] <;> omega

/-- The tokens of a text, if it has no other parts. -/
def read : List Char → Option (List JsonToken)
  | [] => some []
  | c :: cs =>
    if isSpace c then read cs
    else
      match h : first? c cs with
      | none => none
      | some (token, rest) =>
        have : rest.length < cs.length + 1 := length_first? h
        (read rest).map (token :: ·)
termination_by text => text.length

end JsonToken

/-! ## Values -/

namespace Json

/-- An array or an object that is still open. -/
inductive Frame where
  /-- An array with its items so far, last one first. -/
  | array (items : List Json)
  /-- An object with its members so far, last one first, and the key of the next one. -/
  | object (members : List (Quoted × Json)) (key : Quoted)

/-- What a reader expects, or has just read. -/
inductive Expectation where
  | value
  /-- An item of an array, or its end if `first`. -/
  | item (items : List Json) (first : Bool)
  /-- A key of an object, or the end of the object if `first`. -/
  | key (members : List (Quoted × Json)) (first : Bool)
  | colon (members : List (Quoted × Json)) (key : Quoted)
  /-- A value has been read. -/
  | after (v : Json)

/-- The state of a reader: what it expects, inside the open arrays and objects. -/
abbrev State := Expectation × List Frame

/-- The start of a value. -/
def startValue (stack : List Frame) : JsonToken → Option State
  | .null => some (.after .null, stack)
  | .bool b => some (.after (.bool b), stack)
  | .num n => some (.after (.num n), stack)
  | .str s => some (.after (.str s), stack)
  | .openArray => some (.item [] true, stack)
  | .openObject => some (.key [] true, stack)
  | _ => none

/-- The state after a token. -/
def readToken : State → JsonToken → Option State
  | (.value, stack), t => startValue stack t
  | (.item items first, stack), t =>
    if first && t = .closeArray then some (.after (.arr items.reverse), stack)
    else startValue (.array items :: stack) t
  | (.key members first, stack), t =>
    match t with
    | .str k => some (.colon members k, stack)
    | .closeObject => if first then some (.after (.obj members.reverse), stack) else none
    | _ => none
  | (.colon members k, stack), t =>
    if t = .colon then some (.value, .object members k :: stack) else none
  | (.after _, []), _ => none
  | (.after v, .array items :: stack), t =>
    match t with
    | .comma => some (.item (v :: items) false, stack)
    | .closeArray => some (.after (.arr (v :: items).reverse), stack)
    | _ => none
  | (.after v, .object members k :: stack), t =>
    match t with
    | .comma => some (.key ((k, v) :: members) false, stack)
    | .closeObject => some (.after (.obj ((k, v) :: members).reverse), stack)
    | _ => none

/-- The value that a sequence of tokens writes. -/
def ofTokens (tokens : List JsonToken) : Option Json :=
  match tokens.foldlM readToken (.value, []) with
  | some (.after v, []) => some v
  | _ => none

/-- The value that a text writes. -/
def read (text : List Char) : Option Json := (JsonToken.read text).bind ofTokens

end Json

end TaskTimer
