import TaskTimer.Text.Basic

/-!
# From text to tokens

A timer is written as countdowns and repeated groups, such as `(25m🍅 5m)4 p15`. The text is cut from
left to right into lexemes, each as long as its form allows: a blank, a parenthesis with the count
behind it, or a countdown with the symbol behind it.

* `Token`: a lexical unit.
* `SyntaxError`: why a text or a stream of tokens is no timer, with its `message`.
* `Lexeme`: the token of a piece of text, the piece, and what follows it.
* `leadingDigits?`, `countdown`: a run of digits, and a countdown behind its amount.
* `lexeme`: the first lexeme of a text, or the error at the first character that fits no form.
* `tokenize`: the tokens of a text, or its first error.
* `tokensIn`: the tokens of a text, none if it is malformed.
* `lexeme_text`: a lexeme is a piece of the text from its first character on.
-/

namespace TaskTimer

/-! ## Tokens -/

/-- A lexical unit of the timer notation. -/
inductive Token where
  /-- A countdown and the symbol shown beside it. -/
  | time (seconds : UInt64) (symbol : Option String)
  /-- The start of a group. -/
  | openGroup
  /-- The end of a group and how often the group runs; zero stands for no limit of its own. -/
  | closeGroup (loopCount : UInt32)
  deriving DecidableEq, Repr, Inhabited

/-- Why a text or a stream of tokens is no timer. Offsets count bytes of the text, indexes count
tokens. -/
inductive SyntaxError where
  | invalidCharacter (ch : Char) (offset : Nat)
  | missingDigits (offset : Nat)
  | missingUnit (offset : Nat)
  | numberOverflow (offset : Nat)
  | unclosedGroup (index : Nat)
  | unexpectedClose (index : Nat)
  | tooDeep (limit : Nat)
  /-- The text is well-formed and holds no countdown. -/
  | empty
  deriving DecidableEq, Repr, Inhabited

/-- The sentence shown for an error. -/
def SyntaxError.message : SyntaxError → String
  | .invalidCharacter ch offset => s!"Unexpected character '{ch}' at offset {offset}"
  | .missingDigits offset => s!"Expected digits at offset {offset}"
  | .missingUnit offset => s!"Expected a unit (h, m or s) at offset {offset}"
  | .numberOverflow offset => s!"Number too large at offset {offset}"
  | .unclosedGroup index => s!"Group opened at token {index} is never closed"
  | .unexpectedClose index => s!"Unexpected ')' at token {index}"
  | .tooDeep limit => s!"Groups nested deeper than {limit} levels"
  | .empty => "Declaration contains no timers"

/-! ## Lexemes -/

/-- The first piece of a text. Blanks carry no token. -/
structure Lexeme where
  token : Option Token
  text : List Char
  rest : List Char
  deriving Repr

/-- The seconds in one unit of the letter. -/
def unitSeconds : Char → Option Nat
  | 'h' => some 3600
  | 'm' => some 60
  | 's' => some 1
  | _ => none

/-- A character that may stand in a symbol. -/
def isSymbolChar (c : Char) : Bool := !isBlank c && c != ')'

/-- The longest run of digits at the start of a text, if it has one, and what follows it. -/
def leadingDigits? (text : List Char) : Option (List Char × List Char) :=
  let digits := text.takeWhile Char.isDigit
  if digits.isEmpty then none else some (digits, text.dropWhile Char.isDigit)

/-- The countdown of `n` seconds whose written form is `head`, with the symbol that follows. -/
def timeLexeme (n : Nat) (head rest : List Char) : Lexeme :=
  let symbol := rest.takeWhile isSymbolChar
  { token := some (.time (UInt64.ofNat n) (if symbol.isEmpty then none else some (.ofList symbol)))
    text := head ++ symbol
    rest := rest.dropWhile isSymbolChar }

/-- A countdown behind its amount: the unit, which must be there, and the symbol. -/
def countdown (offset : Nat) (digits rest : List Char) : Except SyntaxError Lexeme :=
  if UInt64.size ≤ readDecimal digits then .error (.numberOverflow offset)
  else
    match rest with
    | [] => .error (.missingUnit (offset + Utf8.byteLength digits))
    | u :: rest =>
      match unitSeconds u with
      | none => .error (.missingUnit (offset + Utf8.byteLength digits))
      | some unit =>
        if UInt64.size ≤ unit * readDecimal digits then .error (.numberOverflow offset)
        else .ok (timeLexeme (unit * readDecimal digits) (digits ++ [u]) rest)

/-- The first lexeme of the text `c :: cs`, whose first byte stands at `offset`. -/
def lexeme (offset : Nat) (c : Char) (cs : List Char) : Except SyntaxError Lexeme :=
  if isBlank c then
    .ok ⟨none, [c], cs⟩
  else if c = '(' then
    .ok ⟨some .openGroup, [c], cs⟩
  else if c = ')' then
    match leadingDigits? cs with
    | none => .ok ⟨some (.closeGroup 0), [c], cs⟩
    | some (digits, rest) =>
      let count := readDecimal digits
      if count < UInt32.size then .ok ⟨some (.closeGroup (UInt32.ofNat count)), c :: digits, rest⟩
      else .error (.numberOverflow (offset + 1))
  else if c = 'p' then
    match leadingDigits? cs with
    | none => .error (.missingDigits (offset + 1))
    | some (digits, rest) =>
      let seconds := 60 * readDecimal digits
      if UInt64.size ≤ seconds then .error (.numberOverflow (offset + 1))
      else .ok (timeLexeme seconds (c :: digits) rest)
  else if c.isDigit then
    match leadingDigits? (c :: cs) with
    | none => .error (.missingDigits offset)
    | some (digits, rest) => countdown offset digits rest
  else .error (.invalidCharacter c offset)

/-! ## A lexeme is a piece of the text -/

theorem append_of_leadingDigits? {text digits rest : List Char}
    (h : leadingDigits? text = some (digits, rest)) : digits ++ rest = text := by
  simp only [leadingDigits?] at h
  split at h <;> cases h
  exact List.takeWhile_append_dropWhile

theorem leadingDigits?_cons {d : Char} (hd : d.isDigit = true) (cs : List Char) :
    leadingDigits? (d :: cs) =
      some (d :: cs.takeWhile Char.isDigit, cs.dropWhile Char.isDigit) := by
  rw [leadingDigits?, List.takeWhile_cons_of_pos hd, List.dropWhile_cons_of_pos hd]
  rfl

theorem timeLexeme_text (n : Nat) (c : Char) {head rest cs : List Char} (h : head ++ rest = cs) :
    ∃ more, (timeLexeme n (c :: head) rest).text = c :: more ∧
      more ++ (timeLexeme n (c :: head) rest).rest = cs := by
  refine ⟨head ++ rest.takeWhile isSymbolChar, rfl, ?_⟩
  rw [timeLexeme, List.append_assoc, List.takeWhile_append_dropWhile, h]

theorem countdown_text {offset : Nat} {d : Char} {digits rest : List Char} {l : Lexeme}
    (h : countdown offset (d :: digits) rest = .ok l) :
    ∃ more, l.text = d :: more ∧ more ++ l.rest = digits ++ rest := by
  unfold countdown at h
  split at h
  · cases h
  split at h
  · cases h
  split at h
  · cases h
  split at h <;> cases h
  exact timeLexeme_text _ d (List.append_assoc ..)

/-- A lexeme takes the first character and maybe more, and leaves the rest of the text. -/
theorem lexeme_text {offset : Nat} {c : Char} {cs : List Char} {l : Lexeme}
    (h : lexeme offset c cs = .ok l) : ∃ more, l.text = c :: more ∧ more ++ l.rest = cs := by
  simp only [lexeme] at h
  split at h
  · cases h
    exact ⟨[], rfl, rfl⟩
  split at h
  · cases h
    exact ⟨[], rfl, rfl⟩
  split at h
  · split at h
    · cases h
      exact ⟨[], rfl, rfl⟩
    · next hdigits =>
      split at h <;> cases h
      exact ⟨_, rfl, append_of_leadingDigits? hdigits⟩
  split at h
  · split at h
    · cases h
    · next hdigits =>
      split at h <;> cases h
      exact timeLexeme_text _ c (append_of_leadingDigits? hdigits)
  split at h
  · next hd =>
    rw [leadingDigits?_cons hd] at h
    obtain ⟨more, htext, hrest⟩ := countdown_text h
    exact ⟨more, htext, hrest.trans List.takeWhile_append_dropWhile⟩
  · cases h

theorem lexeme_rest_length_lt {offset : Nat} {c : Char} {cs : List Char} {l : Lexeme}
    (h : lexeme offset c cs = .ok l) : l.rest.length < (c :: cs).length := by
  obtain ⟨more, -, rfl⟩ := lexeme_text h
  rw [List.length_cons, List.length_append]
  omega

/-! ## The tokens of a text -/

/-- The tokens of a text whose first byte stands at `offset`. -/
def tokenizeFrom (offset : Nat) : List Char → Except SyntaxError (List Token)
  | [] => .ok []
  | c :: cs =>
    match h : lexeme offset c cs with
    | .error e => .error e
    | .ok l =>
      have : l.rest.length < cs.length + 1 := lexeme_rest_length_lt h
      match tokenizeFrom (offset + Utf8.byteLength l.text) l.rest with
      | .error e => .error e
      | .ok tokens => .ok (l.token.toList ++ tokens)
termination_by text => text.length

/-- The tokens of a text, or its first error. -/
def tokenize (text : String) : Except SyntaxError (List Token) := tokenizeFrom 0 text.toList

/-- The tokens of a text. A malformed text has none. -/
def tokensIn (text : String) : List Token :=
  match tokenize text with
  | .ok tokens => tokens
  | .error _ => []

end TaskTimer
