import TaskTimer.Notation.Parser
import TaskTimer.Proofs.Text.Digit

/-!
# Spacing in the notation

Blanks separate words and mean nothing else: what a text writes depends on its words only.

* `SyntaxError.kind`: an error without its place in the text, which spacing moves.
* `lexeme_append`: a lexeme does not see what follows the word it stands in.
* `reading_append`, `reading_eq_foldr_words`: a text is read word by word.
* **`parse_congr_words`**: texts with the same words write the same nodes, or fail in the same way.
-/

namespace TaskTimer

/-- The error with every offset in the text set to zero. The character at fault, the indexes of
tokens and the limit stay. -/
def SyntaxError.kind : SyntaxError → SyntaxError
  | .invalidCharacter ch _ => .invalidCharacter ch 0
  | .missingDigits _ => .missingDigits 0
  | .missingUnit _ => .missingUnit 0
  | .numberOverflow _ => .numberOverflow 0
  | .unclosedGroup index => .unclosedGroup index
  | .unexpectedClose index => .unexpectedClose index
  | .tooDeep limit => .tooDeep limit
  | .empty => .empty

/-- The lexeme with the text `r` behind what follows it. -/
def Lexeme.before (l : Lexeme) (r : List Char) : Lexeme := { l with rest := l.rest ++ r }

theorem mapError_map {ε ε' α β : Type} (f : ε → ε') (g : α → β) (x : Except ε α) :
    (x.map g).mapError f = (x.mapError f).map g := by
  cases x <;> rfl

theorem mapError_eq_ok_iff {ε ε' α : Type} {f : ε → ε'} {x : Except ε α} {a : α} :
    x.mapError f = .ok a ↔ x = .ok a := by
  cases x <;> simp [Except.mapError]

theorem mapError_eq_error_iff {ε ε' α : Type} {f : ε → ε'} {x : Except ε α} {e : ε'} :
    x.mapError f = .error e ↔ ∃ e', x = .error e' ∧ f e' = e := by
  cases x <;> simp [Except.mapError]

/-! ## No lexeme reaches over a blank -/

theorem isSymbolChar_of_isBlank (b : Char) (hb : isBlank b = true) : isSymbolChar b = false := by
  rw [isSymbolChar, hb]
  rfl

theorem unitSeconds_of_isBlank {b : Char} (hb : isBlank b = true) : unitSeconds b = none := by
  unfold unitSeconds
  split <;> first | exact absurd hb (by decide) | rfl

theorem timeLexeme_append {r : List Char} (hr : EndsWord r) (n : Nat) (head cs : List Char) :
    timeLexeme n head (cs ++ r) = (timeLexeme n head cs).before r := by
  simp only [timeLexeme, Lexeme.before, takeWhile_append_endsWord isSymbolChar_of_isBlank hr,
    dropWhile_append_endsWord isSymbolChar_of_isBlank hr]

theorem leadingDigits?_append_endsWord {r : List Char} (hr : EndsWord r) (cs : List Char) :
    leadingDigits? (cs ++ r) = (leadingDigits? cs).map fun (digits, rest) => (digits, rest ++ r) := by
  simp only [leadingDigits?, takeWhile_append_endsWord isDigit_of_isBlank hr,
    dropWhile_append_endsWord isDigit_of_isBlank hr]
  split <;> rfl

theorem countdown_append {r : List Char} (hr : EndsWord r) (o o' : Nat) (digits rest : List Char) :
    (countdown o digits (rest ++ r)).mapError SyntaxError.kind =
      ((countdown o' digits rest).map (·.before r)).mapError SyntaxError.kind := by
  unfold countdown
  split
  · rfl
  cases rest with
  | nil =>
    cases r with
    | nil => rfl
    | cons b r =>
      rw [List.nil_append]
      simp only [unitSeconds_of_isBlank (hr b rfl)]
      rfl
  | cons u rest =>
    rw [List.cons_append]
    cases hu : unitSeconds u with
    | none =>
      simp only [hu]
      rfl
    | some unit =>
      simp only [hu]
      split
      · rfl
      · rw [timeLexeme_append hr]
        rfl

/-- **A lexeme does not see what follows its word, nor where its word stands.** -/
theorem lexeme_append {r : List Char} (hr : EndsWord r) (o o' : Nat) (c : Char) (cs : List Char) :
    (lexeme o c (cs ++ r)).mapError SyntaxError.kind =
      ((lexeme o' c cs).map (·.before r)).mapError SyntaxError.kind := by
  simp only [lexeme, ← List.cons_append, leadingDigits?_append_endsWord hr]
  split
  · rfl
  split
  · rfl
  split
  · cases leadingDigits? cs with
    | none => rfl
    | some found =>
      simp only [Option.map_some]
      split <;> rfl
  split
  · cases leadingDigits? cs with
    | none => rfl
    | some found =>
      simp only [Option.map_some]
      split
      · rfl
      · rw [timeLexeme_append hr]
        rfl
  split
  · cases leadingDigits? (c :: cs) with
    | none => rfl
    | some found => exact countdown_append hr o o' found.1 found.2
  · rfl

theorem lexeme_append_ok {r : List Char} (hr : EndsWord r) {o o' : ℕ} {c : Char} {cs : List Char}
    {l : Lexeme} (h : lexeme o' c cs = .ok l) : lexeme o c (cs ++ r) = .ok (l.before r) := by
  have key := lexeme_append hr o o' c cs
  rw [h] at key
  exact mapError_eq_ok_iff.1 key

theorem lexeme_append_error {r : List Char} (hr : EndsWord r) {o o' : ℕ} {c : Char}
    {cs : List Char} {e : SyntaxError} (h : lexeme o' c cs = .error e) :
    ∃ e', lexeme o c (cs ++ r) = .error e' ∧ e'.kind = e.kind := by
  have key := lexeme_append hr o o' c cs
  rw [h] at key
  exact mapError_eq_error_iff.1 key

/-! ## Reading word by word -/

theorem tokenizeFrom_nil (o : ℕ) : tokenizeFrom o [] = .ok [] := by
  unfold tokenizeFrom
  rfl

theorem tokenizeFrom_cons (o : ℕ) (c : Char) (cs : List Char) :
    tokenizeFrom o (c :: cs) = (lexeme o c cs).bind fun l =>
      (tokenizeFrom (o + Utf8.byteLength l.text) l.rest).map (l.token.toList ++ ·) := by
  conv => lhs; unfold tokenizeFrom
  split
  · next e h => rw [h]; rfl
  · next l h =>
    dsimp only
    rw [h, Except.bind]
    cases tokenizeFrom (o + Utf8.byteLength l.text) l.rest <;> rfl

theorem tokenizeFrom_cons_error {o : ℕ} {c : Char} {cs : List Char} {e : SyntaxError}
    (h : lexeme o c cs = .error e) : tokenizeFrom o (c :: cs) = .error e := by
  rw [tokenizeFrom_cons, h]
  rfl

theorem tokenizeFrom_cons_ok {o : ℕ} {c : Char} {cs : List Char} {l : Lexeme}
    (h : lexeme o c cs = .ok l) :
    tokenizeFrom o (c :: cs) =
      (tokenizeFrom (o + Utf8.byteLength l.text) l.rest).map (l.token.toList ++ ·) := by
  rw [tokenizeFrom_cons, h]
  rfl

/-- The tokens of a text, or what is wrong with it. -/
def reading (o : ℕ) (cs : List Char) : Except SyntaxError (List Token) :=
  (tokenizeFrom o cs).mapError SyntaxError.kind

theorem reading_nil (o : ℕ) : reading o [] = .ok [] := by
  rw [reading, tokenizeFrom_nil]
  rfl

theorem reading_cons_error {o : ℕ} {c : Char} {cs : List Char} {e : SyntaxError}
    (h : lexeme o c cs = .error e) : reading o (c :: cs) = .error e.kind := by
  rw [reading, tokenizeFrom_cons_error h]
  rfl

theorem reading_cons_ok {o : ℕ} {c : Char} {cs : List Char} {l : Lexeme}
    (h : lexeme o c cs = .ok l) :
    reading o (c :: cs) =
      (reading (o + Utf8.byteLength l.text) l.rest).map (l.token.toList ++ ·) := by
  rw [reading, reading, tokenizeFrom_cons_ok h, mapError_map]

/-- What is read does not depend on where the text starts. -/
theorem reading_offset (o o' : ℕ) : ∀ cs : List Char, reading o cs = reading o' cs
  | [] => by rw [reading_nil, reading_nil]
  | c :: cs => by
    cases h : lexeme o c cs with
    | error e =>
      obtain ⟨e', h', he⟩ := lexeme_append_error (o := o') endsWord_nil h
      rw [List.append_nil] at h'
      rw [reading_cons_error h, reading_cons_error h', he]
    | ok l =>
      have h' : lexeme o' c (cs ++ []) = .ok (l.before []) := lexeme_append_ok endsWord_nil h
      have hl : l.before [] = l := by rw [Lexeme.before, List.append_nil]
      have hlt : l.rest.length < cs.length + 1 := lexeme_rest_length_lt h
      rw [List.append_nil, hl] at h'
      rw [reading_cons_ok h, reading_cons_ok h', reading_offset _ (o' + Utf8.byteLength l.text)]
termination_by cs => cs.length

/-- What two texts write that are read one behind the other. -/
def andThen (x y : Except SyntaxError (List Token)) : Except SyntaxError (List Token) :=
  x.bind fun ts => y.map (ts ++ ·)

theorem ok_nil_andThen (y : Except SyntaxError (List Token)) : andThen (.ok []) y = y := by
  cases y <;> rfl

theorem map_andThen (ts : List Token) (x y : Except SyntaxError (List Token)) :
    andThen (x.map (ts ++ ·)) y = (andThen x y).map (ts ++ ·) := by
  cases x with
  | error e => rfl
  | ok us =>
    cases y with
    | error e => rfl
    | ok vs => exact congrArg Except.ok (List.append_assoc ts us vs)

/-- **A text is read up to the end of a word, and then from there on.** -/
theorem reading_append {r : List Char} (hr : EndsWord r) (o o' o'' : ℕ) :
    ∀ cs : List Char, reading o (cs ++ r) = andThen (reading o' cs) (reading o'' r)
  | [] => by rw [List.nil_append, reading_nil, ok_nil_andThen, reading_offset]
  | c :: cs => by
    cases h : lexeme o' c cs with
    | error e =>
      obtain ⟨e', h', he⟩ := lexeme_append_error (o := o) hr h
      rw [List.cons_append, reading_cons_error h, reading_cons_error h', he]
      rfl
    | ok l =>
      have h' : lexeme o c (cs ++ r) = .ok (l.before r) := lexeme_append_ok hr h
      have hlt : l.rest.length < cs.length + 1 := lexeme_rest_length_lt h
      rw [List.cons_append, reading_cons_ok h, reading_cons_ok h', map_andThen]
      congr 1
      exact reading_append hr _ _ o'' l.rest
termination_by cs => cs.length

theorem reading_cons_blank {b : Char} (hb : isBlank b = true) (o : ℕ) (cs : List Char) :
    reading o (b :: cs) = reading o cs := by
  have h : lexeme o b cs = .ok ⟨none, [b], cs⟩ := by rw [lexeme, if_pos hb]
  rw [reading_cons_ok h, reading_offset _ o]
  cases reading o cs <;> rfl

/-- **A text is read word by word.** -/
theorem reading_eq_foldr_words (cs : List Char) :
    reading 0 cs = (words cs).foldr (fun w x => andThen (reading 0 w) x) (.ok []) := by
  fun_induction words cs with
  | case1 => exact reading_nil 0
  | case2 c cs hc ih => rw [reading_cons_blank hc, ih]
  | case3 c cs hc ih =>
    rw [List.foldr_cons, ← ih, ← reading_append (endsWord_dropWhile cs) 0, List.cons_append,
      List.takeWhile_append_dropWhile]

/-- **Texts with the same words write the same nodes, or fail in the same way.** -/
theorem parse_congr_words {x y : String} (h : words x.toList = words y.toList) :
    (parse x).mapError SyntaxError.kind = (parse y).mapError SyntaxError.kind := by
  have hparse : ∀ z : String, (parse z).mapError SyntaxError.kind =
      (reading 0 z.toList).bind fun ts => (parseTokens ts).mapError SyntaxError.kind := by
    intro z
    rw [parse, tokenize, reading]
    cases tokenizeFrom 0 z.toList <;> rfl
  rw [hparse, hparse, reading_eq_foldr_words, h, ← reading_eq_foldr_words]

end TaskTimer
