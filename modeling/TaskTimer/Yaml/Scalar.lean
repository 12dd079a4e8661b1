import TaskTimer.Text.Basic

/-!
# YAML scalars

A scalar may run over several lines. A single line break in it counts as a space; of several, all
but the first are kept.

* `isBreak`, `isSpace`, `isGap`: the characters between words.
* `Gap`, `readGap`: the space between two words, and the text that it stands for.
* `readPlain`, `readQuoted`: the scalar at the start of a text.
-/

namespace TaskTimer.Yaml

/-- A line feed, the line separator or the paragraph separator: other breaks are replaced by line
feeds before a text is read. -/
def isBreak (c : Char) : Bool := c == '\n' || c == '\u2028' || c == '\u2029'

/-- A space or a tab. -/
def isSpace (c : Char) : Bool := c == ' ' || c == '\t'

/-- A character between words. -/
def isGap (c : Char) : Bool := isSpace c || isBreak c

/-- The text is at its end or goes on with a gap. -/
def startsWithGap (cs : List Char) : Bool := cs.head?.all isGap

/-- The mark of the start or the end of a document comes first. -/
def startsWithMark : List Char → Bool
  | a :: b :: c :: rest => a == b && b == c && (a == '-' || a == '.') && startsWithGap rest
  | _ => false

/-- The column behind some characters. -/
def columnAfter (column : Nat) (cs : List Char) : Nat :=
  cs.foldl (fun column c => if isBreak c then 0 else column + 1) column

/-! ## Gaps -/

/-- What is between two words: spaces, and the breaks behind them. Spaces around the breaks are
left out. -/
structure Gap where
  spaces : List Char := []
  breaks : List Char := []
  deriving DecidableEq, Repr

/-- The text that a gap stands for. -/
def Gap.text (g : Gap) : List Char :=
  match g.breaks with
  | [] => g.spaces
  | ['\n'] => [' ']
  | '\n' :: more => more
  | breaks => breaks

/-- The gap at the start of a text, the column behind it, and what follows. A tab left of the column
`limit` must not indent a line. -/
def readGap (limit : Nat) : Nat → Gap → List Char → Option (Gap × Nat × List Char)
  | column, g, [] => some (g, column, [])
  | column, g, c :: cs =>
    if isBreak c then readGap limit 0 { g with breaks := g.breaks ++ [c] } cs
    else if isSpace c then
      if g.breaks.isEmpty then readGap limit (column + 1) { g with spaces := g.spaces ++ [c] } cs
      else if c == '\t' && column < limit then none
      else readGap limit (column + 1) g cs
    else some (g, column, c :: cs)

theorem length_readGap {limit column : Nat} {g g' : Gap} {cs rest : List Char} {column' : Nat}
    (h : readGap limit column g cs = some (g', column', rest)) : rest.length ≤ cs.length := by
  induction cs generalizing column g with
  | nil => simp_all [readGap]
  | cons c cs ih =>
    simp only [readGap] at h
    simp only [List.length_cons]
    split at h
    · have := ih h; omega
    · split at h
      · split at h
        · have := ih h; omega
        · split at h
          · simp at h
          · have := ih h; omega
      · simp only [Option.some.injEq, Prod.mk.injEq] at h
        rw [← h.2.2]
        exact Nat.le_refl _

/-! ## Scalars without quotation marks -/

/-- The characters that end a word between brackets. -/
def isBracketMark (c : Char) : Bool :=
  c == ',' || c == '[' || c == ']' || c == '{' || c == '}'

/-- The first word of a scalar, and what follows. Between brackets a colon right before a mark is an
error. -/
def readWord (inFlow : Bool) : List Char → Option (List Char × List Char)
  | [] => some ([], [])
  | c :: cs =>
    if isGap c || (c == ':' && startsWithGap cs) || (inFlow && isBracketMark c) then
      some ([], c :: cs)
    else if inFlow && c == ':' && cs.head?.any fun d => isBracketMark d || d == '?' then none
    else (readWord inFlow cs).map fun (word, rest) => (c :: word, rest)

theorem length_readWord {inFlow : Bool} {cs word rest : List Char}
    (h : readWord inFlow cs = some (word, rest)) : word.length + rest.length = cs.length := by
  induction cs generalizing word with
  | nil => simp_all [readWord]
  | cons c cs ih =>
    simp only [readWord] at h
    split at h
    · simp only [Option.some.injEq, Prod.mk.injEq] at h
      simp [← h.1, ← h.2]
    · split at h
      · simp at h
      · obtain ⟨⟨w, r⟩, hw, he⟩ := Option.map_eq_some_iff.1 h
        simp only [Prod.mk.injEq] at he
        have := ih (he.2 ▸ hw)
        simp only [← he.1, List.length_cons]
        omega

/-- A scalar that has been read, and what follows it. -/
structure Scanned where
  text : List Char
  rest : List Char
  /-- The column of what follows. -/
  column : Nat
  /-- A line break has been passed. -/
  crossed : Bool
  deriving DecidableEq, Repr

/-- The scalar without quotation marks that starts at `column`. Its further lines have to start at
the column `limit` or to the right of it, except between brackets. -/
def readPlain (inFlow : Bool) (limit column : Nat) (cs : List Char) : Option Scanned :=
  match hw : readWord inFlow cs with
  | none => none
  | some (word, afterWord) =>
    if hne : word = [] then some { text := [], rest := cs, column := column, crossed := false }
    else
      match hg : readGap limit (column + word.length) {} afterWord with
      | none => none
      | some (gap, next, rest) =>
        let last : Scanned :=
          { text := word, rest := rest, column := next, crossed := !gap.breaks.isEmpty }
        let ends := rest.head? == some '#' || (next == 0 && startsWithMark rest) ||
          (!inFlow && next < limit)
        if ends then some last
        else
          have : rest.length < cs.length := by
            have h₁ := length_readWord hw
            have h₂ := length_readGap hg
            have h₃ := List.length_pos_iff.2 hne
            omega
          match readPlain inFlow limit next rest with
          | none => none
          | some more =>
            if more.text.isEmpty then some last
            else
              some
                { more with
                  text := word ++ gap.text ++ more.text
                  crossed := last.crossed || more.crossed }
termination_by cs.length

/-! ## Scalars between quotation marks -/

/-- The character of an escape that is a single letter. -/
def shortEscape? : Char → Option Char
  | '0' => some '\x00'
  | 'a' => some '\x07'
  | 'b' => some '\x08'
  | 't' | '\t' => some '\t'
  | 'n' => some '\n'
  | 'v' => some '\x0b'
  | 'f' => some '\x0c'
  | 'r' => some '\r'
  | 'e' => some '\x1b'
  | ' ' => some ' '
  | '"' => some '"'
  | '/' => some '/'
  | '\\' => some '\\'
  | 'N' => some '\u0085'
  | '_' => some '\u00a0'
  | 'L' => some '\u2028'
  | 'P' => some '\u2029'
  | _ => none

/-- The number of hexadecimal digits behind the letter of an escape. -/
def escapeWidth? : Char → Option Nat
  | 'x' => some 2
  | 'u' => some 4
  | 'U' => some 8
  | _ => none

/-- The character with a code point, if there is one. -/
def charOf? (n : Nat) : Option Char := if n.isValidChar then some (Char.ofNat n) else none

/-- The character that an escape stands for, and what follows the escape. The text starts behind the
backslash. -/
def readEscape : List Char → Option (Char × List Char)
  | [] => none
  | c :: cs =>
    match shortEscape? c, escapeWidth? c with
    | some d, _ => some (d, cs)
    | none, none => none
    | none, some width => do
      let digits := cs.take width
      if digits.length < width then none
      else
        let values ← digits.mapM hexValue?
        let d ← charOf? (values.foldl (fun n v => n * 16 + v) 0)
        return (d, cs.drop width)

theorem length_readEscape {cs rest : List Char} {d : Char} (h : readEscape cs = some (d, rest)) :
    rest.length < cs.length := by
  cases cs with
  | nil => simp [readEscape] at h
  | cons c cs =>
    simp only [readEscape] at h
    split at h
    · simp only [Option.some.injEq, Prod.mk.injEq] at h
      simp [← h.2]
    · simp at h
    · split at h
      · simp at h
      · simp only [Option.bind_eq_bind, Option.bind_eq_some_iff, Option.pure_def,
          Option.some.injEq, Prod.mk.injEq] at h
        obtain ⟨_, _, _, _, _, rfl⟩ := h
        simp only [List.length_drop, List.length_cons]
        omega

/-- The text up to the quotation mark that ends the scalar, and what follows it. Between double
quotation marks a backslash starts an escape; between single ones the mark is doubled to stand for
itself. The mark of a document must not come first in a line. -/
def readQuoted (double : Bool) : List Char → Option (List Char × List Char)
  | [] => none
  | c :: cs =>
    if double && c == '"' then some ([], cs)
    else if double && c == '\\' then
      if cs.head?.any isBreak then
        match hg : readGap 0 0 {} (cs.drop 1) with
        | none => none
        | some (gap, next, rest) =>
          have : rest.length < cs.length + 1 := by
            have := length_readGap hg
            rw [List.length_drop] at this
            omega
          if next == 0 && startsWithMark rest then none
          else (readQuoted double rest).map fun (text, rest) => (gap.breaks ++ text, rest)
      else
        match he : readEscape cs with
        | none => none
        | some (d, rest) =>
          have : rest.length < cs.length + 1 := by
            have := length_readEscape he
            omega
          (readQuoted double rest).map fun (text, rest) => (d :: text, rest)
    else if !double && c == '\x27' then
      match cs with
      | '\x27' :: cs => (readQuoted double cs).map fun (text, rest) => (c :: text, rest)
      | cs => some ([], cs)
    else if isGap c then
      match hg : readGap 0 1 {} (c :: cs) with
      | none => none
      | some (gap, next, rest) =>
        if next == 0 && startsWithMark rest then none
        else if hlt : rest.length < cs.length + 1 then
          (readQuoted double rest).map fun (text, rest) => (gap.text ++ text, rest)
        else none
    else (readQuoted double cs).map fun (text, rest) => (c :: text, rest)
termination_by cs => cs.length

end TaskTimer.Yaml
