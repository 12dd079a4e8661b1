import TaskTimer.Proofs.Notation.Spelling

/-!
# The grammar of the notation

A text is cut from left to right, each time by the longest lexeme, until it is used up or nothing
fits.

* `Written`: the lexemes, each in front of the text that follows it.
* `Fault`: the places where no lexeme fits, with the error that points there.
* `written_or_fault`: every text that is not empty starts with one or the other.
* `Cut`: a text that is cut into lexemes, up to what is left of it.
* `Cut.keeps`: what was cut off is cut off in the same way in front of another text.
* **`tokenize_iff_cut`**: a text has tokens exactly when it can be cut up to its end.
* **`tokenize_error_iff_fault`**: a text has an error exactly when it can be cut up to a fault.
-/

namespace TaskTimer

open Utf8 (byteLength)

/-! ## Lexemes and faults -/

/-- The text in front of `rest` is a lexeme with this token, and no longer piece is one. A lexeme
without a token is a blank. -/
inductive Written (rest : List Char) : Option Token → List Char → Prop
  | blank {b : Char} (hb : isBlank b = true) : Written rest none [b]
  | openGroup : Written rest (some .openGroup) ['(']
  | closeGroup {loopCount : UInt32} {count : List Char} (counts : CountSpelling loopCount count)
      (ends : EndsDigits rest) : Written rest (some (.closeGroup loopCount)) (')' :: count)
  | minutes {seconds : UInt64} {symbol : Option String} {digits mark : List Char} {n : ℕ}
      (numeral : IsNumeral digits n) (value : 60 * n = seconds.toNat)
      (shows : SymbolSpelling symbol mark) (apart : EndsDigits (mark ++ rest))
      (ends : EndsMark rest) : Written rest (some (.time seconds symbol)) ('p' :: digits ++ mark)
  | amount {seconds : UInt64} {symbol : Option String} {digits mark : List Char} {n unit : ℕ}
      {u : Char} (numeral : IsNumeral digits n) (letter : UnitLetter u unit)
      (value : unit * n = seconds.toNat) (shows : SymbolSpelling symbol mark)
      (ends : EndsMark rest) : Written rest (some (.time seconds symbol)) (digits ++ u :: mark)

/-- No lexeme fits where `before` ends and the given text goes on. The error names the place in
bytes, as the length of a start of the text. -/
inductive Fault (before : List Char) : List Char → SyntaxError → Prop
  | invalidCharacter {c : Char} {rest : List Char} (other : StartsNothing c) :
      Fault before (c :: rest) (.invalidCharacter c (byteLength before))
  | missingDigits {rest : List Char} (none : EndsDigits rest) :
      Fault before ('p' :: rest) (.missingDigits (byteLength (before ++ ['p'])))
  | missingUnit {digits rest : List Char} {n : ℕ} (numeral : IsNumeral digits n)
      (fits : n < UInt64.size) (ends : EndsDigits rest)
      (bare : ∀ u ∈ rest.head?, ∀ unit, ¬ UnitLetter u unit) :
      Fault before (digits ++ rest) (.missingUnit (byteLength (before ++ digits)))
  | count {digits rest : List Char} {n : ℕ} (numeral : IsNumeral digits n)
      (ends : EndsDigits rest) (large : UInt32.size ≤ n) :
      Fault before (')' :: (digits ++ rest)) (.numberOverflow (byteLength (before ++ [')'])))
  | minutes {digits rest : List Char} {n : ℕ} (numeral : IsNumeral digits n)
      (ends : EndsDigits rest) (large : UInt64.size ≤ 60 * n) :
      Fault before ('p' :: (digits ++ rest)) (.numberOverflow (byteLength (before ++ ['p'])))
  | amount {digits rest : List Char} {n : ℕ} (numeral : IsNumeral digits n)
      (ends : EndsDigits rest) (large : UInt64.size ≤ n) :
      Fault before (digits ++ rest) (.numberOverflow (byteLength before))
  | product {digits rest : List Char} {n unit : ℕ} {u : Char} (numeral : IsNumeral digits n)
      (letter : UnitLetter u unit) (large : UInt64.size ≤ unit * n) :
      Fault before (digits ++ u :: rest) (.numberOverflow (byteLength before))

theorem byteLength_append (a b : List Char) :
    byteLength (a ++ b) = byteLength a + byteLength b := by
  induction a with
  | nil => exact (Nat.zero_add _).symm
  | cons c a ih =>
    have hcons : ∀ cs, byteLength (c :: cs) = c.utf8Size + byteLength cs := fun _ => rfl
    rw [List.cons_append, hcons, hcons, ih, Nat.add_assoc]

/-! ## Both are what the tokenizer finds -/

theorem unitLetter_iff {u : Char} {unit : ℕ} : UnitLetter u unit ↔ unitSeconds u = some unit := by
  refine ⟨UnitLetter.unitSeconds, fun h => ?_⟩
  unfold unitSeconds at h
  split at h <;> cases h
  · exact .hours
  · exact .minutes
  · exact .seconds

theorem Written.lexeme_eq {rest text : List Char} {token : Option Token}
    (h : Written rest token text) (o : ℕ) :
    ∃ c cs, text = c :: cs ∧ lexeme o c (cs ++ rest) = .ok ⟨token, text, rest⟩ := by
  cases h with
  | blank hb => exact ⟨_, [], rfl, lexeme_blank hb o rest⟩
  | openGroup => exact ⟨'(', [], rfl, lexeme_open o rest⟩
  | closeGroup counts ends => exact ⟨')', _, rfl, lexeme_count counts ends o⟩
  | @minutes _ _ digits mark _ numeral value shows apart ends =>
    refine ⟨'p', digits ++ mark, rfl, ?_⟩
    rw [List.append_assoc, lexeme_minutesSpelling numeral value shows apart ends]
  | @amount _ _ digits mark _ _ u numeral letter value shows ends =>
    cases digits with
    | nil => exact absurd rfl numeral.ne_nil
    | cons d ds =>
      refine ⟨d, ds ++ u :: mark, rfl, ?_⟩
      rw [List.append_assoc, List.cons_append, lexeme_amount numeral letter value shows ends]

theorem IsNumeral.lexeme_eq {digits rest : List Char} {n : ℕ} (numeral : IsNumeral digits n)
    (ends : EndsDigits rest) (o : ℕ) :
    ∃ c cs, digits ++ rest = c :: cs ∧ lexeme o c cs = countdown o digits rest := by
  obtain ⟨ne_nil, isDigit, -⟩ := numeral
  cases digits with
  | nil => exact absurd rfl ne_nil
  | cons d ds =>
    exact ⟨d, ds ++ rest, rfl,
      lexeme_digit (fun c hc => isDigit c (List.mem_cons_of_mem d hc)) ends
        (isDigit d List.mem_cons_self) o⟩

theorem Fault.lexeme_eq {before text : List Char} {e : SyntaxError} (h : Fault before text e) :
    ∃ c cs, text = c :: cs ∧ lexeme (byteLength before) c cs = .error e := by
  cases h with
  | invalidCharacter other => exact ⟨_, _, rfl, lexeme_invalid other _ _⟩
  | @missingDigits rest none =>
    refine ⟨'p', rest, rfl, ?_⟩
    rw [byteLength_append]
    exact @lexeme_minutes [] rest (fun c hc => nomatch hc) none _
  | missingUnit numeral fits ends bare =>
    obtain ⟨c, cs, htext, hlexeme⟩ := numeral.lexeme_eq ends (byteLength before)
    obtain ⟨-, -, rfl⟩ := numeral
    refine ⟨c, cs, htext, ?_⟩
    rw [hlexeme, byteLength_append, countdown_bare _ fits]
    exact fun u hu => Option.eq_none_iff_forall_ne_some.2 fun unit hunit =>
      bare u hu unit (unitLetter_iff.2 hunit)
  | count numeral ends large =>
    obtain ⟨-, isDigit, rfl⟩ := numeral
    refine ⟨')', _, rfl, ?_⟩
    rw [lexeme_close isDigit ends, if_neg (Nat.not_lt.2 large), byteLength_append]
    rfl
  | minutes numeral ends large =>
    obtain ⟨ne_nil, isDigit, rfl⟩ := numeral
    refine ⟨'p', _, rfl, ?_⟩
    rw [lexeme_minutes isDigit ends, if_neg (by rwa [List.isEmpty_iff]), if_pos large,
      byteLength_append]
    rfl
  | amount numeral ends large =>
    obtain ⟨c, cs, htext, hlexeme⟩ := numeral.lexeme_eq ends (byteLength before)
    obtain ⟨-, -, rfl⟩ := numeral
    exact ⟨c, cs, htext, hlexeme.trans (countdown_large _ large)⟩
  | @product digits rest n unit u numeral letter large =>
    obtain ⟨c, cs, htext, hlexeme⟩ :=
      numeral.lexeme_eq (endsDigits_cons letter.isDigit rest) (byteLength before)
    obtain ⟨-, -, rfl⟩ := numeral
    refine ⟨c, cs, htext, ?_⟩
    rw [hlexeme, countdown_unit _ letter.unitSeconds letter.pos, if_pos large]

/-! ## One or the other -/

theorem timeLexeme_eq (n : ℕ) (head rest : List Char) :
    ∃ symbol mark r, rest = mark ++ r ∧ SymbolSpelling symbol mark ∧ EndsMark r ∧
      timeLexeme n head rest = ⟨some (.time (UInt64.ofNat n) symbol), head ++ mark, r⟩ := by
  have hends : EndsMark (rest.dropWhile isSymbolChar) := by
    intro c hc
    have h := List.head?_dropWhile_not isSymbolChar rest
    rw [Option.mem_def.1 hc] at h
    simpa using h
  refine ⟨_, rest.takeWhile isSymbolChar, rest.dropWhile isSymbolChar,
    List.takeWhile_append_dropWhile.symm, ?_, hends, rfl⟩
  by_cases hmark : rest.takeWhile isSymbolChar = []
  · rw [hmark]
    exact .absent
  · rw [if_neg (by rwa [List.isEmpty_iff])]
    refine .shown _ hmark fun c hc => ?_
    have hsymbol := List.mem_takeWhile_imp hc
    rw [isSymbolChar, Bool.and_eq_true, Bool.not_eq_true', bne_iff_ne] at hsymbol
    exact hsymbol

theorem countSpelling_of_lt {digits : List Char} (isDigit : ∀ c ∈ digits, c.isDigit = true)
    (fits : readDecimal digits < UInt32.size) :
    CountSpelling (UInt32.ofNat (readDecimal digits)) digits := by
  by_cases hne : digits = []
  · rw [hne]
    exact .omitted
  · refine .written digits ⟨hne, isDigit, ?_⟩
    rw [UInt32.toNat_ofNat', Nat.mod_eq_of_lt fits]

theorem toNat_ofNat_of_not_le {n : ℕ} (fits : ¬ UInt64.size ≤ n) : n = (UInt64.ofNat n).toNat := by
  rw [UInt64.toNat_ofNat', Nat.mod_eq_of_lt (Nat.lt_of_not_le fits)]

/-- **Every text that is not empty starts with a lexeme or with a fault.** -/
theorem written_or_fault (before : List Char) (c : Char) (cs : List Char) :
    (∃ token text rest, c :: cs = text ++ rest ∧ Written rest token text) ∨
      ∃ e, Fault before (c :: cs) e := by
  obtain ⟨digits, rest, rfl, isDigit, ends⟩ : ∃ digits rest, cs = digits ++ rest ∧
      (∀ d ∈ digits, d.isDigit = true) ∧ EndsDigits rest :=
    ⟨cs.takeWhile Char.isDigit, cs.dropWhile Char.isDigit, List.takeWhile_append_dropWhile.symm,
      isDigit_of_mem_takeWhile, endsDigits_dropWhile cs⟩
  by_cases hblank : isBlank c = true
  · exact .inl ⟨none, [c], _, rfl, .blank hblank⟩
  by_cases hopen : c = '('
  · rw [hopen]
    exact .inl ⟨some .openGroup, ['('], _, rfl, .openGroup⟩
  by_cases hclose : c = ')'
  · subst hclose
    by_cases fits : readDecimal digits < UInt32.size
    · exact .inl ⟨_, ')' :: digits, rest, rfl, .closeGroup (countSpelling_of_lt isDigit fits) ends⟩
    · have hne : digits ≠ [] := by
        rintro rfl
        exact fits (by decide)
      exact .inr ⟨_, .count ⟨hne, isDigit, rfl⟩ ends (Nat.le_of_not_lt fits)⟩
  by_cases hminutes : c = 'p'
  · subst hminutes
    by_cases hne : digits = []
    · rw [hne]
      exact .inr ⟨_, .missingDigits ends⟩
    have numeral : IsNumeral digits (readDecimal digits) := ⟨hne, isDigit, rfl⟩
    by_cases large : UInt64.size ≤ 60 * readDecimal digits
    · exact .inr ⟨_, .minutes numeral ends large⟩
    obtain ⟨symbol, mark, r, rfl, shows, hr, -⟩ :=
      timeLexeme_eq (60 * readDecimal digits) ('p' :: digits) rest
    exact .inl ⟨_, 'p' :: digits ++ mark, r, by simp,
      .minutes numeral (toNat_ofNat_of_not_le large) shows ends hr⟩
  by_cases hdigit : c.isDigit = true
  · have numeral : IsNumeral (c :: digits) (readDecimal (c :: digits)) :=
      ⟨List.cons_ne_nil _ _, List.forall_mem_cons.2 ⟨hdigit, isDigit⟩, rfl⟩
    by_cases large : UInt64.size ≤ readDecimal (c :: digits)
    · exact .inr ⟨_, .amount numeral ends large⟩
    by_cases hunit : ∃ u after unit, rest = u :: after ∧ UnitLetter u unit
    · obtain ⟨u, after, unit, rfl, letter⟩ := hunit
      by_cases hproduct : UInt64.size ≤ unit * readDecimal (c :: digits)
      · exact .inr ⟨_, .product numeral letter hproduct⟩
      obtain ⟨symbol, mark, r, rfl, shows, hr, -⟩ :=
        timeLexeme_eq (unit * readDecimal (c :: digits)) (c :: digits) after
      exact .inl ⟨_, c :: digits ++ u :: mark, r, by simp,
        .amount numeral letter (toNat_ofNat_of_not_le hproduct) shows hr⟩
    · refine .inr ⟨_, .missingUnit numeral (Nat.lt_of_not_le large) ends fun u hu unit letter => ?_⟩
      obtain ⟨after, rfl⟩ := List.head?_eq_some_iff.1 (Option.mem_def.1 hu)
      exact hunit ⟨u, after, unit, rfl, letter⟩
  · exact .inr ⟨_, .invalidCharacter ⟨Bool.eq_false_iff.2 hblank, hopen, hclose, hminutes,
      Bool.eq_false_iff.2 hdigit⟩⟩

/-! ## Cutting a text -/

/-- The text is cut from left to right into lexemes, with these tokens, down to what is left. -/
inductive Cut : List Char → List Token → List Char → Prop
  | stop (left : List Char) : Cut left [] left
  | next {token : Option Token} {text rest : List Char} {tokens : List Token} {left : List Char}
      (first : Written rest token text) (later : Cut rest tokens left) :
      Cut (text ++ rest) (token.toList ++ tokens) left

theorem Cut.tokenizeFrom_eq {text left : List Char} {tokens : List Token}
    (h : Cut text tokens left) :
    ∃ before, text = before ++ left ∧ ∀ o, tokenizeFrom o text =
      (tokenizeFrom (o + byteLength before) left).map (tokens ++ ·) := by
  induction h with
  | stop left =>
    refine ⟨[], rfl, fun o => ?_⟩
    change _ = (tokenizeFrom o left).map _
    cases tokenizeFrom o left <;> rfl
  | @next token text rest tokens left first later ih =>
    obtain ⟨before, rfl, ih⟩ := ih
    refine ⟨text ++ before, (List.append_assoc ..).symm, fun o => ?_⟩
    obtain ⟨c, cs, rfl, hlexeme⟩ := first.lexeme_eq o
    rw [List.cons_append, tokenizeFrom_cons_ok hlexeme, ih, map_append_map, byteLength_append,
      Nat.add_assoc]

theorem Cut.reading_eq {text left : List Char} {tokens : List Token} (h : Cut text tokens left) :
    reading 0 text = (reading 0 left).map (tokens ++ ·) := by
  obtain ⟨before, -, hread⟩ := h.tokenizeFrom_eq
  rw [reading, hread, mapError_map, reading_offset 0 (0 + byteLength before) left, reading]

/-- **A text can be cut up to its end, or up to a fault.** -/
theorem tokenizeFrom_cases (before : List Char) : ∀ text : List Char,
    (∃ tokens, tokenizeFrom (byteLength before) text = .ok tokens ∧ Cut text tokens []) ∨
      ∃ e cut tokens left, tokenizeFrom (byteLength before) text = .error e ∧
        text = cut ++ left ∧ Cut text tokens left ∧ Fault (before ++ cut) left e
  | [] => .inl ⟨[], tokenizeFrom_nil _, .stop []⟩
  | c :: cs => by
    rcases written_or_fault before c cs with ⟨token, text, rest, htext, first⟩ | ⟨e, fault⟩
    · obtain ⟨c', cs', rfl, hlexeme⟩ := first.lexeme_eq (byteLength before)
      rw [List.cons_append] at htext
      obtain ⟨rfl, rfl⟩ := List.cons.inj htext
      have : rest.length < (cs' ++ rest).length + 1 := by
        rw [List.length_append]
        omega
      rw [tokenizeFrom_cons_ok hlexeme, ← byteLength_append]
      rcases tokenizeFrom_cases (before ++ c :: cs') rest with
        ⟨tokens, hok, later⟩ | ⟨e, cut, tokens, left, herror, rfl, later, fault⟩
      · exact .inl ⟨_, congrArg _ hok, .next first later⟩
      · refine .inr ⟨e, c :: cs' ++ cut, _, left, congrArg _ herror, by simp, .next first later, ?_⟩
        rwa [← List.append_assoc]
    · obtain ⟨c', cs', hcons, hlexeme⟩ := fault.lexeme_eq
      obtain ⟨rfl, rfl⟩ := List.cons.inj hcons
      refine .inr ⟨e, [], [], c :: cs, tokenizeFrom_cons_error hlexeme, rfl, .stop _, ?_⟩
      rwa [List.append_nil]
termination_by text => text.length

/-! ## What was cut off stays cut off -/

theorem stops_append {p : Char → Bool} {a r r' : List Char}
    (h : (∀ c ∈ r.head?, p c = false) → ∀ c ∈ r'.head?, p c = false)
    (ha : ∀ c ∈ (a ++ r).head?, p c = false) : ∀ c ∈ (a ++ r').head?, p c = false := by
  cases a with
  | nil => exact h ha
  | cons c a => exact ha

section Keeps

variable {left left' : List Char} (hdigits : EndsDigits left → EndsDigits left')
  (hmark : EndsMark left → EndsMark left')

include hdigits hmark

theorem Written.keeps {token : Option Token} {text : List Char} (h : Written left token text) :
    Written left' token text := by
  cases h with
  | blank hb => exact .blank hb
  | openGroup => exact .openGroup
  | closeGroup counts ends => exact .closeGroup counts (hdigits ends)
  | minutes numeral value shows apart ends =>
    exact .minutes numeral value shows (stops_append hdigits apart) (hmark ends)
  | amount numeral letter value shows ends =>
    exact .amount numeral letter value shows (hmark ends)

/-- **What was cut off is cut off in the same way in front of another text**, if that does not go on
where the first one does not. -/
theorem Cut.keeps {text : List Char} {tokens : List Token} (h : Cut text tokens left)
    {before : List Char} (htext : text = before ++ left) : Cut (before ++ left') tokens left' := by
  induction h generalizing before with
  | stop left =>
    rw [List.self_eq_append_left.1 htext]
    exact .stop left'
  | @next token text rest tokens left first later ih =>
    obtain ⟨between, rfl, -⟩ := later.tokenizeFrom_eq
    rw [← List.append_assoc, List.append_cancel_right_eq] at htext
    rw [← htext, List.append_assoc]
    exact .next (first.keeps (stops_append hdigits) (stops_append hmark)) (ih hdigits hmark rfl)

end Keeps

theorem Cut.tokenize_before {before left : List Char} {tokens : List Token}
    (h : Cut (before ++ left) tokens left) : tokenize (.ofList before) = .ok tokens := by
  have hcut : Cut before tokens [] := by
    have hkept := h.keeps (fun _ => endsDigits_nil) (fun _ => endsMark_nil) rfl
    rwa [List.append_nil] at hkept
  obtain ⟨_, -, hread⟩ := hcut.tokenizeFrom_eq
  rw [tokenize, String.toList_ofList, hread, tokenizeFrom_nil]
  exact congrArg Except.ok (List.append_nil tokens)

/-! ## Zeros in front of a number -/

/-- The second text has some more zeros than the first one in front of a number: of a countdown,
behind a `p`, or behind a `)`. -/
inductive ZeroPadded : List Char → List Char → Prop
  | pad {before mark digits after : List Char} {tokens : List Token} (k : ℕ)
      (cut : Cut (before ++ (mark ++ (digits ++ after))) tokens (mark ++ (digits ++ after)))
      (opens : mark ∈ [[], ['p'], [')']]) (ne_nil : digits ≠ [])
      (isDigit : ∀ d ∈ digits, d.isDigit = true) :
      ZeroPadded (before ++ (mark ++ (digits ++ after)))
        (before ++ (mark ++ (List.replicate k '0' ++ digits ++ after)))

/-- What a lexeme contributes to the tokens, and where it ends, without its place in the text. -/
def meaning (x : Except SyntaxError Lexeme) : Except SyntaxError (Option Token × List Char) :=
  (x.map fun l => (l.token, l.rest)).mapError SyntaxError.kind

theorem reading_eq_meaning (c : Char) (cs : List Char) :
    reading 0 (c :: cs) = (meaning (lexeme 0 c cs)).bind fun r =>
      (reading 0 r.2).map (r.1.toList ++ ·) := by
  cases h : lexeme 0 c cs with
  | error e =>
    rw [reading_cons_error h]
    rfl
  | ok l =>
    rw [reading_cons h]
    rfl

theorem reading_congr {c c' : Char} {cs cs' : List Char}
    (h : meaning (lexeme 0 c cs) = meaning (lexeme 0 c' cs')) :
    reading 0 (c :: cs) = reading 0 (c' :: cs') := by
  rw [reading_eq_meaning, h, ← reading_eq_meaning]

theorem meaning_countdown_zeros (k : ℕ) (digits rest : List Char) :
    meaning (countdown 0 (List.replicate k '0' ++ digits) rest) =
      meaning (countdown 0 digits rest) := by
  unfold countdown
  rw [readDecimal_zeros]
  split
  · rfl
  cases rest with
  | nil => rfl
  | cons u rest =>
    dsimp only
    cases unitSeconds u with
    | none => rfl
    | some unit =>
      dsimp only
      split <;> rfl

theorem reading_zeros {mark digits after : List Char} (k : ℕ)
    (opens : mark ∈ [[], ['p'], [')']]) (ne_nil : digits ≠ [])
    (isDigit : ∀ d ∈ digits, d.isDigit = true) :
    reading 0 (mark ++ (List.replicate k '0' ++ digits ++ after)) =
      reading 0 (mark ++ (digits ++ after)) := by
  -- the whole run of digits, of which `digits` may be a part
  obtain ⟨run, rest, hrun, hne, hdigit, ends⟩ : ∃ run rest, digits ++ after = run ++ rest ∧
      run ≠ [] ∧ (∀ d ∈ run, d.isDigit = true) ∧ EndsDigits rest := by
    refine ⟨digits ++ after.takeWhile Char.isDigit, after.dropWhile Char.isDigit, ?_, ?_, ?_,
      endsDigits_dropWhile after⟩
    · rw [List.append_assoc, List.takeWhile_append_dropWhile]
    · exact fun h => ne_nil (List.append_eq_nil_iff.1 h).1
    · exact fun d hd => (List.mem_append.1 hd).elim (isDigit d) (isDigit_of_mem_takeWhile d)
  have hzeros : ∀ d ∈ List.replicate k '0' ++ run, d.isDigit = true := fun d hd =>
    (List.mem_append.1 hd).elim (fun h => by rw [List.eq_of_mem_replicate h]; rfl) (hdigit d)
  have hne' : List.replicate k '0' ++ run ≠ [] := fun h => hne (List.append_eq_nil_iff.1 h).2
  have hpadded : List.replicate k '0' ++ digits ++ after = List.replicate k '0' ++ run ++ rest := by
    rw [List.append_assoc, hrun, List.append_assoc]
  rw [hpadded, hrun]
  simp only [List.mem_cons, List.not_mem_nil, or_false] at opens
  rcases opens with rfl | rfl | rfl
  · obtain ⟨c, cs, hcs, hlexeme⟩ := IsNumeral.lexeme_eq ⟨hne, hdigit, rfl⟩ ends 0
    obtain ⟨c', cs', hcs', hlexeme'⟩ := IsNumeral.lexeme_eq ⟨hne', hzeros, rfl⟩ ends 0
    rw [List.nil_append, List.nil_append, hcs, hcs']
    refine reading_congr ?_
    rw [hlexeme, hlexeme', meaning_countdown_zeros]
  · rw [List.singleton_append, List.singleton_append]
    refine reading_congr ?_
    rw [lexeme_minutes hdigit ends, lexeme_minutes hzeros ends, readDecimal_zeros,
      if_neg (mt List.isEmpty_iff.1 hne'), if_neg (mt List.isEmpty_iff.1 hne)]
    split <;> rfl
  · rw [List.singleton_append, List.singleton_append]
    refine reading_congr ?_
    rw [lexeme_close hdigit ends, lexeme_close hzeros ends, readDecimal_zeros]
    split <;> rfl

theorem not_ends_of_isDigit {d : Char} (hd : d.isDigit = true) (r : List Char) :
    ¬ EndsDigits (d :: r) ∧ ¬ EndsMark (d :: r) := by
  have hdigits : ¬ EndsDigits (d :: r) := fun h => by
    rw [h d rfl] at hd
    cases hd
  exact ⟨hdigits, fun h => hdigits h.endsDigits⟩

theorem ZeroPadded.reading_eq {text padded : List Char} (h : ZeroPadded text padded) :
    reading 0 padded = reading 0 text := by
  cases h with
  | @pad before mark digits after tokens k cut opens ne_nil isDigit =>
  have hkept : Cut (before ++ (mark ++ (List.replicate k '0' ++ digits ++ after))) tokens
      (mark ++ (List.replicate k '0' ++ digits ++ after)) := by
    cases mark with
    | cons m mark => refine cut.keeps ?_ ?_ rfl <;> exact fun h => h
    | nil =>
      -- nothing that is cut off here could have gone on with a digit
      cases digits with
      | nil => exact absurd rfl ne_nil
      | cons d ds =>
        obtain ⟨hdigits, hmark⟩ :=
          not_ends_of_isDigit (isDigit d List.mem_cons_self) (ds ++ after)
        exact cut.keeps (fun h => absurd h hdigits) (fun h => absurd h hmark) rfl
  rw [hkept.reading_eq, cut.reading_eq, reading_zeros k opens ne_nil isDigit]

/-! ## The tokens of a text -/

theorem cut_nil_iff {text : List Char} : Cut text [] [] ↔ IsGap text := by
  constructor
  · intro h
    generalize htokens : ([] : List Token) = tokens, hleft : ([] : List Char) = left at h
    induction h with
    | stop left => rw [← hleft]; exact fun c hc => nomatch hc
    | @next token text rest tokens left first later ih =>
      cases token with
      | some token => cases htokens
      | none =>
        cases first with
        | blank hb => exact List.forall_mem_cons.2 ⟨hb, ih htokens hleft⟩
  · intro h
    induction text with
    | nil => exact .stop []
    | cons c text ih =>
      rw [IsGap, List.forall_mem_cons] at h
      exact .next (.blank h.1) (ih h.2)

theorem Cut.tokenize_eq {text : String} {tokens : List Token} (h : Cut text.toList tokens []) :
    tokenize text = .ok tokens := by
  rw [← List.append_nil text.toList] at h
  rw [← h.tokenize_before, String.ofList_toList]

/-- **A text has tokens exactly when it can be cut into lexemes up to its end, by longest match**,
and they are those of its lexemes. -/
theorem tokenize_iff_cut (text : String) :
    (∀ tokens, tokenize text = .ok tokens ↔ Cut text.toList tokens []) ∧
      (∀ tokens, Cut text.toList tokens [] → tokensIn text = tokens) ∧
      (tokensIn text = [] ↔ (¬ ∃ tokens, Cut text.toList tokens []) ∨ IsGap text.toList) ∧
      ∀ padded : String, ZeroPadded text.toList padded.toList →
        (tokenize padded).mapError SyntaxError.kind =
          (tokenize text).mapError SyntaxError.kind := by
  have hcut : ∀ tokens, tokenize text = .ok tokens ↔ Cut text.toList tokens [] := by
    refine fun tokens => ⟨fun h => ?_, Cut.tokenize_eq⟩
    rcases tokenizeFrom_cases [] text.toList with ⟨tokens', hok, later⟩ | ⟨e, _, _, _, herror, -⟩
    · obtain rfl : tokens = tokens' := Except.ok.inj (h.symm.trans hok)
      exact later
    · exact nomatch h.symm.trans herror
  have hlenient : ∀ tokens, Cut text.toList tokens [] → tokensIn text = tokens := fun tokens h => by
    rw [tokensIn, h.tokenize_eq]
  refine ⟨hcut, hlenient, ⟨fun hnone => ?_, ?_⟩, fun padded h => h.reading_eq⟩
  · cases ht : tokenize text with
    | error e => exact .inl fun ⟨tokens, h⟩ => nomatch ht.symm.trans h.tokenize_eq
    | ok tokens =>
      rw [tokensIn, ht] at hnone
      subst hnone
      exact .inr (cut_nil_iff.1 ((hcut []).1 ht))
  · rintro (hnone | hgap)
    · cases ht : tokenize text with
      | error e => rw [tokensIn, ht]
      | ok tokens => exact absurd ⟨tokens, (hcut tokens).1 ht⟩ hnone
    · exact hlenient [] (cut_nil_iff.2 hgap)

example : tokenize "(p05 7s)003" = tokenize "(p5 007s)3" := by decide +kernel

/-! ## The error of a text -/

theorem Written.unique {text text' rest rest' : List Char} {token token' : Option Token}
    (h : Written rest token text) (h' : Written rest' token' text')
    (same : text ++ rest = text' ++ rest') : text = text' ∧ rest = rest' := by
  obtain ⟨c, cs, rfl, hlexeme⟩ := h.lexeme_eq 0
  obtain ⟨c', cs', rfl, hlexeme'⟩ := h'.lexeme_eq 0
  rw [List.cons_append, List.cons_append] at same
  obtain ⟨rfl, hcs⟩ := List.cons.inj same
  rw [hcs, hlexeme'] at hlexeme
  cases hlexeme
  exact ⟨rfl, rfl⟩

theorem Fault.not_written {before text rest : List Char} {token : Option Token} {e : SyntaxError}
    (h : Fault before (text ++ rest) e) : ¬ Written rest token text := by
  intro first
  obtain ⟨c, cs, rfl, hok⟩ := first.lexeme_eq (byteLength before)
  obtain ⟨c', cs', hcons, herror⟩ := h.lexeme_eq
  rw [List.cons_append] at hcons
  obtain ⟨rfl, rfl⟩ := List.cons.inj hcons
  exact nomatch hok.symm.trans herror

theorem Fault.suffix_of_cut {before text left left' : List Char} {tokens tokens' : List Token}
    {e : SyntaxError} (fault : Fault before left e) (h : Cut text tokens left)
    (h' : Cut text tokens' left') : left <:+ left' := by
  induction h generalizing tokens' left' with
  | stop left =>
    generalize htext : left = text at h'
    cases h' with
    | stop => exact List.suffix_refl _
    | next first => exact absurd first (htext ▸ fault).not_written
  | @next token text rest tokens left first later ih =>
    generalize htext : text ++ rest = all at h'
    cases h' with
    | stop =>
      obtain ⟨between, rfl, -⟩ := later.tokenizeFrom_eq
      rw [← htext, ← List.append_assoc]
      exact List.suffix_append _ left
    | next first' later' =>
      obtain ⟨-, rfl⟩ := first.unique first' htext
      exact ih fault later'

/-- The place in the text that an error names, in bytes. -/
def SyntaxError.offset? : SyntaxError → Option ℕ
  | .invalidCharacter _ offset | .missingDigits offset | .missingUnit offset
  | .numberOverflow offset => some offset
  | .unclosedGroup _ | .unexpectedClose _ | .tooDeep _ | .empty => none

/-- **A fault is at the border between two characters.** -/
theorem Fault.offset_eq {before left : List Char} {e : SyntaxError} (h : Fault before left e) :
    ∃ start, start <+: before ++ left ∧ e.offset? = some (byteLength start) := by
  have hfirst : ∀ (c : Char) rest, before ++ [c] <+: before ++ c :: rest := fun c rest =>
    (List.prefix_append_right_inj before).2 (List.prefix_append [c] rest)
  cases h with
  | invalidCharacter | amount | product => exact ⟨before, List.prefix_append before _, rfl⟩
  | missingDigits | count | minutes => exact ⟨_, hfirst _ _, rfl⟩
  | @missingUnit digits =>
    exact ⟨before ++ digits,
      (List.prefix_append_right_inj before).2 (List.prefix_append digits _), rfl⟩

theorem countdown_ne_missingDigits (o k : ℕ) (digits rest : List Char) :
    countdown o digits rest ≠ .error (.missingDigits k) := by
  unfold countdown
  split
  · exact nofun
  cases rest with
  | nil => exact nofun
  | cons u rest =>
    dsimp only
    cases unitSeconds u with
    | none => exact nofun
    | some unit =>
      dsimp only
      split <;> exact nofun

/-- **A text has an error exactly when it can be cut into lexemes up to a fault**, and cutting never
gets past the fault. -/
theorem tokenize_error_iff_fault (text : String) :
    (∀ e, tokenize text = .error e ↔ ∃ before tokens left, text.toList = before ++ left ∧
        Cut text.toList tokens left ∧ Fault before left e) ∧
      (∀ before tokens left e, text.toList = before ++ left → Cut text.toList tokens left →
        Fault before left e → tokenize (.ofList before) = .ok tokens ∧
          (∃ start, start <+: text.toList ∧ e.offset? = some (byteLength start)) ∧
          ∀ tokens' left', Cut text.toList tokens' left' → left <:+ left') ∧
      ∀ d cs, d.isDigit = true → ∃ digits rest, leadingDigits? (d :: cs) = some (digits, rest) ∧
        ∀ o, lexeme o d cs = countdown o digits rest ∧
          ∀ k, lexeme o d cs ≠ .error (.missingDigits k) := by
  refine ⟨fun e => ⟨fun h => ?_, ?_⟩, ?_, fun d cs hd => ?_⟩
  · rcases tokenizeFrom_cases [] text.toList with
      ⟨tokens, hok, -⟩ | ⟨e', before, tokens, left, herror, htext, cut, fault⟩
    · exact nomatch h.symm.trans hok
    · obtain rfl : e = e' := Except.error.inj (h.symm.trans herror)
      exact ⟨before, tokens, left, htext, cut, fault⟩
  · rintro ⟨before, tokens, left, htext, cut, fault⟩
    obtain ⟨before', hcut, hread⟩ := cut.tokenizeFrom_eq
    obtain rfl : before = before' := List.append_cancel_right (htext.symm.trans hcut)
    obtain ⟨c, cs, rfl, hlexeme⟩ := fault.lexeme_eq
    rw [tokenize, hread, Nat.zero_add, tokenizeFrom_cons_error hlexeme]
    rfl
  · intro before tokens left e htext cut fault
    refine ⟨(htext ▸ cut).tokenize_before, htext ▸ fault.offset_eq, fun tokens' left' cut' => ?_⟩
    exact fault.suffix_of_cut cut cut'
  · have hdigits : ∀ c ∈ cs.takeWhile Char.isDigit, c.isDigit = true := isDigit_of_mem_takeWhile
    have hlexeme := lexeme_digit hdigits (endsDigits_dropWhile cs) hd
    rw [List.takeWhile_append_dropWhile] at hlexeme
    refine ⟨_, _, leadingDigits?_cons hd cs, fun o => ⟨hlexeme o, fun k => ?_⟩⟩
    rw [hlexeme]
    exact countdown_ne_missingDigits o k _ _

example : tokenize "5m☕ #" = .error (.invalidCharacter '#' 6) := by decide +kernel

end TaskTimer
