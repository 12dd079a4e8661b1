import TaskTimer.Proofs.Json.RoundTrip

/-!
# A value behind other characters

An object that is written behind anything but blanks is lost with it: the whole is no value.

* `JsonToken.brace_of_first?`: no token but a text reaches over the brace that opens an object, and
  a text ends at the quotation mark behind it.
* `JsonToken.read_behind`: the tokens of the object are the last tokens of the whole.
* `Json.foldlM_behind`: a value behind other tokens is inside an open array or object.
* **`Json.read_behind`**: no value is read. `Json.read_spaces`: blanks in front do not matter.
-/

namespace TaskTimer

namespace JsonToken

variable {behind : List Char}

/-! ## Tokens in front of a brace -/

theorem brace_of_cons {c : Char} {cs : List Char} (h : '{' :: behind <:+ c :: cs) (hc : c ≠ '{') :
    '{' :: behind <:+ cs := by
  rcases List.suffix_cons_iff.1 h with h | h
  · cases h
    exact absurd rfl hc
  · exact h

theorem brace_of_append {word cs : List Char} (hword : '{' ∉ word)
    (h : '{' :: behind <:+ word ++ cs) : '{' :: behind <:+ cs := by
  induction word with
  | nil => exact h
  | cons c word ih =>
    rw [List.mem_cons, not_or] at hword
    exact ih hword.2 (brace_of_cons h (Ne.symm hword.1))

theorem brace_of_hex4? {a b c d : Char} {n : ℕ} (hn : hex4? a b c d = some n) {rest : List Char}
    (h : '{' :: behind <:+ '\\' :: 'u' :: a :: b :: c :: d :: rest) : '{' :: behind <:+ rest := by
  have hbrace : hexValue? '{' = none := by decide
  have hescape : '{' ∉ ['\\', 'u', a, b, c, d] := by
    simp only [List.mem_cons, List.not_mem_nil, or_false]
    rintro (h | h | rfl | rfl | rfl | rfl)
    · cases h
    · cases h
    all_goals simp [hex4?, hbrace] at hn
  exact brace_of_append hescape h

theorem brace_of_lowHalf? {cs : List Char} {low : ℕ} (hlow : lowHalf? cs = some low)
    (h : '{' :: behind <:+ cs) : '{' :: behind <:+ cs.drop 6 := by
  unfold lowHalf? at hlow
  split at hlow
  · obtain ⟨hn, -⟩ := Option.filter_eq_some_iff.1 hlow
    exact brace_of_hex4? hn h
  · cases hlow

theorem brace_of_readText {acc : List Char} {sound : Bool} {skip : ℕ} {cs : List Char} {s : Quoted}
    {rest : List Char} (h : readText acc sound skip cs = some (s, rest))
    (hbrace : '{' :: '"' :: behind <:+ cs.drop skip) :
    rest = behind ∨ '{' :: '"' :: behind <:+ rest := by
  fun_induction readText acc sound skip cs with
  | case1 | case4 | case9 | case11 => cases h
  | case2 acc sound n c cs ih => exact ih h hbrace
  | case3 acc sound cs =>
    cases h
    exact .inr (brace_of_cons hbrace (by decide))
  | case5 acc sound a b c d cs n hn hhigh low hlow ih =>
    exact ih h (brace_of_lowHalf? hlow (brace_of_hex4? hn hbrace))
  | case6 acc sound a b c d cs n hn hhigh hlow ih => exact ih h (brace_of_hex4? hn hbrace)
  | case7 acc sound a b c d cs n hn hhigh hlow ih => exact ih h (brace_of_hex4? hn hbrace)
  | case8 acc sound a b c d cs n hn hhigh hlow ih => exact ih h (brace_of_hex4? hn hbrace)
  | case10 acc sound e cs hnot c hshort ih =>
    have he : e ≠ '{' := by
      rintro rfl
      cases hshort
    exact ih h (brace_of_cons (brace_of_cons hbrace (by decide)) he)
  | case12 acc sound c cs hquote hhex hescape hplain ih =>
    rcases List.suffix_cons_iff.1 hbrace with hbrace | hbrace
    · -- the text takes in the brace, and the quotation mark behind it closes the text
      cases hbrace
      rw [readText] at h
      cases h
      exact .inl rfl
    · exact ih h hbrace

/-! ## Numbers and words -/

theorem Follows.brace {rest cs : List Char} (h : Follows rest cs) (hbrace : '{' :: behind <:+ cs) :
    '{' :: behind <:+ rest := by
  induction h with
  | here => exact hbrace
  | behind hc _ ih =>
    refine ih (brace_of_cons hbrace ?_)
    rintro rfl
    exact absurd hc (by decide)

theorem brace_of_readNumber {cs rest : List Char} {n : Numeral}
    (h : readNumber cs = some (n, rest)) (hbrace : '{' :: behind <:+ cs) :
    '{' :: behind <:+ rest := by
  obtain ⟨d, ds, hd, hcs, hrest⟩ := follows_readNumber h
  exact ((hrest.behind (isNumeric_of_isDigit hd)).trans hcs).brace hbrace

/-- **A token ends in front of the brace, or is a text that ends right behind it.** -/
theorem brace_of_first? {c : Char} {cs rest : List Char} {t : JsonToken}
    (h : first? c cs = some (t, rest)) (hbrace : '{' :: '"' :: behind <:+ cs) :
    rest = behind ∨ '{' :: '"' :: behind <:+ rest := by
  unfold first? at h
  iterate 6
    split at h
    · cases h
      exact .inr hbrace
  split at h
  · obtain ⟨⟨s, cs'⟩, hs, h⟩ := Option.map_eq_some_iff.1 h
    cases h
    exact brace_of_readText hs hbrace
  split at h
  · obtain ⟨⟨n, cs'⟩, hn, h⟩ := Option.map_eq_some_iff.1 h
    cases h
    exact .inr (brace_of_readNumber hn (List.suffix_cons_iff.2 (.inr hbrace)))
  split at h
  · next cs =>
    cases h
    exact .inr (brace_of_append (show '{' ∉ ['u', 'l', 'l'] by decide) hbrace)
  · next cs =>
    cases h
    exact .inr (brace_of_append (show '{' ∉ ['r', 'u', 'e'] by decide) hbrace)
  · next cs =>
    cases h
    exact .inr (brace_of_append (show '{' ∉ ['a', 'l', 's', 'e'] by decide) hbrace)
  · cases h

/-! ## The tokens behind -/

theorem read_cons_space {c : Char} (hc : isSpace c = true) (cs : List Char) :
    read (c :: cs) = read cs := by
  conv => lhs; unfold read
  rw [if_pos hc]

/-- **The tokens of an object are the last ones of the whole.** -/
theorem read_behind {ts vs : List JsonToken} (hline : read ('{' :: '"' :: behind) = some vs)
    (hbehind : read behind = none) (u : List Char)
    (h : read (u ++ '{' :: '"' :: behind) = some ts) :
    ∃ us, ts = us ++ vs ∧ (us = [] → u.all isSpace = true) := by
  generalize hcs : u ++ '{' :: '"' :: behind = cs at h
  fun_induction read cs generalizing u ts with
  | case1 => simp at hcs
  | case2 c cs hc ih =>
    cases u with
    | nil =>
      cases hcs
      cases hc
    | cons d u =>
      cases hcs
      obtain ⟨us, hts, hus⟩ := ih u rfl h
      refine ⟨us, hts, fun hnil => ?_⟩
      rw [List.all_cons, hc, hus hnil, Bool.and_self]
  | case3 => cases h
  | case4 c cs hc t rest hfirst hshorter ih =>
    cases u with
    | nil =>
      rw [List.nil_append] at hcs
      rw [hcs, read_cons_some (Bool.eq_false_iff.2 hc) hfirst, h] at hline
      exact ⟨[], Option.some.inj hline, fun _ => rfl⟩
    | cons d u =>
      cases hcs
      obtain ⟨ts, hts, rfl⟩ := Option.map_eq_some_iff.1 h
      rcases brace_of_first? hfirst (List.suffix_append u _) with rfl | ⟨u', hrest⟩
      · rw [hbehind] at hts
        cases hts
      · obtain ⟨us, rfl, -⟩ := ih u' hrest hts
        exact ⟨t :: us, rfl, fun hnil => absurd hnil (List.cons_ne_nil t us)⟩

end JsonToken

namespace Json

open JsonToken (isSpace)

/-! ## A value that is not closed -/

theorem readToken_ne_value (s : State) (t : JsonToken) : readToken s t ≠ some (.value, []) := by
  have hstart : ∀ stack, startValue stack t ≠ some (.value, []) := by
    intro stack
    cases t <;> simp [startValue]
  fun_cases readToken s t <;> first | exact hstart _ | simp

theorem foldlM_ne_value {us : List JsonToken} (hus : us ≠ []) (s : State) :
    us.foldlM readToken s ≠ some (.value, []) := by
  rw [← List.dropLast_concat_getLast hus, List.foldlM_append]
  intro h
  obtain ⟨s', -, h⟩ := Option.bind_eq_some_iff.1 h
  obtain ⟨s'', hs'', h⟩ := Option.bind_eq_some_iff.1 h
  cases h
  exact readToken_ne_value s' _ hs''

/-- **An object behind other tokens is inside an array or an object that is not closed.** -/
theorem ofTokens_behind {us : List JsonToken} (hus : us ≠ []) (members : List (Quoted × Json)) :
    ofTokens (us ++ (Json.obj members).tokens) = none := by
  rw [ofTokens, List.foldlM_append]
  cases hs : us.foldlM readToken (.value, []) with
  | none => rfl
  | some s =>
    obtain ⟨expectation, stack⟩ := s
    rw [Option.bind_eq_bind, Option.bind_some]
    -- either the object is refused here, or something around it is still open at the end
    cases expectation with
    | value =>
      rw [foldlM_tokens]
      cases stack with
      | nil => exact absurd hs (foldlM_ne_value hus _)
      | cons frame stack => rfl
    | item items first =>
      have h := foldlM_tokens_item (.obj members) items first stack []
      rw [List.append_nil, foldlM_tokens] at h
      rw [h]
    | key | colon => rfl
    | after v =>
      have hopen : readToken (.after v, stack) .openObject = none := by
        rw [Option.eq_none_iff_forall_ne_some]
        intro s hs
        rcases readToken_after hs with h | h | h <;> cases h
      rw [tokens, List.cons_append, List.foldlM_cons, hopen]
      rfl

/-! ## The value behind -/

theorem read_spaces {u : List Char} (hu : u.all isSpace = true) (cs : List Char) :
    read (u ++ cs) = read cs := by
  induction u with
  | nil => rfl
  | cons c u ih =>
    rw [List.all_cons, Bool.and_eq_true] at hu
    rw [← ih hu.2, List.cons_append, read, read, JsonToken.read_cons_space hu.1]

theorem read_blank {cs : List Char} (h : cs.all isBlank = true) : read cs = none := by
  induction cs with
  | nil =>
    rw [read, JsonToken.read_nil]
    rfl
  | cons c cs ih =>
    rw [List.all_cons, Bool.and_eq_true] at h
    rw [read]
    by_cases hc : isSpace c = true
    · rw [JsonToken.read_cons_space hc, ← read, ih h.2]
    · rw [JsonToken.read_cons_none (Bool.eq_false_iff.2 hc) (JsonToken.first?_blank h.1 cs)]
      rfl

/-- **An object behind anything but blanks is not read.** -/
theorem read_behind {members : List (Quoted × Json)} (hplain : (Json.obj members).IsPlain)
    {behind : List Char} (hline : (Json.obj members).compact = '{' :: '"' :: behind)
    (hbehind : JsonToken.read behind = none) {u : List Char} (hu : u.all isSpace = false) :
    read (u ++ (Json.obj members).compact) = none := by
  rw [Option.eq_none_iff_forall_ne_some]
  intro w hw
  obtain ⟨ts, hts, hw⟩ := Option.bind_eq_some_iff.1 hw
  have htokens : JsonToken.read ('{' :: '"' :: behind) = some (Json.obj members).tokens := by
    rw [← hline, compact_eq_textOf, JsonToken.read_textOf hplain (separated_tokens _)]
  rw [hline] at hts
  obtain ⟨us, rfl, hus⟩ := JsonToken.read_behind htokens hbehind u hts
  rw [ofTokens_behind _ members] at hw
  · cases hw
  · intro hnil
    rw [hus hnil] at hu
    cases hu

end Json

end TaskTimer
