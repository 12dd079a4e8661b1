import TaskTimer.Proofs.Json.Token

/-!
# Writing and reading JSON

A value on one line is read as the value, and no strict start of the line is read at all.

* `Json.tokens`, `Json.compact_eq_textOf`: the tokens that write a value on one line.
* `Json.foldlM_tokens`: the tokens of a value are read as the value, whatever is open around it.
* `Json.IsPlain`: a value without halves of characters whose numbers are natural numbers.
* **`Json.read_compact`**, **`Json.read_torn_compact`**: the whole line, and a line that is cut.
* `Json.space_le_of_mem_compact`: the value stays on one line.
-/

namespace TaskTimer

namespace Json

open JsonToken (textOf text EndsNumber Separated Torn)

/-! ## The tokens of a value -/

mutual

/-- The tokens that write the value. -/
def tokens : Json → List JsonToken
  | .null => [.null]
  | .bool b => [.bool b]
  | .num n => [.num n]
  | .str s => [.str s]
  | .arr items => .openArray :: itemTokens items ++ [.closeArray]
  | .obj members => .openObject :: memberTokens members ++ [.closeObject]

/-- The tokens of values with commas between them. -/
def itemTokens : List Json → List JsonToken
  | [] => []
  | [v] => tokens v
  | v :: vs => tokens v ++ .comma :: itemTokens vs

/-- The tokens of members with commas between them. -/
def memberTokens : List (Quoted × Json) → List JsonToken
  | [] => []
  | [(k, v)] => .str k :: .colon :: tokens v
  | (k, v) :: ms => .str k :: .colon :: tokens v ++ .comma :: memberTokens ms

end

theorem itemTokens_cons_cons (v w : Json) (vs : List Json) :
    itemTokens (v :: w :: vs) = v.tokens ++ .comma :: itemTokens (w :: vs) := by
  simp [itemTokens]

mutual

theorem compact_eq_textOf : ∀ v : Json, v.compact = textOf v.tokens
  | .null | .bool true | .bool false | .num _ | .str _ => by simp [compact, tokens, text]
  | .arr items => by simp [compact, tokens, text, compactItems_eq_textOf items]
  | .obj members => by simp [compact, tokens, text, compactMembers_eq_textOf members]

theorem compactItems_eq_textOf : ∀ vs : List Json, compactItems vs = textOf (itemTokens vs)
  | [] => rfl
  | [v] => by simp [compactItems, itemTokens, compact_eq_textOf v]
  | v :: w :: vs => by
    simp [compactItems, itemTokens, text, compact_eq_textOf v, compactItems_eq_textOf (w :: vs)]

theorem compactMembers_eq_textOf :
    ∀ ms : List (Quoted × Json), compactMembers ms = textOf (memberTokens ms)
  | [] => rfl
  | [(k, v)] => by simp [compactMembers, memberTokens, text, compact_eq_textOf v]
  | (k, v) :: m :: ms => by
    simp [compactMembers, memberTokens, text, compact_eq_textOf v,
      compactMembers_eq_textOf (m :: ms)]

end

/-! ## From tokens to the value -/

theorem exists_tokens_cons : ∀ v : Json, ∃ t ts, v.tokens = t :: ts ∧ t ≠ .closeArray
  | .null | .bool _ | .num _ | .str _ => by simp [tokens]
  | .arr _ | .obj _ => by simp [tokens]

theorem foldlM_tokens_item (v : Json) (items : List Json) (first : Bool) (stack : List Frame)
    (ts : List JsonToken) :
    (v.tokens ++ ts).foldlM readToken (.item items first, stack) =
      (v.tokens ++ ts).foldlM readToken (.value, .array items :: stack) := by
  obtain ⟨t, us, ht, hne⟩ := exists_tokens_cons v
  rw [ht, List.cons_append, List.foldlM_cons, List.foldlM_cons, readToken, readToken,
    if_neg (by simp [hne])]

mutual

/-- **The tokens of a value are read as the value**, whatever is open around it. -/
theorem foldlM_tokens (stack : List Frame) :
    ∀ v : Json, v.tokens.foldlM readToken (.value, stack) = some (.after v, stack)
  | .null | .bool _ | .num _ | .str _ => rfl
  | .arr [] | .obj [] => rfl
  | .arr (v :: vs) => by
    have h := foldlM_itemTokens stack [] true (v :: vs) (List.cons_ne_nil v vs)
    rw [tokens, List.cons_append, List.foldlM_cons]
    exact h
  | .obj (m :: ms) => by
    have h := foldlM_memberTokens stack [] true (m :: ms) (List.cons_ne_nil m ms)
    rw [tokens, List.cons_append, List.foldlM_cons]
    exact h

theorem foldlM_itemTokens (stack : List Frame) (items : List Json) (first : Bool) :
    ∀ vs : List Json, vs ≠ [] →
      (itemTokens vs ++ [JsonToken.closeArray]).foldlM readToken (.item items first, stack) =
        some (.after (.arr (items.reverse ++ vs)), stack)
  | [], hne => absurd rfl hne
  | [v], _ => by
    rw [itemTokens, foldlM_tokens_item, List.foldlM_append, foldlM_tokens _ v]
    simp [readToken]
  | v :: w :: vs, _ => by
    -- the items that were read wait last one first, so `v` goes in front of them
    have h := foldlM_itemTokens stack (v :: items) false (w :: vs) (List.cons_ne_nil w vs)
    rw [itemTokens_cons_cons, List.append_assoc, foldlM_tokens_item, List.foldlM_append,
      foldlM_tokens _ v]
    simpa [readToken] using h

theorem foldlM_memberTokens (stack : List Frame) (members : List (Quoted × Json)) (first : Bool) :
    ∀ ms : List (Quoted × Json), ms ≠ [] →
      (memberTokens ms ++ [JsonToken.closeObject]).foldlM readToken (.key members first, stack) =
        some (.after (.obj (members.reverse ++ ms)), stack)
  | [], hne => absurd rfl hne
  | [(k, v)], _ => by
    have h := foldlM_tokens (.object members k :: stack) v
    simp [memberTokens, readToken, List.foldlM_append, h]
  | (k, v) :: m :: ms, _ => by
    have h := foldlM_tokens (.object members k :: stack) v
    have hms := foldlM_memberTokens stack ((k, v) :: members) false (m :: ms) (List.cons_ne_nil m ms)
    simpa [memberTokens, readToken, List.foldlM_append, h] using hms

end

theorem ofTokens_tokens (v : Json) : ofTokens v.tokens = some v := by
  rw [ofTokens, foldlM_tokens]

/-! ## Numbers end where the grammar goes on -/

theorem readToken_after {v : Json} {stack : List Frame} {t : JsonToken} {s : State}
    (h : readToken (.after v, stack) t = some s) :
    t = .comma ∨ t = .closeArray ∨ t = .closeObject := by
  cases stack with
  | nil => cases h
  | cons frame stack => cases frame <;> cases t <;> simp_all [readToken]

/-- One number can stand wherever another one can. -/
theorem readToken_number {s s' : State} {n : Numeral} (h : readToken s (.num n) = some s') :
    ∃ stack, ∀ n', readToken s (.num n') = some (.after (.num n'), stack) := by
  obtain ⟨expectation, stack⟩ := s
  cases expectation with
  | value => exact ⟨stack, fun _ => rfl⟩
  | item items first =>
    refine ⟨.array items :: stack, fun n' => ?_⟩
    simp [readToken, startValue]
  | key | colon => simp [readToken] at h
  | after v => rcases readToken_after h with h | h | h <;> cases h

theorem endsNumber_after {v : Json} {stack : List Frame} {ts : List JsonToken} {s : State}
    (h : ts.foldlM readToken (.after v, stack) = some s) : EndsNumber (textOf ts) := by
  cases ts with
  | nil => exact JsonToken.endsNumber_nil
  | cons t ts =>
    rw [List.foldlM_cons] at h
    obtain ⟨s', hs', -⟩ := Option.bind_eq_some_iff.1 h
    intro c hc
    rcases readToken_after hs' with rfl | rfl | rfl <;> cases hc <;> decide

/-- **Where tokens can be read one after the other, numbers are kept apart.** -/
theorem separated_of_foldlM {ts : List JsonToken} {s s' : State}
    (h : ts.foldlM readToken s = some s') : Separated ts := by
  induction ts generalizing s with
  | nil => trivial
  | cons t ts ih =>
    rw [List.foldlM_cons] at h
    obtain ⟨next, hnext, h⟩ := Option.bind_eq_some_iff.1 h
    refine ⟨?_, ih h⟩
    rintro n rfl
    obtain ⟨stack, hstack⟩ := readToken_number hnext
    rw [hstack n] at hnext
    cases hnext
    exact endsNumber_after h

theorem separated_tokens (v : Json) : Separated v.tokens :=
  separated_of_foldlM (foldlM_tokens [] v)

/-! ## A line as a whole -/

/-- The texts in the value have no halves of characters, and its numbers are natural numbers. -/
def IsPlain (v : Json) : Prop := ∀ t ∈ v.tokens, t.IsPlain

theorem isPlain_ofString (s : String) : (ofString s).IsPlain := by
  simp [IsPlain, ofString, tokens, JsonToken.IsPlain]

theorem isPlain_ofNat (n : ℕ) : (ofNat n).IsPlain := by
  simp [IsPlain, ofNat, tokens, JsonToken.IsPlain]

theorem isPlain_ofString? (s : Option String) : (ofString? s).IsPlain := by
  cases s with
  | none => simp [IsPlain, ofString?, tokens, JsonToken.IsPlain]
  | some s => exact isPlain_ofString s

theorem isPlain_of_mem_memberTokens {ms : List (Quoted × Json)}
    (hms : ∀ m ∈ ms, m.1.sound = true ∧ m.2.IsPlain) : ∀ t ∈ memberTokens ms, t.IsPlain := by
  induction ms with
  | nil => simp [memberTokens]
  | cons m ms ih =>
    obtain ⟨k, v⟩ := m
    obtain ⟨hk, hv⟩ := hms (k, v) List.mem_cons_self
    have hkey : (JsonToken.str k).IsPlain := hk
    have ih := ih fun m hm => hms m (List.mem_cons_of_mem _ hm)
    intro t ht
    cases ms with
    | nil =>
      simp only [memberTokens, List.mem_cons] at ht
      rcases ht with rfl | rfl | ht
      · exact hkey
      · trivial
      · exact hv t ht
    | cons m ms =>
      simp only [memberTokens, List.mem_append, List.mem_cons] at ht
      rcases ht with (rfl | rfl | ht) | rfl | ht
      · exact hkey
      · trivial
      · exact hv t ht
      · trivial
      · exact ih t ht

theorem isPlain_ofMembers {members : List (String × Json)}
    (h : ∀ m ∈ members, m.2.IsPlain) : (ofMembers members).IsPlain := by
  intro t ht
  rw [ofMembers, tokens, List.mem_append, List.mem_cons, List.mem_singleton] at ht
  rcases ht with (rfl | ht) | rfl
  · trivial
  · refine isPlain_of_mem_memberTokens (fun m hm => ?_) t ht
    obtain ⟨member, hmember, rfl⟩ := List.mem_map.1 hm
    exact ⟨rfl, h member hmember⟩
  · trivial

/-- **A value on one line is read as the value.** -/
theorem read_compact {v : Json} (hv : v.IsPlain) : read v.compact = some v := by
  rw [read, compact_eq_textOf, JsonToken.read_textOf hv (separated_tokens v), Option.bind_some,
    ofTokens_tokens]

theorem space_le_of_mem_compact {v : Json} (hv : v.IsPlain) {c : Char} (hc : c ∈ v.compact) :
    0x20 ≤ c.toNat :=
  JsonToken.space_le_of_mem_textOf hv (by rwa [← compact_eq_textOf])

/-! ## A line that is cut -/

theorem foldlM_done (v : Json) (t : JsonToken) (ts : List JsonToken) :
    (t :: ts).foldlM readToken (.after v, []) = none := by
  rw [List.foldlM_cons, readToken]
  rfl

theorem foldlM_torn {ts us : List JsonToken} (htorn : Torn ts us) {s : State} {v w : Json}
    (hv : ∀ n, v ≠ .num n) (hts : ts.foldlM readToken s = some (.after v, [])) :
    us.foldlM readToken s ≠ some (.after w, []) := by
  intro hus
  induction htorn generalizing s with
  | cut t ts =>
    cases hus
    rw [foldlM_done] at hts
    cases hts
  | number n n' ts =>
    rw [List.foldlM_cons] at hus
    obtain ⟨s', hs', hend⟩ := Option.bind_eq_some_iff.1 hus
    cases hend
    obtain ⟨stack, hstack⟩ := readToken_number hs'
    rw [hstack n'] at hs'
    cases hs'
    rw [List.foldlM_cons, hstack n] at hts
    cases ts with
    | nil =>
      cases hts
      exact hv n rfl
    | cons t ts =>
      change (t :: ts).foldlM readToken (.after (.num n), []) = _ at hts
      rw [foldlM_done] at hts
      cases hts
  | cons t later ih =>
    rw [List.foldlM_cons] at hts hus
    obtain ⟨s', hs', hts⟩ := Option.bind_eq_some_iff.1 hts
    rw [hs'] at hus
    exact ih hts hus

/-- **A line that is cut is not read**, unless it is a number. -/
theorem read_torn_compact {v : Json} (hv : v.IsPlain) (hnumber : ∀ n, v ≠ .num n) {p : List Char}
    (hp : p <+: v.compact) (hne : p ≠ v.compact) : read p = none := by
  rw [Option.eq_none_iff_forall_ne_some]
  intro w hw
  rw [compact_eq_textOf] at hp hne
  obtain ⟨us, hus, hw⟩ := Option.bind_eq_some_iff.1 hw
  have htorn : Torn v.tokens us := JsonToken.read_torn hv (separated_tokens v) hp hne hus
  rw [ofTokens] at hw
  split at hw
  · next x hfold => exact foldlM_torn htorn hnumber (foldlM_tokens [] v) hfold
  · cases hw

end Json

end TaskTimer
