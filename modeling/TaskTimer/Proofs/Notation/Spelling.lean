import TaskTimer.Proofs.Notation.Descent
import TaskTimer.Proofs.Notation.Form

/-!
# The spellings of a timer

A timer can be written in many ways: with zeros in front of its numbers, in one unit or another and
with blanks of any kind. All of them are read as the same nodes.

* `Node.Spelling`, `Spelling`: the texts that write a node, and those that write a sequence.
* `EndsMark`: what may stand behind a symbol, or behind a countdown or a group without one.
* `Node.Spelling.reading_append`, `Spelling.reading_append`: a spelling is cut into the tokens of
  its nodes, whatever stands behind it.
* `parseTokens_tokensOf`: the tokens of a tree make up the tree.
* **`parse_of_spelling`**: a spelling of nodes is read as these nodes.
-/

namespace TaskTimer

/-! ## Spellings -/

/-- ASCII digits that write the number, with any number of zeros in front. -/
structure IsNumeral (digits : List Char) (n : ℕ) : Prop where
  ne_nil : digits ≠ []
  isDigit : ∀ c ∈ digits, c.isDigit = true
  value : readDecimal digits = n

instance (digits : List Char) (n : ℕ) : Decidable (IsNumeral digits n) :=
  decidable_of_iff (digits ≠ [] ∧ digits.all Char.isDigit = true ∧ readDecimal digits = n)
    ⟨fun ⟨ne_nil, isDigit, value⟩ => ⟨ne_nil, List.all_eq_true.1 isDigit, value⟩,
      fun ⟨ne_nil, isDigit, value⟩ => ⟨ne_nil, List.all_eq_true.2 isDigit, value⟩⟩

/-- The letter of a unit and the seconds in it. -/
inductive UnitLetter : Char → ℕ → Prop
  | hours : UnitLetter 'h' 3600
  | minutes : UnitLetter 'm' 60
  | seconds : UnitLetter 's' 1

/-- Blanks of any kind and number, or nothing. -/
def IsGap (cs : List Char) : Prop := ∀ c ∈ cs, isBlank c = true

instance : DecidablePred IsGap := fun cs => decidable_of_iff (cs.all isBlank = true) List.all_eq_true

/-- The text of a symbol. A symbol holds at least one character, and no blank and no `)`. -/
inductive SymbolSpelling : Option String → List Char → Prop
  | absent : SymbolSpelling none []
  | shown (mark : List Char) (ne_nil : mark ≠ [])
      (plain : ∀ c ∈ mark, isBlank c = false ∧ c ≠ ')') : SymbolSpelling (some (.ofList mark)) mark

/-- The text of a loop count. The count zero may be left out. -/
inductive CountSpelling : UInt32 → List Char → Prop
  | omitted : CountSpelling 0 []
  | written {loopCount : UInt32} (digits : List Char) (numeral : IsNumeral digits loopCount.toNat) :
      CountSpelling loopCount digits

mutual

/-- The text writes the node. -/
inductive Node.Spelling : Node → List Char → Prop
  /-- An amount, its unit and the symbol. -/
  | amount {seconds : UInt64} {symbol : Option String} (digits : List Char) {n : ℕ} {u : Char}
      {unit : ℕ} {mark : List Char} (numeral : IsNumeral digits n) (letter : UnitLetter u unit)
      (value : unit * n = seconds.toNat) (shows : SymbolSpelling symbol mark) :
      Node.Spelling (.leaf seconds symbol) (digits ++ u :: mark)
  /-- A `p`, the minutes and the symbol, which does not go on with a digit. -/
  | minutes {seconds : UInt64} {symbol : Option String} (digits : List Char) {n : ℕ}
      {mark : List Char} (numeral : IsNumeral digits n) (value : 60 * n = seconds.toNat)
      (shows : SymbolSpelling symbol mark) (apart : ∀ c ∈ mark.head?, c.isDigit = false) :
      Node.Spelling (.leaf seconds symbol) ('p' :: (digits ++ mark))
  /-- The children between parentheses, and how often they run. -/
  | group {children : List Node} {loopCount : UInt32} (before : List Char) {body : List Char}
      (after : List Char) {count : List Char} (opens : IsGap before)
      (inside : TaskTimer.Spelling children body) (closes : IsGap after)
      (counts : CountSpelling loopCount count) :
      Node.Spelling (.group children loopCount) ('(' :: (before ++ body ++ after ++ ')' :: count))

/-- The text writes the sequence of nodes, with blanks between neighbours. -/
inductive Spelling : List Node → List Char → Prop
  | nil : Spelling [] []
  | single {node : Node} {text : List Char} (first : node.Spelling text) : Spelling [node] text
  | cons {node next : Node} {nodes : List Node} {text rest : List Char} (gap : List Char)
      (first : node.Spelling text) (blank : IsGap gap) (apart : gap ≠ [])
      (others : Spelling (next :: nodes) rest) :
      Spelling (node :: next :: nodes) (text ++ gap ++ rest)

end

/-! ## Where a lexeme ends -/

/-- The text is empty or starts with a blank or a `)`: a symbol in front of it ends there, and so
does a number. -/
def EndsMark (r : List Char) : Prop := ∀ c ∈ r.head?, isSymbolChar c = false

theorem endsMark_nil : EndsMark [] := fun _ hc => nomatch hc

theorem endsMark_close (r : List Char) : EndsMark (')' :: r) := by
  intro c hc
  rw [← Option.mem_some_iff.1 hc]
  decide

theorem IsGap.endsMark_append {gap : List Char} (hgap : IsGap gap) (hne : gap ≠ [])
    (r : List Char) : EndsMark (gap ++ r) := by
  intro c hc
  cases gap with
  | nil => exact absurd rfl hne
  | cons b gap =>
    rw [← Option.mem_some_iff.1 hc]
    exact isSymbolChar_of_isBlank b (hgap b List.mem_cons_self)

theorem IsGap.endsMark_append_close {gap : List Char} (hgap : IsGap gap) (r : List Char) :
    EndsMark (gap ++ ')' :: r) := by
  by_cases hne : gap = []
  · rw [hne]
    exact endsMark_close r
  · exact hgap.endsMark_append hne _

theorem EndsMark.endsDigits {r : List Char} (hr : EndsMark r) : EndsDigits r := by
  intro c hc
  rw [Bool.eq_false_iff]
  intro hdigit
  have hsymbol := hr c hc
  rw [isSymbolChar, isBlank_of_isDigit hdigit, Bool.not_false, Bool.true_and,
    bne_eq_false_iff_eq] at hsymbol
  exact ne_of_isDigit hdigit (by decide) hsymbol

/-! ## One lexeme -/

theorem reading_cons {c : Char} {cs : List Char} {l : Lexeme} (h : lexeme 0 c cs = .ok l) :
    reading 0 (c :: cs) = (reading 0 l.rest).map (l.token.toList ++ ·) := by
  rw [reading_cons_ok h, reading_offset _ 0]

theorem reading_gap {gap : List Char} (hgap : IsGap gap) (r : List Char) :
    reading 0 (gap ++ r) = reading 0 r := by
  induction gap with
  | nil => rfl
  | cons b gap ih =>
    rw [List.cons_append, reading_cons_blank (hgap b List.mem_cons_self),
      ih fun c hc => hgap c (List.mem_cons_of_mem b hc)]

theorem UnitLetter.unitSeconds {u : Char} {unit : ℕ} (h : UnitLetter u unit) :
    unitSeconds u = some unit := by
  cases h <;> rfl

theorem UnitLetter.isDigit {u : Char} {unit : ℕ} (h : UnitLetter u unit) : u.isDigit = false := by
  cases h <;> decide

theorem UnitLetter.pos {u : Char} {unit : ℕ} (h : UnitLetter u unit) : 0 < unit := by
  cases h <;> decide

theorem SymbolSpelling.isSymbolChar {symbol : Option String} {mark : List Char}
    (h : SymbolSpelling symbol mark) : ∀ c ∈ mark, isSymbolChar c = true := by
  intro c hc
  cases h with
  | absent => exact absurd hc List.not_mem_nil
  | shown _ _ plain =>
    obtain ⟨hblank, hclose⟩ := plain c hc
    rw [TaskTimer.isSymbolChar, hblank, Bool.not_false, Bool.true_and, bne_iff_ne]
    exact hclose

theorem timeLexeme_append_symbol {symbol : Option String} {mark r : List Char}
    (hmark : SymbolSpelling symbol mark) (hr : EndsMark r) (seconds : UInt64) (head : List Char) :
    timeLexeme seconds.toNat head (mark ++ r) =
      ⟨some (.time seconds symbol), head ++ mark, r⟩ := by
  rw [timeLexeme, takeWhile_append_stop hr hmark.isSymbolChar,
    dropWhile_append_stop hr hmark.isSymbolChar, UInt64.ofNat_toNat]
  cases hmark with
  | absent => rfl
  | shown _ ne_nil =>
    rw [if_neg (by rwa [List.isEmpty_iff])]

theorem lexeme_amount {seconds : UInt64} {symbol : Option String} {d : Char} {ds mark r : List Char}
    {n unit : ℕ} {u : Char} (numeral : IsNumeral (d :: ds) n) (letter : UnitLetter u unit)
    (value : unit * n = seconds.toNat) (shows : SymbolSpelling symbol mark) (hr : EndsMark r)
    (o : ℕ) :
    lexeme o d (ds ++ u :: (mark ++ r)) =
      .ok ⟨some (.time seconds symbol), d :: ds ++ u :: mark, r⟩ := by
  obtain ⟨-, isDigit, rfl⟩ := numeral
  have hd : d.isDigit = true := isDigit d List.mem_cons_self
  have hds : ∀ c ∈ ds, c.isDigit = true := fun c hc => isDigit c (List.mem_cons_of_mem d hc)
  have hfits := UInt64.toNat_lt seconds
  rw [lexeme_digit hds (endsDigits_cons letter.isDigit _) hd,
    countdown_unit o letter.unitSeconds letter.pos, if_neg (by rw [UInt64.size]; omega), value,
    timeLexeme_append_symbol shows hr, List.append_assoc, List.singleton_append]

theorem reading_amount {seconds : UInt64} {symbol : Option String} {digits mark r : List Char}
    {n unit : ℕ} {u : Char} (numeral : IsNumeral digits n) (letter : UnitLetter u unit)
    (value : unit * n = seconds.toNat) (shows : SymbolSpelling symbol mark) (hr : EndsMark r) :
    reading 0 (digits ++ u :: mark ++ r) = (reading 0 r).map ([.time seconds symbol] ++ ·) := by
  cases digits with
  | nil => exact absurd rfl numeral.ne_nil
  | cons d ds =>
    rw [List.append_assoc, List.cons_append, List.cons_append,
      reading_cons (lexeme_amount numeral letter value shows hr 0)]
    rfl

theorem lexeme_minutesSpelling {seconds : UInt64} {symbol : Option String}
    {digits mark r : List Char} {n : ℕ} (numeral : IsNumeral digits n)
    (value : 60 * n = seconds.toNat) (shows : SymbolSpelling symbol mark)
    (apart : EndsDigits (mark ++ r)) (hr : EndsMark r) (o : ℕ) :
    lexeme o 'p' (digits ++ (mark ++ r)) =
      .ok ⟨some (.time seconds symbol), 'p' :: digits ++ mark, r⟩ := by
  obtain ⟨ne_nil, isDigit, rfl⟩ := numeral
  have hfits := UInt64.toNat_lt seconds
  rw [lexeme_minutes isDigit apart, if_neg (by rwa [List.isEmpty_iff]),
    if_neg (by rw [UInt64.size]; omega), value, timeLexeme_append_symbol shows hr]

theorem reading_minutes {seconds : UInt64} {symbol : Option String} {digits mark r : List Char}
    {n : ℕ} (numeral : IsNumeral digits n) (value : 60 * n = seconds.toNat)
    (shows : SymbolSpelling symbol mark) (apart : ∀ c ∈ mark.head?, c.isDigit = false)
    (hr : EndsMark r) :
    reading 0 ('p' :: (digits ++ mark) ++ r) = (reading 0 r).map ([.time seconds symbol] ++ ·) := by
  have hends : EndsDigits (mark ++ r) := by
    cases mark with
    | nil => exact hr.endsDigits
    | cons m mark => exact apart
  rw [List.cons_append, List.append_assoc,
    reading_cons (lexeme_minutesSpelling numeral value shows hends hr 0)]
  rfl

theorem reading_open (r : List Char) :
    reading 0 ('(' :: r) = (reading 0 r).map ([.openGroup] ++ ·) := by
  rw [reading_cons (lexeme_open 0 r)]
  rfl

theorem CountSpelling.isDigit {loopCount : UInt32} {count : List Char}
    (h : CountSpelling loopCount count) : ∀ c ∈ count, c.isDigit = true := by
  cases h with
  | omitted => exact fun c hc => absurd hc List.not_mem_nil
  | written _ numeral => exact numeral.isDigit

theorem CountSpelling.value {loopCount : UInt32} {count : List Char}
    (h : CountSpelling loopCount count) : readDecimal count = loopCount.toNat := by
  cases h with
  | omitted => rfl
  | written _ numeral => exact numeral.value

theorem lexeme_count {loopCount : UInt32} {count r : List Char}
    (counts : CountSpelling loopCount count) (hr : EndsDigits r) (o : ℕ) :
    lexeme o ')' (count ++ r) = .ok ⟨some (.closeGroup loopCount), ')' :: count, r⟩ := by
  have hfits := UInt32.toNat_lt loopCount
  rw [lexeme_close counts.isDigit hr, counts.value, if_pos (by rw [UInt32.size]; omega),
    UInt32.ofNat_toNat]

theorem reading_close {loopCount : UInt32} {count r : List Char}
    (counts : CountSpelling loopCount count) (hr : EndsMark r) :
    reading 0 (')' :: count ++ r) = (reading 0 r).map ([.closeGroup loopCount] ++ ·) := by
  rw [List.cons_append, reading_cons (lexeme_count counts hr.endsDigits 0)]
  rfl

/-! ## From a spelling to its tokens -/

theorem map_append_map (ts us : List Token) (x : Except SyntaxError (List Token)) :
    (x.map (us ++ ·)).map (ts ++ ·) = x.map (ts ++ us ++ ·) := by
  cases x with
  | error e => rfl
  | ok vs => exact congrArg Except.ok (List.append_assoc ts us vs).symm

mutual

/-- **A spelling of a node is cut into the tokens of the node.** -/
theorem Node.Spelling.reading_append {node : Node} {text : List Char} :
    node.Spelling text → ∀ r, EndsMark r →
      reading 0 (text ++ r) = (reading 0 r).map (node.tokens ++ ·)
  | .amount digits numeral letter value shows, r, hr => by
    rw [reading_amount numeral letter value shows hr, Node.tokens]
  | .minutes digits numeral value shows apart, r, hr => by
    rw [reading_minutes numeral value shows apart hr, Node.tokens]
  | @Node.Spelling.group children loopCount before body after count opens inside closes counts,
      r, hr => by
    have hbody := inside.reading_append _ (closes.endsMark_append_close (count ++ r))
    have htext : '(' :: (before ++ body ++ after ++ ')' :: count) ++ r =
        '(' :: (before ++ (body ++ (after ++ ')' :: (count ++ r)))) := by
      simp only [List.cons_append, List.append_assoc]
    rw [htext, reading_open, reading_gap opens, hbody, reading_gap closes, ← List.cons_append,
      reading_close counts hr, map_append_map, map_append_map]
    rfl

theorem Spelling.reading_append {nodes : List Node} {text : List Char} :
    Spelling nodes text → ∀ r, EndsMark r →
      reading 0 (text ++ r) = (reading 0 r).map (tokensOf nodes ++ ·)
  | .nil, r, hr => by
    rw [List.nil_append, tokensOf]
    cases reading 0 r <;> rfl
  | .single first, r, hr => by
    rw [first.reading_append r hr, tokensOf, tokensOf, List.append_nil]
  | .cons gap first blank apart others, r, hr => by
    rw [List.append_assoc, List.append_assoc, first.reading_append _ (blank.endsMark_append apart _),
      reading_gap blank, others.reading_append r hr, map_append_map]
    rfl

end

/-! ## From tokens to the tree -/

mutual

theorem Node.parseOnStack_tokens (stack : List OpenGroup) (siblings : List Node) (rest : List Token) :
    ∀ (node : Node) (index : ℕ), stack.length + node.depth ≤ maxDepth →
      parseOnStack index stack siblings (node.tokens ++ rest) =
        parseOnStack (index + node.tokens.length) stack (node :: siblings) rest
  | .leaf seconds symbol, index, _ => rfl
  | .group children loopCount, index, hdepth => by
    rw [Node.depth] at hdepth
    have hopen : ¬ maxDepth ≤ stack.length := by omega
    have hinside : (⟨index, siblings⟩ :: stack : List OpenGroup).length +
        TaskTimer.depth children ≤ maxDepth := by
      rw [List.length_cons]
      omega
    rw [Node.tokens, List.cons_append, List.cons_append, List.append_assoc, parseOnStack,
      if_neg hopen, TaskTimer.parseOnStack_tokensOf _ _ _ children _ hinside, List.singleton_append,
      parseOnStack, List.append_nil, List.reverse_reverse, List.length_cons, List.length_append,
      List.length_singleton]
    congr 1
    omega

theorem parseOnStack_tokensOf (stack : List OpenGroup) (siblings : List Node) (rest : List Token) :
    ∀ (nodes : List Node) (index : ℕ), stack.length + depth nodes ≤ maxDepth →
      parseOnStack index stack siblings (tokensOf nodes ++ rest) =
        parseOnStack (index + (tokensOf nodes).length) stack (nodes.reverse ++ siblings) rest
  | [], index, _ => rfl
  | node :: nodes, index, hdepth => by
    rw [depth] at hdepth
    rw [tokensOf, List.append_assoc, node.parseOnStack_tokens stack siblings _ index (by omega),
      parseOnStack_tokensOf stack _ rest nodes _ (by omega), List.length_append, Nat.add_assoc,
      List.reverse_cons, List.append_assoc, List.singleton_append]

end

/-- **The tokens of a tree make up the tree**, if its groups are not nested too deep. -/
theorem parseTokens_tokensOf {nodes : List Node} (hdepth : depth nodes ≤ maxDepth) :
    parseTokens (tokensOf nodes) = .ok nodes := by
  have h := parseOnStack_tokensOf [] [] [] nodes 0 (by rwa [List.length_nil, Nat.zero_add])
  rw [List.append_nil, List.append_nil, parseOnStack, List.reverse_reverse] at h
  rw [parseTokens_eq, h]

/-! ## From a spelling to the tree -/

theorem tokenize_of_reading {text : String} {tokens : List Token}
    (h : reading 0 text.toList = .ok tokens) : tokenize text = .ok tokens :=
  mapError_eq_ok_iff.1 h

/-- **A spelling of nodes is read as these nodes**, whichever it is. -/
theorem parse_of_spelling {nodes : List Node} {text : String} (hdepth : depth nodes ≤ maxDepth)
    (hspelling : Spelling nodes text.toList) : parse text = .ok nodes := by
  have hread := hspelling.reading_append [] endsMark_nil
  rw [List.append_nil, reading_nil] at hread
  have htokens : tokenize text = .ok (tokensOf nodes ++ []) := tokenize_of_reading hread
  rw [parse, htokens, List.append_nil]
  exact parseTokens_tokensOf hdepth

/-- Both forms of a countdown, a symbol that looks like notation, and an empty group. -/
theorem parse_of_spelling_untidy :
    let nodes : List Node :=
      [.group [.leaf 420 (some "(m"), .group [] 0] 7, .leaf 7200 none]
    depth nodes ≤ maxDepth ∧ Spelling nodes "(\tp007(m ( ))007 02h".toList ∧
      parse "(\tp007(m ( ))007 02h" = .ok nodes := by
  intro nodes
  have hmark : SymbolSpelling (some "(m") ['(', 'm'] :=
    .shown ['(', 'm'] (List.cons_ne_nil _ _)
      (List.forall_mem_cons.2 ⟨by decide, List.forall_mem_singleton.2 (by decide)⟩)
  have hmarked : Node.Spelling (.leaf 420 (some "(m")) "p007(m".toList :=
    .minutes ['0', '0', '7'] (by decide : IsNumeral _ 7) rfl hmark (by rintro _ ⟨⟩; rfl)
  have hempty : Node.Spelling (.group [] 0) "( )".toList :=
    .group [' '] [] (by decide) .nil (by decide) .omitted
  have hpair : Spelling [.leaf 420 (some "(m"), .group [] 0] "p007(m ( )".toList :=
    .cons [' '] hmarked (by decide) (List.cons_ne_nil _ _) (.single hempty)
  have hgroup : Node.Spelling (.group [.leaf 420 (some "(m"), .group [] 0] 7)
      "(\tp007(m ( ))007".toList :=
    .group ['\t'] [] (by decide) hpair (by decide) (.written ['0', '0', '7'] (by decide))
  have hplain : Node.Spelling (.leaf 7200 none) "02h".toList :=
    .amount ['0', '2'] (by decide : IsNumeral _ 2) .hours rfl .absent
  have hspelling : Spelling nodes "(\tp007(m ( ))007 02h".toList :=
    .cons [' '] hgroup (by decide) (List.cons_ne_nil _ _) (.single hplain)
  have hdepth : depth nodes ≤ maxDepth := by decide
  exact ⟨hdepth, hspelling, parse_of_spelling hdepth hspelling⟩

end TaskTimer
