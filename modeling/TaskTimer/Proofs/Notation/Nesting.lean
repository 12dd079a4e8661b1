import Mathlib.Data.List.Induction
import TaskTimer.Proofs.Lists
import TaskTimer.Proofs.Notation.Spelling

/-!
# Groups that nest

Which streams of tokens write nodes, and what is wrong with the others. The first token that cannot
follow those in front of it decides, and behind all tokens the innermost group that is open.

* `openGroups`: the indexes of the groups that are open behind some tokens.
* `Offence`: a token that cannot follow the tokens in front of it. `Blameless`: there is none.
* `LastUnclosed`: the last group that was opened and never closed.
* `Parsed`: what the parser holds behind the tokens it has read. `Blameless.parsed`: it gets there.
* `NestedWithin`: a stream in which groups nest properly, said by counting.
* **`parseTokens_verdict`**: what is said of each stream.
* **`parseTokens_iff_tokensOf`**: the tokens of nodes are what is accepted, and nothing else.
-/

namespace TaskTimer

/-! ## Groups that are open -/

/-- The indexes of the groups that are open behind the tokens, innermost first. The tokens start at
`index`, inside the groups `stack`. -/
def openFrom (index : ℕ) (stack : List ℕ) : List Token → List ℕ
  | [] => stack
  | .time _ _ :: tokens => openFrom (index + 1) stack tokens
  | .openGroup :: tokens => openFrom (index + 1) (index :: stack) tokens
  | .closeGroup _ :: tokens => openFrom (index + 1) stack.tail tokens

/-- The indexes of the groups that are open behind the tokens, innermost first. -/
def openGroups (tokens : List Token) : List ℕ := openFrom 0 [] tokens

/-- The token cannot follow the tokens in front of it, and this is what is said about it. -/
inductive Offence (before : List Token) : Token → SyntaxError → Prop
  | tooDeep (full : (openGroups before).length = 32) : Offence before .openGroup (.tooDeep 32)
  | unexpectedClose {loopCount : UInt32} (none : openGroups before = []) :
      Offence before (.closeGroup loopCount) (.unexpectedClose before.length)

/-- Every token can follow those in front of it. -/
def Blameless (tokens : List Token) : Prop :=
  ∀ before token after e, tokens = before ++ token :: after → ¬ Offence before token e

/-- A group that is opened in front of these tokens is closed among them. -/
def Closes (tokens : List Token) : Prop :=
  ∃ children loopCount rest, tokens = tokensOf children ++ .closeGroup loopCount :: rest

/-- The last group that is never closed is opened by the token at this index. -/
structure LastUnclosed (tokens : List Token) (index : ℕ) : Prop where
  opened : ∃ before after, tokens = before ++ .openGroup :: after ∧ before.length = index ∧
    ¬ Closes after
  last : ∀ before after, tokens = before ++ .openGroup :: after → index < before.length →
    Closes after

/-! ### The groups of nodes are closed -/

theorem openFrom_append (index : ℕ) (stack : List ℕ) (a b : List Token) :
    openFrom index stack (a ++ b) = openFrom (index + a.length) (openFrom index stack a) b := by
  induction a generalizing index stack with
  | nil => rfl
  | cons token a ih =>
    rw [List.length_cons, Nat.add_comm a.length, ← Nat.add_assoc]
    cases token <;> exact ih _ _

mutual

theorem Node.openFrom_tokens (stack : List ℕ) :
    ∀ (node : Node) (index : ℕ), openFrom index stack node.tokens = stack
  | .leaf _ _, _ => rfl
  | .group children _, index => by
    rw [Node.tokens, List.cons_append, openFrom, openFrom_append,
      TaskTimer.openFrom_tokensOf _ children]
    rfl

theorem openFrom_tokensOf (stack : List ℕ) :
    ∀ (nodes : List Node) (index : ℕ), openFrom index stack (tokensOf nodes) = stack
  | [], _ => rfl
  | node :: nodes, index => by
    rw [tokensOf, openFrom_append, node.openFrom_tokens, openFrom_tokensOf stack nodes]

end

theorem mem_openFrom {i index : ℕ} {stack : List ℕ} {tokens : List Token}
    (h : i ∈ openFrom index stack tokens) : i ∈ stack ∨ index ≤ i := by
  induction tokens generalizing index stack with
  | nil => exact .inl h
  | cons token tokens ih =>
    cases token with
    | time seconds symbol =>
      exact (ih h).imp_right Nat.le_of_succ_le
    | openGroup =>
      rcases ih h with hstack | hle
      · rcases List.mem_cons.1 hstack with rfl | hstack
        · exact .inr (Nat.le_refl i)
        · exact .inl hstack
      · exact .inr (Nat.le_of_succ_le hle)
    | closeGroup loopCount =>
      exact (ih h).imp List.mem_of_mem_tail Nat.le_of_succ_le

theorem lt_of_mem_openGroups {i : ℕ} {tokens : List Token} (h : i ∈ openGroups tokens) :
    i < tokens.length := by
  induction tokens using List.reverseRecOn with
  | nil => cases h
  | append_singleton tokens token ih =>
    rw [List.length_append, List.length_singleton]
    rw [openGroups, openFrom_append, Nat.zero_add] at h
    cases token with
    | time seconds symbol => exact Nat.lt_succ_of_lt (ih h)
    | openGroup =>
      rcases List.mem_cons.1 h with rfl | h
      · exact Nat.lt_succ_self _
      · exact Nat.lt_succ_of_lt (ih h)
    | closeGroup loopCount => exact Nat.lt_succ_of_lt (ih (List.mem_of_mem_tail h))

/-- **A group that is closed is not open.** -/
theorem Closes.not_mem_openGroups {after : List Token} (h : Closes after) (before : List Token) :
    before.length ∉ openGroups (before ++ .openGroup :: after) := by
  obtain ⟨children, loopCount, rest, rfl⟩ := h
  intro hmem
  rw [openGroups, openFrom_append, openFrom, openFrom_append, openFrom_tokensOf, openFrom,
    List.tail_cons, Nat.zero_add] at hmem
  rcases mem_openFrom hmem with hbefore | hle
  · exact Nat.lt_irrefl _ (lt_of_mem_openGroups hbefore)
  · omega

theorem Closes.append {tokens : List Token} (h : Closes tokens) (more : List Token) :
    Closes (tokens ++ more) := by
  obtain ⟨children, loopCount, rest, rfl⟩ := h
  exact ⟨children, loopCount, rest ++ more, List.append_assoc ..⟩

mutual

theorem Node.closes_of_tokens : ∀ (node : Node) {before after : List Token},
    node.tokens = before ++ .openGroup :: after → Closes after
  | .leaf _ _, before, after, h => by
    have hmem : Token.openGroup ∈ [Token.time _ _] := h ▸ List.mem_append_cons_self
    cases List.mem_singleton.1 hmem
  | .group children loopCount, before, after, h => by
    rw [Node.tokens, List.cons_append] at h
    cases before with
    | nil => exact ⟨children, loopCount, [], (List.cons.inj h).2.symm⟩
    | cons token before =>
      rcases append_eq_append_cons (List.cons.inj h).2 with ⟨mid, hinside, rfl⟩ | ⟨mid, -, hclose⟩
      · exact (closes_of_tokensOf children hinside).append _
      · have hmem : Token.openGroup ∈ [Token.closeGroup loopCount] :=
          hclose ▸ List.mem_append_cons_self
        cases List.mem_singleton.1 hmem

theorem closes_of_tokensOf : ∀ (nodes : List Node) {before after : List Token},
    tokensOf nodes = before ++ .openGroup :: after → Closes after
  | [], before, after, h => absurd h.symm (List.append_ne_nil_of_right_ne_nil _ (List.cons_ne_nil _ _))
  | node :: nodes, before, after, h => by
    rcases append_eq_append_cons h with ⟨mid, hnode, rfl⟩ | ⟨mid, -, hnodes⟩
    · exact (node.closes_of_tokens hnode).append _
    · exact closes_of_tokensOf nodes hnodes

end

/-! ## What the parser holds -/

theorem tokensOf_append (a b : List Node) : tokensOf (a ++ b) = tokensOf a ++ tokensOf b := by
  induction a with
  | nil => rfl
  | cons node a ih => rw [List.cons_append, tokensOf, tokensOf, ih, List.append_assoc]

theorem depth_append (a b : List Node) : depth (a ++ b) = max (depth a) (depth b) := by
  induction a with
  | nil => exact (Nat.zero_max _).symm
  | cons node a ih => rw [List.cons_append, depth, depth, ih, Nat.max_assoc]

/-- The parser has read the tokens. It holds the groups that are open, innermost first, and the
nodes behind the start of the innermost one, last one first. -/
inductive Parsed : List Token → List OpenGroup → List Node → Prop
  | top {nodes : List Node} (shallow : depth nodes ≤ maxDepth) :
      Parsed (tokensOf nodes) [] nodes.reverse
  | inside {before : List Token} {stack : List OpenGroup} {siblings nodes : List Node}
      (around : Parsed before stack siblings) (shallow : stack.length + 1 + depth nodes ≤ maxDepth) :
      Parsed (before ++ .openGroup :: tokensOf nodes) (⟨before.length, siblings⟩ :: stack)
        nodes.reverse

namespace Parsed

variable {before : List Token} {stack : List OpenGroup} {siblings : List Node}

theorem length_le (h : Parsed before stack siblings) : stack.length ≤ maxDepth := by
  cases h with
  | top => exact Nat.zero_le _
  | inside around shallow => exact Nat.le_trans (Nat.le_add_right _ _) shallow

theorem parseTokens_append (h : Parsed before stack siblings) (rest : List Token) :
    parseTokens (before ++ rest) = parseOnStack before.length stack siblings rest := by
  induction h generalizing rest with
  | @top nodes shallow =>
    rw [parseTokens_eq, parseOnStack_tokensOf [] [] rest nodes 0 (by simpa using shallow), Nat.zero_add,
      List.append_nil]
  | @inside before stack siblings nodes around shallow ih =>
    rw [List.append_assoc, ih, List.cons_append, parseOnStack, if_neg (by omega),
      parseOnStack_tokensOf (_ :: stack) [] rest nodes _ shallow, List.append_nil, List.length_append,
      List.length_cons, Nat.add_assoc, Nat.add_comm 1]

/-- The open groups of the parser are those that are open behind the tokens. -/
theorem openGroups_eq (h : Parsed before stack siblings) :
    openGroups before = stack.map OpenGroup.index := by
  induction h with
  | top => exact openFrom_tokensOf [] _ 0
  | inside around shallow ih =>
    rw [openGroups, openFrom_append, openFrom, openFrom_tokensOf, Nat.zero_add, List.map_cons, ← ih]
    rfl

theorem node (h : Parsed before stack siblings) (node : Node)
    (shallow : stack.length + node.depth ≤ maxDepth) :
    Parsed (before ++ node.tokens) stack (node :: siblings) := by
  have htokens : tokensOf [node] = node.tokens := List.append_nil _
  have hdepth : depth [node] = node.depth := Nat.max_zero _
  cases h with
  | @top nodes shallow' =>
    rw [← htokens, ← tokensOf_append, ← List.reverse_concat]
    refine .top ?_
    rw [depth_append, hdepth]
    rw [List.length_nil] at shallow
    omega
  | @inside before stack siblings nodes around shallow' =>
    rw [← htokens, List.append_assoc, List.cons_append, ← tokensOf_append, ← List.reverse_concat]
    refine .inside around ?_
    rw [depth_append, hdepth]
    rw [List.length_cons] at shallow
    omega

theorem step (h : Parsed before stack siblings) {token : Token}
    (fits : ∀ e, ¬ Offence before token e) :
    ∃ stack' siblings', Parsed (before ++ [token]) stack' siblings' := by
  have hlength := h.length_le
  cases token with
  | time seconds symbol =>
    exact ⟨stack, _, h.node (.leaf seconds symbol) hlength⟩
  | openGroup =>
    refine ⟨⟨before.length, siblings⟩ :: stack, [], @Parsed.inside _ _ _ [] h ?_⟩
    have hne : stack.length ≠ maxDepth := fun hfull =>
      fits _ (.tooDeep (by rw [h.openGroups_eq, List.length_map, hfull]; rfl))
    exact Nat.lt_of_le_of_ne hlength hne
  | closeGroup loopCount =>
    cases h with
    | top => exact absurd (.unexpectedClose (Parsed.top ‹_›).openGroups_eq) (fits _)
    | @inside before stack siblings nodes around shallow =>
      refine ⟨stack, .group nodes loopCount :: siblings, ?_⟩
      rw [List.append_assoc]
      refine around.node (.group nodes loopCount) ?_
      rw [Node.depth]
      omega

/-- The innermost group that the parser holds is the last one that is never closed. -/
theorem lastUnclosed {g : OpenGroup} (h : Parsed before (g :: stack) siblings) :
    LastUnclosed before g.index := by
  cases h with
  | @inside before _ siblings nodes around shallow =>
    refine ⟨⟨before, tokensOf nodes, rfl, rfl, fun hcloses => ?_⟩, fun before' after h hlt => ?_⟩
    · refine hcloses.not_mem_openGroups before ?_
      rw [(around.inside shallow).openGroups_eq]
      exact List.mem_cons_self
    · rcases append_eq_append_cons h with ⟨mid, rfl, -⟩ | ⟨mid, rfl, hmid⟩
      · have hle : before'.length ≤ (before' ++ .openGroup :: mid).length := by simp
        exact absurd hlt (Nat.not_lt.2 hle)
      · cases mid with
        | nil => simp at hlt
        | cons token mid => exact closes_of_tokensOf nodes (List.cons.inj hmid).2

end Parsed

/-! ## The first offence -/

theorem Blameless.of_append {a b : List Token} (h : Blameless (a ++ b)) : Blameless a := by
  rintro before token after e rfl
  exact h before token (after ++ b) e (by simp)

/-- **Some token is the first that cannot follow, or there is none.** -/
theorem blameless_or_offence (tokens : List Token) :
    Blameless tokens ∨ ∃ before token after e, tokens = before ++ token :: after ∧
      Blameless before ∧ Offence before token e := by
  induction tokens using List.reverseRecOn with
  | nil => exact .inl fun before token after e h => by simp at h
  | append_singleton tokens token ih =>
    rcases ih with blameless | ⟨before, first, after, e, rfl, blameless, offence⟩
    · by_cases fits : ∀ e, ¬ Offence tokens token e
      · refine .inl fun before token' after e h => ?_
        rcases append_eq_append_cons h with ⟨mid, htokens, -⟩ | ⟨mid, rfl, hlast⟩
        · exact blameless before token' mid e htokens
        · cases mid with
        | nil =>
          obtain ⟨rfl, -⟩ := List.cons.inj hlast
          rw [List.append_nil]
          exact fits e
        | cons head mid => simp at hlast
      · obtain ⟨e, offence⟩ := not_forall_not.1 fits
        exact .inr ⟨tokens, token, [], e, rfl, blameless, offence⟩
    · exact .inr ⟨before, first, after ++ [token], e, by simp, blameless, offence⟩

/-- **The parser reads every blameless stream.** -/
theorem Blameless.parsed {tokens : List Token} (h : Blameless tokens) :
    ∃ stack siblings, Parsed tokens stack siblings := by
  induction tokens using List.reverseRecOn with
  | nil => exact ⟨[], [], @Parsed.top [] (Nat.zero_le _)⟩
  | append_singleton tokens token ih =>
    obtain ⟨stack, siblings, parsed⟩ := ih h.of_append
    exact parsed.step fun e => h tokens token [] e rfl

/-- **The first offence is the error, whatever follows it.** -/
theorem Offence.parseTokens_eq {before : List Token} {token : Token} {e : SyntaxError}
    (h : Offence before token e) (blameless : Blameless before) (after : List Token) :
    parseTokens (before ++ token :: after) = .error e := by
  obtain ⟨stack, siblings, parsed⟩ := blameless.parsed
  have hopen := parsed.openGroups_eq
  rw [parsed.parseTokens_append]
  cases h with
  | tooDeep full =>
    rw [hopen, List.length_map] at full
    exact if_pos (Nat.le_of_eq full.symm)
  | unexpectedClose none =>
    rw [hopen, List.map_eq_nil_iff] at none
    rw [none]
    rfl

theorem Parsed.parseTokens_eq {tokens : List Token} {stack : List OpenGroup} {siblings : List Node}
    (h : Parsed tokens stack siblings) :
    parseTokens tokens = parseOnStack tokens.length stack siblings [] := by
  rw [← h.parseTokens_append, List.append_nil]

/-- **The first token that cannot follow is the error**, or else the last group that is never
closed. If there is neither, the tokens write nodes. -/
theorem parseTokens_verdict (tokens : List Token) :
    (∀ before token after e, tokens = before ++ token :: after → Blameless before →
        Offence before token e → parseTokens tokens = .error e) ∧
      (Blameless tokens → ∀ i outer, openGroups tokens = i :: outer →
        parseTokens tokens = .error (.unclosedGroup i) ∧ LastUnclosed tokens i) ∧
      (Blameless tokens → openGroups tokens = [] → ∃ nodes, parseTokens tokens = .ok nodes) ∧
      (Blameless tokens ∨ ∃ before token after e, tokens = before ++ token :: after ∧
        Blameless before ∧ Offence before token e) := by
  refine ⟨?_, fun blameless i outer hopen => ?_, fun blameless hopen => ?_,
    blameless_or_offence tokens⟩
  · rintro before token after e rfl blameless offence
    exact offence.parseTokens_eq blameless after
  · obtain ⟨stack, siblings, parsed⟩ := blameless.parsed
    rw [parsed.openGroups_eq] at hopen
    obtain ⟨g, stack, rfl, rfl, -⟩ := List.map_eq_cons_iff.1 hopen
    exact ⟨parsed.parseTokens_eq, parsed.lastUnclosed⟩
  · obtain ⟨stack, siblings, parsed⟩ := blameless.parsed
    rw [parsed.openGroups_eq, List.map_eq_nil_iff] at hopen
    subst hopen
    exact ⟨siblings.reverse, parsed.parseTokens_eq⟩

example : parseTokens [.openGroup, .openGroup, .closeGroup 2] = .error (.unclosedGroup 0) := by
  cbv

/-! ## The streams that write nodes -/

/-- The number of groups that are opened among the tokens. -/
def opened (tokens : List Token) : ℕ :=
  tokens.countP fun | .openGroup => true | _ => false

/-- The number of groups that are closed among the tokens. -/
def closed (tokens : List Token) : ℕ :=
  tokens.countP fun | .closeGroup _ => true | _ => false

theorem opened_nil : opened [] = 0 := rfl

theorem closed_nil : closed [] = 0 := rfl

section Counts

variable (a b tokens : List Token) (loopCount : UInt32)

theorem opened_append : opened (a ++ b) = opened a + opened b := List.countP_append

theorem closed_append : closed (a ++ b) = closed a + closed b := List.countP_append

theorem opened_open : opened (.openGroup :: tokens) = opened tokens + 1 :=
  List.countP_cons_of_pos rfl

theorem closed_open : closed (.openGroup :: tokens) = closed tokens :=
  List.countP_cons_of_neg Bool.false_ne_true

theorem opened_close : opened (.closeGroup loopCount :: tokens) = opened tokens :=
  List.countP_cons_of_neg Bool.false_ne_true

theorem closed_close : closed (.closeGroup loopCount :: tokens) = closed tokens + 1 :=
  List.countP_cons_of_pos rfl

end Counts

/-- Every group is opened before it is closed and closed in the end, and no more than `limit` groups
are open at a time. -/
structure NestedWithin (limit : ℕ) (tokens : List Token) : Prop where
  closed_le : ∀ start, start <+: tokens → closed start ≤ opened start
  opened_le : ∀ start, start <+: tokens → opened start ≤ closed start + limit
  opened_eq : opened tokens = closed tokens

mutual

theorem Node.opened_tokens : ∀ node : Node, opened node.tokens = closed node.tokens
  | .leaf _ _ => rfl
  | .group children loopCount => by
    rw [Node.tokens, List.cons_append, opened_open, closed_open, opened_append, closed_append,
      TaskTimer.opened_tokensOf children, opened_close, closed_close, opened_nil,
      closed_nil]

theorem opened_tokensOf : ∀ nodes : List Node, opened (tokensOf nodes) = closed (tokensOf nodes)
  | [] => rfl
  | node :: nodes => by
    rw [tokensOf, opened_append, closed_append, node.opened_tokens, opened_tokensOf nodes]

end

theorem Parsed.opened_eq {tokens : List Token} {stack : List OpenGroup} {siblings : List Node}
    (h : Parsed tokens stack siblings) : opened tokens = closed tokens + stack.length := by
  induction h with
  | top => exact opened_tokensOf _
  | @inside before stack siblings nodes around shallow ih =>
    rw [opened_append, closed_append, opened_open, closed_open, ih, opened_tokensOf nodes,
      List.length_cons]
    omega

theorem Parsed.of_prefix_ok {tokens start : List Token} {nodes : List Node}
    (h : parseTokens tokens = .ok nodes) (hstart : start <+: tokens) :
    ∃ stack siblings, Parsed start stack siblings := by
  rcases blameless_or_offence tokens with blameless | ⟨before, token, after, e, rfl, blameless, h'⟩
  · obtain ⟨after, rfl⟩ := hstart
    exact blameless.of_append.parsed
  · exact nomatch h.symm.trans (h'.parseTokens_eq blameless after)

theorem Parsed.of_ok {tokens : List Token} {nodes : List Node} (h : parseTokens tokens = .ok nodes) :
    Parsed tokens [] nodes.reverse := by
  obtain ⟨stack, siblings, parsed⟩ := of_prefix_ok h (List.prefix_refl tokens)
  rw [parsed.parseTokens_eq] at h
  cases stack with
  | cons g stack => cases h
  | nil =>
    cases h
    rwa [List.reverse_reverse]

theorem parseTokens_ok_iff_tokensOf {tokens : List Token} {nodes : List Node} :
    parseTokens tokens = .ok nodes ↔ tokens = tokensOf nodes ∧ depth nodes ≤ maxDepth := by
  refine ⟨fun h => ?_, ?_⟩
  · have parsed := Parsed.of_ok h
    generalize hsiblings : nodes.reverse = siblings at parsed
    cases parsed with
    | top shallow =>
      rw [List.reverse_inj.1 hsiblings]
      exact ⟨rfl, shallow⟩
  · rintro ⟨rfl, shallow⟩
    exact parseTokens_tokensOf shallow

theorem NestedWithin.blameless {tokens : List Token} (h : NestedWithin maxDepth tokens) :
    Blameless tokens := by
  rcases blameless_or_offence tokens with blameless | ⟨before, token, after, e, rfl, blameless, h'⟩
  · exact blameless
  · exfalso
    obtain ⟨stack, siblings, parsed⟩ := blameless.parsed
    have hcount := parsed.opened_eq
    have hopen := parsed.openGroups_eq
    have hstart : before ++ [token] <+: before ++ token :: after := ⟨after, by simp⟩
    have hle := h.closed_le _ hstart
    have hle' := h.opened_le _ hstart
    rw [opened_append, closed_append] at hle hle'
    cases h' with
    | tooDeep full =>
      rw [hopen, List.length_map] at full
      rw [opened_open, closed_open, opened_nil, closed_nil, maxDepth] at hle'
      omega
    | unexpectedClose none =>
      rw [hopen, List.map_eq_nil_iff] at none
      rw [none, List.length_nil] at hcount
      rw [opened_close, closed_close, opened_nil, closed_nil] at hle
      omega

/-- **A stream is accepted exactly when its groups nest properly.** -/
theorem exists_parseTokens_ok_iff {tokens : List Token} :
    (∃ nodes, parseTokens tokens = .ok nodes) ↔ NestedWithin maxDepth tokens := by
  refine ⟨?_, fun h => ?_⟩
  · rintro ⟨nodes, h⟩
    refine ⟨fun start hstart => ?_, fun start hstart => ?_, (Parsed.of_ok h).opened_eq⟩
    · obtain ⟨stack, siblings, parsed⟩ := Parsed.of_prefix_ok h hstart
      rw [parsed.opened_eq]
      exact Nat.le_add_right _ _
    · obtain ⟨stack, siblings, parsed⟩ := Parsed.of_prefix_ok h hstart
      rw [parsed.opened_eq]
      exact Nat.add_le_add_left parsed.length_le _
  · obtain ⟨stack, siblings, parsed⟩ := h.blameless.parsed
    have hstack : stack = [] := List.length_eq_zero_iff.1 (by
      have := parsed.opened_eq
      have := h.opened_eq
      omega)
    subst hstack
    exact ⟨siblings.reverse, parsed.parseTokens_eq⟩

/-- **Nodes that are not nested too deep are read back from their tokens, and nothing else is
accepted.** -/
theorem parseTokens_iff_tokensOf (tokens : List Token) :
    (∀ nodes, parseTokens tokens = .ok nodes ↔ tokens = tokensOf nodes ∧ depth nodes ≤ 32) ∧
      ((∃ e, parseTokens tokens = .error e) ↔ ¬ NestedWithin 32 tokens) := by
  refine ⟨fun nodes => parseTokens_ok_iff_tokensOf, ?_⟩
  change _ ↔ ¬ NestedWithin maxDepth tokens
  rw [← exists_parseTokens_ok_iff]
  cases parseTokens tokens <;> simp

end TaskTimer
