import TaskTimer.Notation.Parser

/-!
# The calls of the parser

A call of the parser reads the siblings inside one group and leaves the groups around it to the
calls that wait for it. Here these calls are kept on a stack, and one token is read after the other.

* `OpenGroup`: what a call that waits knows of its group.
* `parseOnStack`: the tokens are read beside the stack of the groups that are open.
* `parseOnStack_eq`: a call reads up to the end of its group, and the calls that wait go on there.
* **`parseTokens_eq`**: both ways to read a stream agree, on its nodes and on its error.
-/

namespace TaskTimer

/-- A group whose end has not been read: the token that opened it, and the siblings before it,
last one first. -/
structure OpenGroup where
  index : Nat
  before : List Node

/-- Reads the tokens from position `index` on, inside the groups `stack`, innermost first. The
siblings already read at this level come last one first. -/
def parseOnStack (index : Nat) (stack : List OpenGroup) (siblings : List Node) :
    List Token → Except SyntaxError (List Node)
  | [] =>
    match stack with
    | [] => .ok siblings.reverse
    | g :: _ => .error (.unclosedGroup g.index)
  | .time seconds symbol :: tokens =>
    parseOnStack (index + 1) stack (.leaf seconds symbol :: siblings) tokens
  | .openGroup :: tokens =>
    if maxDepth ≤ stack.length then .error (.tooDeep maxDepth)
    else parseOnStack (index + 1) (⟨index, siblings⟩ :: stack) [] tokens
  | .closeGroup loopCount :: tokens =>
    match stack with
    | [] => .error (.unexpectedClose index)
    | g :: outer =>
      parseOnStack (index + 1) outer (.group siblings.reverse loopCount :: g.before) tokens

/-- What the calls that wait make of a sequence that was read: the last of them goes on behind the
group, and with no call left the sequence is the answer. -/
def Sequence.resume {start : Nat} (s : Sequence start) (tokens : Array Token) :
    List OpenGroup → Except SyntaxError (List Node)
  | [] => .ok s.nodes
  | g :: outer =>
    parseOnStack s.cursor outer (.group s.nodes s.loopCount :: g.before)
      (tokens.toList.drop s.cursor)

section Tokens

variable {tokens : Array Token} {cursor : Nat}

theorem drop_of_getElem? {token : Token} (h : tokens[cursor]? = some token) :
    tokens.toList.drop cursor = token :: tokens.toList.drop (cursor + 1) := by
  rw [← Array.getElem?_toList] at h
  obtain ⟨hcursor, rfl⟩ := List.getElem?_eq_some_iff.1 h
  exact List.drop_eq_getElem_cons hcursor

theorem drop_of_getElem?_none (h : tokens[cursor]? = none) : tokens.toList.drop cursor = [] := by
  rw [← Array.getElem?_toList] at h
  exact List.drop_eq_nil_of_le (List.getElem?_eq_none_iff.1 h)

end Tokens

/-- **A call reads up to the end of its group**, which is the innermost of the stack, and the calls
that wait go on behind it. -/
theorem parseOnStack_eq {tokens : Array Token} {openedAt : Option Nat} {depth start : Nat}
    {siblings : List Node} {cursor : Nat} {start_le : start ≤ cursor} {stack : List OpenGroup}
    (hopened : openedAt = stack.head?.map OpenGroup.index) (hdepth : depth = stack.length) :
    parseOnStack cursor stack siblings (tokens.toList.drop cursor) =
      parseSequence tokens openedAt depth siblings cursor start_le >>= (·.resume tokens stack) := by
  fun_induction parseSequence tokens openedAt depth siblings cursor start_le generalizing stack with
  | case1 depth start siblings cursor start_le htoken index =>
    rw [drop_of_getElem?_none htoken]
    cases stack with
    | nil => cases hopened
    | cons g outer =>
      cases hopened
      rfl
  | case2 depth start siblings cursor start_le htoken =>
    rw [drop_of_getElem?_none htoken]
    cases stack with
    | nil => rfl
    | cons g outer => cases hopened
  | case3 openedAt depth start siblings cursor start_le seconds symbol htoken ih =>
    rw [drop_of_getElem? htoken, parseOnStack, ih hopened hdepth]
  | case4 openedAt depth start siblings cursor start_le htoken hdeep =>
    rw [drop_of_getElem? htoken, parseOnStack, if_pos (by omega)]
    rfl
  | case5 openedAt depth start siblings cursor start_le htoken hdeep e hinner ih =>
    rw [drop_of_getElem? htoken, parseOnStack, if_neg (by omega)]
    rw [@ih (⟨cursor, siblings⟩ :: stack) rfl (congrArg (· + 1) hdepth), hinner]
    rfl
  | case6 openedAt depth start siblings cursor start_le htoken hdeep inner hinner ih_inner ih =>
    -- the group is on the stack while the inner call reads, and the outer call goes on behind it
    rw [drop_of_getElem? htoken, parseOnStack, if_neg (by omega), ← ih hopened hdepth]
    rw [@ih_inner (⟨cursor, siblings⟩ :: stack) rfl (congrArg (· + 1) hdepth), hinner]
    rfl
  | case7 depth start siblings cursor start_le loopCount htoken =>
    rw [drop_of_getElem? htoken]
    cases stack with
    | nil => rfl
    | cons g outer => cases hopened
  | case8 depth start siblings cursor start_le loopCount htoken index =>
    rw [drop_of_getElem? htoken]
    cases stack with
    | nil => cases hopened
    | cons g outer => rfl

/-- **Both ways to read a stream agree.** -/
theorem parseTokens_eq (tokens : List Token) : parseTokens tokens = parseOnStack 0 [] [] tokens := by
  have h := @parseOnStack_eq tokens.toArray none 0 0 [] 0 (Nat.le_refl 0) [] rfl rfl
  rw [List.drop_zero] at h
  rw [parseTokens, h]
  cases parseSequence tokens.toArray none 0 [] 0 (Nat.le_refl 0) <;> rfl

end TaskTimer
