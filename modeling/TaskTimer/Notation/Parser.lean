import TaskTimer.Notation.Lexer
import TaskTimer.Notation.Node

/-!
# From tokens to the timer tree

Siblings are read one after the other, and a group by a call of its own that reads the siblings
inside it. All calls share one cursor. The top level is a sequence of its own, and groups nest at
most `maxDepth` deep.

* `parseSequence`: the siblings up to the end of their group, or of all tokens.
* `parseTokens`: the nodes that a stream of tokens writes, or its first offence.
* `parse`: the nodes that a text writes. `nodesOrNone`: the same if nobody asks for the errors.
-/

namespace TaskTimer

/-- The deepest nesting of groups. -/
def maxDepth : Nat := 32

/-- A sequence that was read from the place `start` on: its nodes, the loop count of the token that
closed it, and the cursor behind that token. -/
structure Sequence (start : Nat) where
  nodes : List Node
  loopCount : UInt32
  cursor : Nat
  start_le : start ≤ cursor

/-- Reads siblings from `cursor` on, until the tokens end or the group that was opened at `openedAt`
closes. The siblings already read, from `start` on, come last one first. -/
def parseSequence (tokens : Array Token) (openedAt : Option Nat) (depth : Nat) {start : Nat}
    (siblings : List Node) (cursor : Nat) (start_le : start ≤ cursor) :
    Except SyntaxError (Sequence start) :=
  match _ : tokens[cursor]? with
  | none =>
    match openedAt with
    | some index => .error (.unclosedGroup index)
    | none => .ok ⟨siblings.reverse, 0, cursor, start_le⟩
  | some (.time seconds symbol) =>
    parseSequence tokens openedAt depth (.leaf seconds symbol :: siblings) (cursor + 1)
      (Nat.le_succ_of_le start_le)
  | some .openGroup =>
    if maxDepth < depth + 1 then .error (.tooDeep maxDepth)
    else
      match parseSequence tokens (some cursor) (depth + 1) [] (cursor + 1) (Nat.le_refl _) with
      | .error e => .error e
      | .ok inner =>
        parseSequence tokens openedAt depth (.group inner.nodes inner.loopCount :: siblings)
          inner.cursor (Nat.le_trans (Nat.le_succ_of_le start_le) inner.start_le)
  | some (.closeGroup loopCount) =>
    match openedAt with
    | none => .error (.unexpectedClose cursor)
    | some _ => .ok ⟨siblings.reverse, loopCount, cursor + 1, Nat.le_succ_of_le start_le⟩
termination_by tokens.size - cursor
decreasing_by
  all_goals obtain ⟨hcursor, -⟩ := Array.getElem?_eq_some_iff.1 ‹_›
  · omega
  · omega
  · have := inner.start_le
    omega

/-- The nodes that a stream of tokens writes. -/
def parseTokens (tokens : List Token) : Except SyntaxError (List Node) :=
  (parseSequence tokens.toArray none 0 [] 0 (Nat.le_refl 0)).map (·.nodes)

/-- The nodes that a text writes. -/
def parse (text : String) : Except SyntaxError (List Node) := tokenize text >>= parseTokens

/-- The nodes that a text writes, none if it has an error. -/
def nodesOrNone (text : String) : List Node := (parse text).toOption.getD []

theorem nodesOrNone_of_ok {text : String} {nodes : List Node} (h : parse text = .ok nodes) :
    nodesOrNone text = nodes := by
  rw [nodesOrNone, h]
  rfl

theorem nodesOrNone_of_error {text : String} {e : SyntaxError} (h : parse text = .error e) :
    nodesOrNone text = [] := by
  rw [nodesOrNone, h]
  rfl

end TaskTimer
