import TaskTimer.Notation.Parser
import TaskTimer.Task.Line
import TaskTimer.Text.Basic

/-!
# Declarations

The timer of a document is declared by its first task line. If that line holds no countdown, the
document declares no timer, whatever the lines behind it say.

* `Declaration`: the declared timer.
* `Declaration.sameContent`, `Declaration.sameTimer`: when two declarations mean the same timer.
* `scan`: the declaration of a document.
* `diagnose`: why the first task line of a document declares no timer.
-/

namespace TaskTimer

/-- A timer declared by a line of a document. -/
structure Declaration where
  document : String
  /-- The index of the line, counted from zero. -/
  line : Nat
  /-- The position of the checkbox in the line, zero without one. -/
  column : Nat
  paused : Bool
  /-- The notation with one space between its words. -/
  rawSyntax : String
  nodes : List Node
  label : String
  deriving DecidableEq, Repr, Inhabited

namespace Declaration

/-- The same timer, whether paused or not: notation and label agree in one document, wherever the
line stands. -/
def sameContent (a b : Declaration) : Bool :=
  a.document == b.document && a.rawSyntax == b.rawSyntax && a.label == b.label

/-- The same timer, and paused in both or in none. -/
def sameTimer (a b : Declaration) : Bool := a.sameContent b && a.paused == b.paused

end Declaration

/-! ## The first task line -/

/-- The first task line among lines of which the first has index `i`, with its index. -/
def firstTaskLineFrom (i : Nat) : List (List Char) → Option (Nat × TaskLine)
  | [] => none
  | l :: ls =>
    match TaskLine.ofText? l with
    | some task => some (i, task)
    | none => firstTaskLineFrom (i + 1) ls

/-- The first task line of a document, with its index. -/
def firstTaskLine (text : String) : Option (Nat × TaskLine) :=
  firstTaskLineFrom 0 (textLines text.toList)

/-! ## What a document declares -/

/-- The timer that the line declares with these nodes, behind `i` other lines. -/
def TaskLine.declaration (l : TaskLine) (document : String) (i : Nat) (nodes : List Node) :
    Declaration :=
  ⟨document, i, l.column, l.paused, .ofList (squeeze l.body), nodes, .ofList l.label⟩

/-- The declaration of a document. Nobody asks for the errors of its notation: malformed brackets
declare as little as brackets without a countdown. -/
def scan (text document : String) : Option Declaration :=
  match firstTaskLine text with
  | none => none
  | some (i, task) =>
    let declared := task.declaration document i (nodesOrNone (.ofList task.body))
    if leafCount declared.nodes = 0 then none else some declared

/-- The index of the first task line and the reason why it declares no timer. -/
def diagnose (text : String) : Option (Nat × SyntaxError) :=
  match firstTaskLine text with
  | none => none
  | some (i, task) =>
    match parse (.ofList task.body) with
    | .error e => some (i, e)
    | .ok nodes => if leafCount nodes = 0 then some (i, .empty) else none

end TaskTimer
