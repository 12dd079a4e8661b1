import TaskTimer.Text.Basic

/-!
# Task lines

A timer is declared on a line of its own, in brackets behind an optional bullet and an optional
checkbox that is not ticked:

```text
  - [ ] [-(25m 5m)4] write the report
```

Only brackets that open like a timer count: with a parenthesis, a digit, or a `p` and a digit. So
ticked items, tags and empty brackets are no task lines.

* `TaskLine`: the parts of such a line.
* `TaskLine.text`: the line that has these parts.
* `TaskLine.ofText?`: the parts of a line, if it is a task line.
-/

namespace TaskTimer

/-- The parts of a task line, in the order in which they are written. -/
structure TaskLine where
  /-- The blanks in front. -/
  indent : List Char
  /-- The bullet, a hyphen or a star, and the blank behind it. -/
  bullet : Option (Char × Char)
  /-- The blank behind a checkbox. -/
  checkbox : Option Char
  /-- The hyphen that pauses the timer is there. -/
  paused : Bool
  /-- What the brackets hold behind the hyphen. -/
  body : List Char
  /-- What stands behind the brackets. -/
  tail : List Char
  deriving DecidableEq, Repr

namespace TaskLine

/-- The characters of the bullet. -/
def bulletText (l : TaskLine) : List Char :=
  match l.bullet with
  | some (mark, blank) => [mark, blank]
  | none => []

/-- The characters of the checkbox. -/
def checkboxText (l : TaskLine) : List Char :=
  match l.checkbox with
  | some blank => ['[', ' ', ']', blank]
  | none => []

/-- The line that has these parts. -/
def text (l : TaskLine) : List Char :=
  l.indent ++ l.bulletText ++ l.checkboxText ++ '[' :: (if l.paused then ['-'] else []) ++
    l.body ++ ']' :: l.tail

/-- The position of the checkbox in the line, zero if there is none. -/
def column (l : TaskLine) : Nat :=
  match l.checkbox with
  | some _ => l.indent.length + l.bulletText.length
  | none => 0

/-- The text behind the brackets, without the blanks around it. -/
def label (l : TaskLine) : List Char := trim l.tail

/-! ## Recognising a task line -/

/-- A text that opens like a timer. -/
def opensTimer (cs : List Char) : Bool :=
  match trimStart cs with
  | '(' :: _ => true
  | 'p' :: d :: _ => isDecimalDigit d
  | d :: _ => isDecimalDigit d
  | [] => false

/-- A bullet and the blank behind it, and the rest of the text. -/
def takeBullet : List Char → Option (Char × Char) × List Char
  | mark :: blank :: rest =>
    if (mark == '-' || mark == '*') && isBlank blank then (some (mark, blank), rest)
    else (none, mark :: blank :: rest)
  | cs => (none, cs)

/-- The blank behind a checkbox that is not ticked, and the rest of the text. -/
def takeCheckbox : List Char → Option Char × List Char
  | '[' :: ' ' :: ']' :: blank :: rest =>
    if isBlank blank then (some blank, rest) else (none, '[' :: ' ' :: ']' :: blank :: rest)
  | cs => (none, cs)

/-- The hyphen of a paused timer, and the rest of the text. -/
def takePause : List Char → Bool × List Char
  | '-' :: rest => (true, rest)
  | cs => (false, cs)

/-- The parts of a line, if it is a task line. -/
def ofText? (cs : List Char) : Option TaskLine :=
  let indent := cs.takeWhile isBlank
  let (bullet, cs) := takeBullet (cs.dropWhile isBlank)
  let (checkbox, cs) := takeCheckbox cs
  match cs with
  | '[' :: cs =>
    let (paused, cs) := takePause cs
    let body := cs.takeWhile (· != ']')
    match cs.dropWhile (· != ']') with
    | _ :: tail => if opensTimer body then some ⟨indent, bullet, checkbox, paused, body, tail⟩ else none
    | [] => none
  | _ => none

end TaskLine

end TaskTimer
