import TaskTimer.Text.Basic

/-!
# YAML values

Settings are written in YAML: maps and lists in blocks or between brackets, and scalars with or
without quotation marks.

* `Scalar`: a text, and whether it is written without quotation marks.
* `Yaml`: a scalar, a list or a map.
* `Yaml.text?`, `Yaml.bool?`, `Yaml.natural?`, `Yaml.optional`: what a value can stand for.
-/

namespace TaskTimer

/-- A scalar as it is written. -/
structure Scalar where
  text : String
  /-- It is written without quotation marks. -/
  plain : Bool
  deriving DecidableEq, Repr

/-- A YAML value. -/
inductive Yaml where
  | scalar (s : Scalar)
  | list (items : List Yaml)
  | map (entries : List (Yaml × Yaml))
  deriving Repr

namespace Yaml

/-- What is there where nothing is written. -/
def nothing : Yaml := .scalar ⟨"", true⟩

/-- The text of any scalar. -/
def text? : Yaml → Option String
  | .scalar s => some s.text
  | _ => none

/-- The text of a scalar without quotation marks. -/
def plainText? : Yaml → Option String
  | .scalar s => if s.plain then some s.text else none
  | _ => none

/-- Nothing is written, or a word for nothing. -/
def isNull (v : Yaml) : Bool :=
  match v.plainText? with
  | some text => text ∈ ["", "~", "null", "Null", "NULL"]
  | none => false

/-- What a value stands for that may be left out. -/
def optional {α : Type} (read : Yaml → Option α) (v : Yaml) : Option (Option α) :=
  if v.isNull then some none else (read v).map some

/-- The truth value that a word stands for. -/
def bool? (v : Yaml) : Option Bool := do
  let text ← v.plainText?
  if text ∈ ["true", "True", "TRUE"] then some true
  else if text ∈ ["false", "False", "FALSE"] then some false
  else none

/-! ## Numbers -/

/-- The number that digits write in a base up to sixteen. -/
def digits? (base : Nat) (cs : List Char) : Option Nat :=
  if cs.isEmpty then none
  else cs.foldlM (fun n c => ((hexValue? c).filter (· < base)).map (n * base + ·)) 0

/-- The natural number that a scalar stands for. A plus sign may stand in front; a zero in front of
decimal digits makes the scalar a text. -/
def natural? (v : Yaml) : Option Nat := do
  let text ← v.plainText?
  let cs := text.toList
  match if cs.head? = some '+' then cs.drop 1 else cs with
  | '0' :: 'x' :: digits => digits? 16 digits
  | '0' :: 'o' :: digits => digits? 8 digits
  | '0' :: 'b' :: digits => digits? 2 digits
  | ['0'] => some 0
  | '0' :: _ => none
  | digits => digits? 10 digits

end Yaml

end TaskTimer
