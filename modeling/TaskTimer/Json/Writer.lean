import TaskTimer.Json.Basic

/-!
# Writing JSON

* `escapeChar`: how a character is written inside a text. Only the quotation mark, the backslash
  and the control characters below the space are escaped.
* `Json.compact`: a value on one line, without blanks.
* `Json.pretty`: a value over several lines, indented by two spaces a level.
-/

namespace TaskTimer

/-- The digit of a number below sixteen. -/
def hexDigit (n : Nat) : Char := Nat.digitChar n

/-- A character as it is written inside a text. -/
def escapeChar (c : Char) : List Char :=
  if c = '"' then ['\\', '"']
  else if c = '\\' then ['\\', '\\']
  else if c = '\x08' then ['\\', 'b']
  else if c = '\t' then ['\\', 't']
  else if c = '\n' then ['\\', 'n']
  else if c = '\x0c' then ['\\', 'f']
  else if c = '\r' then ['\\', 'r']
  else if c.toNat < 0x20 then
    ['\\', 'u', '0', '0', hexDigit (c.toNat / 16), hexDigit (c.toNat % 16)]
  else [c]

/-- A text between quotation marks. -/
def quote (text : List Char) : List Char := '"' :: text.flatMap escapeChar ++ ['"']

namespace Json

mutual

/-- A value on one line. -/
def compact : Json → List Char
  | .null => ['n', 'u', 'l', 'l']
  | .bool true => ['t', 'r', 'u', 'e']
  | .bool false => ['f', 'a', 'l', 's', 'e']
  | .num n => n.text
  | .str s => quote s.text.toList
  | .arr items => '[' :: compactItems items ++ [']']
  | .obj members => '{' :: compactMembers members ++ ['}']

/-- Values with commas between them. -/
def compactItems : List Json → List Char
  | [] => []
  | [v] => compact v
  | v :: vs => compact v ++ ',' :: compactItems vs

/-- Members with commas between them. -/
def compactMembers : List (Quoted × Json) → List Char
  | [] => []
  | [(k, v)] => quote k.text.toList ++ ':' :: compact v
  | (k, v) :: ms => quote k.text.toList ++ ':' :: compact v ++ ',' :: compactMembers ms

end

/-! ## Over several lines -/

/-- The start of a line at a level. -/
def newLine (level : Nat) : String := "\n" ++ "".pushn ' ' (2 * level)

/-- The parts of an array or an object, each on a line of its own. -/
def layOut (level : Nat) (opening closing : String) (parts : List String) : String :=
  if parts.isEmpty then opening ++ closing
  else
    opening ++ newLine (level + 1) ++ ("," ++ newLine (level + 1)).intercalate parts ++
      newLine level ++ closing

mutual

/-- A value over several lines; all but the first start at `level`. -/
def pretty (level : Nat) : Json → String
  | .arr items => layOut level "[" "]" (prettyItems (level + 1) items)
  | .obj members => layOut level "\x7b" "\x7d" (prettyMembers (level + 1) members)
  | .num n => .ofList n.text
  | .str s => .ofList (quote s.text.toList)
  | .null => "null"
  | .bool b => toString b

/-- The items of an array. -/
def prettyItems (level : Nat) : List Json → List String
  | [] => []
  | v :: vs => pretty level v :: prettyItems level vs

/-- The members of an object. -/
def prettyMembers (level : Nat) : List (Quoted × Json) → List String
  | [] => []
  | (k, v) :: ms =>
    (String.ofList (quote k.text.toList) ++ ": " ++ pretty level v) :: prettyMembers level ms

end

end Json

end TaskTimer
