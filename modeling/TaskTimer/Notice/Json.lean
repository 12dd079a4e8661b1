import TaskTimer.Json.Reader
import TaskTimer.Json.Writer
import TaskTimer.Notice.Basic

/-!
# Notices as JSON

A notice travels as a JSON object on a line of its own. The member `type` names the kind of notice;
the others are its parts.

* `Notice.toJson`, `Notice.ofJson?`: the object of a notice, and the notice of an object.
* `Notice.line`, `Notice.ofLine?`: the same as text.
-/

namespace TaskTimer

namespace Json

/-- The values of all members with this key. -/
def valuesOf (key : String) (members : List (Quoted × Json)) : List Json :=
  (members.filter (·.1.text == key)).map (·.2)

/-- The value of the only member with this key. -/
def only? (key : String) (members : List (Quoted × Json)) : Option Json :=
  match valuesOf key members with
  | [v] => some v
  | _ => none

/-- The text that a value is, or no text for `null`. -/
def optionalText? : Json → Option (Option String)
  | .null => some none
  | v => v.text?.map some

/-- The greatest number of arrays and objects inside one another that a reader can keep, and one
more. -/
def room : Nat := 128

end Json

namespace Notice

/-- The object of a notice, with the kind first. -/
def toJson : Notice → Json
  | .interval remaining duration label symbol content =>
    .ofMembers
      [("type", .ofString "interval"), ("remaining", .ofNat remaining.toNat),
        ("duration", .ofNat duration.toNat), ("step", .ofString label),
        ("symbol", .ofString? symbol), ("content", .ofString content)]
  | .step label symbol content =>
    .ofMembers
      [("type", .ofString "step"), ("step", .ofString label), ("symbol", .ofString? symbol),
        ("content", .ofString content)]
  | .finish content => .ofMembers [("type", .ofString "finish"), ("content", .ofString content)]

/-- The notice of the given kind with the given parts, the symbol being optional. -/
def ofParts? (kind : String) (remaining duration label symbol content : Option Json) :
    Option Notice :=
  match kind with
  | "interval" => do
    return .interval (← (← remaining).uint64?) (← (← duration).uint64?) (← (← label).text?)
      (← (← symbol).optionalText?) (← (← content).text?)
  | "step" => do
    return .step (← (← label).text?) (← (← symbol).optionalText?) (← (← content).text?)
  | "finish" => do return .finish (← (← content).text?)
  | _ => none

/-- The notice of an object. A part must not be there twice, and only the symbol may be left out;
other members do not matter. -/
def ofMembers? (members : List (Quoted × Json)) : Option Notice := do
  let kind ← (← Json.only? "type" members).text?
  let symbol :=
    if (Json.valuesOf "symbol" members).isEmpty then some .null else Json.only? "symbol" members
  ofParts? kind (Json.only? "remaining" members) (Json.only? "duration" members)
    (Json.only? "step" members) symbol (Json.only? "content" members)

/-- The notice whose kind and parts are listed in their order. -/
def ofItems? : List Json → Option Notice
  | [kind, content] =>
    if kind.text? = some "finish" then ofParts? "finish" none none none none content else none
  | [kind, label, symbol, content] =>
    if kind.text? = some "step" then ofParts? "step" none none label symbol content else none
  | [kind, remaining, duration, label, symbol, content] =>
    if kind.text? = some "interval" then
      ofParts? "interval" remaining duration label symbol content
    else none
  | _ => none

/-- The notice that a value is, inside fewer than `room` arrays and objects. -/
def ofJson? (room : Nat) (v : Json) : Option Notice :=
  if v.isKept room then
    match v with
    | .obj members => ofMembers? members
    | .arr items => ofItems? items
    | _ => none
  else none

/-- The line of a notice, without its ending. -/
def line (n : Notice) : List Char := n.toJson.compact

/-- The notice of a line. -/
def ofLine? (line : List Char) : Option Notice := (Json.read line).bind (ofJson? Json.room)

end Notice

end TaskTimer
