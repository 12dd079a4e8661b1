import TaskTimer.Text.Basic

/-!
# JSON values

* `Json`: a value as it is written, with the members of an object in their order.
* `Numeral`: a number as it is written.
* `Quoted`: a text as it is written. An escape may name half a character; such a text can be passed
  over but not be used.
* `Json.isKept`: a value that a reader can keep.
-/

namespace TaskTimer

/-- A number as it is written: a sign, the digits before and behind the point, and the exponent. -/
structure Numeral where
  negative : Bool := false
  whole : List Char
  fraction : List Char := []
  /-- The sign and the digits of the exponent, if there is one. -/
  exponent : Option (Bool × List Char) := none
  deriving DecidableEq, Repr

/-- A text between quotation marks. -/
structure Quoted where
  text : String
  /-- Every escape in it stands for a character. -/
  sound : Bool := true
  deriving DecidableEq, Repr

/-- A JSON value. -/
inductive Json where
  | null
  | bool (b : Bool)
  | num (n : Numeral)
  | str (s : Quoted)
  | arr (items : List Json)
  | obj (members : List (Quoted × Json))
  deriving Repr

namespace Numeral

/-- The numeral of a natural number. -/
def ofNat (n : Nat) : Numeral := { whole := showDecimal n }

/-- The natural number that is written without sign, point and exponent. -/
def natural? (n : Numeral) : Option Nat :=
  if n.negative || !n.fraction.isEmpty || n.exponent.isSome then none
  else some (readDecimal n.whole)

/-! ### Numbers that floating-point numbers of 64 bits can stand for -/

/-- The least number that is nearer to the next power of two than to any floating-point number of
64 bits. -/
def tooLarge : Nat := Nat.pow 2 1024 - Nat.pow 2 970

/-- The number with 53 binary digits, and zeros behind them, that is nearest to `n`; of two such
numbers the one whose last digit is even. -/
def nearest (n : Nat) : Nat :=
  let unit := Nat.pow 2 (n.log2 + 1 - 53)
  let below := n / unit
  let rest := 2 * (n % unit)
  unit * if unit < rest || (unit == rest && below % 2 == 1) then below + 1 else below

/-- The number that digits write behind those of `m`, as long as it fits 64 bits, and how many digits
are left over. -/
def significand (m : Nat) : List Char → Nat × Nat
  | [] => (m, 0)
  | d :: ds =>
    let longer := Nat.ofDigitChars 10 [d] m
    if longer < UInt64.size then significand longer ds else (m, ds.length + 1)

/-- The value does not overflow when it is computed as its significand times a power of ten, in
floating-point numbers of 64 bits. A whole number that fits 64 bits is kept as it is. -/
def isFinite (n : Numeral) : Bool :=
  let (head, more) := significand 0 n.whole
  let (m, ignored) := significand head n.fraction
  let power : Int :=
    match n.exponent with
    | none => 0
    | some (true, e) => -(readDecimal e : Int)
    | some (false, e) => readDecimal e
  let shift := power + more - (n.fraction.length - ignored : Nat)
  (more == 0 && n.fraction.isEmpty && n.exponent.isNone) || m == 0 || shift < 0 ||
    (shift ≤ 308 && nearest m * nearest (Nat.pow 10 shift.toNat) < tooLarge)

/-- The characters that write the numeral. -/
def text (n : Numeral) : List Char :=
  (if n.negative then ['-'] else []) ++ n.whole ++
    (if n.fraction.isEmpty then [] else '.' :: n.fraction) ++
    match n.exponent with
    | none => []
    | some (negative, digits) => 'e' :: (if negative then ['-'] else []) ++ digits

end Numeral

namespace Json

/-- The value that a text is. -/
def ofString (s : String) : Json := .str ⟨s, true⟩

/-- The value that a natural number is. -/
def ofNat (n : Nat) : Json := .num (.ofNat n)

/-- The text, or nothing. -/
def ofString? (s : Option String) : Json := (s.map ofString).getD .null

/-- The object with the given members. -/
def ofMembers (members : List (String × Json)) : Json :=
  .obj (members.map fun (k, v) => (⟨k, true⟩, v))

/-- The text that a value is. -/
def text? : Json → Option String
  | .str s => if s.sound then some s.text else none
  | _ => none

/-- The 64-bit number that a value is. -/
def uint64? : Json → Option UInt64
  | .num n => n.natural?.bind fun k => if k < UInt64.size then some (UInt64.ofNat k) else none
  | _ => none

/-! ## What a reader can keep -/

mutual

/-- The value holds whole texts and finite numbers only, in fewer than `room` arrays and objects
inside one another. -/
def isKept (room : Nat) : Json → Bool
  | .num n => n.isFinite
  | .str s => s.sound
  | .arr items => 1 < room && areKept (room - 1) items
  | .obj members => 1 < room && membersAreKept (room - 1) members
  | .null | .bool _ => true

/-- All values of a list can be kept. -/
def areKept (room : Nat) : List Json → Bool
  | [] => true
  | v :: vs => isKept room v && areKept room vs

/-- All members of an object can be kept. -/
def membersAreKept (room : Nat) : List (Quoted × Json) → Bool
  | [] => true
  | (k, v) :: ms => k.sound && isKept room v && membersAreKept room ms

end

end Json

end TaskTimer
