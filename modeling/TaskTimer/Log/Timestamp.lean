import TaskTimer.Text.Basic

/-!
# Timestamps

An instant is kept in universal time and written as in `2024-02-29T23:59:59.500Z`, with as few
groups of three fraction digits as are exact.

* `Date`: a day of the calendar, with `Date.next` and `Date.previous`.
* `Timestamp`: a day and a time of day.
* `Timestamp.text`, `Timestamp.ofText?`: writing and reading. Any offset from universal time is
  read, a space may stand for the letter between date and time, and blanks between the parts do not
  matter.
-/

namespace TaskTimer

/-- A day of the calendar. -/
structure Date where
  year : Int
  month : Nat
  day : Nat
  deriving DecidableEq, Repr

namespace Date

/-- A year with a 29 February. -/
def isLeapYear (year : Int) : Bool := year % 4 = 0 && (year % 100 ≠ 0 || year % 400 = 0)

/-- The number of days of a month. -/
def daysIn (year : Int) (month : Nat) : Nat :=
  if month = 2 then if isLeapYear year then 29 else 28
  else if month ∈ [4, 6, 9, 11] then 30
  else 31

/-- The years that can be written. -/
def minYear : Int := -262143

/-- The years that can be written. -/
def maxYear : Int := 262142

/-- The day exists, in a year that can be written. -/
def isValid (d : Date) : Bool :=
  minYear ≤ d.year && d.year ≤ maxYear && 1 ≤ d.month && d.month ≤ 12 && 1 ≤ d.day &&
    d.day ≤ daysIn d.year d.month

/-- The day after. -/
def next (d : Date) : Date :=
  if d.day < daysIn d.year d.month then { d with day := d.day + 1 }
  else if d.month < 12 then { d with month := d.month + 1, day := 1 }
  else { year := d.year + 1, month := 1, day := 1 }

/-- The day before. -/
def previous (d : Date) : Date :=
  if 1 < d.day then { d with day := d.day - 1 }
  else if 1 < d.month then
    { d with month := d.month - 1, day := daysIn d.year (d.month - 1) }
  else { year := d.year - 1, month := 12, day := 31 }

end Date

/-- An instant in universal time. The second sixty is a leap second. -/
structure Timestamp where
  date : Date
  hour : Nat
  minute : Nat
  second : Nat
  nanosecond : Nat
  deriving DecidableEq, Repr

namespace Timestamp

/-! ## Writing -/

/-- The digits of a number with zeros in front, at least `width` in all. -/
def padded (width n : Nat) : List Char :=
  let digits := showDecimal n
  List.replicate (width - digits.length) '0' ++ digits

/-- A year: four digits, and a sign in front of any that four digits cannot write. -/
def yearText (year : Int) : List Char :=
  if 0 ≤ year && year ≤ 9999 then padded 4 year.toNat
  else (if year < 0 then '-' else '+') :: padded 4 year.natAbs

/-- The fraction of a second in as few groups of three digits as are exact. -/
def fractionText (nanosecond : Nat) : List Char :=
  if nanosecond = 0 then []
  else if nanosecond % 1000000 = 0 then '.' :: padded 3 (nanosecond / 1000000)
  else if nanosecond % 1000 = 0 then '.' :: padded 6 (nanosecond / 1000)
  else '.' :: padded 9 nanosecond

/-- The written form. -/
def text (t : Timestamp) : List Char :=
  yearText t.date.year ++ '-' :: padded 2 t.date.month ++ '-' :: padded 2 t.date.day ++
    'T' :: padded 2 t.hour ++ ':' :: padded 2 t.minute ++ ':' :: padded 2 t.second ++
    fractionText t.nanosecond ++ ['Z']

/-! ## Reading -/

/-- A number of at most `width` digits behind any blanks. -/
def readNumber (width : Nat) (cs : List Char) : Option (Nat × List Char) :=
  let cs := trimStart cs
  let digits := (cs.take width).takeWhile Char.isDigit
  if digits.isEmpty then none else some (readDecimal digits, cs.drop digits.length)

/-- A year behind any blanks. Behind a sign it may have any number of digits. -/
def readYear (cs : List Char) : Option (Int × List Char) :=
  match trimStart cs with
  | '-' :: cs =>
    let digits := cs.takeWhile Char.isDigit
    if digits.isEmpty then none else some (-(readDecimal digits : Int), cs.drop digits.length)
  | '+' :: cs =>
    let digits := cs.takeWhile Char.isDigit
    if digits.isEmpty then none else some ((readDecimal digits : Int), cs.drop digits.length)
  | cs => (readNumber 4 cs).map fun (n, rest) => ((n : Int), rest)

/-- What follows the mark, behind any blanks. -/
def readMark (mark : Char) (cs : List Char) : Option (List Char) :=
  match trimStart cs with
  | c :: rest => if c = mark then some rest else none
  | [] => none

/-- The nanoseconds of a fraction, if there is one. Digits behind the ninth do not count. -/
def readFraction : List Char → Option (Nat × List Char)
  | '.' :: cs =>
    let digits := cs.takeWhile Char.isDigit
    if digits.isEmpty then none
    else
      let kept := digits.take 9
      some (readDecimal kept * Nat.pow 10 (9 - kept.length), cs.drop digits.length)
  | cs => some (0, cs)

/-- Two digits that write a number below `limit`. -/
def readPair (limit : Nat) : List Char → Option (Nat × List Char)
  | a :: b :: rest =>
    let n := readDecimal [a, b]
    if a.isDigit && b.isDigit && n < limit then some (n, rest) else none
  | _ => none

/-- An offset of hours and minutes, in minutes. Colons and blanks between them do not matter. -/
def readHoursMinutes (cs : List Char) : Option (Nat × List Char) := do
  let (hours, cs) ← readPair 100 cs
  let (minutes, cs) ← readPair 60 (cs.dropWhile fun c => c == ':' || isBlank c)
  return (60 * hours + minutes, cs)

/-- The offset from universal time, in minutes. -/
def readOffset (cs : List Char) : Option (Int × List Char) :=
  let zone := (cs.take 3).map Char.toUpper
  if zone = ['U', 'T', 'C'] then some (0, cs.drop 3)
  else
    match cs with
    | [] => none
    | c :: rest =>
      if c = 'Z' || c = 'z' then some (0, rest)
      else if c = '+' then
        (readHoursMinutes rest).map fun (n, rest) => ((n : Int), rest)
      else if c = '-' || c = '\u2212' then
        (readHoursMinutes rest).map fun (n, rest) => (-(n : Int), rest)
      else none

/-- A day behind any blanks. -/
def readDate (cs : List Char) : Option (Date × List Char) := do
  let (year, cs) ← readYear cs
  let (month, cs) ← readNumber 2 (← readMark '-' cs)
  let (day, cs) ← readNumber 2 (← readMark '-' cs)
  return (⟨year, month, day⟩, cs)

/-- The instant `offset` minutes earlier. -/
def earlier (t : Timestamp) (offset : Int) : Timestamp :=
  let minutes := 60 * (t.hour : Int) + t.minute - offset
  let (date, minutes) :=
    if minutes < 0 then (t.date.previous, minutes + 1440)
    else if 1440 ≤ minutes then (t.date.next, minutes - 1440)
    else (t.date, minutes)
  { t with date := date, hour := minutes.toNat / 60, minute := minutes.toNat % 60 }

/-- The instant that a text writes. -/
def ofText? (cs : List Char) : Option Timestamp := do
  let (date, cs) ← readDate cs
  let cs ←
    match cs with
    | c :: rest => if c = 'T' || c = 't' || c = ' ' then some rest else none
    | [] => none
  let (hour, cs) ← readNumber 2 cs
  let (minute, cs) ← readNumber 2 (← readMark ':' cs)
  let (second, cs) ← readNumber 2 (← readMark ':' cs)
  let (nanosecond, cs) ← readFraction cs
  let (offset, cs) ← readOffset (trimStart cs)
  let valid := date.isValid && hour < 24 && minute < 60 && second ≤ 60 && offset.natAbs < 1440
  let t := earlier ⟨date, hour, minute, second, nanosecond⟩ offset
  if valid && t.date.isValid && (trimStart cs).isEmpty then some t else none

end Timestamp

end TaskTimer
