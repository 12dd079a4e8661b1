import TaskTimer.Notice.Bus
import TaskTimer.Notice.Json
import TaskTimer.Text.Basic

/-!
# Streams of notices

A sink sends every notice to its listeners as a line of bytes. A connection hands out one notice
after the other and passes over lines that hold none. A line that is no text is an error, behind
which the connection can still be used; who listens to a sink gives up there.

* `Notice.bytes`, `streamOf`: what the sink sends.
* `nextNotice?`: the next notice of a connection.
* `Listened`, `listen`: what a listener makes of a stream that ends.
* `ListenError`: why there is no notice.
-/

namespace TaskTimer

/-- The bytes of a notice, the line feed included. -/
def Notice.bytes (n : Notice) : List UInt8 := Utf8.encode (n.line ++ ['\n'])

/-- The bytes of a sequence of notices. -/
def streamOf (ns : List Notice) : List UInt8 := ns.flatMap Notice.bytes

/-- Why there is no notice. -/
inductive ListenError where
  /-- Nobody listens at the address. -/
  | refused (address : String)
  /-- A line is no text. -/
  | unreadable
  deriving DecidableEq, Repr

/-- The sentence shown for an error. -/
def ListenError.message : ListenError → String
  | .refused address => s!"Failed to connect to broadcast sink at {address}"
  | .unreadable => "Failed to read event"

/-! ## One notice after the other -/

/-- Waits for the next notice among the lines that a connection has not read yet. The lines behind
it are left, and so are those behind a line that is no text. -/
def nextNotice? : List (List UInt8) → Except ListenError (Option Notice) × List (List UInt8)
  | [] => (.ok none, [])
  | l :: ls =>
    match Utf8.decode? l with
    | none => (.error .unreadable, ls)
    | some text =>
      if text.all isBlank then nextNotice? ls
      else
        match Notice.ofLine? text with
        | some n => (.ok (some n), ls)
        | none => nextNotice? ls

theorem nextNotice?_length_lt {ls rest : List (List UInt8)}
    {answer : Except ListenError (Option Notice)} (h : nextNotice? ls = (answer, rest))
    (hanswer : answer ≠ .ok none) : rest.length < ls.length := by
  fun_induction nextNotice? ls with
  | case1 =>
    cases h
    exact absurd rfl hanswer
  | case2 | case4 =>
    cases h
    exact Nat.lt_succ_self _
  | case3 l ls text _ _ ih | case5 l ls text _ _ _ ih => exact Nat.lt_succ_of_lt (ih h)

/-- What a listener makes of a stream: the notices, and the error at which it gave up. -/
structure Listened where
  notices : List Notice := []
  error : Option ListenError := none
  deriving DecidableEq, Repr

/-- Waits for one notice after the other until there is none or an error. -/
def listenLines (ls : List (List UInt8)) : Listened :=
  match h : nextNotice? ls with
  | (.error e, _) => { error := some e }
  | (.ok none, _) => {}
  | (.ok (some n), rest) =>
    have : rest.length < ls.length := nextNotice?_length_lt h nofun
    let later := listenLines rest
    { later with notices := n :: later.notices }
termination_by ls.length

theorem listenLines_eq (ls : List (List UInt8)) :
    listenLines ls =
      match nextNotice? ls with
      | (.error e, _) => { error := some e }
      | (.ok none, _) => {}
      | (.ok (some n), rest) =>
        { listenLines rest with notices := n :: (listenLines rest).notices } := by
  rw [listenLines]
  split <;> next h => simp only [h]

/-- What a listener makes of the bytes that a sink sends before it closes the connection. -/
def listen (bytes : List UInt8) : Listened := listenLines (byteLines bytes)

end TaskTimer
