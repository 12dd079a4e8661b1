import TaskTimer.Log.Timestamp
import TaskTimer.Notice.Json
import TaskTimer.Text.Basic

/-!
# The notice log

Notices are kept in a file, each with the instant at which it was sent, as a line of JSON.

* `LogEntry`: a notice and its instant.
* `LogEntry.line`, `LogEntry.bytes`, `LogEntry.ofLine?`: an entry as a line of the file.
* `readLog`: the entries of a file. Lines that hold no entry are passed over.
-/

namespace TaskTimer

/-- A notice and the instant at which it was sent. -/
structure LogEntry where
  timestamp : Timestamp
  notice : Notice
  deriving DecidableEq, Repr

namespace LogEntry

/-- The object of an entry, with the instant first. -/
def toJson (e : LogEntry) : Json :=
  .ofMembers [("ts", .ofString (.ofList e.timestamp.text)), ("event", e.notice.toJson)]

/-- The entry with the given parts. -/
def ofParts? (timestamp notice : Json) : Option LogEntry := do
  let text ← timestamp.text?
  return {
    timestamp := ← Timestamp.ofText? text.toList
    notice := ← Notice.ofJson? (Json.room - 1) notice }

/-- The entry of a value: an object with each of the two parts once, or a list of the two. -/
def ofJson? : Json → Option LogEntry
  | .obj members =>
    if members.all (·.1.sound) then do
      ofParts? (← Json.only? "ts" members) (← Json.only? "event" members)
    else none
  | .arr [timestamp, notice] => ofParts? timestamp notice
  | _ => none

/-- The line of an entry, without its ending. -/
def line (e : LogEntry) : List Char := e.toJson.compact

/-- The bytes of an entry, the line feed included. -/
def bytes (e : LogEntry) : List UInt8 := Utf8.encode (e.line ++ ['\n'])

/-- The entry of a line. -/
def ofLine? (line : List Char) : Option LogEntry := (Json.read line).bind ofJson?

end LogEntry

/-- The entries of a log with the given content, if the content is a text. -/
def readLog (content : List UInt8) : Option (List LogEntry) :=
  (Utf8.decode? content).map fun text => (textLines text).filterMap LogEntry.ofLine?

end TaskTimer
