import TaskTimer.Files.Basic

/-!
# Watching a document

A watcher looks at a document from time to time and sends its text on whenever that has changed.
A document that is missing counts as empty.

* `Reading`: what a look at the document finds.
* `Watcher`: the text that was sent last.
* `Watcher.check`: a look at the document. `Watcher.Outcome`: what it answers, and what it sends.
-/

namespace TaskTimer

/-- What a look at a document finds. -/
inductive Reading where
  | found (text : String)
  | missing
  | unreadable
  deriving DecidableEq, Repr

namespace Reading

/-- The reading that an attempt to read the document makes. -/
def ofResult : Except ReadError String → Reading
  | .ok text => .found text
  | .error .missing => .missing
  | .error .unreadable => .unreadable

/-- The text that is found. -/
def text? : Reading → Option String
  | .found text => some text
  | .missing => some ""
  | .unreadable => none

end Reading

/-- A new text of a document. -/
structure Change where
  document : String
  text : String
  deriving DecidableEq, Repr

/-- Why a look at a document fails. -/
inductive WatchError where
  | unreadable (path : String)
  /-- Nobody takes the changes any more. -/
  | closed
  deriving DecidableEq, Repr

/-- The sentence shown for an error. -/
def WatchError.message : WatchError → String
  | .unreadable path => s!"Failed to read {path}"
  | .closed => "Document change channel closed"

/-- A watcher of one document. -/
structure Watcher where
  /-- Where the document is. -/
  path : String
  /-- The name under which changes are sent. -/
  document : String
  /-- The text that was sent last. -/
  lastText : Option String := none
  deriving DecidableEq, Repr

namespace Watcher

/-- What comes of a look at a document. -/
structure Outcome where
  watcher : Watcher
  /-- What the look answers: whether the text has changed. -/
  answer : Except WatchError Bool
  /-- What has gone to those who take the changes. -/
  sent : Option Change

/-- Takes what a look at the document has found, and sends the text if it is not the one that was
sent last. Only what was sent is remembered. -/
def check (w : Watcher) (r : Reading) (isOpen : Bool) : Outcome :=
  match r.text? with
  | none => ⟨w, .error (.unreadable w.path), none⟩
  | some text =>
    if w.lastText = some text then ⟨w, .ok false, none⟩
    else if isOpen then
      ⟨{ w with lastText := some text }, .ok true, some { document := w.document, text := text }⟩
    else ⟨w, .error .closed, none⟩

end Watcher

end TaskTimer
