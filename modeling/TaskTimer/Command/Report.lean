import TaskTimer.Command.Basic
import TaskTimer.Json.Writer
import TaskTimer.Notice.Stream
import TaskTimer.Plan.Layout
import TaskTimer.Task.Declaration

/-!
# Reports

What the commands that look at timers show: a plan, a declaration with its plan, or why a document
declares no timer; and what is shown while another timer is listened to.

* `PlanReport`, `CheckReport`: what is found out.
* `PlanReport.render`, `CheckReport.render`: how it is shown, as lines of text or as JSON. In JSON the
  members of an object are in alphabetical order.
* `Notice.display`, `Listened.display`: a notice as a line, and all that is shown of a sink.
-/

namespace TaskTimer

/-! ## As JSON -/

/-- The symbol of a countdown as a member, if there is one. -/
def symbolMember (symbol : Option String) : List (String × Json) :=
  (symbol.map fun s => ("symbol", Json.ofString s)).toList

/-- A countdown of a plan. -/
def Entry.toJson (e : Entry) : Json :=
  .ofMembers <|
    [("seconds", .ofNat e.seconds.toNat), ("step_path", .arr (e.stepPath.map .ofNat))] ++
      symbolMember e.symbol

mutual

/-- A node of a timer tree. -/
def Node.toJson : Node → Json
  | .leaf seconds symbol =>
    .ofMembers <|
      [("kind", .ofString "leaf"), ("seconds", .ofNat seconds.toNat)] ++ symbolMember symbol
  | .group children n =>
    .ofMembers
      [("children", .arr (nodesToJson children)), ("kind", .ofString "group"),
        ("loop_count", .ofNat n.toNat)]

/-- The nodes of a list. -/
def nodesToJson : List Node → List Json
  | [] => []
  | n :: ns => n.toJson :: nodesToJson ns

end

/-- A declaration. -/
def Declaration.toJson (d : Declaration) : Json :=
  .ofMembers
    [("ast", .arr (nodesToJson d.nodes)), ("column", .ofNat d.column),
      ("document_id", .ofString d.document), ("label", .ofString d.label),
      ("line", .ofNat d.line), ("paused", .bool d.paused),
      ("raw_syntax", .ofString d.rawSyntax)]

/-- The members that tell of a plan, its entries apart. -/
def Plan.summaryMembers (p : Plan) : List (String × Json) :=
  [("total_seconds", .ofNat p.duration.toNat), ("truncated", .bool p.truncated)]

/-- The entries of a plan as a member. -/
def Plan.entriesMember (p : Plan) : String × Json :=
  ("entries", .arr (p.entries.toList.map Entry.toJson))

/-! ## As text -/

/-- The text with blanks in front, at least `width` characters long. -/
def alignRight (width : Nat) (s : String) : String := "".pushn ' ' (width - s.length) ++ s

/-- The text with blanks behind it, at least `width` characters long. -/
def alignLeft (width : Nat) (s : String) : String := s.pushn ' ' (width - s.length)

/-- A duration as a clock shows it. -/
def clockText (d : Duration) : String := .ofList d.clock

/-- The line of the entry at an index of a plan. -/
def Plan.entryLine (p : Plan) (i : Nat) (e : Entry) : String :=
  let marker := if p.announces i then "▶" else " "
  let number := alignRight 4 (.ofList (showDecimal (i + 1)))
  let clock := alignRight 8 (clockText e.seconds)
  let label := alignLeft 8 e.stepLabel
  let symbol := e.symbol.getD ""
  s!"{marker} {number}  {clock}  {label} {symbol}"

/-- The lines of a plan. -/
def Plan.lines (p : Plan) : List String :=
  (p.entries.toList.zipIdx.map fun (e, i) => p.entryLine i e) ++
    [s!"Total: {p.size} entries, {clockText p.duration}"] ++
    if p.truncated then [s!"  truncated at {maxEntries} entries"] else []

/-- The text with the given lines. -/
def unlines (lines : List String) : String := .join (lines.map (· ++ "\n"))

/-! ## Reports -/

/-- The plan of an expression. -/
structure PlanReport where
  expression : String
  plan : Plan
  deriving Repr

/-- The report in a format. -/
def PlanReport.render (r : PlanReport) : OutputFormat → String
  | .text => unlines r.plan.lines
  | .json =>
    unlines
      [(Json.ofMembers
        ([r.plan.entriesMember, ("syntax", .ofString r.expression)] ++
          r.plan.summaryMembers)).pretty 0]

/-- What a document declares. -/
inductive CheckReport where
  | declared (declaration : Declaration) (plan : Plan)
  /-- The line with the given index, counted from zero, is at fault. -/
  | malformed (line : Nat) (error : SyntaxError)
  | absent
  deriving Repr

namespace CheckReport

/-- The report on a document with the given name and text. -/
def of (document text : String) (loopCap : UInt32) : CheckReport :=
  match scan text document with
  | some d => .declared d (.layout loopCap d.nodes)
  | none =>
    match diagnose text with
    | some (line, e) => .malformed line e
    | none => .absent

/-- The lines of the report. -/
def lines : CheckReport → List String
  | .declared d p =>
    s!"Timer: line {d.line + 1}: [{d.rawSyntax}] {d.label}" ::
      (if d.paused then ["  paused"] else []) ++ p.lines
  | .malformed line e => [s!"No timer: line {line + 1}: {e.message}"]
  | .absent => ["No timer declaration found"]

/-- The report as an object. -/
def toJson : CheckReport → Json
  | .declared d p =>
    .ofMembers ([("declaration", d.toJson), p.entriesMember] ++ p.summaryMembers)
  | .malformed line e =>
    let error :=
      Json.ofMembers [("line", .ofNat (line + 1)), ("message", .ofString e.message)]
    .ofMembers [("declaration", .null), ("error", error)]
  | .absent => .ofMembers [("declaration", .null), ("error", .null)]

/-- The report in a format. -/
def render (r : CheckReport) : OutputFormat → String
  | .text => unlines r.lines
  | .json => unlines [r.toJson.pretty 0]

end CheckReport

/-! ## Listening -/

/-- The line that shows a notice. -/
def Notice.display : Notice → String
  | .interval remaining duration label symbol content =>
    let mark := symbol.getD ""
    s!"interval {clockText remaining} / {clockText duration} [{label}] {mark} {content}"
  | .step label symbol content =>
    let mark := symbol.getD ""
    s!"step {label} {mark} {content}"
  | .finish content => s!"finish {content}"

/-- What is shown while the sink at an address is listened to. The end of the connection is not told
when it comes from an error. -/
def Listened.display (address : String) (l : Listened) : String :=
  unlines <|
    s!"Listening to {address}" :: l.notices.map Notice.display ++
      if l.error.isNone then ["Connection closed"] else []

end TaskTimer
