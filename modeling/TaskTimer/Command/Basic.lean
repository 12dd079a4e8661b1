import TaskTimer.Text.Basic

/-!
# Commands

* `OutputFormat`: how results are shown.
* `Command`: what the program is asked to do.
* `Arguments`: a command with the options that all commands share.
* `UsageError`: why a command line asks for nothing.
-/

namespace TaskTimer

/-- How results are shown. -/
inductive OutputFormat where
  | text
  | json
  deriving DecidableEq, Repr

namespace OutputFormat

/-- The name of a format. -/
def name : OutputFormat → String
  | .text => "text"
  | .json => "json"

/-- The format with a name, in letters of either case. No letter outside ASCII has one of the
letters of these names as its small form, so only ASCII letters have to be made small. -/
def ofName? (name : String) : Option OutputFormat :=
  let name := String.ofList (name.toList.map Char.toLower)
  if name = "text" || name = "plain" then some .text
  else if name = "json" then some .json
  else none

/-- The sentence shown for a name that is none. -/
def unknownMessage (name : String) : String := s!"Unknown format: {name}. Use: text or json"

end OutputFormat

/-- What the program is asked to do. -/
inductive Command where
  /-- Run the timer that a document declares, and send notices to others if asked to. -/
  | watch (file : String) (broadcast : Bool) (bind : Option String) (eventLog : Option String)
  /-- Show what a document declares. -/
  | check (file : String) (format : OutputFormat)
  /-- Show the plan of a timer expression. -/
  | plan (expression : String) (loopCap : Option UInt32) (format : OutputFormat)
  /-- Show the notices of another timer. -/
  | listen (address : Option String)
  deriving DecidableEq, Repr

/-- A command with the options that all commands share. -/
structure Arguments where
  /-- The settings file that is asked for. -/
  settings : Option String := none
  logLevel : Option String := none
  command : Command
  deriving DecidableEq, Repr

/-- Why a command line asks for nothing that the program does. -/
inductive UsageError where
  /-- Help is asked for. -/
  | help
  /-- The version is asked for. -/
  | version
  /-- There are no arguments. -/
  | noArguments
  /-- There are options but no command. -/
  | noCommand
  /-- There is no such command. -/
  | unknownCommand
  /-- There is no such option, or no room for another word. -/
  | unknownArgument
  /-- A word that the command needs is missing. -/
  | missingArgument
  /-- An option has no value, or a path is empty. -/
  | noValue
  /-- The value of an option is none of its values. -/
  | badValue
  /-- An option is given twice. -/
  | repeated
  /-- An option that takes no value has one. -/
  | surplusValue
  deriving DecidableEq, Repr

end TaskTimer
