import TaskTimer.Files.Basic

/-!
# The log of the program

The program notes what it does in a file of its own.

* `programLogDirectory`, `programLog`: where that file is.
* `LogLevel`: how much is noted.
-/

namespace TaskTimer

/-- The directory of the log: below the directory for data, or else where the program runs. -/
def programLogDirectory (env : Environment) : String :=
  Path.join (Path.join (env.dataDirectory?.getD ".") "pomoedit") "logs"

/-- The path of the log. -/
def programLog (env : Environment) : String := Path.join (programLogDirectory env) "pomoedit.log"

/-- The last line of the help: where the log is. -/
def programLogNote (path : String) : String := s!"Logs are written to: {path}\n"

/-- How much is noted. -/
inductive LogLevel where
  | trace
  | debug
  | info
  | warn
  | error
  deriving DecidableEq, Repr

namespace LogLevel

/-- The capital form of a character, as far as names of levels can hold it: of the letters outside
ASCII the dotless i alone has the capital form of a letter in such a name. -/
def capital (c : Char) : Char := if c = 'ı' then 'I' else c.toUpper

/-- The level with a name, in letters of either case. -/
def ofName? (name : String) : Option LogLevel :=
  match String.ofList (name.toList.map capital) with
  | "TRACE" => some .trace
  | "DEBUG" => some .debug
  | "INFO" => some .info
  | "WARN" | "WARNING" => some .warn
  | "ERROR" => some .error
  | _ => none

/-- The warning about a name that is none, if it is none. -/
def warning? (name : String) : Option String :=
  match ofName? name with
  | some _ => none
  | none => some s!"Warning: Unknown log-level '{name}', defaulting to INFO"

end LogLevel

end TaskTimer
