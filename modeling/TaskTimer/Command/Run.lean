import TaskTimer.Command.Arguments
import TaskTimer.Command.Report
import TaskTimer.Command.Watch
import TaskTimer.Log.Program
import TaskTimer.Settings.Reader

/-!
# Running a command line

* `Job`: what a command line comes to.
* `run`: from the arguments to the job. The log is set up before the settings count, so that its
  failure is reported first.
* `UsageError.exitCode`, `UsageError.output`: what a command line without a job leaves behind.
-/

namespace TaskTimer

/-- What a command line comes to. -/
inductive Job where
  /-- There is something to show, and no more to do. -/
  | output (text : String)
  /-- The command fails with a message. -/
  | failure (message : String)
  /-- There is no command. -/
  | refusal (e : UsageError)
  | watch (settings : Settings) (options : WatchOptions)
  | listen (address : String)
  deriving Repr

/-- A job and the warnings that come before it. -/
structure Start where
  warnings : List String := []
  job : Job
  deriving Repr

/-! ## Without a job -/

/-- The name and the version of the program. -/
def versionText : String := "pe 0.1.0"

/-- The help of the program. -/
def helpText (env : Environment) : String :=
  unlines
    ["Drive pomodoro-style timers from task lines in a text file", "",
      "Usage: pe [OPTIONS] <COMMAND>", "",
      "Commands:",
      "  watch   Watch a file and run the timer it declares",
      "  check   Show the declaration found in a file, or why there is none",
      "  plan    Compile a timer expression and print its plan",
      "  listen  Print events from a running broadcast listener",
      "  help    Print this message or the help of the given subcommand(s)", "",
      "Options:",
      "  -c, --config <CONFIG>        Path to config file",
      "  -l, --log-level <LOG_LEVEL>  Log level (TRACE, DEBUG, INFO, WARN, ERROR)",
      "  -h, --help                   Print help",
      "  -V, --version                Print version", ""] ++
    programLogNote (programLog env)

namespace UsageError

/-- The exit code: asking for help or the version is no mistake. -/
def exitCode : UsageError → Nat
  | .help | .version => 0
  | _ => 2

/-- What is shown on the output. -/
def output (env : Environment) : UsageError → String
  | .help => helpText env
  | .version => unlines [versionText]
  | _ => ""

end UsageError

/-! ## The commands -/

/-- The report on the plan of an expression, or why there is none. -/
def planReport (settings : TimerSettings) (expression : String) (loopCap : Option UInt32) :
    Except String PlanReport :=
  match parse expression with
  | .error e => .error s!"Invalid timer expression '{expression}': {e.message}"
  | .ok nodes =>
    if leafCount nodes = 0 then .error s!"Timer expression '{expression}' has no countdowns"
    else
      .ok
        { expression := expression
          plan := .layout (loopCap.getD settings.loopCap) nodes }

section Files

variable {m : Type → Type} [Monad m] [MonadFiles m]

/-- The report on a file, or why there is none. -/
def checkReport (settings : TimerSettings) (file : String) : m (Except String CheckReport) := do
  match ← readText file with
  | .error _ => return .error s!"Failed to read {file}"
  | .ok text => return .ok (.of (← documentName file) text settings.loopCap)

/-- What a command comes to under the settings. -/
def Command.job (settings : Settings) : Command → m Job
  | .watch file broadcast bind eventLog =>
    return .watch settings (.of settings.broadcast file broadcast bind eventLog)
  | .check file format => do
    match ← checkReport settings.timer file with
    | .ok report => return .output (report.render format)
    | .error message => return .failure message
  | .plan expression loopCap format =>
    match planReport settings.timer expression loopCap with
    | .ok report => return .output (report.render format)
    | .error message => return .failure message
  | .listen address => return .listen (address.getD settings.broadcast.bind)

/-- Sets up the log of the program. Answers whether this succeeds, and the warnings about the level
that is asked for. -/
def setUpLog (env : Environment) (level : Option String) : m (Bool × List String) := do
  if ← makeDirectories (programLogDirectory env) then
    return (← createFile (programLog env), (level.bind LogLevel.warning?).toList)
  else return (false, [])

/-- Carries out a command line up to what takes time. The level asked for on the command line counts
more than the one of the settings. -/
def run (env : Environment) (args : List String) : m Start := do
  match Arguments.ofList args with
  | .error e => return { job := .refusal e }
  | .ok arguments =>
    let loaded ← loadSettings env arguments.settings
    let level := arguments.logLevel.or (loaded.toOption.bind (·.logLevel))
    let (isSetUp, warnings) ← setUpLog env level
    if !isSetUp then
      return { warnings := warnings, job := .failure "Failed to setup logging" }
    match loaded with
    | .error _ => return { warnings := warnings, job := .failure "Failed to load configuration" }
    | .ok settings => return { warnings := warnings, job := ← arguments.command.job settings }

end Files

end TaskTimer
