import TaskTimer.Command.Basic

/-!
# Reading the command line

A command line holds options and words. The first word names the command, and what follows belongs
to the command. Options that all commands share may stand on either side of it, and then the inner
one counts. The value of an option stands behind an equals sign, right behind a short option, or in
the next argument. Behind two dashes everything is a word.

* `Parameter`: the options, and the word that a command takes.
* `Grammar`: the parameters of a command.
* `Level`: what has been read of the arguments on one side of the command name.
* `Arguments.ofList`: the arguments of a command line.

A value counts only when it is known to be complete. So an option that is unknown is reported before
a value in front of it that is wrong.
-/

namespace TaskTimer

/-- What can be given on a command line: an option, or the word that a command takes. -/
inductive Parameter where
  | config
  | logLevel
  | help
  | version
  | broadcast
  | bind
  | eventLog
  | format
  | loopCap
  | address
  | file
  | expression
  deriving DecidableEq, Repr

namespace Parameter

/-- The name of an option behind two dashes. -/
def long? : Parameter → Option String
  | .config => some "config"
  | .logLevel => some "log-level"
  | .help => some "help"
  | .version => some "version"
  | .broadcast => some "broadcast"
  | .bind => some "bind"
  | .eventLog => some "event-log"
  | .format => some "format"
  | .loopCap => some "loop-cap"
  | .address => some "addr"
  | .file | .expression => none

/-- The letter of an option behind one dash. -/
def short? : Parameter → Option Char
  | .config => some 'c'
  | .logLevel => some 'l'
  | .help => some 'h'
  | .version => some 'V'
  | .broadcast => some 'b'
  | .format => some 'f'
  | .address => some 'a'
  | .bind | .eventLog | .loopCap | .file | .expression => none

/-- The parameter takes a value. -/
def takesValue : Parameter → Bool
  | .help | .version | .broadcast => false
  | _ => true

/-- The number that a loop cap writes: decimal digits behind an optional sign, of a value below
`2 ^ 32`. -/
def readLoopCap? (value : String) : Option UInt32 :=
  let cs := value.toList
  let digits := if cs.head? = some '+' || cs.head? = some '-' then cs.drop 1 else cs
  let n := readDecimal digits
  if digits.isEmpty || !digits.all Char.isDigit then none
  else if cs.head? = some '-' && n ≠ 0 then none
  else if n < UInt32.size then some (UInt32.ofNat n)
  else none

/-- Why a value is none of the values of a parameter, if it is none. -/
def fault? (p : Parameter) (value : String) : Option UsageError :=
  match p with
  | .config | .eventLog | .file => if value.isEmpty then some .noValue else none
  | .format => if (OutputFormat.ofName? value).isNone then some .badValue else none
  | .loopCap => if (readLoopCap? value).isNone then some .badValue else none
  | _ => none

end Parameter

/-- What can be given on one side of a command name. -/
structure Grammar where
  options : List Parameter
  /-- The word that the command takes. -/
  word : Option Parameter := none
  deriving DecidableEq, Repr

namespace Grammar

/-- The option with a long name. -/
def long? (g : Grammar) (name : String) : Option Parameter :=
  g.options.find? (·.long? == some name)

/-- The option with a letter. -/
def short? (g : Grammar) (letter : Char) : Option Parameter :=
  g.options.find? (·.short? == some letter)

end Grammar

/-! ## One side of the command name -/

/-- What has been read on one side of a command name. -/
structure Level where
  grammar : Grammar
  /-- The parameters that have their values. An option without a value stands beside the empty
  text. -/
  values : List (Parameter × String) := []
  /-- The parameter that is being given, and its value as far as it has been read. -/
  pending : Option (Parameter × Option String) := none
  /-- The word that the command takes has been read. -/
  hasWord : Bool := false
  /-- Two dashes have been read. -/
  onlyWords : Bool := false
  deriving Repr

namespace Level

/-- The value of a parameter. -/
def value? (l : Level) (p : Parameter) : Option String := l.values.lookup p

/-- Gives a parameter its value. -/
def set (l : Level) (p : Parameter) (value : String) : Except UsageError Level :=
  if (l.value? p).isSome then .error .repeated
  else
    match p.fault? value with
    | some e => .error e
    | none => .ok { l with values := (p, value) :: l.values }

/-- Gives the parameter that is being given its value. -/
def settle (l : Level) : Except UsageError Level :=
  match l.pending with
  | none => .ok l
  | some (_, none) => .error .noValue
  | some (p, some value) => { l with pending := none }.set p value

/-- The option that still lacks its value. -/
def awaiting? (l : Level) : Option Parameter :=
  match l.pending with
  | some (p, none) => some p
  | _ => none

/-- The next argument may be the word of the command even if it starts with a dash: timer
expressions are taken as they are. -/
def takesDashes (l : Level) : Bool := l.grammar.word == some .expression && !l.hasWord

/-- Reads an option that takes no value. -/
def takeFlag (l : Level) (p : Parameter) : Except UsageError Level := do
  let l ← l.settle
  match p with
  | .help => .error .help
  | .version => .error .version
  | p => l.set p ""

/-- Reads an option with a value right behind it, or with one to come. -/
def takeOption (l : Level) (p : Parameter) (attached : Option String) : Except UsageError Level := do
  let l ← l.settle
  match attached with
  | some value => l.set p value
  | none => .ok { l with pending := some (p, none) }

/-- Reads a word: the value of the option that lacks one, or else the word of the command. -/
def takeWord (l : Level) (word : String) : Except UsageError Level :=
  match l.awaiting?, l.onlyWords with
  | some p, false => .ok { l with pending := some (p, some word) }
  | _, _ =>
    match l.grammar.word, l.hasWord with
    | some p, false => do
      let l ← l.settle
      .ok { l with pending := some (p, some word), hasWord := true }
    | _, _ => .error .unknownArgument

/-- Reads an argument that starts with two dashes, given behind them. -/
def takeLong (l : Level) (arg : String) (cs : List Char) : Except UsageError Level :=
  let name := String.ofList (cs.takeWhile (· != '='))
  let attached :=
    match cs.dropWhile (· != '=') with
    | _ :: value => some (String.ofList value)
    | [] => none
  match l.grammar.long? name with
  | some p =>
    if p.takesValue then l.takeOption p attached
    else if attached.isSome then .error .surplusValue
    else l.takeFlag p
  | none => if l.takesDashes then l.takeWord arg else .error .unknownArgument

/-- Reads the letters of an argument that starts with one dash. What follows the letter of an option
that takes a value is the value, with or without an equals sign. -/
def takeLetters (l : Level) : List Char → Except UsageError Level
  | [] => .ok l
  | c :: cs =>
    match l.grammar.short? c with
    | none => .error .unknownArgument
    | some p =>
      if p.takesValue then
        let attached :=
          match cs with
          | [] => none
          | '=' :: value => some (String.ofList value)
          | value => some (String.ofList value)
        l.takeOption p attached
      else do
        let l ← l.takeFlag p
        l.takeLetters cs

/-- Reads an argument that starts with one dash, given behind it. -/
def takeShort (l : Level) (arg : String) (cs : List Char) : Except UsageError Level :=
  if l.takesDashes && cs.any fun c => (l.grammar.short? c).isNone then l.takeWord arg
  else l.takeLetters cs

/-- Reads an argument. -/
def take (l : Level) (arg : String) : Except UsageError Level :=
  if l.onlyWords then l.takeWord arg
  else
    match arg.toList with
    | ['-', '-'] => .ok { l with onlyWords := true }
    | '-' :: '-' :: cs => l.takeLong arg cs
    | ['-'] => l.takeWord arg
    | '-' :: cs => l.takeShort arg cs
    | _ => l.takeWord arg

end Level

/-! ## The whole command line -/

/-- The names of commands. -/
inductive CommandName where
  | watch
  | check
  | plan
  | listen
  | help
  deriving DecidableEq, Repr

namespace CommandName

/-- The command with a name. -/
def ofText? : String → Option CommandName
  | "watch" => some .watch
  | "check" => some .check
  | "plan" => some .plan
  | "listen" => some .listen
  | "help" => some .help
  | _ => none

/-- What can be given behind a command name. -/
def grammar : CommandName → Grammar
  | .watch =>
    { options := [.config, .logLevel, .help, .broadcast, .bind, .eventLog], word := some .file }
  | .check => { options := [.config, .logLevel, .help, .format], word := some .file }
  | .plan =>
    { options := [.config, .logLevel, .help, .loopCap, .format], word := some .expression }
  | .listen => { options := [.config, .logLevel, .help, .address] }
  | .help => { options := [] }

end CommandName

/-- What can be given in front of the command name. -/
def rootGrammar : Grammar := { options := [.config, .logLevel, .help, .version] }

/-- Reads all arguments behind a command name. -/
def Level.takeAll (l : Level) (args : List String) : Except UsageError Level := do
  let l ← args.foldlM Level.take l
  l.settle

/-- Reads the arguments in front of the command name, up to the name and what follows it. -/
def Level.takeRoot (l : Level) :
    List String → Except UsageError (Level × Option (CommandName × List String))
  | [] => .ok (l, none)
  | arg :: args =>
    match (if l.awaiting?.isNone && !l.onlyWords then CommandName.ofText? arg else none) with
    | some name => .ok (l, some (name, args))
    | none =>
      let isWord := l.onlyWords || (!arg.startsWith "-" || arg == "-") && l.awaiting?.isNone
      if isWord then
        .error <|
          if l.onlyWords && (CommandName.ofText? arg).isSome then .unknownArgument
          else .unknownCommand
      else do
        let l ← l.take arg
        l.takeRoot args

/-- The result of asking for help on a command: help, unless there is no such command. -/
def helpOn : List String → UsageError
  | [] => .help
  | [name] => if (CommandName.ofText? name).isSome then .help else .unknownCommand
  | _ => .unknownCommand

/-- The format that is asked for. -/
def Level.format (l : Level) : OutputFormat :=
  ((l.value? .format).bind OutputFormat.ofName?).getD .text

/-- The command with a name and its arguments. -/
def Level.command (l : Level) : CommandName → Except UsageError Command
  | .watch =>
    match l.value? .file with
    | some file =>
      .ok (.watch file (l.value? .broadcast).isSome (l.value? .bind) (l.value? .eventLog))
    | none => .error .missingArgument
  | .check =>
    match l.value? .file with
    | some file => .ok (.check file l.format)
    | none => .error .missingArgument
  | .plan =>
    match l.value? .expression with
    | some expression =>
      .ok (.plan expression ((l.value? .loopCap).bind Parameter.readLoopCap?) l.format)
    | none => .error .missingArgument
  | .listen => .ok (.listen (l.value? .address))
  | .help => .error .help

/-- The arguments of a command line. -/
def Arguments.ofList (args : List String) : Except UsageError Arguments := do
  let (root, rest) ← Level.takeRoot { grammar := rootGrammar } args
  match rest with
  | none => do
    let root ← root.settle
    .error (if root.values.isEmpty then .noArguments else .noCommand)
  | some (.help, names) => .error (helpOn names)
  | some (name, args) => do
    let inner ← Level.takeAll { grammar := name.grammar } args
    let command ← inner.command name
    let root ← root.settle
    .ok
      { settings := (inner.value? .config).or (root.value? .config)
        logLevel := (inner.value? .logLevel).or (root.value? .logLevel)
        command := command }

end TaskTimer
