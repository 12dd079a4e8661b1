import TaskTimer.Text.Basic

/-!
# Files

The program reads documents, settings and logs, and writes logs. It does so through a few
operations on files, so that it can run on a disk as well as on a tree of files held in memory.

* `ReadError`, `MonadFiles`: the operations.
* `readText`, `documentName`: what a document holds, and what it is called.
* `Path.join`, `Path.parent?`: paths built from other paths.
* `Environment`: where the files of the user are.
-/

namespace TaskTimer

/-- Why a file cannot be read. -/
inductive ReadError where
  /-- There is nothing at the path. -/
  | missing
  /-- What is at the path is no file, or no text. -/
  | unreadable
  deriving DecidableEq, Repr, Inhabited

/-- The operations on files. Those that write answer whether they have succeeded. -/
class MonadFiles (m : Type → Type) where
  /-- The bytes of a file. -/
  readFile : String → m (Except ReadError (List UInt8))
  /-- The absolute path of what is at a path, without detours, if there is something. -/
  canonical? : String → m (Option String)
  /-- Makes a directory and those above it, as far as they are missing. -/
  makeDirectories : String → m Bool
  /-- Makes an empty file, or empties the file that is there. -/
  createFile : String → m Bool
  /-- Puts bytes behind those of a file, which is made if it is missing. -/
  appendFile : String → List UInt8 → m Bool

export MonadFiles (readFile canonical? makeDirectories createFile appendFile)

section Reading

variable {m : Type → Type} [Monad m] [MonadFiles m]

/-- The text of a file. -/
def readText (path : String) : m (Except ReadError String) := do
  match ← readFile path with
  | .error e => return .error e
  | .ok bytes =>
    match Utf8.decode? bytes with
    | some text => return .ok (.ofList text)
    | none => return .error .unreadable

/-- The name of the document at a path: the canonical path if there is something, and the path as it
is given otherwise. -/
def documentName (path : String) : m String := do return (← canonical? path).getD path

end Reading

namespace Path

/-- The path is given from the root on. -/
def isAbsolute (path : String) : Bool := path.toList.head? == some '/'

/-- The path of `name` seen from the directory `base`. -/
def join (base name : String) : String :=
  if isAbsolute name then name
  else if base.isEmpty || base.endsWith "/" then base ++ name
  else base ++ "/" ++ name

/-- The names and dots between the slashes of a path. -/
def parts (path : String) : List String := (path.toList.splitOn '/').map String.ofList

/-- The part names something that may be missing. -/
def isName (part : String) : Bool := part != "" && part != "." && part != ".."

/-- The directory that holds what is at a path, unless it is the one that the program runs in. -/
def parent? (path : String) : Option String :=
  let above := ((parts path).filter fun part => part != "" && part != ".").dropLast
  let directory := (if isAbsolute path then "/" else "") ++ "/".intercalate above
  if directory.isEmpty then none else some directory

end Path

/-- Where the files of the user are. -/
structure Environment where
  /-- The home directory. -/
  home : Option String := none
  /-- The directory for data, if one is set. -/
  dataHome : Option String := none
  /-- The directory for settings, if one is set. -/
  configHome : Option String := none
  deriving DecidableEq, Repr

namespace Environment

/-- The directory that is set, which counts only when it is absolute, or else the usual one below
the home directory. -/
def directory? (env : Environment) (set? : Option String) (usual : String) : Option String :=
  match set?.filter Path.isAbsolute with
  | some path => some path
  | none => env.home.map fun home => Path.join home usual

/-- The directory for data. -/
def dataDirectory? (env : Environment) : Option String :=
  env.directory? env.dataHome ".local/share"

/-- The directory for settings. -/
def configDirectory? (env : Environment) : Option String := env.directory? env.configHome ".config"

end Environment

end TaskTimer
