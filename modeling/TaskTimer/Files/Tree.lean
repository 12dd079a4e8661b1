import TaskTimer.Files.Basic

/-!
# Trees of files

A tree of files held in memory, to run the program without a disk. It knows one absolute directory,
in which the program runs, and what is below it.

* `FileTree`: the files and directories.
* `FileTree.walk`: where a path leads.
* `FileTree.put`, `FileTree.remove`: changes from outside.
* The instance of `MonadFiles` for computations on a tree.
-/

namespace TaskTimer

/-- What is at a place of a tree. -/
inductive FileNode where
  | file (bytes : List UInt8)
  | directory
  deriving DecidableEq, Repr

/-- A directory and what is below it. -/
structure FileTree where
  /-- The absolute path of the directory, in which the program runs. -/
  root : String
  /-- What is below the directory, each with the names that lead to it. -/
  nodes : List (List String × FileNode) := []
  deriving DecidableEq, Repr

namespace FileTree

/-! ## Looking -/

/-- What is at a place. -/
def find? (t : FileTree) (place : List String) : Option FileNode :=
  if place.isEmpty then some .directory else t.nodes.lookup place

/-- The parts of a path from the directory of the tree on, for a path that stays below it. -/
def partsBelow? (t : FileTree) (path : String) : Option (List String) :=
  let parts := Path.parts path
  let rootParts := Path.parts t.root
  if path.isEmpty then none
  else if rootParts.isPrefixOf parts then some (parts.drop rootParts.length)
  else if Path.isAbsolute path then none
  else some parts

/-- Where the parts of a path lead from a place on. -/
def walk (t : FileTree) : List String → List String → Except ReadError (List String)
  | place, [] => .ok place
  | place, part :: parts =>
    match t.find? place with
    | none => .error .missing
    | some (.file _) => .error .unreadable
    | some .directory =>
      if part = "" || part = "." then t.walk place parts
      else if part = ".." then
        if place.isEmpty then .error .missing else t.walk place.dropLast parts
      else
        match t.find? (place ++ [part]) with
        | none => .error .missing
        | some _ => t.walk (place ++ [part]) parts

/-- Where a path leads. -/
def resolve (t : FileTree) (path : String) : Except ReadError (List String) :=
  match t.partsBelow? path with
  | none => .error .missing
  | some parts => t.walk [] parts

/-- The bytes of the file at a path. -/
def read (t : FileTree) (path : String) : Except ReadError (List UInt8) := do
  match t.find? (← t.resolve path) with
  | some (.file bytes) => .ok bytes
  | _ => .error .unreadable

/-- The absolute path of what is at a path. -/
def absolute? (t : FileTree) (path : String) : Option String :=
  match t.resolve path with
  | .ok place => some ("/".intercalate (t.root :: place))
  | .error _ => none

/-! ## Changing -/

/-- The tree with `node` at a place, and nothing else there. -/
def set (t : FileTree) (place : List String) (node : FileNode) : FileTree :=
  { t with nodes := (place, node) :: t.nodes.filter (·.1 != place) }

/-- The tree without what is at or below a place. -/
def remove (t : FileTree) (place : List String) : FileTree :=
  { t with nodes := t.nodes.filter fun (p, _) => !place.isPrefixOf p }

/-- The tree with a directory at each place that the parts of a path lead through, if no file is in
the way. -/
def makeWay (t : FileTree) : List String → List String → Option FileTree
  | place, [] => if t.find? place = some .directory then some t else none
  | place, part :: parts =>
    if t.find? place = some .directory then
      if part = "" || part = "." then t.makeWay place parts
      else if part = ".." then
        if place.isEmpty then none else t.makeWay place.dropLast parts
      else
        let here := place ++ [part]
        if (t.find? here).isNone then (t.set here .directory).makeWay here parts
        else t.makeWay here parts
    else none

/-- The tree with a directory at a path. -/
def makeDirectories (t : FileTree) (path : String) : Option FileTree :=
  (t.partsBelow? path).bind (t.makeWay [])

/-- The tree after the bytes of the file at a path have changed. A file that is missing is made, if
its directory is there. -/
def edit (t : FileTree) (path : String) (change : List UInt8 → List UInt8) : Option FileTree :=
  match t.resolve path with
  | .ok place =>
    match t.find? place with
    | some (.file bytes) => some (t.set place (.file (change bytes)))
    | _ => none
  | .error .unreadable => none
  | .error .missing => do
    let parts ← t.partsBelow? path
    let name ← parts.getLast?
    if Path.isName name then
      match t.walk [] parts.dropLast with
      | .ok place =>
        if t.find? place = some .directory then
          some (t.set (place ++ [name]) (.file (change [])))
        else none
      | .error _ => none
    else none

/-- The tree with `node` at a path below its directory, and the directories above it. -/
def put (t : FileTree) (path : String) (node : FileNode) : FileTree :=
  let place := (Path.parts path).filter Path.isName
  let t := (t.makeWay [] place.dropLast).getD t
  t.set place node

/-! ## Computations on a tree -/

/-- Applies a change that may fail, and tells whether it was possible. -/
def attempt (change : FileTree → Option FileTree) : StateM FileTree Bool := fun t =>
  match change t with
  | some t => (true, t)
  | none => (false, t)

instance : MonadFiles (StateM FileTree) where
  readFile path := do return (← get).read path
  canonical? path := do return (← get).absolute? path
  makeDirectories path := attempt fun t => t.makeDirectories path
  createFile path := attempt fun t => t.edit path fun _ => []
  appendFile path bytes := attempt fun t => t.edit path (· ++ bytes)

end FileTree

end TaskTimer
