import Allman.FileSystem

/-! # Calls that may fail

A program acts on a `World`: the files, and which of the calls on them fail. Every call asks the
world first, by its number, its kind and its path, so that any choice of failing calls is a world.
Calls on the tree of sources and calls on the result cache are told apart. -/

namespace Allman

/-- The kinds of calls on files. -/
inductive FileCall where
  /-- Opens a file for reading. -/
  | openRead
  /-- Opens a file for writing. -/
  | openWrite
  /-- Makes a new file. -/
  | create
  /-- Makes a directory. -/
  | makeDirectory
  /-- Moves a file. -/
  | rename
  /-- Removes a file. -/
  | remove
  /-- Removes a directory with all that is in it. -/
  | removeTree
  /-- Looks a path up. -/
  | stat
  /-- Writes to an open file. -/
  | write
  /-- Reads from an open file. -/
  | read
  /-- Closes a file. -/
  | close
  deriving DecidableEq, Repr

namespace FileCall

/-- The name of a call. -/
def name : FileCall → String
  | openRead => "open"
  | openWrite => "openfile"
  | create => "create"
  | makeDirectory => "mkdirall"
  | rename => "rename"
  | remove => "remove"
  | removeTree => "removeall"
  | stat => "stat"
  | write => "write"
  | read => "read"
  | close => "close"

/-- All calls. -/
def all : List FileCall :=
  [openRead, openWrite, create, makeDirectory, rename, remove, removeTree, stat, write, read, close]

/-- The call with a name. -/
def ofName? (s : String) : Option FileCall := all.find? fun call => call.name == s

/-- The call changes files, and fails where files are read-only. -/
def changes : FileCall → Bool
  | openWrite | create | makeDirectory | rename | remove | removeTree => true
  | _ => false

end FileCall

/-- Why a call failed. -/
inductive FileError where
  /-- There is nothing at the path. -/
  | notFound (path : Bytes)
  /-- Files are read-only. -/
  | notPermitted
  /-- The call was made to fail. -/
  | injected (call : FileCall)
  deriving DecidableEq, Repr

namespace FileError

/-- The text of an error. -/
def message : FileError → Bytes
  | notFound path => Bytes.ofString "open " ++ path ++ Bytes.ofString ": file does not exist"
  | notPermitted => Bytes.ofString "operation not permitted"
  | injected call => Bytes.ofString s!"injected {call.name}"

/-- The error says that there is nothing at the path. -/
def isNotFound : FileError → Bool
  | notFound _ => true
  | _ => false

end FileError

/-- Who makes a call. -/
inductive Side where
  /-- The program, on sources, settings and profiles. -/
  | tree
  /-- The result cache. -/
  | cache
  deriving DecidableEq, Repr

/-- Which calls fail: by side, number, kind and path. -/
abbrev Trouble := Side → Nat → FileCall → Bytes → Option FileError

namespace Trouble

/-- No call fails. -/
def none : Trouble := fun _ _ _ _ => .none

/-- The given kinds of calls fail on paths that start with `under`. -/
def injecting (calls : List FileCall) (under : Bytes) (call : FileCall) (path : Bytes) :
    Option FileError :=
  if calls.contains call && Bytes.startsWith path under then some (.injected call) else .none

/-- Every call that changes files fails. -/
def readOnly (call : FileCall) : Option FileError :=
  if call.changes then some .notPermitted else .none

end Trouble

/-- Which profilers run: there can be one of each kind. -/
structure Profilers where
  /-- The processor profiler runs. -/
  processor : Bool
  /-- The execution tracer runs. -/
  tracer : Bool
  deriving DecidableEq, Repr

/-- The files and what calls do to them, the profilers, and the working directory. -/
structure World where
  /-- The files. -/
  files : FileSystem
  /-- Which calls fail. -/
  trouble : Trouble
  /-- The calls so far with their paths, the last first. -/
  calls : List (FileCall × Bytes)
  /-- The profilers that run. -/
  profilers : Profilers
  /-- The working directory, where relative paths start. -/
  directory : Bytes
  /-- How trees are removed. Files that are kept in memory lose the root alone. -/
  removal : Removal := .rootAlone

/-- An action in a world, which may fail; what it did before it failed stays done. -/
abbrev Act (ε α : Type) := ExceptT ε (StateM World) α

namespace World

/-- A world without trouble, in which trees are removed as a whole. -/
def ofFiles (files : FileSystem) : World := ⟨files, .none, [], ⟨false, false⟩, Path.root, .whole⟩

/-- Runs an action. -/
def run {ε α : Type} (w : World) (act : Act ε α) : Except ε α × World :=
  (ExceptT.run act).run w

end World

namespace Act

/-- Makes a call: it fails if the world says so. -/
def call (side : Side) (kind : FileCall) (path : Bytes) : Act FileError Unit := do
  let w ← get
  set { w with calls := (kind, path) :: w.calls }
  match w.trouble side w.calls.length kind path with
  | some e => throw e
  | none => pure ()

/-- Changes the files. -/
def modifyFiles (f : FileSystem → FileSystem) : Act FileError Unit :=
  modify fun w => { w with files := f w.files }

/-- The node at a path. -/
def node (path : Bytes) : Act FileError Node := do
  match (← get).files.get? path with
  | some node => pure node
  | none => throw (.notFound (FileSystem.key path))

/-- An action whose outcome does not matter. -/
def ignore {ε δ α : Type} (act : Act ε α) : Act δ Unit :=
  ExceptT.mk do
    let _ ← ExceptT.run act
    pure (.ok ())

/-- An action whose error is explained by another one. -/
def mapError {ε δ α : Type} (f : ε → δ) (act : Act ε α) : Act δ α :=
  ExceptT.mk do
    match ← ExceptT.run act with
    | .ok a => pure (.ok a)
    | .error e => pure (.error (f e))

/-- An action and its outcome; it does not fail itself. -/
def attempt {ε δ α : Type} (act : Act ε α) : Act δ (Except ε α) :=
  ExceptT.mk do
    let outcome ← ExceptT.run act
    pure (.ok outcome)

/-! ### Calls on files -/

/-- Opens a file for reading, and gives what will be read. -/
def openFile (side : Side) (path : Bytes) : Act FileError Bytes := do
  call side .openRead path
  let node ← node path
  pure node.data

/-- Reads a file. -/
def readFile (side : Side) (path : Bytes) : Act FileError Bytes := do
  let data ← openFile side path
  call side .read path
  pure data

/-- Looks a path up. -/
def stat (side : Side) (path : Bytes) : Act FileError Node := do
  call side .stat path
  node path

/-- Writes an open file and closes it. The file keeps what was written when closing fails. -/
def writeAndClose (side : Side) (path data : Bytes) : Act FileError Unit := do
  call side .write path
  modifyFiles (·.setData path data)
  call side .close path

/-- Writes a file: an existing one is emptied first and keeps its permission bits. -/
def writeFile (side : Side) (path data : Bytes) (mode : Nat) : Act FileError Unit := do
  call side .openWrite path
  modifyFiles (·.truncate path mode)
  writeAndClose side path data

/-- Makes a new file, in place of what is there, and opens it. -/
def createFile (side : Side) (path : Bytes) (mode : Nat) : Act FileError OpenFile := do
  call side .create path
  let number := (← get).files.made
  modifyFiles (·.create path mode)
  pure ⟨path, number⟩

/-- Writes a file that was opened before. -/
def fillFile (side : Side) (file : OpenFile) (data : Bytes) : Act FileError Unit := do
  call side .write file.path
  modifyFiles (·.fill file data)

/-- Makes a directory and those above it. -/
def makeDirectory (side : Side) (path : Bytes) : Act FileError Unit := do
  call side .makeDirectory path
  modifyFiles (·.makeDirectory path)

/-- Moves a file in place of another one. -/
def rename (side : Side) (source target : Bytes) : Act FileError Unit := do
  call side .rename source
  let _ ← node source
  modifyFiles (·.move source target)

/-- Removes a file. -/
def removeFile (side : Side) (path : Bytes) : Act FileError Unit := do
  call side .remove path
  modifyFiles (·.remove path)

/-- Removes a directory with all that is in it. -/
def removeTree (side : Side) (path : Bytes) : Act FileError Unit := do
  call side .removeTree path
  let w ← get
  modifyFiles (·.takeTree w.removal path)

end Act

end Allman
