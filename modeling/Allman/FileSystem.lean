import Allman.Path

/-! # Files

A file system maps cleaned paths to nodes. A node has bytes and permission bits. A directory is a
node that lists paths, and any node becomes one once something is made below it. Directories appear
by themselves when something is made below them. A relative path and its absolute form are different
paths; at the top, both are listed by the root.

What lies at a path is looked up by the path alone, so that a node can be there and not be listed:
a new node in place of a directory lists nothing. `walk` finds files by the lists, `get?` by the
path. To remove the tree at a path takes away all that is at or below it (`removeTree`), but some
file systems keep what is below the root (`takeTree`). -/

namespace Allman

/-- A file or a directory. -/
structure Node where
  /-- Tells the node from every other one that was made, also at the same path. -/
  number : Nat
  /-- The bytes. -/
  data : Bytes
  /-- The permission bits. -/
  mode : Nat
  /-- The paths that a directory lists, each once; none for a plain file. -/
  listed : Option (List Bytes)
  deriving DecidableEq, Repr

namespace Node

/-- It is a directory. -/
def isDirectory (node : Node) : Bool := node.listed.isSome

/-- The node with a path in its list, as a directory. -/
def list (node : Node) (k : Bytes) : Node :=
  { node with listed := some ((node.listed.getD []).insert k) }

/-- The node without a path in its list. -/
def unlist (node : Node) (k : Bytes) : Node :=
  { node with listed := node.listed.map (·.erase k) }

end Node

/-- A node that was opened, by its path and its number. It is still there under the path unless
another one took its place. -/
structure OpenFile where
  /-- The path. -/
  path : Bytes
  /-- The number of the node. -/
  number : Nat
  deriving DecidableEq, Repr

/-- How the tree at a path is removed. File systems differ at the root. -/
inductive Removal where
  /-- All that is at or below the path goes. -/
  | whole
  /-- At the root, its node goes alone, and what lies below is still there by its path. -/
  | rootAlone
  deriving DecidableEq, Repr

/-- Files and directories by path. -/
structure FileSystem where
  /-- The nodes with their cleaned paths; no path occurs twice. -/
  nodes : List (Bytes × Node)
  /-- How many nodes were made so far. -/
  made : Nat
  deriving DecidableEq, Repr

namespace FileSystem

/-- The permission bits of a directory that is made on request. -/
def directoryMode : Nat := 0o755

/-- A file system with nothing but the root. -/
def empty : FileSystem := ⟨[(Path.root, ⟨0, [], directoryMode, some []⟩)], 1⟩

/-- The path under which a node is kept: the cleaned one, where the working directory and the one
above it are the root. -/
def key (p : Bytes) : Bytes :=
  let c := Path.clean p
  if c = Path.here ∨ c = Path.above then Path.root else c

/-- The node kept under a path. -/
def getKey? (fs : FileSystem) (k : Bytes) : Option Node := fs.nodes.lookup k

/-- The node at a path. -/
def get? (fs : FileSystem) (p : Bytes) : Option Node := fs.getKey? (key p)

/-- The bytes at a path. -/
def data? (fs : FileSystem) (p : Bytes) : Option Bytes := (fs.get? p).map (·.data)

/-- Puts a node under a path. -/
def setKey (fs : FileSystem) (k : Bytes) (node : Node) : FileSystem :=
  if (fs.getKey? k).isSome then
    { fs with nodes := fs.nodes.map fun (p, old) => if p = k then (p, node) else (p, old) }
  else { fs with nodes := fs.nodes ++ [(k, node)] }

/-- Takes the node under a path away. -/
def eraseKey (fs : FileSystem) (k : Bytes) : FileSystem :=
  { fs with nodes := fs.nodes.filter fun (q, _) => q != k }

/-- Changes the node under a path, if there is one. -/
def updateKey (fs : FileSystem) (k : Bytes) (f : Node → Node) : FileSystem :=
  match fs.getKey? k with
  | some node => fs.setKey k (f node)
  | none => fs

/-- Puts a new node without bytes under a path. -/
def addKey (fs : FileSystem) (k : Bytes) (mode : Nat) (listed : Option (List Bytes)) :
    FileSystem :=
  { fs.setKey k ⟨fs.made, [], mode, listed⟩ with made := fs.made + 1 }

/-! ### Lists -/

/-- The directory that lists a path. -/
def listerOf (k : Bytes) : Bytes := key (Path.parent k)

/-- Lists a path in the directory above it. That directory and those above it are made with the
given permission bits where they are missing. -/
def enlist (mode : Nat) : Nat → FileSystem → Bytes → FileSystem
  | 0, fs, _ => fs
  | fuel + 1, fs, k =>
    let above := listerOf k
    match fs.getKey? above with
    | some node => fs.setKey above (node.list k)
    | none => enlist mode fuel (fs.addKey above mode (some [k])) above

/-- Takes a path off the list of the directory above it. -/
def delist (fs : FileSystem) (k : Bytes) : FileSystem :=
  if (fs.getKey? k).isSome then fs.updateKey (listerOf k) (·.unlist k) else fs

/-! ### Changes -/

/-- Puts a new file at a path. -/
def create (fs : FileSystem) (p : Bytes) (mode : Nat) : FileSystem :=
  let k := key p
  enlist 0 (k.length + 1) (fs.addKey k mode none) k

/-- Opens a file for writing: an existing one loses its bytes and keeps its permission bits, a
missing one is made. -/
def truncate (fs : FileSystem) (p : Bytes) (mode : Nat) : FileSystem :=
  match fs.get? p with
  | some node => fs.setKey (key p) { node with data := [] }
  | none => fs.create p mode

/-- Gives a file its bytes. -/
def setData (fs : FileSystem) (p data : Bytes) : FileSystem :=
  fs.updateKey (key p) fun node => { node with data := data }

/-- Gives an open file its bytes, which are lost if it is not there any more. -/
def fill (fs : FileSystem) (file : OpenFile) (data : Bytes) : FileSystem :=
  fs.updateKey (key file.path) fun node =>
    if node.number = file.number then { node with data := data } else node

/-- Writes a file. -/
def write (fs : FileSystem) (p data : Bytes) (mode : Nat) : FileSystem :=
  (fs.truncate p mode).setData p data

/-- Makes a directory and those above it. -/
def makeDirectory (fs : FileSystem) (p : Bytes) : FileSystem :=
  let k := key p
  match fs.getKey? k with
  | some _ => fs
  | none => enlist directoryMode (k.length + 1) (fs.addKey k directoryMode (some [])) k

/-- Removes a node. -/
def remove (fs : FileSystem) (p : Bytes) : FileSystem :=
  (fs.delist (key p)).eraseKey (key p)

/-- Removes a node and everything below it. -/
def removeTree (fs : FileSystem) (p : Bytes) : FileSystem :=
  let left := fs.delist (key p)
  { left with nodes := left.nodes.filter fun (q, _) => !Path.isWithin (key p) q }

/-- Takes the tree at a path away, in one of the ways to remove trees. -/
def takeTree (fs : FileSystem) (removal : Removal) (p : Bytes) : FileSystem :=
  if removal = .rootAlone ∧ key p = Path.root then fs.remove p else fs.removeTree p

/-- Moves a file to another path, in place of what is there. -/
def move (fs : FileSystem) (source target : Bytes) : FileSystem :=
  match fs.get? source with
  | none => fs
  | some node =>
    let k := key target
    enlist 0 (k.length + 1) ((fs.remove source).setKey k node) k

/-! ### Search -/

/-- The files that are found from a path down when the lists are followed at most `depth` times, in
the order of their names, or else the first path that is listed and missing. -/
def walk (fs : FileSystem) : Nat → Bytes → Except Bytes (List Bytes)
  | 0, _ => .ok []
  | depth + 1, p =>
    match fs.get? p with
    | none => .error (key p)
    | some node =>
      match node.listed with
      | none => .ok [p]
      | some paths => do
        let names := (paths.map Path.base).mergeSort Bytes.le
        let found ← names.mapM fun name => fs.walk depth (Path.join [p, name])
        return found.flatten

/-- **The files at or below a path**, or else the first path that is missing. -/
def filesWithin (fs : FileSystem) (p : Bytes) : Except Bytes (List Bytes) :=
  fs.walk (fs.nodes.length + 1) p

end FileSystem

end Allman
