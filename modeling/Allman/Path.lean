import Allman.Bytes

/-! # Paths

Paths are cleaned by their text alone: empty components and `.` go away, and `..` takes the
component before it along. A path that starts with a slash is absolute. A relative path is never
made absolute by cleaning. -/

namespace Allman

namespace Path

/-- The path starts at the root. -/
def isAbsolute (p : Bytes) : Bool := p.head? == some Byte.slash

/-- The component that stands for the directory itself. -/
def here : Bytes := [Byte.dot]

/-- The component that stands for the directory above. -/
def above : Bytes := [Byte.dot, Byte.dot]

/-- The root directory. -/
def root : Bytes := [Byte.slash]

/-- Takes one component up into the cleaned ones, which are kept the last first. Above the root
there is only the root. -/
def step (absolute : Bool) (cleaned : List Bytes) (component : Bytes) : List Bytes :=
  if component = [] ∨ component = here then cleaned
  else if component = above then
    match cleaned with
    | [] => if absolute then [] else [above]
    | last :: before => if last = above then above :: cleaned else before
  else component :: cleaned

/-- The components of a cleaned path. -/
def components (p : Bytes) : List Bytes :=
  ((Bytes.splitOn Byte.slash p).foldl (step (isAbsolute p)) []).reverse

/-- **The cleaned form of a path.** -/
def clean (p : Bytes) : Bytes :=
  let inner := Bytes.joinWith [Byte.slash] (components p)
  if isAbsolute p then Byte.slash :: inner
  else if inner = [] then here
  else inner

/-- Joins parts by slashes and cleans the result; empty parts are left out. -/
def join (parts : List Bytes) : Bytes :=
  match parts.filter (· ≠ []) with
  | [] => []
  | kept => clean (Bytes.joinWith [Byte.slash] kept)

/-- The directory of a path: the cleaned text up to its last slash. -/
def parent (p : Bytes) : Bytes := clean ((p.reverse.dropWhile (· != Byte.slash)).reverse)

/-- The part after the last slash. -/
def base (p : Bytes) : Bytes := (p.reverse.takeWhile (· != Byte.slash)).reverse

/-- The cleaned absolute form of a path, where relative ones start at the working directory. -/
def absolute (directory p : Bytes) : Bytes := if isAbsolute p then clean p else join [directory, p]

/-- An absolute cleaned directory and the directories above it, up to the root: at most `fuel` of
them. -/
def ancestors : Nat → Bytes → List Bytes
  | 0, dir => [dir]
  | fuel + 1, dir => if parent dir = dir then [dir] else dir :: ancestors fuel (parent dir)

/-- The path is `dir` or lies below it. All paths lie below the root, where relative ones start. -/
def isWithin (dir p : Bytes) : Bool :=
  dir == root || p == dir || Bytes.startsWith p (dir ++ [Byte.slash])

end Path

end Allman
