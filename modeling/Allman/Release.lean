import Allman.Style
import Allman.Unicode.Space

/-! # Release names

The version that a program reports: a text, of which the three parts of a dotted triple can be
painted, and the commit and date it was built from. -/

namespace Allman

/-- What a program says about itself. -/
structure Release where
  /-- The version. -/
  version : Bytes
  /-- The commit; blank if unknown. -/
  commit : Bytes
  /-- The date; blank if unknown. -/
  date : Bytes
  deriving DecidableEq, Repr

namespace Release

/-- The release of this program. -/
def current : Release := ⟨Bytes.ofString "0.1.0-dev", [], []⟩

/-- The version with its three parts painted. What is no dotted triple, apart from what follows the
first dash, is left as it is. -/
def paintVersion (r : Release) (color : Bool) : Bytes :=
  let (core, suffix) := (r.version.cutAt? Byte.dash).getD (r.version, [])
  match color, Bytes.splitOn Byte.dot core with
  | true, [major, minor, patch] =>
    Style.yellow.bolder.paint true major ++ Byte.dot :: Style.green.bolder.paint true minor ++
      Byte.dot :: Style.blue.bolder.paint true patch ++
      (if suffix = [] then [] else Byte.dash :: suffix)
  | _, _ => r.version

/-- The name, the version and, where known, commit and date. -/
def describe (r : Release) (color : Bool) : Bytes :=
  let commit := r.commit.trimSpace
  let date := r.date.trimSpace
  Bytes.ofString "reindent " ++ r.paintVersion color ++
    if commit = [] then []
    else
      Bytes.ofString " (" ++ commit ++ (if date = [] then [] else Bytes.ofString ", " ++ date) ++
        Bytes.ofString ")"

end Release

end Allman
