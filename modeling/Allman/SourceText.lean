import Allman.Digest

/-! # Source texts

A source text is a file's path and bytes, kept as they are: no byte-order mark is removed and no
line end changed. Its lines are the pieces between newlines; a newline at the very end starts no
further line, and a carriage return before a newline belongs to the line. -/

namespace Allman

/-- The lines of a text. -/
def splitLines (content : Bytes) : List Bytes :=
  match content.getLast? with
  | none => []
  | some last =>
    Bytes.splitOn Byte.newline (if last = Byte.newline then content.dropLast else content)

/-- A file to be laid out. -/
structure SourceText where
  /-- The path, as it was given. -/
  path : Bytes
  /-- The bytes. -/
  content : Bytes
  /-- The bytes do not come from a file. -/
  isVirtual : Bool
  deriving DecidableEq, Repr

namespace SourceText

/-- The lines. -/
def lines (t : SourceText) : List Bytes := splitLines t.content

/-- A row; the empty line if there is none. -/
def line (t : SourceText) (row : Nat) : Bytes := t.lines.getD row []

/-- Some line ends with carriage return and newline. -/
def hadCarriageReturns (t : SourceText) : Bool :=
  t.content.contains [Byte.carriageReturn, Byte.newline]

/-- The last line has no newline. -/
def lacksFinalNewline (t : SourceText) : Bool :=
  match t.content.getLast? with
  | none => false
  | some last => last != Byte.newline

/-- The properties as bits: one for a virtual text, two for carriage returns, four for a missing
final newline. -/
def flags (t : SourceText) : Nat :=
  t.isVirtual.toNat + 2 * t.hadCarriageReturns.toNat + 4 * t.lacksFinalNewline.toNat

/-- The digest of the bytes. -/
def hash (t : SourceText) : Bytes := digest t.content

end SourceText

end Allman
