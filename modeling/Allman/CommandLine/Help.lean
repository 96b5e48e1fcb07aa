import Allman.CommandLine.Flag

/-! # Help

What the program says about itself: what it does, how it is called, and its flags in a table. -/

namespace Allman

namespace Help

/-- What the program does. -/
def introduction : String :=
  "reindent moves hanging \x7b/\x7d pairs back to the column of the statement\n" ++
  "that controls them. Only leading spaces of brace lines change; comments and\n" ++
  "string or character literals are never touched."

/-- What is said when there is not exactly one file. -/
def usage : String :=
  "Please provide a single file to re-indent.\nThe output is written to stdout.\n"

/-- The name of the values of a kind. -/
def kindName : FlagKind → String
  | .truth => ""
  | .number => " int"
  | .text => " string"

/-- Letter, name and kind of a flag at the start of its row. -/
def rowStart (f : Flag) : Bytes :=
  (match f.letter? with
    | some letter => Bytes.ofString "  -" ++ letter :: Bytes.ofString ", --"
    | none => Bytes.ofString "      --") ++
    Bytes.ofString f.name ++ Bytes.ofString (kindName f.kind)

/-- The width of the first column: three more than the longest of its texts. -/
def columnWidth : Nat := (Flag.all.map fun f => (rowStart f).length).foldl max 0 + 3

/-- The row of a flag. -/
def row (f : Flag) : Bytes :=
  let start := rowStart f
  start ++ List.replicate (columnWidth - start.length) Byte.space ++ Bytes.ofString f.purpose ++
    [Byte.newline]

/-- How the program is called, and its flags. -/
def synopsis : Bytes :=
  Bytes.ofString "Usage:\n  reindent [flags] <file>\n\nFlags:\n" ++ Flag.all.flatMap row

/-- The help, in the pieces in which it is written. -/
def pieces : List Bytes := [Bytes.ofString introduction ++ [Byte.newline], [Byte.newline], synopsis]

end Help

end Allman
