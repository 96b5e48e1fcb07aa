import Allman.Text.Quoted

/-! # Checking that a layout preserves its text

`checkPreserved` compares a text with its layout: they have as many lines, the layout ends every
line, and each of its lines is the given line without some leading spaces and without trailing
white space. It finds the lines on its own, and tells the first difference. -/

namespace Allman

namespace Preserved

/-- How a layout fails to preserve a text. -/
inductive Violation where
  /-- The number of lines changed. -/
  | lineCount (before after : Nat)
  /-- The last line does not end. -/
  | noFinalNewline
  /-- A line still has trailing white space. -/
  | trailing (row : Nat) (after : Bytes)
  /-- A line is not the end of the given one. -/
  | content (row : Nat) (before after : Bytes)
  /-- A line lost more than spaces. -/
  | notSpaces (row : Nat) (before after : Bytes)
  deriving DecidableEq, Repr

namespace Violation

/-- The text of a violation. -/
def message : Violation → Bytes
  | lineCount before after =>
    Bytes.ofString "line count changed: " ++ Bytes.ofNat before ++ Bytes.ofString " -> " ++
      Bytes.ofNat after
  | noFinalNewline => Bytes.ofString "output does not end with a newline"
  | trailing row after =>
    Bytes.ofString "row " ++ Bytes.ofNat row ++ Bytes.ofString ": trailing whitespace kept: " ++
      quoted after
  | content row before after =>
    Bytes.ofString "row " ++ Bytes.ofNat row ++ Bytes.ofString ": content changed: " ++
      quoted before ++ Bytes.ofString " -> " ++ quoted after
  | notSpaces row before after =>
    Bytes.ofString "row " ++ Bytes.ofNat row ++
      Bytes.ofString ": removed more than leading spaces: " ++
      quoted before ++ Bytes.ofString " -> " ++ quoted after

end Violation

/-- The lines of a text: what stands between newlines, after one newline at the end is taken
away. -/
def rows (s : Bytes) : List Bytes :=
  if s = [] then []
  else Bytes.splitOn Byte.newline ((Bytes.cutSuffix? s [Byte.newline]).getD s)

/-- Compares a line with its layout. -/
def checkLine (row : Nat) (line after : Bytes) : Option Violation :=
  let before := line.trimTrailing
  if after ≠ after.trimTrailing then some (.trailing row after)
  else
    match Bytes.cutSuffix? before after with
    | none => some (.content row before after)
    | some removed =>
      if removed.all (· == Byte.space) then none else some (.notSpaces row before after)

/-- Compares lines with their layouts, from a row on. -/
def checkLines : Nat → List (Bytes × Bytes) → Option Violation
  | _, [] => none
  | row, (line, after) :: rest =>
    match checkLine row line after with
    | some violation => some violation
    | none => checkLines (row + 1) rest

end Preserved

open Preserved in
/-- **The first way in which `after` fails to preserve `before`**, if there is one. -/
def checkPreserved (before after : Bytes) : Option Violation :=
  let linesBefore := rows before
  let linesAfter := rows after
  if linesBefore.length ≠ linesAfter.length then
    some (.lineCount linesBefore.length linesAfter.length)
  else if after ≠ [] ∧ after.getLast? ≠ some Byte.newline then some .noFinalNewline
  else checkLines 0 (linesBefore.zip linesAfter)

end Allman
