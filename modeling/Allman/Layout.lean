import Allman.Bracket
import Allman.Diagnostic.Basic
import Allman.Unicode.Space

/-! # Moving hanging braces

A brace *hangs* when it stands deeper than the statement that controls it. `Layout.run` reads
masked lines from top to bottom, pairs brackets by a stack and moves every pair of hanging braces
back to the column of its statement: it strips leading spaces from the two rows and changes
nothing else.

* A closing bracket takes the innermost open one. If that is missing or of another kind, this is
  reported, and the open bracket is lost. What is still open after the last row is reported too.
* A pair of braces is moved by the distance between the opening brace and the indentation of its
  statement, if that is at least `unit` and both braces have only spaces before them.
* The indentation of the current statement is that of the row that started it. A row starts a
  statement when the code row before it ended one and no parenthesis or square bracket is open
  inside the innermost brace. It counts as it will stand after the move.
* Columns are always those of the given lines, and a row is moved at most once. -/

namespace Allman

namespace Layout

/-- A brace is moved when it stands at least this much deeper than its statement. -/
def unit : Nat := 2

/-- What a pass over the lines knows between two bytes. -/
structure Pass where
  /-- The open brackets. -/
  stack : Stack Nat
  /-- The indentation of the current statement. -/
  indent : Nat
  /-- The next row of code starts a statement. -/
  fresh : Bool
  /-- How far each row is to be moved. -/
  dedent : List Nat
  /-- What was found wrong, the latest first. -/
  found : List Diagnostic

namespace Pass

/-- The state before the first of `rows` rows. -/
def start (rows : Nat) : Pass := ⟨.empty, 0, true, List.replicate rows 0, []⟩

/-- Records a finding. -/
def report (p : Pass) (d : Diagnostic) : Pass := { p with found := d :: p.found }

/-- Moves a row, unless it is moved already. -/
def move (p : Pass) (row distance : Nat) : Pass :=
  { p with dedent := p.dedent.modify row fun n => if n = 0 then distance else n }

end Pass

/-! ### Findings -/

/-- The finding for a closing bracket that does not fit what it took. -/
def mismatched (row col : Nat) (closer : UInt8) (taken : Option (Entry Nat)) : Diagnostic :=
  let d := Diagnostic.warning .mismatched ⟨row, col⟩ ("mismatched '" ++ [closer] ++ "'")
  match taken with
  | none => d
  | some e => d.withNote ⟨e.row, e.col⟩ ("'" ++ [e.opener] ++ "' opened here")

/-- The finding for an opening bracket that nothing closed. -/
def unclosed (e : Entry Nat) : Diagnostic :=
  Diagnostic.warning .unclosed ⟨e.row, e.col⟩ ("unclosed '" ++ [e.opener] ++ "'")

/-! ### Rows -/

/-- The masked row holds code: it is not blank and no preprocessor line. -/
def isCode (masked : Bytes) : Bool :=
  match masked.firstCode? with
  | none => false
  | some b => b != Byte.hash

/-- The masked row ends a statement: it ends in a semicolon, a brace, or a colon that is not the
second of two. -/
def endsStatement (masked : Bytes) : Bool :=
  match masked.trimTrailing.reverse with
  | [] => false
  | last :: before =>
    last == Byte.semicolon || last == Byte.openBrace || last == Byte.closeBrace ||
      (last == Byte.colon && before.head? != some Byte.colon)

/-! ### The pass -/

/-- The pair of braces hangs and is to be moved. -/
def hangs (lines : List Bytes) (e : Entry Nat) (row col : Nat) : Bool :=
  e.opener == Byte.openBrace && unit ≤ e.col - e.indent &&
    Bytes.blankBefore (lines.getD row []) col && Bytes.blankBefore (lines.getD e.row []) e.col

/-- A closing bracket takes the innermost open one. -/
def Pass.close (lines : List Bytes) (row col : Nat) (closer opener : UInt8) (p : Pass) : Pass :=
  match p.stack.pop with
  | (none, _) => p.report (mismatched row col closer none)
  | (some e, rest) =>
    let q : Pass := { p with stack := rest }
    if e.opener ≠ opener then q.report (mismatched row col closer (some e))
    else if hangs lines e row col then
      (q.move e.row (e.col - e.indent)).move row (e.col - e.indent)
    else q

/-- Reads one byte of a masked row. -/
def Pass.byte (lines : List Bytes) (row col : Nat) (b : UInt8) (p : Pass) : Pass :=
  if Bracket.isOpener b then { p with stack := p.stack.push ⟨b, row, col, p.indent⟩ }
  else
    match Bracket.openerOf? b with
    | some opener => p.close lines row col b opener
    | none => p

/-- Reads the bytes of a masked row from column `col` on. -/
def Pass.bytes (lines : List Bytes) (row : Nat) : Nat → Bytes → Pass → Pass
  | _, [], p => p
  | col, b :: rest, p => Pass.bytes lines row (col + 1) rest (p.byte lines row col b)

/-- Reads a masked row. -/
def Pass.row (lines : List Bytes) (row : Nat) (masked : Bytes) (p : Pass) : Pass :=
  let q := Pass.bytes lines row 0 masked p
  if isCode masked then
    let starts := p.fresh && p.stack.groupDepth == 0
    { q with
      indent :=
        if starts then Bytes.leadingSpaces (lines.getD row []) - q.dedent.getD row 0 else q.indent
      fresh := endsStatement masked }
  else q

/-- Reads masked rows from row `row` on. -/
def Pass.rows (lines : List Bytes) : Nat → List Bytes → Pass → Pass
  | _, [], p => p
  | row, masked :: rest, p => Pass.rows lines (row + 1) rest (p.row lines row masked)

/-- What a pass gives. -/
structure Result where
  /-- The lines after the moves. -/
  lines : List Bytes
  /-- The rows that were moved, in order. -/
  adjusted : List Nat
  /-- The brackets nothing closed, the outermost first. -/
  leftover : List (Entry Nat)
  /-- What was found wrong, in the order of finding. -/
  diagnostics : List Diagnostic
  deriving DecidableEq, Repr

/-- The number of spaces that are stripped from each line: never more than it starts with. -/
def strips (lines : List Bytes) (dedent : List Nat) : List Nat :=
  List.zipWith (fun line n => min n line.leadingSpaces) lines dedent

/-- **Moves hanging braces.** The masked lines need not fit the lines: rows beyond the last line are
not read. -/
def run (lines masked : List Bytes) : Result :=
  let p := Pass.rows lines 0 (masked.take lines.length) (.start lines.length)
  let stripped := strips lines p.dedent
  { lines := List.zipWith (fun line n => line.drop n) lines stripped
    adjusted := stripped.zipIdx.filterMap fun (n, row) => if n = 0 then none else some row
    leftover := p.stack.toList
    diagnostics := p.found.reverse ++ p.stack.toList.map unclosed }

end Layout

end Allman
