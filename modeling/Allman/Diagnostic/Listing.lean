import Allman.Diagnostic.Basic
import Allman.SourceText
import Allman.Style
import Allman.Unicode.Width

/-! # Diagnostics for people

Each diagnostic is a line `path:row: message`. On request it is followed by the line it is about
with a caret under its column, and by its remarks in the same form. A listing is a list of texts,
each of which is written in one piece. -/

namespace Allman

namespace Listing

/-- How a listing looks. -/
structure Options where
  /-- With colours. -/
  color : Bool
  /-- With source lines, carets and remarks. -/
  context : Bool
  deriving DecidableEq, Repr

/-- The style of a message. -/
def severityStyle (s : Severity) : Style :=
  if s = .error then Style.red.bolder else if s = .warning then Style.yellow else Style.cyan

def pathStyle : Style := Style.bold
def noteStyle : Style := Style.blue
def caretStyle : Style := Style.green.bolder

/-- White space as wide as a rune, by a table of widths; a tab stays a tab, so that it reaches the
same column. -/
def padRune (width : Nat → Nat) (r : Rune) : Bytes :=
  if r.code = Byte.tab.toNat then [Byte.tab] else List.replicate (width r.code) Byte.space

/-- **White space as wide on the screen as the first `col` bytes of a line**, where a code point
takes as many columns as the table says. -/
def caretPad (width : Nat → Nat) (line : Bytes) (col : Nat) : Bytes :=
  (Rune.decode (line.take col)).flatMap (padRune width)

/-- A line without carriage returns at its end. -/
def withoutReturns (line : Bytes) : Bytes :=
  (line.reverse.dropWhile (· == Byte.carriageReturn)).reverse

/-- The source line of a position and a caret under its column, if there is such a line. -/
def excerpt (text : Option SourceText) (p : Position) (color : Bool) (style : Style) : List Bytes :=
  match text.bind fun t => t.lines[p.row]? with
  | none => []
  | some line =>
    let line := withoutReturns line
    [Bytes.ofString "  " ++ line ++ Bytes.ofString "\n  " ++
      caretPad Rune.widthOf line p.col ++ style.paint color (Bytes.ofString "^") ++ [Byte.newline]]

/-- A path and a row at the start of a line. -/
def place (path : Bytes) (row : Nat) (color : Bool) : Bytes :=
  pathStyle.paint color path ++ Byte.colon :: Bytes.ofNat row ++ Bytes.ofString ": "

/-- A remark and its source line. -/
def note (path : Bytes) (text : Option SourceText) (color : Bool) (n : Note) : List Bytes :=
  (place path n.position.row color ++ noteStyle.paint color (Bytes.ofString "note:") ++
      Byte.space :: n.message ++ [Byte.newline]) ::
    excerpt text n.position color noteStyle

/-- A diagnostic. -/
def entry (path : Bytes) (text : Option SourceText) (opts : Options) (d : Diagnostic) :
    List Bytes :=
  let header :=
    place path d.position.row opts.color ++ (severityStyle d.severity).paint opts.color d.message ++
      [Byte.newline]
  if opts.context then
    header :: (excerpt text d.position opts.color caretStyle ++
      d.notes.flatMap (note path text opts.color))
  else [header]

end Listing

/-- **A listing of diagnostics**, in pieces that are written one by one. -/
def listing (path : Bytes) (text : Option SourceText) (opts : Listing.Options)
    (ds : List Diagnostic) : List Bytes :=
  ds.flatMap (Listing.entry path text opts)

end Allman
