import Allman.Layout
import Allman.Mask
import Allman.SourceText
import Allman.Timing

/-! # Reformatting a text

Masking and moving braces, put together: `reformat` takes the lines of a text to the lines of its
layout, and `render` writes lines out, each without trailing white space and with a newline. -/

namespace Allman

/-- Writes lines out. -/
def render (lines : List Bytes) : Bytes :=
  lines.flatMap fun line => line.trimTrailing ++ [Byte.newline]

/-- Moves the hanging braces of unmasked lines. -/
def layout (lines : List Bytes) : Layout.Result := Layout.run lines (maskLines lines)

/-- What reformatting a text gives. -/
structure Reformatted where
  /-- The layout of the lines. -/
  layout : Layout.Result
  /-- The text that is written out. -/
  output : Bytes
  /-- It differs from what was given. -/
  changed : Bool
  deriving DecidableEq, Repr

namespace Reformatted

/-- The number of brackets nothing closed. -/
def unclosed (r : Reformatted) : Nat := r.layout.leftover.length

end Reformatted

/-- **Reformats a text.** -/
def reformat (content : Bytes) : Reformatted :=
  let result := layout (splitLines content)
  let output := render result.lines
  ⟨result, output, output != content⟩

/-- A reformatter works once. It may be timed. -/
structure Reformatter where
  /-- It did its work. -/
  used : Bool
  /-- What times it. -/
  watch : Option Stopwatch
  deriving DecidableEq, Repr

namespace Reformatter

/-- A reformatter that has not worked yet. -/
def fresh (watch : Option Stopwatch) : Reformatter := ⟨false, watch⟩

/-- The phases of reformatting. -/
def phases : List String := ["sanitize", "indent"]

/-- The text of the error for a second use. -/
def reusedMessage : String := "reindent: reformatter already used"

/-- Does the work on first use, and nothing afterwards. -/
def use {α : Type} (r : Reformatter) (work : Unit → α) : Option α × Reformatter :=
  if r.used then (none, r) else (some (work ()), ⟨true, r.watch.map (·.phases phases)⟩)

end Reformatter

end Allman
