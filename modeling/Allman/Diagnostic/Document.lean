import Allman.Diagnostic.Basic
import Allman.Text.Json

/-! # Diagnostics for programs

Diagnostics as a JSON document: a list with one object for each, and their number. -/

namespace Allman

namespace Document

/-- What goes into a document. -/
structure Options where
  /-- With remarks. -/
  notes : Bool
  /-- At most this many diagnostics; all of them when it is not positive. -/
  max : Int
  deriving DecidableEq, Repr

/-- A number. -/
def nat (n : Nat) : Json := .number (Bytes.ofNat n)

/-- A place in a file. -/
def location (path : Bytes) (p : Position) : Json :=
  .object [("file", .text path), ("row", nat p.row), ("col", nat p.col)]

/-- A remark. -/
def note (path : Bytes) (n : Note) : Json :=
  .object [("message", .text n.message), ("location", location path n.position)]

/-- A diagnostic; the field for remarks is left out when there are none. -/
def entry (path : Bytes) (withNotes : Bool) (d : Diagnostic) : Json :=
  .object (
    [("severity", .text d.severity.label), ("code", .text d.code.id), ("message", .text d.message),
      ("location", location path d.position)] ++
    if withNotes ∧ d.notes ≠ [] then [("notes", Json.list (d.notes.map (note path)))] else [])

/-- The diagnostics that go into the document. -/
def shown (opts : Options) (ds : List Diagnostic) : List Diagnostic :=
  if 0 < opts.max then ds.take opts.max.toNat else ds

end Document

/-- **Diagnostics as a document.** -/
def document (path : Bytes) (opts : Document.Options) (ds : List Diagnostic) : Json :=
  let shown := Document.shown opts ds
  .object [("diagnostics", .list (shown.map (Document.entry path opts.notes))),
    ("count", Document.nat shown.length)]

end Allman
