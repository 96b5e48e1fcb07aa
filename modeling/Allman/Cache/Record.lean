import Allman.Diagnostic.Basic
import Allman.MessagePack

/-! # What the cache keeps of a run

A `CacheRecord` is the outcome of laying out one text: the lines, the rows that moved, how many
brackets nothing closed, and the diagnostics. `encode` writes it to bytes and `decode?` reads it
back. A record carries the number of the form it was written in, so that a later form is not taken
for this one. -/

namespace Allman

/-- The outcome of laying out one text, as it is kept. -/
structure CacheRecord where
  /-- The number of the form. -/
  schema : Nat
  /-- The lines, or none. -/
  lines : Option (List Bytes)
  /-- The rows whose indentation changed, or none. -/
  adjusted : Option (List Int)
  /-- The number of brackets nothing closed. -/
  unclosed : Int
  /-- The diagnostics, in order. -/
  diagnostics : List Diagnostic
  deriving DecidableEq, Repr

namespace CacheRecord

open MessagePack

/-- The present form. -/
def currentSchema : Nat := 1

/-- A record of nothing. -/
def blank : CacheRecord := ⟨0, none, none, 0, []⟩

/-! ### Writing -/

/-- A list, or nothing in its place. -/
def writeOptionalList {α : Type} (write : α → Bytes) : Option (List α) → Bytes
  | none => nothing
  | some l => writeList write l

/-- A list, where nothing stands for the empty one. -/
def writeNonemptyList {α : Type} (write : α → Bytes) (l : List α) : Bytes :=
  if l.isEmpty then nothing else writeList write l

/-- A remark. -/
def writeNote (n : Note) : Bytes :=
  writeRecord [("msg", writeText n.message), ("row", writeWord n.position.row),
    ("col", writeWord n.position.col)]

/-- A diagnostic; it has no field for remarks when there are none. -/
def writeDiagnostic (d : Diagnostic) : Bytes :=
  writeRecord (
    [("sev", writeByte d.severity.rank.toNat), ("code", writeShort d.code.number.toNat),
      ("msg", writeText d.message), ("row", writeWord d.position.row),
      ("col", writeWord d.position.col)] ++
    if d.notes.isEmpty then [] else [("notes", writeList writeNote d.notes)])

/-- **The record as bytes.** -/
def encode (r : CacheRecord) : Bytes :=
  writeRecord
    [("schema", writeShort r.schema), ("lines", writeOptionalList writeText r.lines),
      ("adjusted", writeOptionalList writeInt r.adjusted), ("unclosed", writeInt r.unclosed),
      ("diagnostics", writeNonemptyList writeDiagnostic r.diagnostics)]

/-! ### Reading -/

/-- The fields of a remark. -/
def noteFields : List (RecordField Note) :=
  [⟨"msg", fun n => do return { n with message := ← readText }⟩,
    ⟨"row", fun n => do return { n with position := { n.position with row := ← readField 4 } }⟩,
    ⟨"col", fun n => do return { n with position := { n.position with col := ← readField 4 } }⟩]

/-- What is read of a diagnostic. -/
structure DiagnosticParts where
  /-- The diagnostic without its remarks. -/
  head : Diagnostic
  /-- The remarks. -/
  notes : Slots Note
  deriving DecidableEq, Repr

/-- Nothing of a diagnostic. -/
def DiagnosticParts.blank : DiagnosticParts := ⟨default, .empty⟩

/-- The diagnostic with its remarks. -/
def DiagnosticParts.whole (p : DiagnosticParts) : Diagnostic :=
  { p.head with notes := p.notes.items }

/-- Changes a diagnostic and leaves its remarks. -/
def DiagnosticParts.withHead (p : DiagnosticParts) (f : Diagnostic → Diagnostic) :
    DiagnosticParts := { p with head := f p.head }

/-- The fields of a diagnostic. -/
def diagnosticFields : List (RecordField DiagnosticParts) :=
  [⟨"sev", fun p => do
      let rank ← readField 1
      return p.withHead fun d => { d with severity := ⟨UInt8.ofNat rank⟩ }⟩,
    ⟨"code", fun p => do
      let number ← readField 2
      return p.withHead fun d => { d with code := ⟨UInt16.ofNat number⟩ }⟩,
    ⟨"msg", fun p => do
      let message ← readText
      return p.withHead fun d => { d with message := message }⟩,
    ⟨"row", fun p => do
      let row ← readField 4
      return p.withHead fun d => { d with position := { d.position with row := row } }⟩,
    ⟨"col", fun p => do
      let col ← readField 4
      return p.withHead fun d => { d with position := { d.position with col := col } }⟩,
    ⟨"notes", fun p => do
      return { p with notes := ← readSlots (readRecord noteFields default) default p.notes }⟩]

/-- What is read of a record. -/
structure Parts where
  /-- The record without its diagnostics. -/
  head : CacheRecord
  /-- The diagnostics. -/
  diagnostics : Slots DiagnosticParts
  deriving DecidableEq, Repr

/-- Nothing of a record. -/
def Parts.blank : Parts := ⟨CacheRecord.blank, .empty⟩

/-- The record with its diagnostics. -/
def Parts.whole (p : Parts) : CacheRecord :=
  { p.head with diagnostics := p.diagnostics.items.map DiagnosticParts.whole }

/-- Changes a record and leaves its diagnostics. -/
def Parts.withHead (p : Parts) (f : CacheRecord → CacheRecord) : Parts :=
  { p with head := f p.head }

/-- The fields of a record. Lines that come again as nothing stay what they were. -/
def fields : List (RecordField Parts) :=
  [⟨"schema", fun p => do
      let schema ← readField 2
      return p.withHead fun r => { r with schema := schema }⟩,
    ⟨"lines", fun p => do
      let lines ← readList readText
      return p.withHead fun r => { r with lines := lines.or r.lines }⟩,
    ⟨"adjusted", fun p => do
      let adjusted ← readList readInt64
      return p.withHead fun r => { r with adjusted := adjusted }⟩,
    ⟨"unclosed", fun p => do
      let unclosed ← readInt64
      return p.withHead fun r => { r with unclosed := unclosed }⟩,
    ⟨"diagnostics", fun p => do
      return { p with
        diagnostics :=
          ← readSlots (readRecord diagnosticFields .blank) .blank p.diagnostics }⟩]

/-- **The record that bytes stand for.** Bytes after it are ignored. -/
def decode? (s : Bytes) : Option CacheRecord :=
  ((readRecord fields .blank .blank).run s).map fun (parts, _) => parts.whole

end CacheRecord

end Allman
