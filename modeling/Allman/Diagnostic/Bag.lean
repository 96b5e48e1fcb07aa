import Allman.Diagnostic.Basic

/-! # Collecting diagnostics

A `Bag` keeps diagnostics in the order they came, up to a limit, and counts those it had to drop. A
`Filter` in front of a bag lets every diagnostic through once. A `Draft` is a diagnostic that is put
together in steps and then sent, at most once. -/

namespace Allman

/-- Collected diagnostics. -/
structure Bag where
  /-- What was kept, in order. -/
  items : List Diagnostic
  /-- How many may be kept; none is no limit. -/
  limit : Option Nat
  /-- How many were dropped. -/
  dropped : Nat
  deriving DecidableEq, Repr

namespace Bag

/-- The limit of a bag for which no usable limit was asked. -/
def defaultLimit : Nat := 256

/-- The number of diagnostics kept when `max` is asked for: a limit that is not positive or does not
fit in 16 bits is replaced by the default. -/
def capacity (max : Int) : Nat := if 1 ≤ max ∧ max ≤ 65535 then max.toNat else defaultLimit

/-- An empty bag for at most `max` diagnostics. -/
def ofMax (max : Int) : Bag := ⟨[], some (capacity max), 0⟩

/-- An empty bag without a limit. -/
def unlimited : Bag := ⟨[], none, 0⟩

/-- There is room for one more. -/
def hasRoom (b : Bag) : Bool :=
  match b.limit with
  | none => true
  | some n => b.items.length < n

/-- Keeps a diagnostic whatever the limit is. -/
def force (b : Bag) (d : Diagnostic) : Bag := { b with items := b.items ++ [d] }

/-- Keeps a diagnostic if there is room, and counts it as dropped otherwise. -/
def add (b : Bag) (d : Diagnostic) : Bag :=
  if b.hasRoom then b.force d else { b with dropped := b.dropped + 1 }

/-- Adds diagnostics in order. -/
def addAll (b : Bag) (ds : List Diagnostic) : Bag := ds.foldl add b

/-- The number of diagnostics kept. -/
def size (b : Bag) : Nat := b.items.length

/-- Some diagnostic is at least an error. -/
def hasErrors (b : Bag) : Bool := b.items.any fun d => Severity.error.rank ≤ d.severity.rank

/-- Some diagnostic is at least a warning. -/
def hasWarnings (b : Bag) : Bool := b.items.any fun d => Severity.warning.rank ≤ d.severity.rank

/-- The bag with its diagnostics in the order in which they are shown. Diagnostics that the order
does not tell apart stay as they came. -/
def sort (b : Bag) : Bag := { b with items := b.items.mergeSort Diagnostic.le }

end Bag

/-- What two diagnostics are compared by: everything but their remarks. -/
structure Fingerprint where
  /-- The position. -/
  position : Position
  /-- The code. -/
  code : Code
  /-- The severity. -/
  severity : Severity
  /-- The message. -/
  message : Bytes
  deriving DecidableEq, Repr

/-- Lets each diagnostic through once: two count as the same when their fingerprints agree. -/
structure Filter where
  /-- The fingerprints of what came before. -/
  seen : List Fingerprint
  deriving DecidableEq, Repr

namespace Filter

/-- A filter that has seen nothing. -/
def empty : Filter := ⟨[]⟩

/-- The fingerprint of a diagnostic. -/
def key (d : Diagnostic) : Fingerprint := ⟨d.position, d.code, d.severity, d.message⟩

/-- The diagnostic is new. -/
def isNew (f : Filter) (d : Diagnostic) : Bool := !f.seen.contains (key d)

/-- The filter after a diagnostic. -/
def note (f : Filter) (d : Diagnostic) : Filter := if f.isNew d then ⟨key d :: f.seen⟩ else f

/-- What a filter lets through of a list of diagnostics. -/
def through : Filter → List Diagnostic → List Diagnostic
  | _, [] => []
  | f, d :: ds => if f.isNew d then d :: through (f.note d) ds else through f ds

end Filter

/-- A diagnostic that is being put together. -/
structure Draft where
  /-- What it says so far. -/
  diagnostic : Diagnostic
  /-- Nobody listens: sending it has no effect. -/
  muted : Bool
  /-- It was sent. -/
  sent : Bool
  deriving DecidableEq, Repr

namespace Draft

/-- A draft of a diagnostic without remarks. -/
def start (muted : Bool) (d : Diagnostic) : Draft := ⟨{ d with notes := [] }, muted, false⟩

/-- Adds a remark. -/
def withNote (draft : Draft) (position : Position) (message : Bytes) : Draft :=
  { draft with diagnostic := draft.diagnostic.withNote position message }

/-- Sends the draft to a bag, unless it was sent before. -/
def emit (draft : Draft) (bag : Bag) : Draft × Bag :=
  if draft.sent then (draft, bag)
  else ({ draft with sent := true }, if draft.muted then bag else bag.add draft.diagnostic)

end Draft

end Allman
