import Allman.Bytes

/-! # Output that may fail

A `Sink` takes texts until its room for writes is used up; from then on every write fails and leaves
it as it is. -/

namespace Allman

/-- Where output goes. -/
structure Sink where
  /-- What was written so far. -/
  written : Bytes
  /-- How many more writes succeed; none is any number. -/
  room : Option Nat
  deriving DecidableEq, Repr

namespace Sink

/-- Nothing written yet. -/
def ofRoom (room : Option Nat) : Sink := ⟨[], room⟩

/-- The text of the error of a failed write. -/
def failureMessage : String := "injected write"

/-- Writes a text: tells whether that succeeded. -/
def write (s : Sink) (text : Bytes) : Bool × Sink :=
  match s.room with
  | none => (true, { s with written := s.written ++ text })
  | some 0 => (false, s)
  | some (n + 1) => (true, ⟨s.written ++ text, some n⟩)

/-- Writes texts until one fails. -/
def writeAll (s : Sink) : List Bytes → Bool × Sink
  | [] => (true, s)
  | text :: rest =>
    match s.write text with
    | (true, s) => s.writeAll rest
    | (false, s) => (false, s)

/-- Writes a text whether or not that succeeds. -/
def tryWrite (s : Sink) (text : Bytes) : Sink := (s.write text).2

end Sink

end Allman
