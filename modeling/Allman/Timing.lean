import Allman.Decimal.Double
import Allman.Diagnostic.Basic
import Allman.Text.Json

/-! # Phase times

A `Timer` records the phases of a run: each has a name, the moment it began, how long it took and a
remark. Moments and durations are in nanoseconds. A duration saturates at the ends of 64 bits, their
sum wraps around, and reports give milliseconds.

A `Clock` is read by whoever times a run: a reading gives the present moment, and the next one comes
later by a fixed step. A `Stopwatch` is a timer that reads such a clock. -/

namespace Allman

/-- One phase of a run. -/
structure Phase where
  /-- The name. -/
  name : Bytes
  /-- When it began. -/
  start : Int
  /-- How long it took; zero until it ends. -/
  duration : Int
  /-- A remark made when it ended. -/
  note : Bytes
  deriving DecidableEq, Repr

/-- The phases of a run, in the order they began. -/
structure Timer where
  /-- The phases. -/
  phases : List Phase
  deriving DecidableEq, Repr

/-- One line of a report. -/
structure PhaseReport where
  /-- The name of the phase. -/
  name : Bytes
  /-- Its duration in milliseconds. -/
  millis : Double
  /-- Its remark. -/
  note : Bytes
  deriving DecidableEq, Repr

/-- What a timer recorded. -/
structure TimeReport where
  /-- All durations together, in milliseconds. -/
  total : Double
  /-- The phases. -/
  phases : List PhaseReport
  deriving DecidableEq, Repr

/-- A clock that moves by the same step at each reading. -/
structure Clock where
  /-- The present moment. -/
  now : Int
  /-- The step. -/
  tick : Int
  deriving DecidableEq, Repr

/-- A timer and the clock it reads. -/
structure Stopwatch where
  /-- The clock. -/
  clock : Clock
  /-- The phases so far. -/
  timer : Timer
  deriving DecidableEq, Repr

namespace Clock

/-- The clock after a reading. -/
def next (c : Clock) : Clock := { c with now := c.now + c.tick }

end Clock

namespace Timer

/-- No phase yet. -/
def empty : Timer := ⟨[]⟩

/-- The longest duration. -/
def maxDuration : Int := 0x7FFFFFFFFFFFFFFF

/-- The time from one moment to another, kept in 64 bits. -/
def elapsed (start now : Int) : Int := max (-maxDuration - 1) (min maxDuration (now - start))

/-- Begins a phase. Its index is the number of phases before it. -/
def begin (t : Timer) (now : Int) (name : Bytes) : Timer := ⟨t.phases ++ [⟨name, now, 0, []⟩]⟩

/-- Ends a phase by its index; an index of no phase is ignored. -/
def finish (t : Timer) (now : Int) (index : Int) (note : Bytes) : Timer :=
  if index < 0 then t
  else
    ⟨t.phases.modify index.toNat fun p => { p with duration := elapsed p.start now, note := note }⟩

/-- A duration in milliseconds. -/
def toMillis (d : Int) : Double := (Double.ofInt d).divNat 1000000

/-- All durations together. -/
def sum (t : Timer) : Int := t.phases.foldl (fun sum p => sum + p.duration) 0

/-- What was recorded. -/
def report (t : Timer) : TimeReport :=
  { total := toMillis (Int.bmod t.sum 0x10000000000000000)
    phases := t.phases.map fun p => ⟨p.name, toMillis p.duration, p.note⟩ }

end Timer

namespace Stopwatch

/-- A stopwatch at moment zero, whose clock moves by `tick`. -/
def ofTick (tick : Int) : Stopwatch := ⟨⟨0, tick⟩, .empty⟩

/-- Times a phase: one reading when it begins and one when it ends. -/
def phase (w : Stopwatch) (name : String) : Stopwatch :=
  let started := w.timer.begin w.clock.now name
  let ended := w.clock.next
  ⟨ended.next, started.finish ended.now w.timer.phases.length []⟩

/-- Times phases one after the other. -/
def phases (w : Stopwatch) (names : List String) : Stopwatch := names.foldl phase w

/-- What was recorded. -/
def report (w : Stopwatch) : TimeReport := w.timer.report

end Stopwatch

namespace TimeReport

/-- The report of a run that was not timed. -/
def empty : TimeReport := ⟨.zero, []⟩

/-- A name in a column of twelve characters, and a time with three places in one of seven. -/
def row (name : Bytes) (millis : Double) : Bytes :=
  Bytes.ofString "  " ++ name ++ List.replicate (12 - (Rune.decode name).length) Byte.space ++
    Bytes.ofString " " ++ Bytes.padLeft 7 Byte.space (millis.fixed 3) ++ Bytes.ofString " ms"

/-- **The report as a table.** -/
def summary (r : TimeReport) : Bytes :=
  Bytes.ofString "timings:\n" ++
    (r.phases.flatMap fun p =>
      row p.name p.millis ++ (if p.note = [] then [] else Bytes.ofString "  // " ++ p.note) ++
        [Byte.newline]) ++
    row (Bytes.ofString "total") r.total ++ [Byte.newline]

/-- Times in documents: the shortest digits, with a power of ten below a millionth and from `10 ^
21` on. -/
def millisFormat : Double.Format := ⟨-6, 21⟩

/-- A time in a document. -/
def millisJson (x : Double) : Json := .number (x.toText millisFormat)

/-- A phase in a document; an empty remark is left out. -/
def phaseJson (p : PhaseReport) : Json :=
  .object (
    [("name", .text p.name), ("duration_ms", millisJson p.millis)] ++
      if p.note = [] then [] else [("note", .text p.note)])

/-- The report as a document: what was timed, its path unless that is empty, and the times. -/
def document (r : TimeReport) (kind path : Bytes) : Json :=
  .object (
    [("kind", .text kind)] ++ (if path = [] then [] else [("path", .text path)]) ++
      [("total_ms", millisJson r.total), ("phases", .list (r.phases.map phaseJson))])

/-- What is timed when nothing is said. -/
def defaultKind : Bytes := Bytes.ofString "file"

/-- **The report as a diagnostic**: the total in its message, the document in its only remark. -/
def diagnostic (r : TimeReport) (kind path : Bytes) : Diagnostic :=
  let kind := if kind = [] then defaultKind else kind
  let message :=
    Bytes.ofString "timings (" ++ kind ++ Bytes.ofString "): total " ++ r.total.fixed 2 ++
      Bytes.ofString " ms" ++ (if path = [] then [] else Bytes.ofString ", " ++ path)
  { severity := .info, code := .timings, message, position := ⟨0, 0⟩,
    notes := [⟨⟨0, 0⟩, (r.document kind path).compact⟩] }

end TimeReport

end Allman
