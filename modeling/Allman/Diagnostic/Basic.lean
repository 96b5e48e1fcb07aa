import Allman.Bytes

/-! # Diagnostics

A diagnostic says what is wrong, how serious it is and where. Severities and codes are small
numbers, of which only some have a name: a number without a name keeps its place in every order
and comes back unchanged from a cache. -/

namespace Allman

/-- A place in a text: row and column, both counted from zero. -/
structure Position where
  /-- The row. -/
  row : Nat
  /-- The column, in bytes. -/
  col : Nat
  deriving DecidableEq, Repr, Inhabited

/-- Why two numbers are no position. -/
inductive PositionError where
  /-- The row does not fit in 32 bits. -/
  | row
  /-- The column does not fit in 32 bits. -/
  | column
  deriving DecidableEq, Repr

namespace PositionError

/-- The text of a position error. -/
def message : PositionError → String
  | row => "row overflow: out of range"
  | column => "column overflow: out of range"

end PositionError

namespace Position

/-- Rows and columns are below this bound. -/
def bound : Nat := 0x100000000

/-- The position with the given row and column; both must fit in 32 bits, and the row is looked at
first. -/
def ofInts (row col : Int) : Except PositionError Position :=
  if row < 0 ∨ (bound : Int) ≤ row then .error .row
  else if col < 0 ∨ (bound : Int) ≤ col then .error .column
  else .ok ⟨row.toNat, col.toNat⟩

/-- The position as `row:col`. -/
def toBytes (p : Position) : Bytes := Bytes.ofNat p.row ++ Byte.colon :: Bytes.ofNat p.col

/-- The row counted from one, in 32 bits. -/
def line (p : Position) : Nat := (p.row + 1) % bound

/-- The column counted from one, in 32 bits. -/
def column (p : Position) : Nat := (p.col + 1) % bound

end Position

/-- How serious a diagnostic is. A higher rank is more serious. -/
structure Severity where
  /-- The rank. -/
  rank : UInt8
  deriving DecidableEq, Repr, Inhabited

namespace Severity

/-- For information only. -/
def info : Severity := ⟨0⟩

/-- A finding; output is produced all the same. -/
def warning : Severity := ⟨1⟩

/-- An error. -/
def error : Severity := ⟨2⟩

/-- The name in capitals. -/
def name (s : Severity) : String :=
  if s = info then "INFO" else if s = warning then "WARNING" else if s = error then "ERROR"
  else "UNKNOWN"

/-- The name for documents that programs read: what is neither a warning nor an error is
information. -/
def label (s : Severity) : String :=
  if s = error then "error" else if s = warning then "warning" else "info"

end Severity

/-- What kind of thing a diagnostic reports. -/
structure Code where
  /-- The number. -/
  number : UInt16
  deriving DecidableEq, Repr, Inhabited

namespace Code

/-- A closing bracket without its opening one. -/
def mismatched : Code := ⟨1001⟩

/-- An opening bracket that is never closed. -/
def unclosed : Code := ⟨1002⟩

/-- The result cache could not be read or written. -/
def cacheFailure : Code := ⟨4002⟩

/-- A report of times. -/
def timings : Code := ⟨6001⟩

/-- The identifier: letters for the thousand the number lies in, and the number. -/
def id (c : Code) : String :=
  let n := c.number.toNat
  if 1000 ≤ n ∧ n < 2000 then s!"BRK{n}"
  else if 4000 ≤ n ∧ n < 5000 then s!"IO{n}"
  else if 6000 ≤ n ∧ n < 7000 then s!"OBS{n}"
  else "E0000"

/-- The title. -/
def title (c : Code) : String :=
  if c = mismatched then "Mismatched bracket"
  else if c = unclosed then "Unclosed bracket"
  else if c = cacheFailure then "Result cache error"
  else if c = timings then "Observability timings"
  else "Unknown error"

/-- Identifier and title. -/
def describe (c : Code) : String := s!"[{c.id}]: {c.title}"

end Code

/-- A remark that belongs to a diagnostic. -/
structure Note where
  /-- Where. -/
  position : Position
  /-- What. -/
  message : Bytes
  deriving DecidableEq, Repr, Inhabited

/-- A diagnostic. -/
structure Diagnostic where
  /-- How serious it is. -/
  severity : Severity
  /-- What kind it is of. -/
  code : Code
  /-- What it says. -/
  message : Bytes
  /-- Where it is. -/
  position : Position
  /-- Its remarks, in order. -/
  notes : List Note
  deriving DecidableEq, Repr, Inhabited

namespace Diagnostic

/-- A warning without remarks. -/
def warning (code : Code) (position : Position) (message : Bytes) : Diagnostic :=
  ⟨.warning, code, message, position, []⟩

/-- The diagnostic with one more remark. -/
def withNote (d : Diagnostic) (position : Position) (message : Bytes) : Diagnostic :=
  { d with notes := d.notes ++ [⟨position, message⟩] }

/-- The order in which diagnostics are shown: by row, by column, the more serious first, by code. -/
def le (a b : Diagnostic) : Bool :=
  if a.position.row ≠ b.position.row then a.position.row < b.position.row
  else if a.position.col ≠ b.position.col then a.position.col < b.position.col
  else if a.severity ≠ b.severity then b.severity.rank < a.severity.rank
  else a.code.number ≤ b.code.number

end Diagnostic

end Allman
