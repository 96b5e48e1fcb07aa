import Allman.Bytes

/-! # Reading from the front of a text

A `Reader` takes bytes from the front of a text and gives a value, or refuses the text. What it
did not take is left for the next reader. -/

namespace Allman

/-- Reads a value from the front of a text. -/
abbrev Reader (α : Type) := StateT Bytes Option α

namespace Reader

/-- Reads a text; what is left over is given too. -/
def run {α : Type} (r : Reader α) (s : Bytes) : Option (α × Bytes) := StateT.run r s

/-- Refuses. -/
def refuse {α : Type} : Reader α := fun _ => none

/-- What is still to be read. -/
def remaining : Reader Bytes := get

/-- The next byte, which stays there. -/
def peek? : Reader (Option UInt8) := do return (← get).head?

/-- Takes one byte. -/
def byte : Reader UInt8 := fun
  | [] => none
  | b :: rest => some (b, rest)

/-- Takes `n` bytes. -/
def take (n : Nat) : Reader Bytes := fun s =>
  let front := s.take n
  if front.length = n then some (front, s.drop n) else none

/-- Takes bytes as long as they satisfy `p`. -/
def takeWhile (p : UInt8 → Bool) : Reader Bytes := fun s => some (s.takeWhile p, s.dropWhile p)

/-- Passes over bytes that satisfy `p`. -/
def skipWhile (p : UInt8 → Bool) : Reader Unit := fun s => some ((), s.dropWhile p)

/-- Takes a byte that must be `b`. -/
def expect (b : UInt8) : Reader Unit := do
  if (← byte) = b then pure () else refuse

/-- Takes `start` if the text starts with it, and says whether it did. -/
def accept (start : Bytes) : Reader Bool := fun s =>
  if Bytes.startsWith s start then some (true, s.drop start.length) else some (false, s)

/-- Refuses unless the condition holds. -/
def require (ok : Bool) : Reader Unit := if ok then pure () else refuse

/-- Reads `n` values in turn. -/
def times {α : Type} (r : Reader α) : Nat → Reader (List α)
  | 0 => pure []
  | n + 1 => do
    let first ← r
    let others ← times r n
    pure (first :: others)

end Reader

end Allman
