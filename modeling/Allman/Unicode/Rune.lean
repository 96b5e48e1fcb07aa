import Allman.Bytes

/-! # Reading a byte text as characters

A text is read from left to right. A well-formed UTF-8 sequence is one character; a byte that starts
none stands for itself. So every byte text can be read, and `Rune.bytes` gives back the bytes that a
rune was read from. -/

namespace Allman

/-- One item of a byte text: a character, or a byte that starts no character. -/
inductive Rune where
  /-- A character: its code point and its encoding. -/
  | char (code : Nat) (encoding : Bytes)
  /-- A byte that is part of no well-formed sequence. -/
  | invalid (b : UInt8)
  deriving DecidableEq, Repr

namespace Rune

/-- A byte that continues a sequence. -/
def isContinuation (b : UInt8) : Bool := 0x80 ≤ b && b ≤ 0xBF

/-- The bytes that may follow the first byte of a sequence of three or four bytes. They are narrower
than the continuation bytes where a wider range would give a second encoding, a surrogate or a code
point above `U+10FFFF`. -/
def secondRange (first : UInt8) : UInt8 × UInt8 :=
  if first == 0xE0 then (0xA0, 0xBF)
  else if first == 0xED then (0x80, 0x9F)
  else if first == 0xF0 then (0x90, 0xBF)
  else if first == 0xF4 then (0x80, 0x8F)
  else (0x80, 0xBF)

/-- The code point of the sequence that starts with `first`, and how many bytes of `rest` belong to
it. -/
def sequence? (first : UInt8) (rest : Bytes) : Option (Nat × Nat) :=
  let low (b : UInt8) : Nat := b.toNat % 64
  let fits (b : UInt8) : Bool := (secondRange first).1 ≤ b && b ≤ (secondRange first).2
  if first < 0x80 then some (first.toNat, 0)
  else if 0xC2 ≤ first && first ≤ 0xDF then
    match rest with
    | b :: _ => if isContinuation b then some (first.toNat % 32 * 64 + low b, 1) else none
    | _ => none
  else if 0xE0 ≤ first && first ≤ 0xEF then
    match rest with
    | b :: c :: _ =>
      if fits b && isContinuation c then
        some (first.toNat % 16 * 4096 + low b * 64 + low c, 2)
      else none
    | _ => none
  else if 0xF0 ≤ first && first ≤ 0xF4 then
    match rest with
    | b :: c :: d :: _ =>
      if fits b && isContinuation c && isContinuation d then
        some (first.toNat % 8 * 262144 + low b * 4096 + low c * 64 + low d, 3)
      else none
    | _ => none
  else none

/-- The runes of a text. -/
def decode : Bytes → List Rune
  | [] => []
  | first :: rest =>
    match sequence? first rest with
    | some (code, more) => .char code (first :: rest.take more) :: decode (rest.drop more)
    | none => .invalid first :: decode rest
termination_by s => s.length
decreasing_by all_goals simp only [List.length_cons, List.length_drop]; omega

/-- The bytes a rune was read from. -/
def bytes : Rune → Bytes
  | .char _ encoding => encoding
  | .invalid b => [b]

/-- The code point a rune is shown as: a stray byte counts as the replacement character. -/
def code : Rune → Nat
  | .char c _ => c
  | .invalid _ => 0xFFFD

/-- The rune is a character. -/
def isChar : Rune → Bool
  | .char _ _ => true
  | .invalid _ => false

/-- The encoding of a code point; a surrogate or a number above `U+10FFFF` is encoded as the
replacement character. -/
def encode (code : Nat) : Bytes :=
  if code < 0x80 then [UInt8.ofNat code]
  else if code < 0x800 then [UInt8.ofNat (0xC0 + code / 64), UInt8.ofNat (0x80 + code % 64)]
  else if 0xD800 ≤ code ∧ code ≤ 0xDFFF ∨ 0x10FFFF < code then [0xEF, 0xBF, 0xBD]
  else if code < 0x10000 then
    [UInt8.ofNat (0xE0 + code / 4096), UInt8.ofNat (0x80 + code / 64 % 64),
      UInt8.ofNat (0x80 + code % 64)]
  else
    [UInt8.ofNat (0xF0 + code / 262144), UInt8.ofNat (0x80 + code / 4096 % 64),
      UInt8.ofNat (0x80 + code / 64 % 64), UInt8.ofNat (0x80 + code % 64)]

/-- The text is well-formed UTF-8. -/
def wellFormed (s : Bytes) : Bool := (decode s).all isChar

end Rune

end Allman
