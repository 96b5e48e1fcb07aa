import Allman.Bytes

/-! # Integers as they are written

An integer is a sign, a base and digits. `0b`, `0o` and `0x` announce the bases two, eight and
sixteen, and a leading zero alone announces eight. An underscore may stand between digits, and
between the base and the first digit. The value must fit in 64 bits with a sign.

Digits are read from the left, and the first fault ends the reading: a digit too many is found
before a letter that follows it. -/

namespace Allman

namespace Numeral

/-- Why a text is no integer. -/
inductive Fault where
  /-- It is not written as one. -/
  | malformed
  /-- It does not fit in 64 bits. -/
  | outOfRange
  deriving DecidableEq, Repr

/-- The value of a letter or digit, in the largest base that letters allow. -/
def digitValue? (b : UInt8) : Option Nat :=
  let c := Byte.toLower b
  if Byte.isDigit c then some (c.toNat - 48)
  else if 97 ≤ c ∧ c ≤ 122 then some (c.toNat - 87)
  else none

/-- The base that a text without its sign announces, and the digits after the announcement. -/
def baseOf (s : Bytes) : Nat × Bytes :=
  match s with
  | 48 :: letter :: rest =>
    let c := Byte.toLower letter
    if rest ≠ [] ∧ c = 98 then (2, rest)
    else if rest ≠ [] ∧ c = 111 then (8, rest)
    else if rest ≠ [] ∧ c = 120 then (16, rest)
    else (8, letter :: rest)
  | 48 :: rest => (8, rest)
  | _ => (10, s)

/-- Reads digits onto a value; underscores are passed over. -/
def readDigits (base : Nat) : Nat → Bytes → Except Fault Nat
  | value, [] => .ok value
  | value, b :: rest =>
    if b = Byte.underscore then readDigits base value rest
    else match digitValue? b with
      | none => .error .malformed
      | some d =>
        if base ≤ d then .error .malformed
        else if 0x10000000000000000 ≤ value * base + d then .error .outOfRange
        else readDigits base (value * base + d) rest

/-- What the byte before an underscore was. -/
inductive Before where
  /-- Nothing, or something that is no digit. -/
  | other
  /-- A digit, or the announcement of a base. -/
  | digit
  /-- An underscore. -/
  | underscore
  deriving DecidableEq, Repr

/-- Underscores stand between digits only. -/
def underscoresFit (isDigit : UInt8 → Bool) : Before → Bytes → Bool
  | before, [] => before ≠ .underscore
  | before, b :: rest =>
    if isDigit b then underscoresFit isDigit .digit rest
    else if b = Byte.underscore then before = .digit && underscoresFit isDigit .underscore rest
    else before ≠ .underscore && underscoresFit isDigit .other rest

/-- The underscores of a text without its sign are where they may be. -/
def underscoresAllowed (s : Bytes) : Bool :=
  match s with
  | 48 :: letter :: rest =>
    let c := Byte.toLower letter
    if c = 120 then underscoresFit (fun b => (Byte.hexValue? b).isSome) .digit rest
    else if c = 98 ∨ c = 111 then underscoresFit Byte.isDigit .digit rest
    else underscoresFit Byte.isDigit .other s
  | _ => underscoresFit Byte.isDigit .other s

/-- The value of a text without its sign. -/
def readUnsigned (s : Bytes) : Except Fault Nat :=
  if s = [] then .error .malformed
  else
    let (base, digits) := baseOf s
    match readDigits base 0 digits with
    | .error fault => .error fault
    | .ok value => if underscoresAllowed s then .ok value else .error .malformed

/-- **The integer that a text stands for.** -/
def read (s : Bytes) : Except Fault Int :=
  let (negative, digits) := match s with
    | 45 :: rest => (true, rest)
    | 43 :: rest => (false, rest)
    | _ => (false, s)
  match readUnsigned digits with
  | .error fault => .error fault
  | .ok value =>
    if negative then if 0x8000000000000000 < value then .error .outOfRange else .ok (-value)
    else if 0x8000000000000000 ≤ value then .error .outOfRange else .ok value

end Numeral

end Allman
