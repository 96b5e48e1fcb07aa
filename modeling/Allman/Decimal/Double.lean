import Allman.Bytes

/-! # Numbers of fifty-three bits

Times in milliseconds are double-precision numbers: a sign, a mantissa below `2 ^ 53` and a power
of two. All arithmetic here is on natural numbers. `Double.nearest` rounds a quotient to the
nearest such number, `Double.shortest` finds the fewest decimal digits that read back as the
number, and `Double.fixed` rounds it to a number of decimal places. A tie goes to the even
neighbour. -/

namespace Allman

/-- The quotient of two natural numbers, rounded to the nearest one; a half goes to the even
neighbour. -/
def roundDiv (num den : Nat) : Nat :=
  let q := num / den
  let twice := 2 * (num % den)
  if twice < den then q else if den < twice then q + 1 else q + q % 2

/-- A double-precision number: `mantissa * 2 ^ exponent`, with a sign. -/
structure Double where
  /-- The number is below zero, or is a zero that came from there. -/
  negative : Bool
  /-- The mantissa. -/
  mantissa : Nat
  /-- The power of two. -/
  exponent : Int
  deriving DecidableEq, Repr

namespace Double

/-- The least power of two. -/
def minExponent : Int := -1074

/-- A mantissa is below this bound, and at least half of it unless the exponent is the least. -/
def mantissaBound : Nat := Nat.pow 2 53

/-- Zero. -/
def zero : Double := ⟨false, 0, minExponent⟩

/-- The largest `e` with `2 ^ e ≤ num / den`. -/
def floorLog2 (num den : Nat) : Int :=
  let guess : Int := (num.log2 : Int) - den.log2
  if den * Nat.pow 2 guess.toNat ≤ num * Nat.pow 2 (-guess).toNat then guess else guess - 1

/-- **The number nearest to `num / den`.** -/
def nearest (negative : Bool) (num den : Nat) : Double :=
  if num = 0 then ⟨negative, 0, minExponent⟩
  else
    let e := max (floorLog2 num den - 52) minExponent
    let m := roundDiv (num * Nat.pow 2 (-e).toNat) (den * Nat.pow 2 e.toNat)
    if m = mantissaBound then ⟨negative, m / 2, e + 1⟩ else ⟨negative, m, e⟩

/-- The number nearest to an integer. -/
def ofInt (n : Int) : Double := nearest (n < 0) n.natAbs 1

/-- The number nearest to `mantissa / 10 ^ places`, as it stands in a decimal text. -/
def ofDecimal (mantissa : Int) (places : Nat) : Double :=
  nearest (mantissa < 0) mantissa.natAbs (Nat.pow 10 places)

/-- The absolute value as a quotient. -/
def ratio (x : Double) : Nat × Nat :=
  (x.mantissa * Nat.pow 2 x.exponent.toNat, Nat.pow 2 (-x.exponent).toNat)

/-- The number divided by a natural number, rounded. -/
def divNat (x : Double) (n : Nat) : Double := nearest x.negative x.ratio.1 (x.ratio.2 * n)

/-! ### Fewest digits -/

/-- A decimal number: `digits * 10 ^ exponent`. -/
structure Decimal where
  /-- The digits, read as a number. -/
  digits : Nat
  /-- The power of ten. -/
  exponent : Int
  deriving DecidableEq, Repr

/-- The numbers that round to `x` lie between the first and the second quotient over the third
number. -/
def bounds (x : Double) : Nat × Nat × Nat :=
  let below : Nat := if 2 * x.mantissa = mantissaBound ∧ minExponent < x.exponent then 1 else 2
  let scale : Nat := Nat.pow 2 x.exponent.toNat
  ((4 * x.mantissa - below) * scale, (4 * x.mantissa + 2) * scale,
    4 * Nat.pow 2 (-x.exponent).toNat)

/-- A decimal number rounds to `x`. The ends of the interval do when the mantissa is even. -/
def reads (x : Double) (d : Decimal) : Bool :=
  let (low, high, den) := x.bounds
  let value := d.digits * Nat.pow 10 d.exponent.toNat * den
  let unit := Nat.pow 10 (-d.exponent).toNat
  if x.mantissa % 2 = 0 then low * unit ≤ value && value ≤ high * unit
  else low * unit < value && value < high * unit

/-- The largest `k` with `10 ^ k ≤ num / den`. -/
def floorLog10 (num den : Nat) : Int :=
  if den ≤ num then ((toString (num / den)).length : Int) - 1
  else
    -- The least `j` for which `num * 10 ^ j` is at least `den`.
    let guess := (toString (den / num)).length - 1
    if den ≤ num * Nat.pow 10 guess then -(guess : Int) else -((guess + 1 : Nat) : Int)

/-- The two neighbours of `x` among the decimal numbers with `count` digits: one not above it, one
above it; the nearer first, and of two equally near ones the even one. -/
def neighbours (x : Double) (count : Nat) : List Decimal :=
  let (num, den) := x.ratio
  let e := floorLog10 num den - (count : Int) + 1
  let scaledNum := num * Nat.pow 10 (-e).toNat
  let scaledDen := den * Nat.pow 10 e.toNat
  let low := scaledNum / scaledDen
  let near := roundDiv scaledNum scaledDen
  if near = low then [⟨low, e⟩, ⟨low + 1, e⟩] else [⟨low + 1, e⟩, ⟨low, e⟩]

/-- The first decimal number that reads back, from `count` digits on; seventeen digits always do. -/
def search (x : Double) : Nat → Nat → Decimal
  | 0, count => (x.neighbours count).headD ⟨0, 0⟩
  | fuel + 1, count =>
    match (x.neighbours count).find? x.reads with
    | some d => d
    | none => search x fuel (count + 1)

/-- The digits without the zeros at their end. -/
def Decimal.normalize : Nat → Decimal → Decimal
  | 0, d => d
  | fuel + 1, d =>
    if d.digits ≠ 0 ∧ d.digits % 10 = 0 then normalize fuel ⟨d.digits / 10, d.exponent + 1⟩ else d

/-- **The fewest digits that read back as `x`**, and of those the nearest to it. -/
def shortest (x : Double) : Decimal :=
  if x.mantissa = 0 then ⟨0, 0⟩ else (x.search 16 1).normalize 20

/-! ### Texts -/

/-- The sign of a number. -/
def sign (x : Double) : Bytes := if x.negative then [Byte.dash] else []

/-- Digits with a decimal point before the last `places` of them. -/
def withPoint (digits places : Nat) : Bytes :=
  let text := Bytes.padLeft (places + 1) 48 (Bytes.ofNat digits)
  if places = 0 then text
  else text.take (text.length - places) ++ Byte.dot :: text.drop (text.length - places)

/-- **A number with a fixed number of decimal places.** -/
def fixed (places : Nat) (x : Double) : Bytes :=
  x.sign ++ withPoint (roundDiv (x.ratio.1 * Nat.pow 10 places) x.ratio.2) places

/-- How the text of a number is chosen. -/
structure Format where
  /-- A number is written with a power of ten when its first digit stands for less than this
  power. -/
  least : Int
  /-- The same when it stands for this power or more. -/
  most : Int

/-- **The shortest text of a number** in a format: positional, or one digit before the point and a
power of ten with its sign. -/
def toText (format : Format) (x : Double) : Bytes :=
  let d := x.shortest
  let digits := Bytes.ofNat d.digits
  let top : Int := d.exponent + digits.length - 1
  if d.digits ≠ 0 ∧ (top < format.least ∨ format.most ≤ top) then
    let point := if digits.length = 1 then [] else Byte.dot :: digits.drop 1
    let mark : Bytes := Bytes.ofString (if top < 0 then "e-" else "e+")
    x.sign ++ digits.take 1 ++ point ++ mark ++ Bytes.ofNat top.natAbs
  else if 0 ≤ d.exponent then x.sign ++ digits ++ List.replicate d.exponent.toNat 48
  else x.sign ++ withPoint d.digits (-d.exponent).toNat

end Double

end Allman
