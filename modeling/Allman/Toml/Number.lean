import Allman.Reader
import Allman.Text.Numeral
import Allman.Toml.Syntax

/-! # Numbers and dates in settings documents

A number or a date is a run of bytes whose kind its first bytes decide. The run is taken first and
checked afterwards, so that `1.2.3` is one bad number and not two good ones. Of floats and dates
only their being well-formed matters. -/

namespace Allman

namespace Toml

/-- A hexadecimal digit. -/
def isHex (b : UInt8) : Bool := (Byte.hexValue? b).isSome

/-- Every underscore has a digit before it and something else than an underscore behind it, and a
digit comes last. -/
def underscoresBetweenDigits : Bool → Bytes → Bool
  | afterDigit, [] => afterDigit
  | afterDigit, b :: rest =>
    (b != Byte.underscore || afterDigit) && underscoresBetweenDigits (isHex b) rest

/-- The number starts with a zero that is not all there is before the point. -/
def hasLeadingZero (s : Bytes) : Bool :=
  match s with
  | 48 :: b :: _ => b != 98 && b != 111 && b != 120
  | sign :: 48 :: _ :: _ => sign == 43 || sign == 45
  | _ => false

/-! ### Integers -/

/-- The integer that a run of bytes stands for. -/
def integer? (s : Bytes) : Option Int :=
  if underscoresBetweenDigits false s && !hasLeadingZero s then (Numeral.read s).toOption else none

/-! ### Floats -/

/-- A byte that divides the parts of a float. -/
def isFloatMark (b : UInt8) : Bool := b == Byte.dot || b == 101 || b == 69

/-- The parts of a float between points and exponent marks; empty ones are left out. -/
def floatParts : Bytes → List Bytes
  | [] => []
  | b :: rest =>
    if isFloatMark b then floatParts rest
    else match rest, floatParts rest with
      | next :: _, part :: parts =>
        if isFloatMark next then [b] :: part :: parts else (b :: part) :: parts
      | _, parts => [b] :: parts

/-- A digit follows every point. -/
def digitsAfterPoints : Bytes → Bool
  | [] => true
  | b :: rest =>
    (b != Byte.dot || match rest with
      | [] => false
      | next :: _ => Byte.isDigit next) && digitsAfterPoints rest

/-- The value of decimal digits. -/
def decimalValue (s : Bytes) : Nat := s.foldl (fun n b => n * 10 + (b.toNat - 48)) 0

/-- Sign, digits, digits after a point, and an exponent; none of another form. -/
def splitFloat? (s : Bytes) : Option (Bytes × Bytes × Int) := do
  let unsigned := match s with
    | 43 :: rest => rest
    | 45 :: rest => rest
    | _ => s
  let whole := unsigned.takeWhile Byte.isDigit
  let (fraction, rest) := match unsigned.dropWhile Byte.isDigit with
    | 46 :: rest => (rest.takeWhile Byte.isDigit, rest.dropWhile Byte.isDigit)
    | rest => ([], rest)
  if whole = [] ∧ fraction = [] then none
  else match rest with
    | [] => some (whole, fraction, 0)
    | mark :: rest =>
      let (negative, digits) := match rest with
        | 43 :: digits => (false, digits)
        | 45 :: digits => (true, digits)
        | digits => (false, digits)
      if isFloatMark mark ∧ mark ≠ Byte.dot ∧ digits ≠ [] ∧ digits.all Byte.isDigit then
        let exponent : Int := decimalValue digits
        some (whole, fraction, if negative then -exponent else exponent)
      else none

/-- The least number that rounds to something above every number of 64 bits. -/
def floatBound : Nat := Nat.pow 2 1024 - Nat.pow 2 970

/-- The decimal number `digits * 10 ^ exponent` is below the bound. -/
def isFinite (digits : Nat) (exponent : Int) : Bool :=
  let places : Int := (Bytes.ofNat digits).length + exponent
  if digits = 0 ∨ places < 300 then true
  else if 320 < places then false
  else digits * Nat.pow 10 exponent.toNat < floatBound * Nat.pow 10 (-exponent).toNat

/-- The run of bytes is a float. -/
def isFloat (s : Bytes) : Bool :=
  let parts := floatParts s
  parts.all (underscoresBetweenDigits false) &&
    !(match parts with
      | [] => false
      | first :: _ => hasLeadingZero first) &&
    digitsAfterPoints s &&
    match splitFloat? (s.filter (· != Byte.underscore)) with
    | none => false
    | some (whole, fraction, exponent) =>
      isFinite (decimalValue (whole ++ fraction)) (exponent - fraction.length)

/-! ### Dates and times -/

/-- Reads two digits that give a number up to `most`. -/
def twoDigits (most : Nat) : Reader Nat := do
  let digits ← Reader.take 2
  Reader.require (digits.all Byte.isDigit && decimalValue digits ≤ most)
  pure (decimalValue digits)

/-- The days of a month. -/
def daysIn (year month : Nat) : Nat :=
  if month = 2 then if year % 4 = 0 ∧ (year % 100 ≠ 0 ∨ year % 400 = 0) then 29 else 28
  else if month = 4 ∨ month = 6 ∨ month = 9 ∨ month = 11 then 30
  else 31

/-- Reads a date. -/
def readDate : Reader Unit := do
  let year ← Reader.take 4
  Reader.require (year.all Byte.isDigit)
  Reader.expect Byte.dash
  let month ← twoDigits 12
  Reader.expect Byte.dash
  let day ← twoDigits 31
  Reader.require (1 ≤ month && 1 ≤ day && day ≤ daysIn (decimalValue year) month)

/-- Reads an hour, which may have one digit. -/
def readHour : Reader Unit := do
  let digits ← Reader.takeWhile Byte.isDigit
  Reader.require (1 ≤ digits.length && digits.length ≤ 2 && decimalValue digits ≤ 23)

/-- Reads a time of day. -/
def readTime : Reader Unit := do
  readHour
  Reader.expect Byte.colon
  let _ ← twoDigits 59
  Reader.expect Byte.colon
  let _ ← twoDigits 59
  if ← Reader.accept [Byte.dot] then
    let fraction ← Reader.takeWhile Byte.isDigit
    Reader.require (fraction ≠ [])

/-- Reads a distance from universal time, if there is one. -/
def readZone : Reader Unit := do
  match ← Reader.peek? with
  | none => pure ()
  | some 90 => Reader.expect 90
  | some sign => do
    Reader.expect sign
    Reader.require (sign == 43 || sign == 45)
    let _ ← twoDigits 24
    Reader.expect Byte.colon
    let _ ← twoDigits 60

/-- Reads a date and a time of day with their zone. -/
def readDateAndTime : Reader Unit := do
  readDate
  Reader.expect 84
  readTime
  readZone

/-- The reader takes the whole text. -/
def takesAll (r : Reader Unit) (s : Bytes) : Bool :=
  match r.run s with
  | some (_, []) => true
  | _ => false

/-- A byte of a date in its usual form: a blank between date and time counts as a `T`. -/
def usualDateByte (b : UInt8) : UInt8 :=
  if b = Byte.space ∨ b = 116 then 84 else if b = 122 then 90 else b

/-- The run of bytes, less the spaces at its end, is a date, a time, or both. -/
def isMoment (s : Bytes) : Bool :=
  let usual := ((s.reverse.dropWhile (· == Byte.space)).reverse).map usualDateByte
  takesAll readDateAndTime usual || takesAll readDate usual || takesAll readTime usual

/-! ### The run of bytes -/

/-- A byte of a date. -/
def isMomentByte (b : UInt8) : Bool :=
  Byte.isDigit b || [45, 58, 84, 116, 32, 46, 90, 122, 43].contains b

/-- A byte of a float after its first point or exponent mark. -/
def isFloatByte (b : UInt8) : Bool :=
  Byte.isDigit b || isFloatMark b || [95, 45, 43].contains b

/-- Refuses unless the text has the property. -/
def checked (ok : Bytes → Bool) (scalar : Scalar) (s : Bytes) : Reader Scalar := do
  Reader.require (ok s)
  pure scalar

/-- An integer, if the text is one. -/
def checkedInteger (s : Bytes) : Reader Scalar :=
  match integer? s with
  | some n => pure (.integer n)
  | none => Reader.refuse

/-- Reads on after digits, underscores allowed: an integer or a float. -/
def readDecimal (start : Bytes) : Reader Scalar := do
  let digits ← Reader.takeWhile fun b => Byte.isDigit b || b == Byte.underscore
  match ← Reader.peek? with
  | some b =>
    if isFloatMark b then do
      let rest ← Reader.takeWhile isFloatByte
      checked isFloat .float (start ++ digits ++ rest)
    else checkedInteger (start ++ digits)
  | none => checkedInteger (start ++ digits)

/-- The digits of a base that a letter after a zero announces. -/
def digitsOfBase? (letter : UInt8) : Option (UInt8 → Bool) :=
  match letter with
  | 98 => some fun b => b == 48 || b == 49
  | 111 => some fun b => 48 ≤ b && b ≤ 55
  | 120 => some isHex
  | _ => none

/-- Reads an integer of another base; the zero was taken, and the letter comes next. -/
def readOtherBase (isDigit : UInt8 → Bool) : Reader Scalar := do
  let letter ← Reader.byte
  match ← Reader.peek? with
  | some b => Reader.require (isDigit b)
  | none => Reader.refuse
  let digits ← Reader.takeWhile fun b => isDigit b || b == Byte.underscore
  checkedInteger (48 :: letter :: digits)

/-- Reads `inf` or `nan`, if one of them comes next. -/
def readNamedFloat : Reader Bool := do
  if ← Reader.accept "inf" then pure true else Reader.accept "nan"

/-- Reads a number with a sign, which has base ten; the sign was taken. -/
def readAfterSign (sign : UInt8) : Reader Scalar := do
  if ← readNamedFloat then pure .float
  else do
    let first ← Reader.byte
    Reader.require (Byte.isDigit first)
    if first = 48 then
      let letter ← Reader.peek?
      Reader.require (letter.bind digitsOfBase?).isNone
    readDecimal [sign, first]

/-- Reads a number without a sign, or a date: a digit comes next. -/
def readNumber : Reader Scalar := do
  let digits ← Reader.takeWhile Byte.isDigit
  let next ← Reader.peek?
  match (if digits = [48] then next.bind digitsOfBase? else none) with
  | some isDigit => readOtherBase isDigit
  | none =>
    if digits ≠ [48] ∧ (next = some Byte.dash ∨ next = some Byte.colon) then do
      let rest ← Reader.takeWhile isMomentByte
      checked isMoment .moment (digits ++ rest)
    else readDecimal digits

end Toml

end Allman
