/-! # Texts as lists of bytes

A source file is a list of bytes: it need not be valid UTF-8, and every row, column and length the
library speaks of counts bytes. This module names the bytes that matter and holds the operations
on byte texts that the other modules share.

* `trimTrailing` drops the white space at the end of a line, `leadingSpaces` counts the spaces at
  its start.
* `splitOn` and `joinWith` cut a text at a separator byte and put it together again.
* `cutSuffix?`, `startsWith` and `contains` look for one text in another. -/

namespace Allman

/-- A text: any bytes at all. -/
abbrev Bytes := List UInt8

namespace Byte

/-! ### The bytes with a name -/

abbrev tab : UInt8 := 9
abbrev newline : UInt8 := 10
abbrev verticalTab : UInt8 := 11
abbrev formFeed : UInt8 := 12
abbrev carriageReturn : UInt8 := 13
abbrev space : UInt8 := 32
abbrev doubleQuote : UInt8 := 34
abbrev hash : UInt8 := 35
abbrev singleQuote : UInt8 := 39
abbrev openParen : UInt8 := 40
abbrev closeParen : UInt8 := 41
abbrev star : UInt8 := 42
abbrev dash : UInt8 := 45
abbrev dot : UInt8 := 46
abbrev slash : UInt8 := 47
abbrev colon : UInt8 := 58
abbrev semicolon : UInt8 := 59
abbrev equals : UInt8 := 61
abbrev openSquare : UInt8 := 91
abbrev backslash : UInt8 := 92
abbrev closeSquare : UInt8 := 93
abbrev underscore : UInt8 := 95
abbrev openBrace : UInt8 := 123
abbrev closeBrace : UInt8 := 125

/-- The white space that ends no line of output: space, tab, carriage return, vertical tab, form
feed. -/
def isTrailing (b : UInt8) : Bool :=
  b == space || b == tab || b == carriageReturn || b == verticalTab || b == formFeed

/-- A decimal digit. -/
def isDigit (b : UInt8) : Bool := 48 ≤ b && b ≤ 57

/-- The lower-case form of an ASCII letter; any other byte is itself. -/
def toLower (b : UInt8) : UInt8 := if 65 ≤ b && b ≤ 90 then b + 32 else b

/-- The value of a hexadecimal digit of either case. -/
def hexValue? (b : UInt8) : Option Nat :=
  if isDigit b then some (b.toNat - 48)
  else if 97 ≤ toLower b && toLower b ≤ 102 then some ((toLower b).toNat - 87)
  else none

/-- The lower-case hexadecimal digit of a value below sixteen. -/
def hexDigit (n : Nat) : UInt8 := if n < 10 then UInt8.ofNat (48 + n) else UInt8.ofNat (87 + n)

end Byte

namespace Bytes

/-- The UTF-8 bytes of a string. -/
def ofString (s : String) : Bytes := s.toUTF8.data.toList

instance : Coe String Bytes := ⟨ofString⟩

/-! ### Ends of a line -/

/-- A line without its trailing white space. -/
def trimTrailing (s : Bytes) : Bytes := (s.reverse.dropWhile Byte.isTrailing).reverse

/-- The number of spaces a line starts with. -/
def leadingSpaces (s : Bytes) : Nat := (s.takeWhile (· == Byte.space)).length

/-- The line has at least `col` bytes, and the first `col` of them are spaces. -/
def blankBefore (s : Bytes) (col : Nat) : Bool :=
  col ≤ s.length && (s.take col).all (· == Byte.space)

/-! ### Cutting and joining -/

/-- The pieces of a text between the occurrences of `sep`: always one more than there are
occurrences. -/
def splitOn (sep : UInt8) : Bytes → List Bytes
  | [] => [[]]
  | b :: rest =>
    if b = sep then [] :: splitOn sep rest
    else match splitOn sep rest with
      | [] => [[b]]
      | piece :: more => (b :: piece) :: more

/-- Puts pieces together with `sep` between them. -/
def joinWith (sep : Bytes) (pieces : List Bytes) : Bytes := (pieces.intersperse sep).flatten

/-- The text before the first `sep` and the text after it. -/
def cutAt? (sep : UInt8) (s : Bytes) : Option (Bytes × Bytes) :=
  match s.dropWhile (· != sep) with
  | [] => none
  | _ :: rest => some (s.takeWhile (· != sep), rest)

/-- What stands before `suffix` at the end of a text. -/
def cutSuffix? (s suffix : Bytes) : Option Bytes :=
  if suffix.isSuffixOf s then some (s.take (s.length - suffix.length)) else none

/-- The text starts with `start`. -/
def startsWith (s start : Bytes) : Bool := start.isPrefixOf s

/-- The text contains `part` somewhere. -/
def contains (s part : Bytes) : Bool :=
  part.isPrefixOf s || match s with
    | [] => false
    | _ :: rest => contains rest part

/-! ### Numbers -/

/-- The decimal digits of a natural number. -/
def ofNat (n : Nat) : Bytes := ofString (toString n)

/-- The decimal digits of an integer, after a minus sign when it is negative. -/
def ofInt : Int → Bytes
  | .ofNat n => ofNat n
  | .negSucc n => Byte.dash :: ofNat (n + 1)

/-- Two hexadecimal digits for every byte. -/
def toHex (s : Bytes) : Bytes :=
  s.flatMap fun b => [Byte.hexDigit (b.toNat / 16), Byte.hexDigit (b.toNat % 16)]

/-- Pads on the left with `fill` to at least `width` bytes. -/
def padLeft (width : Nat) (fill : UInt8) (s : Bytes) : Bytes :=
  List.replicate (width - s.length) fill ++ s

/-- Orders texts byte by byte, a proper start of a text before the text. -/
def le : Bytes → Bytes → Bool
  | [], _ => true
  | _ :: _, [] => false
  | a :: s, b :: t => a < b || (a == b && le s t)

end Bytes

end Allman
