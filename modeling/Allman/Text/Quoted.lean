import Allman.Unicode.Printable

/-! # Quoted texts

A text that is shown inside a message stands between quotes, and what could be misread is escaped:
the quote, the backslash, control characters and characters without a visible form. Every text has
one quoted form, also one that is not valid UTF-8. -/

namespace Allman

namespace Quoted

/-- The short escape of a control character. -/
def shortEscape? (code : Nat) : Option UInt8 :=
  match code with
  | 7 => some 97
  | 8 => some 98
  | 9 => some 116
  | 10 => some 110
  | 11 => some 118
  | 12 => some 102
  | 13 => some 114
  | _ => none

/-- The hexadecimal digits of a number, `count` of them. -/
def hexDigits (count n : Nat) : Bytes :=
  (List.range count).reverse.map fun place => Byte.hexDigit (n / Nat.pow 16 place % 16)

/-- The escape of a character by its code point: as few hexadecimal digits as its range has. -/
def numericEscape (code : Nat) : Bytes :=
  if code < 0x20 ∨ code = 0x7F then Bytes.ofString "\\x" ++ hexDigits 2 code
  else if code < 0x10000 then Bytes.ofString "\\u" ++ hexDigits 4 code
  else Bytes.ofString "\\U" ++ hexDigits 8 code

/-- A rune inside quotes of the given kind. -/
def rune (quote : UInt8) : Rune → Bytes
  | .invalid b => Bytes.ofString "\\x" ++ hexDigits 2 b.toNat
  | .char code encoding =>
    if code = quote.toNat ∨ code = Byte.backslash.toNat then Byte.backslash :: encoding
    else if Rune.isPrintable code then encoding
    else
      match shortEscape? code with
      | some letter => [Byte.backslash, letter]
      | none => numericEscape code

/-- The quoted form of one character. -/
def character (code : Nat) : Bytes :=
  Byte.singleQuote :: (rune Byte.singleQuote (.char code (Rune.encode code)) ++ [Byte.singleQuote])

end Quoted

/-- **The quoted form of a text.** -/
def quoted (s : Bytes) : Bytes :=
  Byte.doubleQuote ::
    ((Rune.decode s).flatMap (Quoted.rune Byte.doubleQuote) ++ [Byte.doubleQuote])

end Allman
