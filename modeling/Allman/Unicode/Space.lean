import Allman.Unicode.Rune

/-! # White space

The code points with the Unicode property `White_Space`, and what is left of a text without the
white space at its ends. -/

namespace Allman

namespace Rune

/-- The rune is white space. A stray byte never is. -/
def isSpace : Rune → Bool
  | .invalid _ => false
  | .char c _ =>
    (9 ≤ c && c ≤ 13) || c == 0x20 || c == 0x85 || c == 0xA0 || c == 0x1680 ||
      (0x2000 ≤ c && c ≤ 0x200A) || c == 0x2028 || c == 0x2029 || c == 0x202F || c == 0x205F ||
      c == 0x3000

end Rune

namespace Bytes

/-- A text without the white space at its ends. -/
def trimSpace (s : Bytes) : Bytes :=
  let fromStart := (Rune.decode s).dropWhile Rune.isSpace
  ((fromStart.reverse.dropWhile Rune.isSpace).reverse).flatMap Rune.bytes

/-- The text holds nothing but white space. -/
def isBlank (s : Bytes) : Bool := (Rune.decode s).all Rune.isSpace

/-- The first byte that is not part of white space. -/
def firstCode? (s : Bytes) : Option UInt8 :=
  ((Rune.decode s).dropWhile Rune.isSpace).head?.bind fun r => r.bytes.head?

end Bytes

end Allman
