import Allman.Bytes

/-! # Colours on a terminal

A style is switched on by an escape sequence with its codes and off by one with its reset codes.
Bold has a reset of its own, a colour is reset with everything else. -/

namespace Allman

/-- How a text looks on a terminal. -/
structure Style where
  /-- The codes that switch it on. -/
  codes : List Nat
  deriving DecidableEq, Repr

namespace Style

/-- Bold. -/
def boldCode : Nat := 1

/-- The code that switches one code off. -/
def resetOf (code : Nat) : Nat := if code = boldCode then 22 else 0

/-- The escape sequence with the given codes. -/
def sequence (codes : List Nat) : Bytes :=
  [27, Byte.openSquare] ++ Bytes.joinWith [Byte.semicolon] (codes.map Bytes.ofNat) ++ [109]

/-- A text in a style, an empty text too; plain if colours are off. -/
def paint (style : Style) (enabled : Bool) (s : Bytes) : Bytes :=
  if enabled then sequence style.codes ++ s ++ sequence (style.codes.map resetOf) else s

def bold : Style := ⟨[1]⟩
def red : Style := ⟨[31]⟩
def green : Style := ⟨[32]⟩
def yellow : Style := ⟨[33]⟩
def blue : Style := ⟨[34]⟩
def cyan : Style := ⟨[36]⟩

/-- The style in bold. -/
def bolder (style : Style) : Style := ⟨style.codes ++ [boldCode]⟩

end Style

end Allman
