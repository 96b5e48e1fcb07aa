import Allman.Unicode.Rune

/-! # The syntax of settings documents

A document is a list of statements: headers that say which table comes next, and entries that give
a key a value. A key has parts; `a.b` is a key of two parts. -/

namespace Allman

namespace Toml

/-- A key: its parts. -/
abbrev Key := List Bytes

/-- A value that has no parts. -/
inductive Scalar where
  /-- A text. -/
  | text (s : Bytes)
  /-- An integer. -/
  | integer (n : Int)
  /-- A truth value. -/
  | boolean (b : Bool)
  /-- A number with a fraction or an exponent, an infinity, or no number. -/
  | float
  /-- A date, a time, or both. -/
  | moment
  deriving DecidableEq, Repr

/-- A value as it is written. -/
inductive Expr where
  /-- A value without parts. -/
  | scalar (s : Scalar)
  /-- Values between square brackets. -/
  | list (items : List Expr)
  /-- Keys and values between braces. -/
  | table (entries : List (Key × Expr))

/-- A line of a document. -/
inductive Statement where
  /-- Entries of this table follow. -/
  | header (key : Key)
  /-- Entries of a further table under this key follow. -/
  | listHeader (key : Key)
  /-- A key gets a value. -/
  | entry (key : Key) (value : Expr)

/-! ### Keys as text -/

/-- A byte that a part of a key may hold without quotes. -/
def isBare (b : UInt8) : Bool :=
  let c := Byte.toLower b
  (97 ≤ c && c ≤ 122) || Byte.isDigit b || b == Byte.underscore || b == Byte.dash

/-- A byte of a quoted part: quotes, backslashes and control characters are escaped. -/
def quotedByte (b : UInt8) : Bytes :=
  match b with
  | 34 => [92, 34]
  | 92 => [92, 92]
  | 8 => [92, 98]
  | 9 => [92, 116]
  | 10 => [92, 110]
  | 12 => [92, 102]
  | 13 => [92, 114]
  | _ => if b < 32 ∨ b = 127 then Bytes.ofString "\\u00" ++ Bytes.toHex [b] else [b]

/-- A part of a key: with quotes unless it is made of bare bytes. -/
def partText (part : Bytes) : Bytes :=
  if part ≠ [] ∧ part.all isBare then part
  else Byte.doubleQuote :: (part.flatMap quotedByte ++ [Byte.doubleQuote])

/-- A key: its parts with dots between them. -/
def keyText (key : Key) : Bytes := Bytes.joinWith [Byte.dot] (key.map partText)

end Toml

end Allman
