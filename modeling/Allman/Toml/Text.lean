import Allman.Reader
import Allman.Toml.Syntax

/-! # Texts in settings documents

A text stands between double quotes, where a backslash starts an escape, or between single quotes,
where every byte stands for itself. Three quotes enclose a text of several lines; a newline right
after them does not count. Up to two quotes may stand directly before the three that end such a
text. -/

namespace Allman

namespace Toml

/-- A byte that ends a line. -/
def isNewline (b : UInt8) : Bool := b == Byte.newline || b == Byte.carriageReturn

/-- A byte between tokens of a line. -/
def isGap (b : UInt8) : Bool := b == Byte.space || b == Byte.tab

/-- A byte between lines or tokens. -/
def isBlank (b : UInt8) : Bool := isGap b || isNewline b

/-! ### Escapes -/

/-- The encoding of the code point that hexadecimal digits give; surrogates are none. -/
def codePoint? (digits : Bytes) : Option Bytes := do
  let values ← digits.mapM Byte.hexValue?
  let code := values.foldl (fun n d => n * 16 + d) 0
  if code ≤ 0x10FFFF ∧ ¬(0xD800 ≤ code ∧ code ≤ 0xDFFF) then some (Rune.encode code) else none

/-- The byte that a letter after a backslash stands for. -/
def escapedByte? (letter : UInt8) : Option UInt8 :=
  match letter with
  | 98 => some 8
  | 116 => some 9
  | 110 => some 10
  | 102 => some 12
  | 114 => some 13
  | 34 => some 34
  | 92 => some 92
  | _ => none

/-- Replaces the escapes of a text. In a text of several lines, a backslash with nothing but
blanks after it on its line removes all blanks up to the next other byte: `skipping` says that
they are being removed. -/
def unescape (multiline : Bool) : Bool → Bytes → Option Bytes
  | _, [] => some []
  | skipping, b :: rest =>
    if b = Byte.backslash then
      match rest with
      | [] => none
      | 117 :: d₁ :: d₂ :: d₃ :: d₄ :: more => do
        return (← codePoint? [d₁, d₂, d₃, d₄]) ++ (← unescape multiline false more)
      | 85 :: d₁ :: d₂ :: d₃ :: d₄ :: d₅ :: d₆ :: d₇ :: d₈ :: more => do
        return (← codePoint? [d₁, d₂, d₃, d₄, d₅, d₆, d₇, d₈]) ++ (← unescape multiline false more)
      | letter :: more =>
        if isBlank letter then
          if multiline && ((letter :: more).takeWhile isBlank).contains Byte.newline then
            unescape multiline true more
          else none
        else do
          return (← escapedByte? letter) :: (← unescape multiline false more)
    else if skipping && isBlank b then unescape multiline true rest
    else do return b :: (← unescape multiline false rest)

/-! ### Where a text ends -/

/-- Takes a text of one line up to its closing double quote, with its escapes. -/
def escapedLine : Bytes → Option (Bytes × Bytes)
  | [] => none
  | b :: rest =>
    if b = Byte.doubleQuote then some ([], rest)
    else if isNewline b then none
    else if b = Byte.backslash then
      match rest with
      | [] => none
      | c :: more =>
        if isNewline c then none
        else (escapedLine more).map fun (text, after) => (b :: c :: text, after)
    else (escapedLine rest).map fun (text, after) => (b :: text, after)

/-- Takes a text of one line up to its closing single quote. -/
def plainLine (s : Bytes) : Option (Bytes × Bytes) :=
  match s.dropWhile fun b => b != Byte.singleQuote && !isNewline b with
  | [] => none
  | b :: rest =>
    if b = Byte.singleQuote then
      some (s.takeWhile fun b => b != Byte.singleQuote && !isNewline b, rest)
    else none

/-- What a run of quotes means in a text that three of them end. -/
inductive QuoteRun where
  /-- The text goes on: there are fewer than three. -/
  | inside
  /-- The text ends; this many of the quotes belong to it. -/
  | closing (kept : Nat)
  /-- There are too many. -/
  | tooLong
  deriving DecidableEq, Repr

/-- At most `allowed` quotes may stand before the three that end a text. -/
def quoteRun (allowed n : Nat) : QuoteRun :=
  if n < 3 then .inside else if n - 3 ≤ allowed then .closing (n - 3) else .tooLong

/-- Takes a text of several lines up to the quotes that close it. Where escapes count, a backslash
takes the next byte along, and one more quote may stand after an escaped backslash. -/
def longText (quote : UInt8) (escapes afterBackslash : Bool) : Bytes → Option (Bytes × Bytes)
  | [] => none
  | b :: rest =>
    if b = quote then
      let more := (rest.takeWhile (· == quote)).length
      match quoteRun (if afterBackslash then 3 else 2) (more + 1) with
      | .inside => (longText quote escapes false rest).map fun (text, after) => (b :: text, after)
      | .closing kept => some (List.replicate kept quote, rest.drop more)
      | .tooLong => none
    else if escapes && b == Byte.backslash then
      match rest with
      | [] => none
      | c :: more =>
        (longText quote escapes (c == Byte.backslash) more).map
          fun (text, after) => (b :: c :: text, after)
    else (longText quote escapes false rest).map fun (text, after) => (b :: text, after)

/-- A text without the newline it starts with. -/
def dropFirstNewline : Bytes → Bytes
  | 10 :: rest => rest
  | 13 :: 10 :: rest => rest
  | s => s

/-! ### Readers -/

/-- Reads a text of one line between quotes of the given kind; the opening quote was taken. -/
def readLine (quote : UInt8) : Reader Bytes := fun s =>
  if quote = Byte.doubleQuote then do
    let (text, after) ← escapedLine s
    let value ← unescape false false text
    pure (value, after)
  else plainLine s

/-- Reads a text of several lines; the opening quotes were taken. -/
def readLong (quote : UInt8) : Reader Bytes := fun s =>
  if quote = Byte.doubleQuote then do
    let (text, after) ← longText quote true false s
    let value ← unescape true false (dropFirstNewline text)
    pure (value, after)
  else (longText quote false false s).map fun (text, after) => (dropFirstNewline text, after)

/-- Reads a text of either length; its first quote was taken. -/
def readText (quote : UInt8) : Reader Bytes := do
  if ← Reader.accept [quote, quote] then readLong quote else readLine quote

end Toml

end Allman
