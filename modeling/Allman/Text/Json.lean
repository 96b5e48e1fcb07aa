import Allman.Unicode.Rune

/-! # JSON documents

A document is a tree of texts, numbers, lists and objects; the fields of an object keep their
order. Numbers are written by whoever builds the tree. `compact` writes a document on one line,
`indented` on several, two spaces for each level.

In a text the quote, the backslash, control characters, the characters `<`, `>` and `&` and the
two Unicode line separators are escaped. A byte that is part of no character is written as the
replacement character. -/

namespace Allman

/-- A JSON document. -/
inductive Json where
  /-- A text. -/
  | text (s : Bytes)
  /-- A number, by its digits. -/
  | number (digits : Bytes)
  /-- A list. -/
  | list (items : List Json)
  /-- An object: its fields in order. -/
  | object (fields : List (String × Json))

namespace Json

/-- The short escape of a character. -/
def shortEscape? (code : Nat) : Option UInt8 :=
  match code with
  | 8 => some 98
  | 9 => some 116
  | 10 => some 110
  | 12 => some 102
  | 13 => some 114
  | 34 => some 34
  | 92 => some 92
  | _ => none

/-- A character is written by its number. -/
def needsNumber (code : Nat) : Bool :=
  code < 0x20 || code == 0x3C || code == 0x3E || code == 0x26 || code == 0x2028 || code == 0x2029

/-- A rune of a text. -/
def rune : Rune → Bytes
  | .invalid _ => Rune.encode 0xFFFD
  | .char code encoding =>
    match shortEscape? code with
    | some letter => [Byte.backslash, letter]
    | none =>
      if needsNumber code then
        Bytes.ofString "\\u" ++
          [3, 2, 1, 0].map fun place => Byte.hexDigit (code / Nat.pow 16 place % 16)
      else encoding

/-- A text between quotes. -/
def quote (s : Bytes) : Bytes :=
  Byte.doubleQuote :: ((Rune.decode s).flatMap rune ++ [Byte.doubleQuote])

mutual

/-- A document on one line. -/
def compact : Json → Bytes
  | .text s => quote s
  | .number digits => digits
  | .list items => Byte.openSquare :: (compactItems items ++ [Byte.closeSquare])
  | .object fields => Byte.openBrace :: (compactFields fields ++ [Byte.closeBrace])

/-- The items of a list on one line. -/
def compactItems : List Json → Bytes
  | [] => []
  | [item] => compact item
  | item :: items => compact item ++ Bytes.ofString "," ++ compactItems items

/-- The fields of an object on one line. -/
def compactFields : List (String × Json) → Bytes
  | [] => []
  | [(name, value)] => quote (Bytes.ofString name) ++ Byte.colon :: compact value
  | (name, value) :: fields =>
    quote (Bytes.ofString name) ++ Byte.colon :: compact value ++ Bytes.ofString "," ++
      compactFields fields

end

/-- The start of a line at a level. -/
def lineStart (level : Nat) : Bytes := Byte.newline :: List.replicate (2 * level) Byte.space

mutual

/-- A document on several lines, from a line of the given level on. An empty list or object stays on
its line. -/
def indentedAt (level : Nat) : Json → Bytes
  | .text s => quote s
  | .number digits => digits
  | .list [] => Bytes.ofString "[]"
  | .list items =>
    Byte.openSquare ::
      (indentedItems (level + 1) items ++ lineStart level ++ [Byte.closeSquare])
  | .object [] => [Byte.openBrace, Byte.closeBrace]
  | .object fields =>
    Byte.openBrace ::
      (indentedFields (level + 1) fields ++ lineStart level ++ [Byte.closeBrace])

/-- The items of a list, each on lines of its own. -/
def indentedItems (level : Nat) : List Json → Bytes
  | [] => []
  | [item] => lineStart level ++ indentedAt level item
  | item :: items =>
    lineStart level ++ indentedAt level item ++ Bytes.ofString "," ++ indentedItems level items

/-- The fields of an object, each on lines of its own. -/
def indentedFields (level : Nat) : List (String × Json) → Bytes
  | [] => []
  | [(name, value)] =>
    lineStart level ++ quote (Bytes.ofString name) ++ Bytes.ofString ": " ++ indentedAt level value
  | (name, value) :: fields =>
    lineStart level ++ quote (Bytes.ofString name) ++ Bytes.ofString ": " ++
      indentedAt level value ++ Bytes.ofString "," ++ indentedFields level fields

end

/-- A document on several lines, the last of which ends too. -/
def indented (doc : Json) : Bytes := indentedAt 0 doc ++ [Byte.newline]

end Json

end Allman
