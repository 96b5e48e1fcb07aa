import Allman.Toml.Number
import Allman.Toml.Text

/-! # Reading settings documents

`parse?` gives the statements of a document, or none if it is malformed. A statement takes a line;
lists may go on over several lines, tables between braces may not. -/

namespace Allman

namespace Toml

/-! ### The bytes of a document -/

/-- The byte-order marks that a document may start with. -/
def byteOrderMarks : List Bytes := [[0xFF, 0xFE], [0xFE, 0xFF], [0xEF, 0xBB, 0xBF]]

/-- A document without its byte-order mark. -/
def dropByteOrderMark (s : Bytes) : Bytes :=
  match byteOrderMarks.find? (Bytes.startsWith s) with
  | some mark => s.drop mark.length
  | none => s

/-- The characters of a document are allowed: they are well-formed and none is the replacement
character, no control character but tab and newline occurs, and a carriage return comes before a
newline only. -/
def allowedRunes : List Rune → Bool
  | [] => true
  | .invalid _ :: _ => false
  | .char code _ :: rest =>
    code != 0xFFFD && code != 0x7F && (32 ≤ code || code == 9 || code == 10 || (code == 13 &&
      match rest with
      | .char 10 _ :: _ => true
      | _ => false)) && allowedRunes rest

/-! ### Keys -/

/-- Passes over spaces and tabs. -/
def skipGap : Reader Unit := Reader.skipWhile isGap

/-- Reads one part of a key. -/
def readPart : Reader Bytes := do
  skipGap
  let part ← match ← Reader.peek? with
    | some 34 => do
      Reader.expect 34
      readLine 34
    | some 39 => do
      Reader.expect 39
      readLine 39
    | _ => do
      let part ← Reader.takeWhile isBare
      Reader.require (part ≠ [])
      pure part
  skipGap
  pure part

/-- Reads further parts of a key, each after a dot. -/
def readMoreParts : Nat → Reader Key
  | 0 => pure []
  | fuel + 1 => do
    if ← Reader.accept [Byte.dot] then
      let part ← readPart
      let more ← readMoreParts fuel
      pure (part :: more)
    else pure []

/-- Reads a key and the blanks behind it. -/
def readKey : Reader Key := do
  let first ← readPart
  let more ← readMoreParts (← Reader.remaining).length
  pure (first :: more)

/-! ### Values -/

/-- Passes over blanks, newlines and comments. -/
def skipLines : Nat → Reader Unit
  | 0 => pure ()
  | fuel + 1 => do
    Reader.skipWhile isBlank
    if ← Reader.accept [Byte.hash] then
      Reader.skipWhile fun b => !isNewline b
      skipLines fuel

/-- Passes over all blanks, newlines and comments that come next. -/
def skipBetween : Reader Unit := do skipLines (← Reader.remaining).length

/-- Reads a value without parts that starts with `first`. -/
def readScalar (first : UInt8) : Reader Scalar := do
  if first = Byte.doubleQuote ∨ first = Byte.singleQuote then
    Reader.expect first
    return .text (← readText first)
  else if Byte.isDigit first then readNumber
  else if first = 43 ∨ first = 45 then
    Reader.expect first
    readAfterSign first
  else if ← readNamedFloat then pure .float
  else if ← Reader.accept "true" then pure (.boolean true)
  else if ← Reader.accept "false" then pure (.boolean false)
  else Reader.refuse

mutual

/-- Reads a value. The fuel bounds the values and lists inside each other or after each other. -/
def readValue : Nat → Reader Expr
  | 0 => Reader.refuse
  | fuel + 1 => do
    skipGap
    match ← Reader.peek? with
    | none => Reader.refuse
    | some 91 => do
      Reader.expect Byte.openSquare
      return .list (← readItems fuel)
    | some 123 => do
      Reader.expect Byte.openBrace
      skipGap
      if ← Reader.accept [Byte.closeBrace] then pure (.table [])
      else return .table (← readEntries fuel)
    | some first => return .scalar (← readScalar first)

/-- Reads the items of a list up to its end. -/
def readItems : Nat → Reader (List Expr)
  | 0 => Reader.refuse
  | fuel + 1 => do
    skipBetween
    if ← Reader.accept [Byte.closeSquare] then pure []
    else
      let item ← readValue fuel
      skipBetween
      if ← Reader.accept [Byte.closeSquare] then pure [item]
      else
        Reader.expect 44
        let items ← readItems fuel
        pure (item :: items)

/-- Reads the entries of a table between braces up to its end; there is at least one. -/
def readEntries : Nat → Reader (List (Key × Expr))
  | 0 => Reader.refuse
  | fuel + 1 => do
    let key ← readKey
    Reader.expect Byte.equals
    let value ← readValue fuel
    skipGap
    if ← Reader.accept [Byte.closeBrace] then pure [(key, value)]
    else
      Reader.expect 44
      let entries ← readEntries fuel
      pure ((key, value) :: entries)

end

/-! ### Statements -/

/-- Reads the end of a statement: blanks, a comment, and a newline or the end of the document. -/
def readLineEnd : Reader Unit := do
  skipGap
  if ← Reader.accept [Byte.hash] then Reader.skipWhile fun b => !isNewline b
  match ← Reader.peek? with
  | none => pure ()
  | some b => Reader.require (isNewline b)

/-- Reads one statement. -/
def readStatement : Reader Statement := do
  if ← Reader.accept "[[" then
    let key ← readKey
    Reader.require (← Reader.accept "]]")
    readLineEnd
    pure (.listHeader key)
  else if ← Reader.accept "[" then
    let key ← readKey
    Reader.expect Byte.closeSquare
    readLineEnd
    pure (.header key)
  else
    let key ← readKey
    Reader.expect Byte.equals
    let value ← readValue (2 * (← Reader.remaining).length + 2)
    readLineEnd
    pure (.entry key value)

/-- Reads statements up to the end of the document. -/
def readStatements : Nat → Reader (List Statement)
  | 0 => Reader.refuse
  | fuel + 1 => do
    skipBetween
    match ← Reader.peek? with
    | none => pure []
    | some _ => do
      let statement ← readStatement
      let others ← readStatements fuel
      pure (statement :: others)

/-- The number of bytes at the start of a document that are searched for a zero byte. -/
def zeroSearch : Nat := 6

/-- **The statements of a document.** -/
def parse? (document : Bytes) : Option (List Statement) := do
  let s := dropByteOrderMark document
  if (s.take zeroSearch).contains 0 || !allowedRunes (Rune.decode s) then none
  else
    let (statements, _) ← (readStatements (s.length + 1)).run s
    some statements

end Toml

end Allman
