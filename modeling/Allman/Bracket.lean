import Allman.Bytes

/-! # Brackets and the stack of open ones

Three kinds of bracket pair: braces, parentheses and square brackets. An opening bracket waits on
a `Stack` until a closing one takes it. The stack never looks at the coordinates of its entries,
so they may be of any type. -/

namespace Allman

namespace Bracket

/-- The bracket that closes an opening one. -/
def closerOf? (b : UInt8) : Option UInt8 :=
  if b = Byte.openBrace then some Byte.closeBrace
  else if b = Byte.openParen then some Byte.closeParen
  else if b = Byte.openSquare then some Byte.closeSquare
  else none

/-- The opening bracket that a closing one must take. -/
def openerOf? (b : UInt8) : Option UInt8 :=
  if b = Byte.closeBrace then some Byte.openBrace
  else if b = Byte.closeParen then some Byte.openParen
  else if b = Byte.closeSquare then some Byte.openSquare
  else none

/-- The byte is an opening bracket. -/
def isOpener (b : UInt8) : Bool := (closerOf? b).isSome

end Bracket

/-- An opening bracket that waits to be closed. -/
structure Entry (ι : Type) where
  /-- The opening byte. -/
  opener : UInt8
  /-- Its row. -/
  row : ι
  /-- Its column. -/
  col : ι
  /-- The indentation of the statement that was current when the bracket was met. -/
  indent : ι
  deriving DecidableEq, Repr

/-- The open brackets, the innermost first. -/
structure Stack (ι : Type) where
  /-- The entries, the innermost first. -/
  entries : List (Entry ι)
  deriving DecidableEq, Repr

namespace Stack

variable {ι : Type}

/-- No open bracket. -/
def empty : Stack ι := ⟨[]⟩

/-- Adds an innermost entry. -/
def push (s : Stack ι) (e : Entry ι) : Stack ι := ⟨e :: s.entries⟩

/-- The innermost entry. -/
def peek? (s : Stack ι) : Option (Entry ι) := s.entries.head?

/-- The innermost entry, and the stack without it. -/
def pop (s : Stack ι) : Option (Entry ι) × Stack ι :=
  match s.entries with
  | [] => (none, s)
  | e :: rest => (some e, ⟨rest⟩)

/-- The number of entries. -/
def size (s : Stack ι) : Nat := s.entries.length

/-- All entries, the outermost first. -/
def toList (s : Stack ι) : List (Entry ι) := s.entries.reverse

/-- The number of entries inside the innermost open brace. -/
def groupDepth (s : Stack ι) : Nat :=
  (s.entries.takeWhile fun e => e.opener != Byte.openBrace).length

@[simp] theorem toList_empty : (empty : Stack ι).toList = [] := rfl

@[simp] theorem toList_push (s : Stack ι) (e : Entry ι) : (s.push e).toList = s.toList ++ [e] := by
  simp [toList, push]

@[simp] theorem pop_push (s : Stack ι) (e : Entry ι) : (s.push e).pop = (some e, s) := rfl

end Stack

end Allman
