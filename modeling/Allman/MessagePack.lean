import Allman.Reader

/-! # A binary form for records

Values are written with a byte that says what follows and, where it leaves room, how much.
Integers and lengths take the shortest form; fields of a fixed width always take theirs. Reading
accepts every form of a value: an integer of any width, a text as text or as plain bytes, a record
as a map with names or as an array of its fields, and nothing at all in place of any of them. -/

namespace Allman

namespace MessagePack

/-! ### Numbers as bytes -/

/-- The lowest `width` bytes of a number, the highest of them first. -/
def bigEndian : Nat → Nat → Bytes
  | 0, _ => []
  | width + 1, n => bigEndian width (n / 256) ++ [UInt8.ofNat n]

/-- The number that bytes stand for. -/
def ofBigEndian (s : Bytes) : Nat := s.foldl (fun n b => n * 256 + b.toNat) 0

/-- Reads a number of `width` bytes. -/
def natural (width : Nat) : Reader Nat := do return ofBigEndian (← Reader.take width)

/-- Reads a number of `width` bytes in two's complement. -/
def signed (width : Nat) : Reader Int := do return Int.bmod (← natural width) (Nat.pow 256 width)

/-! ### Writing -/

/-- Nothing. -/
def nothing : Bytes := [0xc0]

/-- A number of eight bits. -/
def writeByte (n : Nat) : Bytes := 0xcc :: bigEndian 1 n

/-- A number of 16 bits. -/
def writeShort (n : Nat) : Bytes := 0xcd :: bigEndian 2 n

/-- A number of 32 bits. -/
def writeWord (n : Nat) : Bytes := 0xce :: bigEndian 4 n

/-- A natural number in the shortest form. -/
def writeNat (n : Nat) : Bytes :=
  if n < 0x80 then [UInt8.ofNat n]
  else if n < 0x100 then writeByte n
  else if n < 0x10000 then writeShort n
  else if n < 0x100000000 then writeWord n
  else 0xcf :: bigEndian 8 n

/-- An integer in the shortest form. -/
def writeInt (n : Int) : Bytes :=
  let complement (width : Nat) : Bytes := bigEndian width (n % (Nat.pow 256 width : Nat)).toNat
  if 0 ≤ n then writeNat n.toNat
  else if -0x20 ≤ n then complement 1
  else if -0x80 ≤ n then 0xd0 :: complement 1
  else if -0x8000 ≤ n then 0xd1 :: complement 2
  else if -0x80000000 ≤ n then 0xd2 :: complement 4
  else 0xd3 :: complement 8

/-- The length of a text. -/
def writeTextLength (n : Nat) : Bytes :=
  if n < 32 then [0xa0 + UInt8.ofNat n]
  else if n < 0x100 then 0xd9 :: bigEndian 1 n
  else if n < 0x10000 then 0xda :: bigEndian 2 n
  else 0xdb :: bigEndian 4 n

/-- A text. -/
def writeText (s : Bytes) : Bytes := writeTextLength s.length ++ s

/-- The length of a list. -/
def writeListLength (n : Nat) : Bytes :=
  if n < 16 then [0x90 + UInt8.ofNat n]
  else if n < 0x10000 then 0xdc :: bigEndian 2 n
  else 0xdd :: bigEndian 4 n

/-- A list. -/
def writeList {α : Type} (write : α → Bytes) (l : List α) : Bytes :=
  writeListLength l.length ++ l.flatMap write

/-- A record of fewer than 16 fields, each with its name and its written value. -/
def writeRecord (fields : List (String × Bytes)) : Bytes :=
  (0x80 + UInt8.ofNat fields.length) :: fields.flatMap fun (name, value) => writeText name ++ value

/-! ### Reading -/

/-- Reads an integer of any form; nothing stands for zero. -/
def readInt : Reader Int := do
  let code ← Reader.byte
  if code ≤ 0x7f then pure code.toNat
  else if 0xe0 ≤ code then pure ((code.toNat : Int) - 256)
  else match code with
    | 0xc0 => pure 0
    | 0xcc => return ← natural 1
    | 0xcd => return ← natural 2
    | 0xce => return ← natural 4
    | 0xcf => return ← natural 8
    | 0xd0 => signed 1
    | 0xd1 => signed 2
    | 0xd2 => signed 4
    | 0xd3 => signed 8
    | _ => Reader.refuse

/-- Reads an integer into a field of `width` bytes without a sign: higher bits are lost. -/
def readField (width : Nat) : Reader Nat := do
  return ((← readInt) % (Nat.pow 256 width : Nat)).toNat

/-- Reads an integer into 64 bits with a sign. -/
def readInt64 : Reader Int := do return Int.bmod (← readInt) 0x10000000000000000

/-- Reads the rest of a length that starts with `code`, for texts and plain bytes. -/
def textLength (code : UInt8) : Reader Nat :=
  if 0xa0 ≤ code ∧ code ≤ 0xbf then pure (code.toNat - 0xa0)
  else match code with
    | 0xc0 => pure 0
    | 0xc4 | 0xd9 => natural 1
    | 0xc5 | 0xda => natural 2
    | 0xc6 | 0xdb => natural 4
    | _ => Reader.refuse

/-- Reads a text; nothing stands for the empty one. -/
def readText : Reader Bytes := do Reader.take (← textLength (← Reader.byte))

/-- What a byte says about a list or a record: how many bytes of length follow, or the length
itself. -/
inductive Extent where
  /-- The length. -/
  | known (n : Nat)
  /-- The length follows in this many bytes. -/
  | following (width : Nat)
  deriving DecidableEq, Repr

/-- The length itself. -/
def Extent.read : Extent → Reader Nat
  | known n => pure n
  | following width => natural width

/-- The byte starts a list. -/
def listExtent? (code : UInt8) : Option Extent :=
  if 0x90 ≤ code ∧ code ≤ 0x9f then some (.known (code.toNat - 0x90))
  else if code = 0xdc then some (.following 2)
  else if code = 0xdd then some (.following 4)
  else none

/-- The byte starts a map. -/
def mapExtent? (code : UInt8) : Option Extent :=
  if 0x80 ≤ code ∧ code ≤ 0x8f then some (.known (code.toNat - 0x80))
  else if code = 0xde then some (.following 2)
  else if code = 0xdf then some (.following 4)
  else none

/-- Reads a list; nothing stands for none. -/
def readList {α : Type} (read : Reader α) : Reader (Option (List α)) := do
  let code ← Reader.byte
  if code = 0xc0 then pure none
  else match listExtent? code with
    | some extent => do
      let n ← extent.read
      let items ← Reader.times read n
      pure (some items)
    | none => Reader.refuse

/-! ### Passing over values -/

/-- Passes over the start of a value of any kind: all of a simple value, and the length of a list
or a map. Gives the number of values inside. -/
def skipHead : Reader Nat := do
  let code ← Reader.byte
  if let some extent := listExtent? code then extent.read
  else if let some extent := mapExtent? code then return 2 * (← extent.read)
  else
    let pass (width : Nat) : Reader Nat := do
      let _ ← Reader.take width
      pure 0
    if code ≤ 0x7f ∨ 0xe0 ≤ code ∨ code = 0xc2 ∨ code = 0xc3 then pure 0
    else match code with
      | 0xcc | 0xd0 => pass 1
      | 0xcd | 0xd1 => pass 2
      | 0xce | 0xd2 | 0xca => pass 4
      | 0xcf | 0xd3 | 0xcb => pass 8
      | 0xd4 => pass 2
      | 0xd5 => pass 3
      | 0xd6 => pass 5
      | 0xd7 => pass 9
      | 0xd8 => pass 17
      | 0xc7 => do pass ((← natural 1) + 1)
      | 0xc8 => do pass ((← natural 2) + 1)
      | 0xc9 => do pass ((← natural 4) + 1)
      | _ => do pass (← textLength code)

/-- Passes over `count` values with all that is inside them. Every step takes a byte, so a text is
passed over when `fuel` is its length. -/
def skipValues : Nat → Nat → Reader Unit
  | _, 0 => pure ()
  | 0, _ + 1 => Reader.refuse
  | fuel + 1, count + 1 => do
    let inside ← skipHead
    skipValues fuel (inside + count)

/-- Passes over one value. -/
def skip : Reader Unit := do skipValues (← Reader.remaining).length 1

/-! ### Records -/

/-- A field of a record: its name, and how its value is put into the record. -/
structure RecordField (σ : Type) where
  /-- The name. -/
  name : String
  /-- Reads the value. -/
  read : σ → Reader σ

/-- Reads `n` names and values. A name that no field has is passed over with its value. -/
def readNamed {σ : Type} (fields : List (RecordField σ)) : Nat → σ → Reader σ
  | 0, record => pure record
  | n + 1, record => do
    let name ← readText
    match fields.find? fun f => Bytes.ofString f.name == name with
    | some f => do
      let changed ← f.read record
      readNamed fields n changed
    | none => do
      skip
      readNamed fields n record

/-- Reads the values of fields in their order. -/
def readInOrder {σ : Type} : List (RecordField σ) → σ → Reader σ
  | [], record => pure record
  | f :: fields, record => do
    let changed ← f.read record
    readInOrder fields changed

/-- **Reads a record** over an older one: names and values, where a field that is not named stays as
it was, or an array of the values of all fields. Nothing and an empty array stand for `blank`. -/
def readRecord {σ : Type} (fields : List (RecordField σ)) (blank old : σ) : Reader σ := do
  let code ← Reader.byte
  if code = 0xc0 then pure blank
  else if let some extent := mapExtent? code then
    do readNamed fields (← extent.read) old
  else if let some extent := listExtent? code then do
    let n ← extent.read
    if n = 0 then pure blank
    else if n = fields.length then readInOrder fields old
    else Reader.refuse
  else Reader.refuse

/-! ### Lists of records -/

/-- A list of records that may be read more than once: the later reading goes over the records of
the earlier one, also over those that a shorter list in between left out. -/
structure Slots (α : Type) where
  /-- The records of the list. -/
  items : List α
  /-- The records behind them that were left out. -/
  spare : List α
  deriving DecidableEq, Repr

/-- No records. -/
def Slots.empty {α : Type} : Slots α := ⟨[], []⟩

/-- Reads `n` records over older ones, and over `blank` where there is none. -/
def readOver {α : Type} (read : α → Reader α) (blank : α) : Nat → List α → Reader (List α)
  | 0, _ => pure []
  | n + 1, old => do
    let first ← read (old.headD blank)
    let others ← readOver read blank n old.tail
    pure (first :: others)

/-- Reads a list of records over an older one. Nothing stands for no records, of which none is
kept. -/
def readSlots {α : Type} (read : α → Reader α) (blank : α) (old : Slots α) : Reader (Slots α) := do
  let code ← Reader.byte
  if code = 0xc0 then pure .empty
  else match listExtent? code with
    | some extent => do
      let n ← extent.read
      let kept := old.items ++ old.spare
      let items ← readOver read blank n kept
      pure ⟨items, kept.drop n⟩
    | none => Reader.refuse

end MessagePack

end Allman
