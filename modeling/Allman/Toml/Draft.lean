import Allman.Toml.Syntax

/-! # Settings documents in the making

A `Draft` is what the statements read so far have said. Its tables are numbered, the document
itself being table zero, and a value that is a table is given by its number: a table between braces
can be reached both from the table that it is written in and from the key that it is given to, and
what is put into it is seen from both.

* No key is given twice. A table that came about only because something was put below it may still
  be given a header of its own.
* A list may be replaced: that is the one way to give a key a second value.
* A table between braces is open under its key while it is read, and a dotted key in it opens
  tables on the way. When it takes the place of a list, it holds each value under the last part of
  the key that the value was given to. -/

namespace Allman

namespace Toml

/-- A value of a draft. -/
inductive Cell where
  /-- A value without parts. -/
  | scalar (s : Scalar)
  /-- A list; what it holds does not matter. -/
  | list
  /-- The table with this number. -/
  | table (number : Nat)
  /-- Tables under one key, of which the last is open and has this number. -/
  | tables (last : Nat)
  deriving DecidableEq, Repr

namespace Cell

/-- The table that can be entered under a value. -/
def number? : Cell → Option Nat
  | table n | tables n => some n
  | _ => none

/-- The value is a list. -/
def isList : Cell → Bool
  | list => true
  | _ => false

end Cell

/-- Values by name, in the order in which the names were first given. -/
abbrev Cells := List (Bytes × Cell)

/-- Gives a name a value, in the place of the one it has. -/
def Cells.set (t : Cells) (name : Bytes) (value : Cell) : Cells :=
  if (t.lookup name).isSome then t.map fun (n, v) => if n = name then (n, value) else (n, v)
  else t ++ [(name, value)]

/-- A document while it is put together. -/
structure Draft where
  /-- The tables by their numbers. -/
  tables : List Cells
  /-- The tables that have no header of their own yet. -/
  implied : List Key
  /-- The keys that hold lists. -/
  lists : List Key
  /-- The keys that were written, the last first. -/
  written : List Key

namespace Draft

/-- Nothing is written yet. -/
def empty : Draft := ⟨[[]], [], [], []⟩

/-! ### Tables -/

/-- The table with a number. -/
def cells (d : Draft) (number : Nat) : Cells := d.tables.getD number []

/-- The value of a name in a table. -/
def get? (d : Draft) (number : Nat) (name : Bytes) : Option Cell := (d.cells number).lookup name

/-- Gives a name in a table a value. -/
def put (d : Draft) (number : Nat) (name : Bytes) (value : Cell) : Draft :=
  { d with tables := d.tables.modify number fun t => t.set name value }

/-- Adds a table, which gets the next number. -/
def add (d : Draft) (t : Cells) : Draft × Nat :=
  ({ d with tables := d.tables ++ [t] }, d.tables.length)

/-- The number of the table under a key, from the table `number` on. -/
def enter? (d : Draft) (number : Nat) : Key → Option Nat
  | [] => some number
  | name :: key => do d.enter? (← (← d.get? number name).number?) key

/-! ### Notes on keys -/

/-- Marks a table as implied. -/
def imply (d : Draft) (key : Key) : Draft := { d with implied := key :: d.implied }

/-- A table is no longer implied. -/
def confirm (d : Draft) (key : Key) : Draft := { d with implied := d.implied.filter (· ≠ key) }

/-- Notes whether a name holds a list. For the empty name, the table it stands in is noted. -/
def note (d : Draft) (context : Key) (name : Bytes) (isList : Bool) : Draft :=
  let named := if name = [] then context else context ++ [name]
  let key := if named = [] then [[]] else named
  let others := d.lists.filter (· ≠ key)
  { d with lists := if isList then key :: others else others }

/-- Notes that a key was written. -/
def write (d : Draft) (key : Key) : Draft := { d with written := key :: d.written }

/-! ### Values -/

/-- Gives a name in the table under `context` a value. A list is replaced, an implied table stays
and is implied no longer, and anything else is in the way. -/
def setValue (d : Draft) (context : Key) (name : Bytes) (value : Cell) : Option Draft := do
  let key := context ++ [name]
  let number ← d.enter? 0 context
  match d.get? number name with
  | none => some (d.put number name value)
  | some _ =>
    if d.lists.contains key then some ((d.confirm key).put number name value)
    else if d.implied.contains key then some (d.confirm key)
    else none

/-- Gives a name its value, and notes what it holds. -/
def finish (d : Draft) (context : Key) (name : Bytes) (value : Cell) : Option Draft := do
  return (← d.setValue context name value).note context name value.isList

/-! ### Opening tables -/

/-- Makes the tables on the way to a key, from the table `number` on; `before` is the way so far.
Gives the number of the last of them. -/
def makeWay (d : Draft) (before : Key) (number : Nat) : Key → Option (Draft × Nat)
  | [] => some (d, number)
  | name :: key => do
    let way := before ++ [name]
    match d.get? number name with
    | some value => d.makeWay way (← value.number?) key
    | none =>
      let (more, new) := (d.imply way).add []
      makeWay (more.put number name (.table new)) way new key

/-- Opens the table under a key. -/
def openTable (d : Draft) (key : Key) : Option Draft := do
  let (made, _) ← d.makeWay [] 0 key.dropLast
  let (more, new) := made.add []
  more.setValue key.dropLast (key.getLastD []) (.table new)

/-- Opens one more table under a key. -/
def openFurtherTable (d : Draft) (key : Key) : Option Draft := do
  let (made, number) ← d.makeWay [] 0 key.dropLast
  let (more, new) := made.add []
  let name := key.getLastD []
  match made.get? number name with
  | none | some (.tables _) => some (more.put number name (.tables new))
  | some _ => none

/-- Opens the tables that the parts of a dotted key name, below a context. -/
def openDotted (d : Draft) (context : Key) : Key → Option Draft
  | [] => some d
  | name :: key => do
    let inner := context ++ [name]
    openDotted (← (d.imply inner).openTable inner) inner key

/-! ### Statements -/

mutual

/-- Works out the value for a name in the table under `context`. Tables between braces are opened
under the name while they are read. -/
def value (d : Draft) (context : Key) (name : Bytes) (inList : Bool) : Expr → Option (Cell × Draft)
  | .scalar s => some (.scalar s, d)
  | .list items => do
    let filled ← listItems (d.note context name true) context name items
    some (.list, filled)
  | .table entries => do
    let inner := context ++ [name]
    let implied := d.imply inner
    let opened ← if inList then implied.openFurtherTable inner else implied.openTable inner
    let (given, filled) ← tableEntries opened inner [] entries
    let (more, new) := filled.add given
    some (.table new, more)

/-- Works out the items of a list. -/
def listItems (d : Draft) (context : Key) (name : Bytes) : List Expr → Option Draft
  | [] => some d
  | item :: items => do
    let (_, after) ← value d context name true item
    listItems after context name items

/-- Works out the entries of a table. Besides, gathers the values under the last parts of their
keys; `given` holds those of the entries before. -/
def tableEntries (d : Draft) (context : Key) (given : Cells) :
    List (Key × Expr) → Option (Cells × Draft)
  | [] => some (given, d)
  | (key, item) :: entries => do
    let inner := context ++ key.dropLast
    let name := key.getLastD []
    let opened ← d.openDotted context key.dropLast
    let (got, after) ← value (opened.write (inner ++ [name])) inner name false item
    tableEntries (← after.finish inner name got) context (given.set name got) entries

end

/-- Takes one statement up. The key is the one of the table that is open. -/
def step (state : Draft × Key) (statement : Statement) : Option (Draft × Key) := do
  let (d, context) := state
  match statement with
  | .header key => return (((← d.openTable key).note key [] false).write key, key)
  | .listHeader key => return (((← d.openFurtherTable key).note key [] false).write key, key)
  | .entry key item => return ((← d.tableEntries context [] [(key, item)]).2, context)

end Draft

end Toml

end Allman
