import Allman.Toml.Draft
import Allman.Toml.Parser

/-! # Settings documents

A `Document` is what the statements of a text say: a table of values, and its keys in the order in
which they are written. -/

namespace Allman

namespace Toml

/-- A value of a document. -/
inductive Value where
  /-- A value without parts. -/
  | scalar (s : Scalar)
  /-- A list of values or of tables; what it holds does not matter. -/
  | list
  /-- A table. -/
  | table (entries : List (Bytes × Value))

/-- Values by name. -/
abbrev Table := List (Bytes × Value)

mutual

/-- The table with a number, written out to a depth. -/
def Draft.tableOf (d : Draft) : Nat → Nat → Table
  | 0, _ => []
  | depth + 1, number => (d.cells number).map fun (name, cell) => (name, d.valueOf depth cell)

/-- A value, written out to a depth. -/
def Draft.valueOf (d : Draft) : Nat → Cell → Value
  | _, .scalar s => .scalar s
  | _, .list | _, .tables _ => .list
  | depth, .table number => .table (d.tableOf depth number)

end

/-- A document. -/
structure Document where
  /-- The values. -/
  root : Table
  /-- The keys in the order in which they are written. -/
  keys : List Key

/-- The document of a draft: no table is deeper inside the document than there are tables. -/
def Draft.document (d : Draft) : Document := ⟨d.tableOf d.tables.length 0, d.written.reverse⟩

/-- **The document that a text stands for**, or none if it is malformed or gives a key twice. -/
def document? (text : Bytes) : Option Document := do
  let (draft, _) ← (← parse? text).foldlM Draft.step (Draft.empty, [])
  some draft.document

/-- A name in a table has a value. -/
def Table.defines (t : Table) : Key → Bool
  | [] => false
  | [name] => (t.lookup name).isSome
  | name :: key =>
    match t.lookup name with
    | some (.table entries) => Table.defines entries key
    | _ => false

/-- The key is given a value in the document, or holds a table. -/
def Document.defines (d : Document) (key : Key) : Bool := d.root.defines key

end Toml

end Allman
