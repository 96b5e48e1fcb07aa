import Allman.Text.Quoted
import Allman.Toml.Document
import Allman.Unicode.Space
import Allman.World

/-! # Settings

Settings say how results are shown and whether they are cached. They come from a settings file:
the nearest one on the way from the directory of a source file up to the root, or a file that is
named. What the file does not say keeps its default.

* `Settings.find` looks for the nearest settings file.
* `Settings.load` reads one, and refuses what it does not know.
* `Settings.invalid?` says what is wrong with settings, whatever they came from. -/

namespace Allman

/-- How results are shown and kept. -/
structure Settings where
  /-- Whether to use colours: `auto`, `on` or `off`. -/
  color : Bytes
  /-- The form of diagnostics: `text` or `json`. -/
  diagnostics : Bytes
  /-- How many diagnostics to show; zero leaves it to the program. -/
  maxDiagnostics : Int
  /-- Show the line of each diagnostic. -/
  context : Bool
  /-- Keep results, and use those that are kept. -/
  cacheEnabled : Bool
  /-- The directory of the cache; empty for the usual one. -/
  cacheDir : Bytes
  /-- The file the settings were read from; empty if there was none. -/
  path : Bytes
  deriving DecidableEq, Repr

/-- What is wrong with settings. -/
inductive InvalidSetting where
  /-- No way to use colours. -/
  | color (got : Bytes)
  /-- No form of diagnostics. -/
  | diagnostics (got : Bytes)
  /-- Fewer than no diagnostics. -/
  | negativeMaximum
  deriving DecidableEq, Repr

namespace InvalidSetting

/-- The text of an error. -/
def message : InvalidSetting → Bytes
  | color got => Bytes.ofString "[output].color must be auto, on or off, got " ++ quoted got
  | diagnostics got =>
    Bytes.ofString "[output].diagnostics must be text or json, got " ++ quoted got
  | negativeMaximum => Bytes.ofString "[output].max_diagnostics must not be negative"

end InvalidSetting

/-- Why there are no settings. -/
inductive SettingsError where
  /-- The file could not be read. -/
  | unreadable (e : FileError)
  /-- It could not be told whether there is a file. -/
  | unknown (candidate : Bytes) (e : FileError)
  /-- The file is no settings document, or a value is of the wrong kind. -/
  | malformed (path : Bytes)
  /-- The file has a key that means nothing. -/
  | unknownKey (path : Bytes) (key : Toml.Key)
  /-- The file names no directory for the cache, but an empty text. -/
  | emptyCacheDir (path : Bytes)
  /-- A value is not one of those allowed. -/
  | invalid (path : Bytes) (cause : InvalidSetting)
  deriving DecidableEq, Repr

namespace SettingsError

/-- What is said of a document that is malformed. -/
def malformedMessage : String := "malformed document"

/-- The text of an error. -/
def message : SettingsError → Bytes
  | unreadable e => e.message
  | unknown candidate e =>
    Bytes.ofString "failed to stat " ++ quoted candidate ++ Bytes.ofString ": " ++ e.message
  | malformed path => path ++ Bytes.ofString ": failed to parse TOML: " ++ malformedMessage
  | unknownKey path key => path ++ Bytes.ofString ": unknown key " ++ quoted (Toml.keyText key)
  | emptyCacheDir path => path ++ Bytes.ofString ": [cache].dir must not be empty"
  | invalid path cause => path ++ Bytes.ofString ": " ++ cause.message

/-- The error says that there is no such file. -/
def isNotFound : SettingsError → Bool
  | unreadable e | unknown _ e => e.isNotFound
  | _ => false

end SettingsError

namespace Settings

/-- The settings when no file says otherwise. -/
def default : Settings :=
  { color := "auto", diagnostics := "text", maxDiagnostics := 100, context := false,
    cacheEnabled := false, cacheDir := [], path := [] }

/-- The first thing that is wrong with settings. -/
def invalid? (s : Settings) : Option InvalidSetting :=
  if ¬[Bytes.ofString "auto", "on", "off"].contains s.color then some (.color s.color)
  else if ¬[Bytes.ofString "text", "json"].contains s.diagnostics then
    some (.diagnostics s.diagnostics)
  else if s.maxDiagnostics < 0 then some .negativeMaximum
  else none

/-! ### Documents -/

/-- A code point in the form in which names are compared: capital letters count as small ones, and
so do the long s and the Kelvin sign. -/
def foldCode (code : Nat) : Nat :=
  if 65 ≤ code ∧ code ≤ 90 then code + 32
  else if code = 0x17F then 115
  else if code = 0x212A then 107
  else code

/-- The name in the document means the field. -/
def means (name : Bytes) (field : String) : Bool :=
  (Rune.decode name).map (fun r => foldCode r.code) == (Bytes.ofString field).map (·.toNat)

/-- The table of the document that holds how results are shown. -/
def outputTable : String := "output"

/-- The table of the document that holds how results are kept. -/
def cacheTable : String := "cache"

/-- The fields of a table by their names. -/
def fieldsOf (table : String) : List String :=
  if table = outputTable then ["color", "diagnostics", "max_diagnostics", "context"]
  else if table = cacheTable then ["enabled", "dir"]
  else []

/-- Takes one entry of a table up. An entry that means nothing changes nothing, and one of the wrong
kind is refused. -/
def takeEntry (table : String) (s : Settings) (entry : Bytes × Toml.Value) : Option Settings :=
  match (fieldsOf table).find? (means entry.1), entry.2 with
  | none, _ => some s
  | some "color", .scalar (.text t) => some { s with color := t }
  | some "diagnostics", .scalar (.text t) => some { s with diagnostics := t }
  | some "max_diagnostics", .scalar (.integer n) => some { s with maxDiagnostics := n }
  | some "context", .scalar (.boolean b) => some { s with context := b }
  | some "enabled", .scalar (.boolean b) => some { s with cacheEnabled := b }
  | some "dir", .scalar (.text t) => some { s with cacheDir := t }
  | some _, _ => none

/-- Takes one table up. -/
def takeTable (s : Settings) (entry : Bytes × Toml.Value) : Option Settings :=
  match [outputTable, cacheTable].find? (means entry.1), entry.2 with
  | none, _ => some s
  | some table, .table entries => entries.foldlM (takeEntry table) s
  | some _, _ => none

/-- The keys of a document that mean something. -/
def knownKeys (root : Toml.Table) : List Toml.Key :=
  root.flatMap fun (name, value) =>
    match [outputTable, cacheTable].find? (means name), value with
    | some table, .table entries =>
      [name] :: (entries.filter fun e => (fieldsOf table).any (means e.1)).map fun e => [name, e.1]
    | _, _ => []

/-- The first key of a document that means nothing. -/
def unknownKey? (d : Toml.Document) : Option Toml.Key :=
  d.keys.find? fun key => !(knownKeys d.root).contains key

/-- The settings in a text, on top of the default ones. -/
def ofText (path text : Bytes) : Except SettingsError Settings :=
  match (do
    let d ← Toml.document? text
    let s ← d.root.foldlM takeTable default
    some (d, s)) with
  | none => .error (.malformed path)
  | some (d, s) =>
    match unknownKey? d with
    | some key => .error (.unknownKey path key)
    | none =>
      if d.defines [cacheTable, "dir"] ∧ Bytes.isBlank s.cacheDir then .error (.emptyCacheDir path)
      else match s.invalid? with
        | some cause => .error (.invalid path cause)
        | none => .ok { s with path := path }

/-! ### Files -/

/-- The name of a settings file. -/
def fileName : String := ".reindent.toml"

/-- The places where the settings for a directory may be, the nearest first. -/
def candidates (directory dir : Bytes) : List Bytes :=
  let start := Path.absolute directory dir
  (Path.ancestors start.length start).map fun above => Path.join [above, fileName]

/-- The first of the paths at which there is something. -/
def firstPresent : List Bytes → Act SettingsError (Option Bytes)
  | [] => pure none
  | path :: others => do
    match ← Act.attempt (Act.stat .tree path) with
    | .ok _ => pure (some path)
    | .error e => if e.isNotFound then firstPresent others else throw (.unknown path e)

/-- **The nearest settings file**, from a directory upwards. -/
def find (dir : Bytes) : Act SettingsError (Option Bytes) := do
  firstPresent (candidates (← get).directory dir)

/-- **Reads a settings file.** -/
def load (path : Bytes) : Act SettingsError Settings := do
  let text ← (Act.readFile .tree path).mapError SettingsError.unreadable
  match ofText path text with
  | .ok s => pure s
  | .error e => throw e

/-- The settings that govern a file. -/
def discover (file : Bytes) : Act SettingsError Settings := do
  match ← find (Path.parent file) with
  | some path => load path
  | none => pure default

end Settings

end Allman
