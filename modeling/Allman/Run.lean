import Allman.Cache.Store
import Allman.Diagnostic.Bag
import Allman.Reformat

/-! # Laying out one file

A run reads a file, lays it out, or takes the result from the cache if the same text was laid out
before, and gives the text to write out with all diagnostics. It changes no file but those of the
cache, and trouble with the cache is only a warning. -/

namespace Allman

/-- What to do. -/
structure RunRequest where
  /-- The file. -/
  path : Bytes
  /-- How many diagnostics to keep. -/
  maxDiagnostics : Int
  /-- The cache, if there is one. -/
  cache : Option Cache
  /-- What times the run, if it is timed. -/
  watch : Option Stopwatch
  /-- Also report the times as a diagnostic. -/
  timingDiagnostic : Bool
  deriving DecidableEq, Repr

/-- When a run is called off: at the check with this number, and at all later ones. None is
never. -/
abbrev Patience := Option Nat

namespace Patience

/-- The run is called off by the check with a number. -/
def endsBy (p : Patience) (check : Nat) : Bool :=
  match p with
  | none => false
  | some n => n ≤ check

end Patience

/-- Why a run gave no result. -/
inductive RunError where
  /-- It was called off. -/
  | canceled
  /-- The file could not be read. -/
  | load (path : Bytes) (e : FileError)
  deriving DecidableEq, Repr

namespace RunError

/-- The text of an error. -/
def message : RunError → Bytes
  | canceled => Bytes.ofString "context canceled"
  | load path e => Bytes.ofString "load " ++ path ++ Bytes.ofString ": " ++ e.message

end RunError

/-- The result of a run. -/
structure RunResult where
  /-- The file as it was read. -/
  source : SourceText
  /-- The text to write out. -/
  output : Bytes
  /-- It differs from what was read. -/
  changed : Bool
  /-- The rows whose indentation changed. -/
  adjusted : List Int
  /-- The number of brackets nothing closed. -/
  unclosed : Int
  /-- The diagnostics. -/
  bag : Bag
  /-- The result came from the cache. -/
  cacheHit : Bool
  /-- What went wrong with the cache. -/
  cacheError : Option CacheError
  /-- The times. -/
  timing : TimeReport
  deriving DecidableEq, Repr

namespace Bag

/-- The bag with a warning about the cache. There is always room for it. -/
def warnOfCache (b : Bag) (e : CacheError) : Bag :=
  b.force (.warning .cacheFailure ⟨0, 0⟩ e.message)

end Bag

namespace CacheRecord

/-- What is kept of a text that is laid out now: each diagnostic once, in the order in which they
are shown. -/
def ofContent (content : Bytes) : CacheRecord :=
  let result := (reformat content).layout
  { schema := currentSchema
    lines := some result.lines
    adjusted := if result.adjusted = [] then none else some (result.adjusted.map Int.ofNat)
    unclosed := result.leftover.length
    diagnostics := (Filter.empty.through result.diagnostics).mergeSort Diagnostic.le }

end CacheRecord

namespace Run

/-- Reads a file. -/
def load (path : Bytes) : Act RunError SourceText := do
  let content ← (Act.readFile .tree path).mapError (RunError.load path)
  pure ⟨path, content, false⟩

/-- What the cache knows of a text, and what went wrong. -/
def lookup (cache : Option Cache) (content : Bytes) :
    Act RunError (Option CacheRecord × Option CacheError) :=
  match cache with
  | none => pure (none, none)
  | some cache => do
    match ← Act.attempt (cache.get (Cache.key content)) with
    | .ok record => pure (record, none)
    | .error e => pure (none, some e)

/-- Keeps a result, and says what went wrong. -/
def keep (cache : Option Cache) (source : SourceText) (record : CacheRecord) :
    Act RunError (Option CacheError) :=
  match cache with
  | none => pure none
  | some cache => do
    match ← Act.attempt (cache.put (Cache.key source.content) record) with
    | .ok _ => pure none
    | .error e => pure (some (.storing source.path e))

/-- The result that a record stands for. -/
def resultOf (q : RunRequest) (source : SourceText) (record : CacheRecord) (hit : Bool)
    (cacheError : Option CacheError) : RunResult :=
  let output := render (record.lines.getD [])
  let sorted := ((Bag.ofMax q.maxDiagnostics).addAll record.diagnostics).sort
  let bag := match cacheError with
    | none => sorted
    | some e => sorted.warnOfCache e
  let phases := ["load"] ++ (if q.cache.isSome then ["cache"] else []) ++
    (if hit then [] else Reformatter.phases) ++ ["render"]
  let timing := match q.watch with
    | none => TimeReport.empty
    | some watch => (watch.phases phases).report
  { source, output, changed := output != source.content, adjusted := record.adjusted.getD []
    unclosed := record.unclosed
    bag := if q.watch.isSome ∧ q.timingDiagnostic then bag.force (timing.diagnostic [] source.path)
      else bag
    cacheHit := hit, cacheError, timing }

/-- A record from the cache with each of its diagnostics once. -/
def replay (record : CacheRecord) : CacheRecord :=
  { record with diagnostics := Filter.empty.through record.diagnostics }

/-- **Lays out one file.** It can be called off before the file is read, and before it is laid
out. -/
def perform (q : RunRequest) (patience : Patience) : Act RunError RunResult := do
  if patience.endsBy 0 then throw .canceled
  let source ← load q.path
  let (found, lookupError) ← lookup q.cache source.content
  match found with
  | some record => pure (resultOf q source (replay record) true lookupError)
  | none => do
    if patience.endsBy 1 then throw .canceled
    let record := CacheRecord.ofContent source.content
    let keepError ← keep q.cache source record
    pure (resultOf q source record false (lookupError.or keepError))

end Run

end Allman
