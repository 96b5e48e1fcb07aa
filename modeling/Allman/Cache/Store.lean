import Allman.Cache.Record
import Allman.SourceText
import Allman.World

/-! # The result cache

A `Cache` is a directory with one file for every text that was laid out. The name of the file is a
key made from the digest of the text, so that two texts share a file only if they are the same. A
record is written to a file of its own first and then moved into place: a reader sees the old
record or the new one, never a part.

* `Cache.put` keeps a record under a key.
* `Cache.get` finds it again. No record, or one of another form, is a miss.
* `Cache.clear` removes everything. -/

namespace Allman

/-- Why the cache did not do what it was asked. -/
inductive CacheError where
  /-- A call on a file failed. -/
  | file (e : FileError)
  /-- The directory could not be made. -/
  | opening (e : FileError)
  /-- The file under a key holds no record, or could not be read to its end. -/
  | undecodable (key : Bytes) (cause : Option FileError)
  /-- No directory was named, and there is no home directory to put it in. -/
  | homeless
  /-- The directory could not be cleared. -/
  | clearing (dir : Bytes) (e : FileError)
  /-- The result for a path could not be kept. -/
  | storing (path : Bytes) (e : FileError)
  /-- The run goes on without a cache. -/
  | disabled (cause : CacheError)
  deriving DecidableEq, Repr

namespace CacheError

/-- What is said of bytes that are no record. -/
def malformedMessage : String := "malformed record"

/-- The text of an error. -/
def message : CacheError → Bytes
  | file e => e.message
  | opening e => Bytes.ofString "cache: " ++ e.message
  | undecodable key cause =>
    Bytes.ofString "cache: decode " ++ key.toHex ++ Bytes.ofString ": " ++
      (cause.map FileError.message).getD (Bytes.ofString malformedMessage)
  | homeless => Bytes.ofString "$HOME is not defined"
  | clearing dir e => Bytes.ofString "clear " ++ dir ++ Bytes.ofString ": " ++ e.message
  | storing path e => Bytes.ofString "cache " ++ path ++ Bytes.ofString ": " ++ e.message
  | disabled cause => Bytes.ofString "cache disabled: " ++ cause.message

end CacheError

/-- What the environment says about places for files. -/
structure Environment where
  /-- The directory for caches of all programs. -/
  cacheHome : Option Bytes
  /-- The home directory. -/
  home : Option Bytes
  deriving DecidableEq, Repr

/-- An open cache. -/
structure Cache where
  /-- Its directory. -/
  dir : Bytes
  deriving DecidableEq, Repr

namespace Cache

/-! ### Places -/

/-- The directory for an application when none is named: below the directory for caches, or else
below the home directory. -/
def defaultDirectory (env : Environment) (app : Bytes) : Except CacheError Bytes :=
  match env.cacheHome.filter (· ≠ []), env.home.filter (· ≠ []) with
  | some base, _ => .ok (Path.join [base, app])
  | none, some home => .ok (Path.join [Path.join [home, ".cache"], app])
  | none, none => .error .homeless

/-- The key of a text: a digest of the form of records and of the digest of the text. -/
def key (content : Bytes) : Bytes :=
  digest
    (Bytes.ofString "reindent/" ++ Bytes.ofNat CacheRecord.currentSchema ++ 0 :: digest content)

/-- The file for a key, in a directory named by the first two digits of the key. -/
def fileFor (c : Cache) (key : Bytes) : Bytes :=
  let name := key.toHex
  Path.join [c.dir, name.take 2, name ++ Bytes.ofString ".mp"]

/-- The name of the `n`th file that is written before it is moved into place. -/
def temporaryName (n : Nat) : Bytes := Bytes.ofString "tmp-" ++ Bytes.ofNat n

/-- A path in a directory where there is no file yet. -/
def unusedPath (fs : FileSystem) (dir : Bytes) : Bytes :=
  let paths := (List.range (fs.nodes.length + 1)).map fun n => Path.join [dir, temporaryName n]
  (paths.find? fun p => (fs.get? p).isNone).getD (Path.join [dir, temporaryName 0])

/-! ### Calls -/

/-- Opens a cache: its directory is made. -/
def openAt (dir : Bytes) : Act CacheError Cache := do
  (Act.makeDirectory .cache dir).mapError CacheError.opening
  pure ⟨dir⟩

/-- The permission bits of a file of the cache. -/
def fileMode : Nat := 0o600

/-- **Keeps a record under a key**, in the present form. -/
def put (c : Cache) (key : Bytes) (record : CacheRecord) : Act FileError Unit := do
  let target := c.fileFor key
  let dir := Path.parent target
  let data := { record with schema := CacheRecord.currentSchema }.encode
  Act.makeDirectory .cache dir
  let temporary := unusedPath (← get).files dir
  Act.call .cache .openWrite temporary
  Act.modifyFiles (·.create temporary fileMode)
  match ← Act.attempt (do
      Act.writeAndClose .cache temporary data
      Act.rename .cache temporary target) with
  | .ok _ => pure ()
  | .error e => do
    Act.ignore (Act.removeFile .cache temporary)
    throw e

/-- **Finds the record under a key.** -/
def get (c : Cache) (key : Bytes) : Act CacheError (Option CacheRecord) := do
  let path := c.fileFor key
  match ← Act.attempt (Act.openFile .cache path) with
  | .error e => if e.isNotFound then pure none else throw (.file e)
  | .ok data => do
    (Act.call .cache .read path).mapError fun e => CacheError.undecodable key (some e)
    match CacheRecord.decode? data with
    | none => throw (.undecodable key none)
    | some record => pure (if record.schema = CacheRecord.currentSchema then some record else none)

/-- Removes everything the cache keeps. -/
def clear (c : Cache) : Act FileError Unit := do
  Act.removeTree .cache c.dir
  Act.makeDirectory .cache c.dir

end Cache

end Allman
