import Allman.CommandLine.Help
import Allman.Diagnostic.Document
import Allman.Diagnostic.Listing
import Allman.Profile
import Allman.Release
import Allman.Run
import Allman.Settings
import Allman.Sink

/-! # The program

The program reads a command line, lays out the file it names, and prints the result, writes it
back, or only tells whether it would change the file. It acts on a world and on a console, and
ends with an exit status. `Program.execute` is all of it: what remains to be done outside is to
give it the files, and to print what it wrote. -/

namespace Allman

/-- The two outputs of a program. -/
structure Console where
  /-- Where results go. -/
  out : Sink
  /-- Where messages go. -/
  err : Sink
  deriving DecidableEq, Repr

/-- How the program is called. -/
structure Invocation where
  /-- The arguments. -/
  arguments : List Bytes
  /-- The environment. -/
  environment : Environment
  /-- When the run is called off. -/
  patience : Patience
  /-- The clock that times the run. -/
  clock : Clock
  /-- Messages go to a terminal. -/
  terminal : Bool
  deriving DecidableEq, Repr

/-- Why the program ends with another status than zero. -/
inductive Failure where
  /-- There is not exactly one file. -/
  | usage
  /-- The command line cannot be read. -/
  | flags (e : FlagError)
  /-- Writing and checking exclude each other. -/
  | writeAndCheck
  /-- The profilers could not be started. -/
  | profile (e : ProfileError)
  /-- There are no settings. -/
  | settings (e : SettingsError)
  /-- The settings, with the flags on top, are not allowed. -/
  | invalid (e : InvalidSetting)
  /-- The run gave no result. -/
  | run (e : RunError)
  /-- Something could not be printed. -/
  | output
  /-- The file could not be written. -/
  | writing (path : Bytes) (e : FileError)
  /-- The file would change. -/
  | wouldChange
  deriving DecidableEq, Repr

namespace Failure

/-- What is printed about a failure after the name of the program. -/
def message? : Failure → Option Bytes
  | usage | wouldChange => none
  | flags e => some e.message
  | writeAndCheck =>
    some (Bytes.ofString ("if any flags in the group [write check] are set " ++
      "none of the others can be; [check write] were all set"))
  | profile e => some e.message
  | settings e => some (Bytes.ofString "config: " ++ e.message)
  | invalid e => some e.message
  | run e => some e.message
  | output => some (Bytes.ofString Sink.failureMessage)
  | writing path e => some (Bytes.ofString "write " ++ path ++ Bytes.ofString ": " ++ e.message)

end Failure

namespace Program

/-- An action of the program, on its console and in a world. What it did before it failed stays
done. -/
abbrev Shell (α : Type) := ExceptT Failure (StateT Console (StateM World)) α

namespace Shell

/-- An action in the world. -/
def lift {ε α : Type} (explain : ε → Failure) (act : Act ε α) : Shell α :=
  ExceptT.mk do
    match ← StateT.lift (ExceptT.run act) with
    | .ok a => pure (.ok a)
    | .error e => pure (.error (explain e))

/-- An action in the world, and its outcome. -/
def attempt {ε α : Type} (act : Act ε α) : Shell (Except ε α) :=
  ExceptT.mk do
    let outcome ← StateT.lift (ExceptT.run act)
    pure (.ok outcome)

/-- Prints a result. -/
def print (text : Bytes) : Shell Unit := do
  let console ← getThe Console
  let (good, out) := console.out.write text
  set { console with out := out }
  if good then pure () else throw .output

/-- Prints texts as messages until one cannot be printed. -/
def complain (texts : List Bytes) : Shell Unit := do
  let console ← getThe Console
  let (good, err) := console.err.writeAll texts
  set { console with err := err }
  if good then pure () else throw .output

/-- Prints a result, whether or not that succeeds. -/
def tryPrint (text : Bytes) : Shell Unit :=
  modifyThe Console fun console => { console with out := console.out.tryWrite text }

/-- Prints a message, whether or not that succeeds. -/
def tryComplain (text : Bytes) : Shell Unit :=
  modifyThe Console fun console => { console with err := console.err.tryWrite text }

end Shell

/-- A message with the name of the program in front. -/
def named (message : Bytes) : Bytes := Bytes.ofString "reindent: " ++ message ++ [Byte.newline]

/-! ### Settings -/

/-- The settings with the flags on top: a flag that is given always wins. To name a directory for
the cache, or to clear it, is to use it. -/
def mergeFlags (s : Settings) (c : CommandLine) : Settings :=
  { s with
    color := (c.text? .color).getD s.color
    diagnostics := (c.text? .diagnostics).getD s.diagnostics
    maxDiagnostics := (c.number? .maxDiagnostics).getD s.maxDiagnostics
    context := (c.truth? .context).getD s.context
    cacheDir := (c.text? .cacheDir).getD s.cacheDir
    cacheEnabled :=
      (c.truth? .cache).getD s.cacheEnabled || c.has .cacheDir || c.isSet .clearCache }

/-- The settings for a file: from the file that a flag names, or from the nearest one. -/
def settingsFor (c : CommandLine) (path : Bytes) : Shell Settings := do
  let found ← match (c.text? .config).filter (· ≠ []) with
    | some file => Shell.lift .settings (Settings.load file)
    | none => Shell.lift .settings (Settings.discover path)
  let merged := mergeFlags found c
  match merged.invalid? with
  | some e => throw (.invalid e)
  | none => pure merged

/-- Diagnostics are for programs to read. -/
def wantsDocument (s : Settings) : Bool := s.diagnostics == Bytes.ofString "json"

/-- Messages have colours. -/
def wantsColor (s : Settings) (terminal : Bool) : Bool :=
  s.color == Bytes.ofString "on" || (s.color == Bytes.ofString "auto" && terminal)

/-! ### The cache -/

/-- The name of the program's own directory among caches. -/
def cacheName : Bytes := Bytes.ofString "reindent"

/-- Opens the cache, and clears it on request. -/
def openCache (env : Environment) (dir : Bytes) (clear : Bool) : Act CacheError Cache := do
  let dir ← if dir = [] then
      match Cache.defaultDirectory env cacheName with
      | .ok dir => pure dir
      | .error e => throw e
    else pure dir
  let cache ← Cache.openAt dir
  if clear then cache.clear.mapError (CacheError.clearing dir)
  pure cache

/-- The cache that settings ask for, and what went wrong with it. -/
def cacheFor (env : Environment) (s : Settings) (clear : Bool) :
    Shell (Option Cache × Option CacheError) := do
  if s.cacheEnabled then
    match ← Shell.attempt (openCache env s.cacheDir clear) with
    | .ok cache => pure (some cache, none)
    | .error e => pure (none, some (.disabled e))
  else pure (none, none)

/-! ### Results -/

/-- Prints the diagnostics of a run. -/
def showDiagnostics (s : Settings) (color : Bool) (r : RunResult) : Shell Unit := do
  if wantsDocument s then
    Shell.complain [(document r.source.path ⟨true, 0⟩ r.bag.items).indented]
  else
    Shell.complain (listing r.source.path (some r.source) ⟨color, s.context⟩ r.bag.items)
    if 0 < r.bag.dropped then
      Shell.tryComplain
        (Bytes.ofString "... " ++ Bytes.ofNat r.bag.dropped ++
          Bytes.ofString " more diagnostics not shown\n")

/-- The permission bits of a file of which nothing is known. -/
def defaultMode : Nat := 0o644

/-- Writes a file in place; it keeps its permission bits. -/
def writeInPlace (path data : Bytes) : Act FileError Unit := do
  let mode ← match ← Act.attempt (Act.stat .tree path) with
    | .ok node => pure node.mode
    | .error (_ : FileError) => pure defaultMode
  Act.writeFile .tree path data mode

/-- What is done with the result. Checking comes before writing, and writing before printing. -/
def deliver (c : CommandLine) (path : Bytes) (r : RunResult) : Shell Unit := do
  if c.isSet .check then
    if r.changed then
      if !c.isSet .quiet then
        Shell.tryComplain (named (r.source.path ++ Bytes.ofString ": would re-indent"))
      throw .wouldChange
  else if c.isSet .write then
    if r.changed then Shell.lift (.writing path) (writeInPlace path r.output)
  else Shell.print r.output

/-- Lays out one file. -/
def layOut (inv : Invocation) (c : CommandLine) (path : Bytes) : Shell Unit := do
  let settings ← settingsFor c path
  let timed := c.isSet .timings
  let (cache, openError) ← cacheFor inv.environment settings (c.isSet .clearCache)
  let request : RunRequest :=
    { path, maxDiagnostics := settings.maxDiagnostics, cache
      watch := if timed then some ⟨inv.clock, .empty⟩ else none
      timingDiagnostic := wantsDocument settings }
  let performed ← Shell.lift .run (Run.perform request inv.patience)
  let result := match openError with
    | none => performed
    | some e => { performed with bag := performed.bag.warnOfCache e }
  if !c.isSet .quiet then showDiagnostics settings (wantsColor settings inv.terminal) result
  if timed && !wantsDocument settings then Shell.tryComplain result.timing.summary
  deliver c path result

/-- Lays out one file while the profilers run. -/
def layOutProfiled (inv : Invocation) (c : CommandLine) (path : Bytes) : Shell Unit := do
  let text (f : Flag) : Bytes := (c.text? f).getD []
  let session ← Shell.lift .profile
    (ProfileSession.start ⟨text .cpuProfile, text .memProfile, text .runtimeTrace⟩)
  let outcome ← ExceptT.mk do
    let outcome ← ExceptT.run (layOut inv c path)
    pure (.ok outcome)
  let errors ← Shell.lift id session.stop
  if errors ≠ [] then Shell.tryComplain (named (ProfileError.messages errors))
  match outcome with
  | .ok _ => pure ()
  | .error e => throw e

/-- The whole program. Help comes before the version, and both before anything else.

There are no commands: every argument that is no flag names a file. Requests of a shell for
completions, by the first argument `completion`, `__complete` or `__completeNoDesc`, are to be
answered before the program is run. What is said of all paths here is not meant for these words. -/
def dispatch (inv : Invocation) : Shell Unit := do
  match CommandLine.ofArguments inv.arguments with
  | .error e => throw (.flags e)
  | .ok c =>
    if c.isSet .help then Help.pieces.forM Shell.tryPrint
    else if c.isSet .version then do
      Shell.print (Release.current.describe false)
      Shell.print [Byte.newline]
    else match c.arguments with
      | [path] =>
        if c.has .write && c.has .check then throw .writeAndCheck
        else layOutProfiled inv c path
      | _ => throw .usage

/-- Prints what there is to say about a failure. -/
def explain (e : Failure) (console : Console) : Console :=
  let text := match e with
    | .usage => Bytes.ofString Help.usage
    | _ => (e.message?.map named).getD []
  if text = [] then console else { console with err := console.err.tryWrite text }

/-- **Runs the program**: gives its exit status, its console and the world afterwards. -/
def execute (inv : Invocation) (console : Console) (w : World) : Nat × Console × World :=
  let ((outcome, console), w) := ((ExceptT.run (dispatch inv)).run console).run w
  match outcome with
  | .ok _ => (0, console, w)
  | .error e => (1, explain e console, w)

end Program

end Allman
