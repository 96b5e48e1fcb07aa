import Allman.World

/-! # Profiles of a run

A run can be watched by a processor profiler, an execution tracer and a memory profiler. Each
writes to a file of its own. The first two run from the start of a session to its end, and there
can be only one of each kind at a time; the memory profile is taken at the end. A profile is written
to the file that was opened for it, and is lost if another one took its place. What the profiles
hold does not matter here, only that the files are there and are not empty. -/

namespace Allman

/-- The files of a session; an empty path is no file. -/
structure ProfilePaths where
  /-- For the processor profile. -/
  processor : Bytes
  /-- For the memory profile. -/
  memory : Bytes
  /-- For the execution trace. -/
  trace : Bytes
  deriving DecidableEq, Repr

/-- Why a profiler could not be started or ended. -/
inductive ProfileError where
  /-- The file of the processor profile could not be made. -/
  | processorFile (e : FileError)
  /-- A processor profile is being taken already. -/
  | processorBusy
  /-- The file of the trace could not be made. -/
  | traceFile (e : FileError)
  /-- A trace is being taken already. -/
  | tracerBusy
  /-- The memory profile could not be written. -/
  | memoryFile (e : FileError)
  /-- A file could not be closed. -/
  | closing (e : FileError)
  deriving DecidableEq, Repr

namespace ProfileError

/-- The text of an error. -/
def message : ProfileError → Bytes
  | processorFile e => Bytes.ofString "cpu profile: " ++ e.message
  | processorBusy => Bytes.ofString "cpu profile: cpu profiling already in use"
  | traceFile e => Bytes.ofString "runtime trace: " ++ e.message
  | tracerBusy => Bytes.ofString "runtime trace: execution tracer already enabled"
  | memoryFile e => Bytes.ofString "heap profile: " ++ e.message
  | closing e => e.message

/-- The text of several errors, each on a line of its own. -/
def messages (es : List ProfileError) : Bytes := Bytes.joinWith [Byte.newline] (es.map message)

end ProfileError

/-- Profilers that run, with their files. -/
structure ProfileSession where
  /-- The open file of the running processor profile. -/
  processor : Option OpenFile
  /-- The open file of the running trace. -/
  trace : Option OpenFile
  /-- The path of the memory profile. -/
  memory : Option Bytes
  deriving DecidableEq, Repr

namespace ProfileSession

/-- What stands for the bytes of a profile. -/
def placeholder : Bytes := Bytes.ofString "profile\n"

/-- Changes which profilers run. -/
def setProfilers {ε : Type} (f : Profilers → Profilers) : Act ε Unit :=
  modify fun w => { w with profilers := f w.profilers }

/-- Makes the file of a profile. -/
def makeFile (path : Bytes) : Act FileError OpenFile := Act.createFile .tree path 0

/-- Writes a profile that ran and closes its file. A failure to write it goes unnoticed. -/
def closeFile (file : OpenFile) : Act FileError Unit := do
  Act.ignore (Act.fillFile .tree file placeholder)
  Act.call .tree .close file.path

/-- Writes the memory profile. The file is closed in any case. -/
def writeMemory (path : Bytes) : Act ProfileError Unit := do
  let file ← (makeFile path).mapError ProfileError.memoryFile
  let written ← Act.attempt (Act.fillFile .tree file placeholder)
  let closed ← Act.attempt (Act.call .tree .close path)
  match written, closed with
  | .error e, _ => throw (.memoryFile e)
  | .ok _, .error e => throw (.closing e)
  | .ok _, .ok _ => pure ()

/-- The error of an outcome, if there is one. -/
def errorOf {α : Type} : Except ProfileError α → List ProfileError
  | .error e => [e]
  | .ok _ => []

/-- Ends a session: first the trace, then the processor profile, then the memory profile. One
failure does not keep the others from being ended. -/
def stop (s : ProfileSession) {ε : Type} : Act ε (List ProfileError) := do
  let traced ← match s.trace with
    | none => pure (.ok ())
    | some file => do
      setProfilers fun p => { p with tracer := false }
      Act.attempt ((closeFile file).mapError ProfileError.closing)
  let profiled ← match s.processor with
    | none => pure (.ok ())
    | some file => do
      setProfilers fun p => { p with processor := false }
      Act.attempt ((closeFile file).mapError ProfileError.closing)
  let measured ← match s.memory with
    | none => pure (.ok ())
    | some path => Act.attempt (writeMemory path)
  pure (errorOf traced ++ errorOf profiled ++ errorOf measured)

/-- Starts a profiler of one kind, whose file is made first. The file stays, and is empty, when
another profiler of the kind is running. -/
def startOne (path : Bytes) (isBusy : Profilers → Bool) (mark : Profilers → Profilers)
    (fileError : FileError → ProfileError) (busy : ProfileError) : Act ProfileError OpenFile := do
  let file ← (makeFile path).mapError fileError
  if isBusy (← get).profilers then do
    Act.ignore (Act.call .tree .close path)
    throw busy
  else do
    setProfilers mark
    pure file

/-- **Starts a session.** When the tracer cannot be started, the session is ended again. -/
def start (paths : ProfilePaths) : Act ProfileError ProfileSession := do
  let named (path : Bytes) : Option Bytes := if path = [] then none else some path
  let session : ProfileSession := ⟨none, none, named paths.memory⟩
  let session ← match named paths.processor with
    | none => pure session
    | some path => do
      let file ← startOne path (·.processor) (fun p => { p with processor := true })
        .processorFile .processorBusy
      pure { session with processor := some file }
  match named paths.trace with
  | none => pure session
  | some path =>
    match ← Act.attempt
        (startOne path (·.tracer) (fun p => { p with tracer := true }) .traceFile .tracerBusy) with
    | .ok file => pure { session with trace := some file }
    | .error e => do
      let _ ← session.stop
      throw e

end ProfileSession

end Allman
