import Allman.CommandLine.Program

/-! # The command line

Runs the program on the files of the system. The program is rehearsed on the files that are known,
those it asked for are looked up, and this is repeated until it asks for nothing new. Then it is
run once more: what it printed is printed, and what it changed is written. -/

namespace Allman

namespace Outside

/-- The files of the system, as far as they are known. -/
structure Snapshot where
  /-- What was found. -/
  files : FileSystem
  /-- The paths that were looked up. -/
  known : List Bytes
  /-- The paths that may not be read. -/
  denied : List Bytes

/-- The name of a path for the system; none if it is no valid text. -/
def nameOf? (path : Bytes) : Option String := String.fromUTF8? ⟨path.toArray⟩

/-- Looks a path up. -/
def Snapshot.look (s : Snapshot) (path : Bytes) : IO Snapshot := do
  let seen := { s with known := path :: s.known }
  match nameOf? path with
  | none => pure seen
  | some name =>
    try
      let data ← IO.FS.readBinFile name
      pure { seen with files := seen.files.write path data.toList Program.defaultMode }
    catch
      | .noFileOrDirectory .. => pure seen
      | .permissionDenied .. => pure { seen with denied := path :: seen.denied }
      | _ => pure { seen with files := seen.files.makeDirectory path }

/-- The world of a rehearsal. -/
def Snapshot.world (s : Snapshot) (directory : Bytes) : World :=
  { World.ofFiles s.files with
    directory := directory
    trouble := fun _ _ call path =>
      if call = .openRead ∧ s.denied.contains (FileSystem.key path) then some .notPermitted
      else none }

/-- Runs the program on what is known. -/
def run (inv : Invocation) (directory : Bytes) (s : Snapshot) : Nat × Console × World :=
  Program.execute inv ⟨.ofRoom none, .ofRoom none⟩ (s.world directory)

/-- Rehearses the program until it asks for no path that is not known, or the fuel is used up. -/
def rehearse (inv : Invocation) (directory : Bytes) : Nat → Snapshot → IO Snapshot
  | 0, s => pure s
  | fuel + 1, s => do
    let (_, _, w) := run inv directory s
    let asked := (w.calls.map fun (_, path) => FileSystem.key path).eraseDups
    match asked.filter fun path => !s.known.contains path with
    | [] => pure s
    | fresh => rehearse inv directory fuel (← fresh.foldlM Snapshot.look s)

/-- Does to a path of the system what a function does to its name, if it has one. -/
def withName (path : Bytes) (f : String → IO Unit) : IO Unit :=
  match nameOf? path with
  | some name => f name
  | none => pure ()

/-- Writes what changed. Directories that were cleared are removed first. -/
def settle (before : FileSystem) (w : World) : IO Unit := do
  let cleared := w.calls.filterMap fun (call, path) =>
    if call = .removeTree then some path else none
  let present := cleared.filter fun path => (before.get? path).isSome
  present.forM fun path => withName path fun name => IO.FS.removeDirAll name
  let base := cleared.foldl FileSystem.removeTree before
  base.nodes.forM fun (path, node) => do
    if (w.files.getKey? path).isNone && !node.isDirectory then
      withName path fun name => IO.FS.removeFile name
  w.files.nodes.forM fun (path, node) => do
    if base.getKey? path != some node then
      withName path fun name =>
        if node.isDirectory then IO.FS.createDirAll name
        else IO.FS.writeBinFile name ⟨node.data.toArray⟩

/-- How often the program is rehearsed at most. -/
def rehearsals : Nat := 1000

/-- The phases of a run that share the time of the rehearsals evenly. -/
def phases : Nat := 4

end Outside

end Allman

open Allman

/-- Runs the program with the arguments of the command line. -/
def main (args : List String) : IO UInt32 := do
  let environment : Environment :=
    ⟨(← IO.getEnv "XDG_CACHE_HOME").map Bytes.ofString, (← IO.getEnv "HOME").map Bytes.ofString⟩
  let directory := Bytes.ofString (← IO.currentDir).toString
  let out ← IO.getStdout
  let err ← IO.getStderr
  let inv : Invocation :=
    ⟨args.map Bytes.ofString, environment, none, ⟨0, 0⟩, ← err.isTty⟩
  let start ← IO.monoNanosNow
  let s ← Outside.rehearse inv directory Outside.rehearsals ⟨.empty, [], []⟩
  let elapsed := (← IO.monoNanosNow) - start
  let timed := { inv with clock := ⟨start, elapsed / Outside.phases⟩ }
  let (status, console, w) := Outside.run timed directory s
  Outside.settle s.files w
  err.write ⟨console.err.written.toArray⟩
  out.write ⟨console.out.written.toArray⟩
  out.flush
  return status.toUInt32
