import Allman.Proofs.CachePlaces
import Allman.Proofs.Shells

/-! # What the parts of the program leave alone

A file keeps its bytes (`Holding`) while the cache stores a record, unless it is a file of the cache
(`Cache.Owns`, `Cache.keeps_put`), and while the cache is cleared, unless it lies in the directory
of the cache (`Cache.keeps_clear`). It keeps them while the profilers are started and ended, unless
a profile is written to it (`ProfileSession.gives_start`, `ProfileSession.keeps_stop`). To look for
settings changes no file at all (`Settings.keeps_discover`), and to lay out a source changes those of
the cache (`Run.keeps_perform`). -/

namespace Allman

/-! ### Digests -/

namespace Digest

theorem length_bigEndian : ∀ count n : Nat, (bigEndian count n).length = count
  | 0, _ => rfl
  | count + 1, n => by
    have ih := length_bigEndian count n
    rw [bigEndian, List.length_cons, ih]

theorem length_foldl {α : Type} {step : List UInt32 → α → List UInt32}
    (h : ∀ state a, (step state a).length = state.length) (inputs : List α) :
    ∀ state : List UInt32, (inputs.foldl step state).length = state.length := by
  induction inputs with
  | nil => intro state; rfl
  | cons a inputs ih =>
    intro state
    rw [List.foldl_cons, ih, h]

theorem length_round (state : List UInt32) (input : UInt32 × UInt32) :
    (round state input).length = state.length := by
  unfold round
  split
  · rfl
  · rfl

theorem length_mix (state : List UInt32) (block : Bytes) :
    (mix state block).length = state.length := by
  unfold mix
  rw [List.length_zipWith, length_foldl length_round, Nat.min_self]

end Digest

theorem length_digest (s : Bytes) : (digest s).length = 32 := by
  have hwords : ∀ state : List UInt32,
      (state.flatMap fun w => Digest.bigEndian 4 w.toNat).length = 4 * state.length := by
    intro state
    simp [List.length_flatMap, Digest.length_bigEndian, Nat.mul_comm]
  unfold digest
  dsimp only
  rw [hwords, Digest.length_foldl Digest.length_mix]
  rfl

/-! ### Files -/

namespace FileSystem

/-- The bytes at a path are the given ones. -/
def Holding (p data : Bytes) (fs : FileSystem) : Prop := fs.data? p = some data

variable {p q data : Bytes} {fs fs' : FileSystem}

theorem Holding.of_key_eq (h : Holding p data fs) (hkey : key p = key q) : Holding q data fs := by
  unfold Holding at h ⊢
  rw [data?_eq] at h ⊢
  rwa [← hkey]

theorem Holding.of_eq_or (h : Holding p data fs) (hp : fs'.dataAt (key p) = fs.dataAt (key p) ∨
    fs.dataAt (key p) = none ∧ fs'.dataAt (key p) = some []) : Holding p data fs' := by
  unfold Holding at h ⊢
  rw [data?_eq] at h ⊢
  rcases hp with heq | ⟨hnone, -⟩
  · rw [heq, h]
  · rw [h] at hnone
    simp at hnone

theorem Holding.makeDirectory (h : Holding p data fs) : Holding p data (fs.makeDirectory q) :=
  h.of_eq_or (grows_makeDirectory fs q (key p))

theorem Holding.create (h : Holding p data fs) (hne : key p ≠ key q) (mode : Nat) :
    Holding p data (fs.create q mode) := h.of_eq_or ((dataAt_create fs q mode).2 (key p) hne)

theorem Holding.setData (h : Holding p data fs) (hne : key p ≠ key q) (other : Bytes) :
    Holding p data (fs.setData q other) :=
  h.of_eq_or (Or.inl (by rw [dataAt_setData, if_neg hne]))

theorem Holding.truncate (h : Holding p data fs) (hne : key p ≠ key q) (mode : Nat) :
    Holding p data (fs.truncate q mode) := by
  unfold FileSystem.truncate
  split
  · exact h.of_eq_or (Or.inl (by rw [dataAt_setKey, if_neg hne]))
  · exact h.create hne mode

theorem Holding.truncate_self (h : Holding p data fs) (mode : Nat) :
    Holding p [] (fs.truncate p mode) := by
  unfold Holding at h ⊢
  unfold FileSystem.truncate
  rcases hnode : fs.get? p with _ | node
  · rw [data?, hnode] at h
    simp at h
  · rw [data?_eq, dataAt_setKey, if_pos rfl]

theorem Holding.fill {file : OpenFile} (h : Holding p data fs) (hne : key p ≠ key file.path)
    (other : Bytes) : Holding p data (fs.fill file other) := by
  refine h.of_eq_or (Or.inl ?_)
  unfold FileSystem.fill dataAt
  rw [getKey?_updateKey, if_neg hne]

theorem Holding.remove (h : Holding p data fs) (hne : key p ≠ key q) :
    Holding p data (fs.remove q) := h.of_eq_or (Or.inl (by rw [dataAt_remove, if_neg hne]))

theorem Holding.takeTree (h : Holding p data fs) (hp : Path.isWithin (key q) (key p) = false)
    (removal : Removal) : Holding p data (fs.takeTree removal q) := by
  refine h.of_eq_or (Or.inl ?_)
  rcases dataAt_takeTree fs removal q (key p) with heq | ⟨hwithin, -⟩
  · exact heq
  · rw [hp] at hwithin
    simp at hwithin

theorem Holding.move {source target : Bytes} (h : Holding p data fs) (hs : key p ≠ key source)
    (ht : key p ≠ key target) : Holding p data (fs.move source target) := by
  rcases hsource : fs.get? source with _ | node
  · unfold FileSystem.move
    rw [hsource]
    exact h
  · have hdata : fs.dataAt (key source) = some node.data := by
      rw [← data?_eq, data?, hsource]
      rfl
    exact h.of_eq_or ((dataAt_move hdata target).2 (key p) hs ht)

end FileSystem

open FileSystem (Holding)

variable {t : Trouble} {P : FileSystem → Prop} {p data : Bytes}

/-! ### The cache -/

namespace Cache

/-- The names of the files of a cache: of a record, or of one that is being written. -/
def IsOwnName (name : Bytes) : Prop :=
  (∃ key : Key, name = entryName key) ∨ ∃ n, name = temporaryName n

/-- **The path is one of a file of the cache.** -/
def Owns (c : Cache) (p : Bytes) : Prop :=
  ∃ b name, IsOwnName name ∧
    FileSystem.key p = FileSystem.key (Path.join [c.dir, folderName b, name])

theorem IsOwnName.isName {name : Bytes} (h : IsOwnName name) : Path.IsName name := by
  rcases h with ⟨key, rfl⟩ | ⟨n, rfl⟩
  · exact isName_entryName _
  · exact isName_temporaryName n

variable {c : Cache}

theorem key_ne_place (hp : ¬ c.Owns p) {b : UInt8} {name : Bytes} (hname : IsOwnName name) :
    FileSystem.key p ≠ FileSystem.key (c.place b name) := by
  intro h
  refine hp ⟨b, name, hname, ?_⟩
  rw [h, join_place c b hname.isName]

theorem IsOwnName.length_le {name : Bytes} (h : IsOwnName name) : 4 ≤ name.length := by
  rcases h with ⟨key, rfl⟩ | ⟨n, rfl⟩
  · obtain ⟨b, s, hkey⟩ := key.exists_cons
    rw [entryName, hkey, ofString_suffix, Bytes.toHex_cons]
    simp
  · rw [temporaryName, ofString_temporary]
    simp

/-- The files of a cache have longer paths than its directory. -/
theorem Owns.length_lt (h : c.Owns p) :
    (Path.stem c.dir).length + 6 < (FileSystem.key p).length := by
  obtain ⟨b, name, hname, hkey⟩ := h
  have hlen := hname.length_le
  rw [hkey, join_place c b hname.isName, key_place c b hname.isName, length_place]
  omega

/-- **To keep a record** changes files of the cache only. -/
theorem keeps_put (hp : ¬ c.Owns p) (key : Key) (record : CacheRecord) :
    Act.Keeps t (Holding p data) (c.put key record) := by
  obtain ⟨b, s, hkey⟩ := key.exists_cons
  have htarget : FileSystem.key p ≠ FileSystem.key (c.fileFor (b :: s)) := by
    rw [fileFor_cons, ← hkey]
    exact key_ne_place hp (Or.inl ⟨key, rfl⟩)
  rw [hkey]
  unfold put
  refine (Act.keeps_call_modifyFiles fun _ h => h.makeDirectory).bind fun _ => ?_
  refine Act.keeps_get.bind fun w => ?_
  dsimp only
  -- whatever name the temporary file gets, it is one of the cache
  obtain ⟨n, hn⟩ := exists_unusedPath c w.files b s
  have htemporary : FileSystem.key p ≠ FileSystem.key (c.place b (temporaryName n)) :=
    key_ne_place hp (Or.inr ⟨n, rfl⟩)
  rw [hn]
  refine (Act.keeps_call .cache .openWrite _).bind fun _ => ?_
  refine (Act.keeps_modifyFiles fun _ h => h.create htemporary fileMode).bind fun _ => ?_
  have hwrite : Act.Keeps t (Holding p data) (Act.writeAndClose .cache
      (c.place b (temporaryName n)) { record with schema := CacheRecord.currentSchema }.encode) := by
    refine (Act.keeps_call .cache .write _).bind fun _ => ?_
    refine (Act.keeps_modifyFiles fun _ h => h.setData htemporary _).bind fun _ => ?_
    exact Act.keeps_call .cache .close _
  have hrename : Act.Keeps t (Holding p data)
      (Act.rename .cache (c.place b (temporaryName n)) (c.fileFor (b :: s))) := by
    refine (Act.keeps_call .cache .rename _).bind fun _ => ?_
    refine (Act.keeps_node _).bind fun _ => ?_
    exact Act.keeps_modifyFiles fun _ h => h.move htemporary htarget
  refine (hwrite.bind fun _ => hrename).attempt.bind fun outcome => ?_
  rcases outcome with e | _
  · have hremove : Act.Keeps t (Holding p data)
        (Act.removeFile .cache (c.place b (temporaryName n))) :=
      Act.keeps_call_modifyFiles fun _ h => h.remove htemporary
    exact hremove.ignore.bind fun _ => Act.keeps_throw e
  · exact Act.keeps_pure _

/-- A search in the cache changes no file. -/
theorem keeps_get (key : Bytes) : Act.Keeps t P (c.get key) := by
  unfold get
  refine (Act.keeps_openFile .cache _).attempt.bind fun outcome => ?_
  rcases outcome with e | text
  · dsimp only
    split
    · exact Act.keeps_pure _
    · exact Act.keeps_throw _
  · refine ((Act.keeps_call .cache .read _).mapError _).bind fun _ => ?_
    rcases CacheRecord.decode? text with _ | record
    · exact Act.keeps_throw _
    · exact Act.keeps_pure _

theorem gives_openAt (dir : Bytes) :
    Act.Gives t (Holding p data) (openAt dir) fun c => c = ⟨dir⟩ := by
  have hmake : Act.Keeps t (Holding p data) (Act.makeDirectory .cache dir) :=
    Act.keeps_call_modifyFiles fun _ h => h.makeDirectory
  exact (hmake.mapError _).gives.bind fun _ _ => Act.gives_pure rfl

/-- **To clear the cache** takes away what lies in its directory, and nothing else. -/
theorem keeps_clear (hp : Path.isWithin (FileSystem.key c.dir) (FileSystem.key p) = false) :
    Act.Keeps t (Holding p data) c.clear := by
  have hremove : Act.Keeps t (Holding p data) (Act.removeTree .cache c.dir) :=
    Act.keeps_removeTree fun _ removal h => h.takeTree hp removal
  exact hremove.bind fun _ => Act.keeps_call_modifyFiles fun _ h => h.makeDirectory

end Cache

/-! ### Settings -/

namespace Settings

theorem keeps_load (path : Bytes) : Act.Keeps t P (load path) := by
  refine ((Act.keeps_readFile .tree path).mapError _).bind fun text => ?_
  rcases ofText path text with e | s
  · exact Act.keeps_throw e
  · exact Act.keeps_pure s

theorem keeps_firstPresent : ∀ paths : List Bytes, Act.Keeps t P (firstPresent paths)
  | [] => Act.keeps_pure none
  | path :: others => by
    have ih := keeps_firstPresent others
    unfold firstPresent
    refine (Act.keeps_stat .tree path).attempt.bind fun outcome => ?_
    rcases outcome with e | node
    · dsimp only
      split
      · exact ih
      · exact Act.keeps_throw _
    · exact Act.keeps_pure _

/-- **To look for settings changes no file.** -/
theorem keeps_discover (file : Bytes) : Act.Keeps t P (discover file) := by
  have hfind : Act.Keeps t P (find (Path.parent file)) :=
    Act.keeps_get.bind fun w => keeps_firstPresent _
  refine hfind.bind fun found => ?_
  rcases found with _ | path
  · exact Act.keeps_pure _
  · exact keeps_load path

end Settings

/-! ### One file -/

namespace Run

theorem keeps_lookup (cache : Option Cache) (content : Bytes) :
    Act.Keeps t P (lookup cache content) := by
  rcases cache with _ | c
  · exact Act.keeps_pure _
  · refine (c.keeps_get (Cache.key content)).attempt.bind fun outcome => ?_
    rcases outcome with e | record
    · exact Act.keeps_pure _
    · exact Act.keeps_pure _

theorem keeps_keep {cache : Option Cache} (hp : ∀ c ∈ cache, ¬ c.Owns p) (source : SourceText)
    (record : CacheRecord) :
    Act.Keeps t (Holding p data) (keep cache source record) := by
  rcases cache with _ | c
  · exact Act.keeps_pure _
  · have hput := @Cache.keeps_put t p data c (hp c rfl)
      ⟨Cache.key source.content, length_digest _⟩ record
    refine hput.attempt.bind fun outcome => ?_
    rcases outcome with e | _
    · exact Act.keeps_pure _
    · exact Act.keeps_pure _

/-- **To lay out a file** changes files of the cache only. -/
theorem keeps_perform {q : RunRequest} (hp : ∀ c ∈ q.cache, ¬ c.Owns p) (patience : Patience) :
    Act.Keeps t (Holding p data) (perform q patience) := by
  have hload : Act.Keeps t (Holding p data) (load q.path) :=
    ((Act.keeps_readFile .tree q.path).mapError _).bind fun _ => Act.keeps_pure _
  unfold perform
  refine Act.Keeps.unless ?_ _ _
  refine hload.bind fun source => (keeps_lookup q.cache source.content).bind fun found => ?_
  rcases found with ⟨_ | record, lookupError⟩
  · refine Act.Keeps.unless ?_ _ _
    exact (keeps_keep hp source _).bind fun _ => Act.keeps_pure _
  · exact Act.keeps_pure _

end Run

/-! ### Profiles -/

namespace ProfileSession

/-- No profile of the session is written to the path. -/
structure Avoids (s : ProfileSession) (p : Bytes) : Prop where
  processor : ∀ file ∈ s.processor, FileSystem.key p ≠ FileSystem.key file.path
  trace : ∀ file ∈ s.trace, FileSystem.key p ≠ FileSystem.key file.path
  memory : ∀ path ∈ s.memory, FileSystem.key p ≠ FileSystem.key path

theorem keeps_setProfilers {ε : Type} (f : Profilers → Profilers) :
    Act.Keeps t P (setProfilers f : Act ε Unit) := fun _ hw hP => ⟨hw, hP⟩

theorem gives_makeFile {path : Bytes} (hp : FileSystem.key p ≠ FileSystem.key path) :
    Act.Gives t (Holding p data) (makeFile path) fun file => file.path = path := by
  refine (Act.keeps_call .tree .create path).gives.bind fun _ _ => ?_
  refine Act.keeps_get.gives.bind fun w _ => ?_
  refine (Act.keeps_modifyFiles fun _ h => h.create hp 0).gives.bind fun _ _ => ?_
  exact Act.gives_pure rfl

theorem keeps_fillFile {file : OpenFile} (hp : FileSystem.key p ≠ FileSystem.key file.path) :
    Act.Keeps t (Holding p data) (Act.fillFile .tree file placeholder) :=
  Act.keeps_call_modifyFiles fun _ h => h.fill hp placeholder

theorem keeps_closeFile {file : OpenFile} (hp : FileSystem.key p ≠ FileSystem.key file.path) :
    Act.Keeps t (Holding p data) (closeFile file) :=
  (keeps_fillFile hp).ignore.bind fun _ => Act.keeps_call .tree .close file.path

theorem keeps_writeMemory {path : Bytes} (hp : FileSystem.key p ≠ FileSystem.key path) :
    Act.Keeps t (Holding p data) (writeMemory path) := by
  refine ((gives_makeFile hp).mapError _).keeps_bind fun file hfile => ?_
  have hfill := @keeps_fillFile t p data file (by rwa [hfile])
  refine hfill.attempt.bind fun written => ?_
  refine (Act.keeps_call .tree .close path).attempt.bind fun closed => ?_
  rcases written with e | _
  · exact Act.keeps_throw _
  · rcases closed with e | _
    · exact Act.keeps_throw _
    · exact Act.keeps_pure _

/-- Ends one profile that may be running. -/
def stopOne {ε : Type} (unmark : Profilers → Profilers) :
    Option OpenFile → Act ε (Except ProfileError Unit)
  | none => pure (.ok ())
  | some file => do
    setProfilers unmark
    Act.attempt ((closeFile file).mapError ProfileError.closing)

/-- Writes the memory profile that may be wanted. -/
def measure {ε : Type} : Option Bytes → Act ε (Except ProfileError Unit)
  | none => pure (.ok ())
  | some path => Act.attempt (writeMemory path)

theorem stop_eq {ε : Type} (s : ProfileSession) : (s.stop : Act ε _) = (do
    let traced ← stopOne (fun p => { p with tracer := false }) s.trace
    let profiled ← stopOne (fun p => { p with processor := false }) s.processor
    let measured ← measure s.memory
    pure (errorOf traced ++ errorOf profiled ++ errorOf measured)) := by
  rcases s with ⟨_ | processor, _ | trace, _ | memory⟩ <;> rfl

theorem keeps_stopOne {ε : Type} {unmark : Profilers → Profilers} {file : Option OpenFile}
    (hp : ∀ f ∈ file, FileSystem.key p ≠ FileSystem.key f.path) :
    Act.Keeps t (Holding p data) (stopOne unmark file : Act ε _) := by
  rcases file with _ | file
  · exact Act.keeps_pure _
  · refine (keeps_setProfilers unmark).bind fun _ => ?_
    exact ((keeps_closeFile (hp file rfl)).mapError _).attempt

/-- **To end a session** changes the files of its profiles only. -/
theorem keeps_stop {ε : Type} {s : ProfileSession} (hs : s.Avoids p) :
    Act.Keeps t (Holding p data) (s.stop : Act ε _) := by
  have hmeasure : Act.Keeps t (Holding p data) (measure s.memory : Act ε _) := by
    rcases hmemory : s.memory with _ | path
    · exact Act.keeps_pure _
    · exact (keeps_writeMemory (hs.memory path hmemory)).attempt
  rw [stop_eq]
  refine (keeps_stopOne hs.trace).bind fun traced => ?_
  refine (keeps_stopOne hs.processor).bind fun profiled => ?_
  exact hmeasure.bind fun measured => Act.keeps_pure _

theorem total_stopOne {ε : Type} (unmark : Profilers → Profilers) (file : Option OpenFile) :
    Act.Total (stopOne unmark file : Act ε _) := by
  rcases file with _ | file
  · exact Act.total_pure _
  · have hset : Act.Total (setProfilers unmark : Act ε Unit) := fun _ => ⟨(), rfl⟩
    exact hset.bind fun _ => Act.total_attempt _

theorem total_stop {ε : Type} (s : ProfileSession) : Act.Total (s.stop : Act ε _) := by
  have hmeasure : Act.Total (measure s.memory : Act ε _) := by
    rcases s.memory with _ | path
    · exact Act.total_pure _
    · exact Act.total_attempt _
  rw [stop_eq]
  refine (total_stopOne _ _).bind fun traced => (total_stopOne _ _).bind fun profiled => ?_
  exact hmeasure.bind fun measured => Act.total_pure _

theorem gives_startOne {path : Bytes} (hp : FileSystem.key p ≠ FileSystem.key path)
    (isBusy : Profilers → Bool) (mark : Profilers → Profilers)
    (fileError : FileError → ProfileError) (busy : ProfileError) :
    Act.Gives t (Holding p data) (startOne path isBusy mark fileError busy)
      fun file => file.path = path := by
  refine ((gives_makeFile hp).mapError _).bind fun file hfile => ?_
  refine Act.keeps_get.gives.bind fun w _ => ?_
  split
  · exact (Act.keeps_call .tree .close path).ignore.gives.bind fun _ _ => Act.gives_throw _
  · exact (keeps_setProfilers mark).gives.bind fun _ _ => Act.gives_pure hfile

/-- The path, unless it is empty. -/
def named (path : Bytes) : Option Bytes := if path = [] then none else some path

/-- The session with a processor profile, if one is wanted. -/
def withProcessor (s : ProfileSession) : Option Bytes → Act ProfileError ProfileSession
  | none => pure s
  | some path => do
    let file ← startOne path (·.processor) (fun p => { p with processor := true })
      .processorFile .processorBusy
    pure { s with processor := some file }

/-- The session with a trace, if one is wanted. -/
def withTrace (s : ProfileSession) : Option Bytes → Act ProfileError ProfileSession
  | none => pure s
  | some path => do
    match ← Act.attempt
        (startOne path (·.tracer) (fun p => { p with tracer := true }) .traceFile .tracerBusy) with
    | .ok file => pure { s with trace := some file }
    | .error e => do
      let _ ← s.stop
      throw e

theorem start_eq (paths : ProfilePaths) : start paths = (do
    let s ← withProcessor ⟨none, none, named paths.memory⟩ (named paths.processor)
    withTrace s (named paths.trace)) := by
  unfold start
  rcases hprocessor : named paths.processor with _ | processor
  · rcases htrace : named paths.trace with _ | trace
    all_goals
      unfold named at hprocessor htrace
      simp only [hprocessor, htrace]
      rfl
  · rw [withProcessor, bind_assoc]
    rcases htrace : named paths.trace with _ | trace
    all_goals
      unfold named at hprocessor htrace
      simp only [hprocessor, htrace]
      rfl

theorem key_ne_of_mem_named {path q : Bytes}
    (hp : path ≠ [] → FileSystem.key p ≠ FileSystem.key path) (hq : q ∈ named path) :
    FileSystem.key p ≠ FileSystem.key q := by
  unfold named at hq
  split at hq
  · simp at hq
  · next hne =>
    obtain rfl : path = q := by simpa using hq
    exact hp hne

theorem gives_withProcessor {s : ProfileSession} {path : Option Bytes} (hs : s.Avoids p)
    (hp : ∀ q ∈ path, FileSystem.key p ≠ FileSystem.key q) :
    Act.Gives t (Holding p data) (withProcessor s path) fun s => s.Avoids p := by
  rcases path with _ | path
  · exact Act.gives_pure hs
  · refine (gives_startOne (hp path rfl) _ _ _ _).bind fun file hfile => Act.gives_pure ?_
    have hne : FileSystem.key p ≠ FileSystem.key file.path := by
      rw [hfile]
      exact hp path rfl
    exact { hs with processor := by simpa using hne }

theorem gives_withTrace {s : ProfileSession} {path : Option Bytes} (hs : s.Avoids p)
    (hp : ∀ q ∈ path, FileSystem.key p ≠ FileSystem.key q) :
    Act.Gives t (Holding p data) (withTrace s path) fun s => s.Avoids p := by
  rcases path with _ | path
  · exact Act.gives_pure hs
  · have hstart := @gives_startOne t p data path (hp path rfl) (·.tracer)
      (fun p => { p with tracer := true }) .traceFile .tracerBusy
    refine hstart.attempt.bind fun outcome houtcome => ?_
    rcases outcome with e | file
    · exact (keeps_stop hs).gives.bind fun _ _ => Act.gives_throw e
    · have hne : FileSystem.key p ≠ FileSystem.key file.path := by
        rw [houtcome file rfl]
        exact hp path rfl
      exact Act.gives_pure { hs with trace := by simpa using hne }

/-- **To start a session** changes the files of its profiles only. -/
theorem gives_start {paths : ProfilePaths}
    (hp : ∀ path ∈ [paths.processor, paths.memory, paths.trace], path ≠ [] →
      FileSystem.key p ≠ FileSystem.key path) :
    Act.Gives t (Holding p data) (start paths) fun s => s.Avoids p := by
  simp only [List.mem_cons, List.not_mem_nil, or_false, forall_eq_or_imp, forall_eq] at hp
  obtain ⟨hprocessor, hmemory, htrace⟩ := hp
  have hempty : (ProfileSession.mk none none (named paths.memory)).Avoids p :=
    ⟨by simp, by simp, fun q hq => key_ne_of_mem_named hmemory hq⟩
  rw [start_eq]
  refine (gives_withProcessor hempty fun q hq => key_ne_of_mem_named hprocessor hq).bind
    fun s hs => ?_
  exact gives_withTrace hs fun q hq => key_ne_of_mem_named htrace hq

end ProfileSession

end Allman
