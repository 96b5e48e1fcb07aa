import Allman.Proofs.Stages

/-! # Files that a run leaves alone

A file is apart from a run (`Apart`) if it is no file of the cache in use, does not lie in a
directory that is cleared, and is written no profile. A run that does not write in place changes no
such file (`execute_untouched`). A run that fails changes none either, and prints no result, except
that the source itself may be cut short: it is emptied before it is written, so that a fault in
between, or at the end, is not undone (`execute_failed`).

Both exceptions are real. To clear the cache is to remove its directory with everything in it, also
sources (`not_untouched_cleared`), and a source that cannot be written is lost
(`not_kept_unwritable`). -/

namespace Allman

namespace Program

open FileSystem (Holding)

/-! ### Files apart -/

/-- **The cache in use**, if there is one: that of the settings which the run finds. -/
def cacheUsed (inv : Invocation) (c : CommandLine) (w : World) : Option Cache :=
  match c.arguments, w.run (ProfileSession.start (profilePaths c)) with
  | [path], (.ok _, w') =>
    match (w'.run (settled c path)).1 with
    | .ok s => cacheAt inv.environment s
    | .error _ => none
  | _, _ => none

/-- The file is not touched by the cache or by a profiler. -/
structure Apart (inv : Invocation) (c : CommandLine) (w : World) (p : Bytes) : Prop where
  cache : ∀ cache ∈ cacheUsed inv c w, Spared cache (c.isSet .clearCache) p
  profiles : ∀ path ∈ [(profilePaths c).processor, (profilePaths c).memory, (profilePaths c).trace],
    path ≠ [] → FileSystem.key p ≠ FileSystem.key path

/-- A run ends before the result is delivered, or delivers one; then the profilers are ended, which
keeps the bytes of the file, whatever they are. -/
theorem dispatch_cases {inv : Invocation} {c : CommandLine} {path : Bytes} {w : World}
    {p data : Bytes} (h : Selects inv c path) (hp : Apart inv c w p)
    (hdata : Holding p data w.files) (console : Console) :
    (∃ e console' w', (dispatch inv).run console w = (.error e, console', w') ∧
      Holding p data w'.files) ∨
    ∃ r console₁ w₁ console₂ w₂, w₁.trouble = w.trouble ∧
      Holding p data w₁.files ∧
      (dispatch inv).run console w = (((deliver c path r).run console₁ w₁).1, console₂, w₂) ∧
      ∀ d, Holding p d ((deliver c path r).run console₁ w₁).2.2.files →
        Holding p d w₂.files := by
  rw [dispatch_of_selects h]
  have hstart := @ProfileSession.gives_start w.trouble p data _ hp.profiles w rfl hdata
  rcases hrun : w.run (ProfileSession.start (profilePaths c)) with ⟨e | session, w₁⟩
  · rw [hrun] at hstart
    exact Or.inl ⟨_, console, w₁, run_layOutProfiled_error hrun, hstart.2.1⟩
  · rw [hrun] at hstart
    obtain ⟨htrouble, hheld, havoids⟩ := hstart
    have hcache : ∀ s, (w₁.run (settled c path)).1 = .ok s →
        ∀ cache ∈ cacheAt inv.environment s, Spared cache (c.isSet .clearCache) p := by
      intro s hs cache hmem
      refine hp.cache cache ?_
      unfold cacheUsed
      rw [h.arguments, hrun]
      dsimp only
      rw [hs]
      exact hmem
    have hstop : ∀ (w₂ : World) (d : Bytes), Holding p d w₂.files →
        Holding p d (w₂.run (session.stop : Act Failure _)).2.files :=
      fun w₂ d hd => (ProfileSession.keeps_stop (havoids session rfl) w₂ rfl hd).2
    obtain ⟨err, hprofiled⟩ := @run_layOutProfiled_ok inv c path console w w₁ session hrun
    obtain ⟨console', w', htrouble', hheld', hend⟩ := layOut_cases hcache hheld console
    rw [hprofiled]
    rcases hend with ⟨e, hlayOut⟩ | ⟨r, hlayOut⟩
    · rw [hlayOut]
      exact Or.inl ⟨e, _, _, rfl, hstop w' data hheld'⟩
    · rw [hlayOut]
      exact Or.inr ⟨r, console', w', _, _, htrouble'.trans htrouble, hheld', rfl, hstop _⟩

/-! ### Runs that write nothing in place -/

/-- **A run that writes nothing in place leaves all other files alone.** Without profiles, every
file that is none of the cache in use has its bytes afterwards; if the cache is cleared, every file
that does not lie in its directory. -/
theorem execute_untouched {inv : Invocation} {c : CommandLine}
    (hread : CommandLine.ofArguments inv.arguments = .ok c) (hwrite : c.isSet .write = false)
    (hprofiles : profilePaths c = ⟨[], [], []⟩) (console : Console) {w : World} {p data : Bytes}
    (hdata : w.files.data? p = some data)
    (hown : ∀ cache, cacheUsed inv c w = some cache → ¬ cache.Owns p)
    (hclear : c.isSet .clearCache = true → ∀ cache, cacheUsed inv c w = some cache →
      Path.isWithin (FileSystem.key cache.dir) (FileSystem.key p) = false) :
    (execute inv console w).2.2.files.data? p = some data := by
  have hp : Apart inv c w p := by
    refine ⟨fun cache hcache => ⟨hown cache hcache, fun h => hclear h cache hcache⟩, ?_⟩
    rw [hprofiles]
    simp
  have hfiles : Holding p data ((dispatch inv).run console w).2.2.files := by
    by_cases hselects : ∃ c' path, Selects inv c' path
    · obtain ⟨c', path, h⟩ := hselects
      obtain rfl : c = c' := Except.ok.inj (hread.symm.trans h.read)
      rcases dispatch_cases h hp hdata console with
        ⟨e, console', w', hrun, hheld⟩ | ⟨r, console₁, w₁, console₂, w₂, -, hheld, hrun, hstop⟩
      · rw [hrun]
        exact hheld
      · rw [hrun]
        refine hstop data ?_
        rw [world_deliver path r (Or.inr hwrite)]
        exact hheld
    · push Not at hselects
      obtain ⟨outcome, console', hrun, -⟩ := dispatch_idle hselects console w
      rw [hrun]
      exact hdata
  rw [world_execute]
  exact hfiles

/-- The command line that clears the cache in a directory. -/
def clearing (dir path : Bytes) : CommandLine :=
  ⟨[(.clearCache, .truth true), (.cacheDir, .text dir)], [path]⟩

/-- A cache in a directory of its own is cleared without harm to the source. -/
theorem execute_untouched_cleared :
    (execute (calledWith ["--cache-dir", "/c", "--clear-cache", "/a.cxx"]) freshConsole
      (sourceWorld "/a.cxx")).2.2.files.data? "/a.cxx" = some hangingText := by
  have hused : cacheUsed (calledWith ["--cache-dir", "/c", "--clear-cache", "/a.cxx"])
      (clearing "/c" "/a.cxx") (sourceWorld "/a.cxx") = some ⟨"/c"⟩ := by decide +kernel
  refine execute_untouched (c := clearing "/c" "/a.cxx") (by decide +kernel) (by decide +kernel)
    (by decide +kernel) freshConsole (by decide +kernel) ?_ ?_
  · intro cache hcache hown
    obtain rfl : (⟨"/c"⟩ : Cache) = cache := Option.some.inj (hused.symm.trans hcache)
    have hlt := hown.length_lt
    exact absurd hlt (by decide +kernel)
  · intro _ cache hcache
    obtain rfl : (⟨"/c"⟩ : Cache) = cache := Option.some.inj (hused.symm.trans hcache)
    decide +kernel

/-- **A source in the directory of the cache is lost when the cache is cleared**, and it is no file
of the cache. -/
theorem not_untouched_cleared :
    CommandLine.ofArguments ["--cache-dir", "/src", "--clear-cache", "/src/a.cxx"] =
      .ok (clearing "/src" "/src/a.cxx") ∧
    (clearing "/src" "/src/a.cxx").isSet .write = false ∧
    profilePaths (clearing "/src" "/src/a.cxx") = ⟨[], [], []⟩ ∧
    cacheUsed (calledWith ["--cache-dir", "/src", "--clear-cache", "/src/a.cxx"])
      (clearing "/src" "/src/a.cxx") (sourceWorld "/src/a.cxx") = some ⟨"/src"⟩ ∧
    ¬ (Cache.mk "/src").Owns "/src/a.cxx" ∧
    (sourceWorld "/src/a.cxx").files.data? "/src/a.cxx" = some hangingText ∧
    (execute (calledWith ["--cache-dir", "/src", "--clear-cache", "/src/a.cxx"]) freshConsole
      (sourceWorld "/src/a.cxx")).2.2.files.data? "/src/a.cxx" = none := by
  refine ⟨by decide +kernel, by decide +kernel, by decide +kernel, by decide +kernel,
    fun hown => ?_, by decide +kernel, by decide +kernel⟩
  have hlt := hown.length_lt
  exact absurd hlt (by decide +kernel)

/-! ### Runs that fail -/

/-- The source at a path was cut short: it is empty after a fault in writing it, or there was a
fault in closing it. -/
def CutShort (t : Trouble) (path : Bytes) (fs : FileSystem) : Prop :=
  (∃ n e, t .tree n .write path = some e) ∧ Holding path [] fs ∨
    ∃ n e, t .tree n .close path = some e

section Deliver

variable {t : Trouble} {p data : Bytes}

/-- **A source that cannot be written in place** keeps its bytes, or is cut short. -/
theorem under_writeInPlace (path output : Bytes) :
    Act.Under t (Holding p data) (writeInPlace path output) fun r fs => ∀ e, r = .error e →
      Holding p data fs ∨ FileSystem.key p = FileSystem.key path ∧ CutShort t path fs := by
  have hmode : ∀ mode, Act.Under t (Holding p data) (Act.writeFile .tree path output mode)
      fun r fs => ∀ e, r = .error e →
        Holding p data fs ∨ FileSystem.key p = FileSystem.key path ∧ CutShort t path fs := by
    intro mode
    by_cases hkey : FileSystem.key p = FileSystem.key path
    · -- from here on the source is empty until it is written
      refine Act.Under.bind (Act.keeps_call .tree .openWrite path) (fun _ _ h _ _ => Or.inl h)
        fun _ => ?_
      refine Act.under_modifyFiles_bind (fun _ h => (h.of_key_eq hkey).truncate_self mode) ?_
      refine (Act.under_call .tree .write path).bind (fun e fs h _ _ => ?_) fun _ => ?_
      · exact Or.inr ⟨hkey, Or.inl ⟨(h.2 e rfl).imp fun n hn => ⟨e, hn⟩, h.1⟩⟩
      refine Act.under_modifyFiles_bind (S := fun _ => True) (fun _ _ => trivial) ?_
      refine (Act.under_call .tree .close path).mono fun r fs h e he => ?_
      exact Or.inr ⟨hkey, Or.inr ((h.2 e he).imp fun n hn => ⟨e, hn⟩)⟩
    · have hkeeps : Act.Keeps t (Holding p data) (Act.writeFile .tree path output mode) := by
        refine (Act.keeps_call .tree .openWrite path).bind fun _ => ?_
        refine (Act.keeps_modifyFiles fun _ h => h.truncate hkey mode).bind fun _ => ?_
        refine (Act.keeps_call .tree .write path).bind fun _ => ?_
        refine (Act.keeps_modifyFiles fun _ h => h.setData hkey output).bind fun _ => ?_
        exact Act.keeps_call .tree .close path
      exact Act.Under.mono hkeeps fun _ _ h _ _ => Or.inl h
  refine Act.Under.bind (Act.keeps_stat .tree path).attempt (fun _ _ h _ _ => Or.inl h)
    fun outcome => ?_
  rcases outcome with e | node
  · exact hmode _
  · exact hmode _

/-- **A result that cannot be delivered** leaves the source with its bytes, or cut short. -/
theorem under_deliver (c : CommandLine) (path : Bytes) (r : RunResult) :
    Shell.Under t (Holding p data) (deliver c path r) fun outcome fs => ∀ e, outcome = .error e →
      Holding p data fs ∨ FileSystem.key p = FileSystem.key path ∧ CutShort t path fs := by
  by_cases hidle : c.isSet .check = true ∨ c.isSet .write = false
  · intro console w hw hP
    rw [world_deliver path r hidle]
    exact ⟨hw, fun _ _ => Or.inl hP⟩
  · push Not at hidle
    rw [deliver_write path r (by simpa using hidle.1) (by simpa using hidle.2)]
    split
    · refine Shell.under_lift (under_writeInPlace path r.output) ?_ ?_
      · exact fun e fs hS _ _ => hS e rfl
      · exact fun a fs _ e he => by simp at he
    · exact Shell.under_pure fun _ _ e he => by simp at he

end Deliver

/-- **A run that fails loses nothing**, where nothing but calls on files can fail. It prints no
result, and every file apart from it has its bytes, whichever calls fail and whenever the run is
called off, unless the file is the source and was cut short. -/
theorem execute_failed {inv : Invocation} {c : CommandLine}
    (hread : CommandLine.ofArguments inv.arguments = .ok c) {console : Console}
    (hroom : console.out.room = none) {w : World} (hstatus : (execute inv console w).1 ≠ 0) :
    (execute inv console w).2.1.out = console.out ∧
      ∀ p data, Apart inv c w p → w.files.data? p = some data →
        (execute inv console w).2.2.files.data? p = some data ∨
          ∃ path, c.arguments = [path] ∧ FileSystem.key p = FileSystem.key path ∧
            CutShort w.trouble path (execute inv console w).2.2.files := by
  obtain ⟨e, he⟩ := exists_error hstatus
  rw [out_execute, world_execute]
  refine ⟨failsSilently_dispatch inv console w hroom e he, fun p data hp hdata => ?_⟩
  by_cases hselects : ∃ c' path, Selects inv c' path
  · obtain ⟨c', path, h⟩ := hselects
    obtain rfl : c = c' := Except.ok.inj (hread.symm.trans h.read)
    rcases dispatch_cases h hp hdata console with
      ⟨e', console', w', hrun, hheld⟩ | ⟨r, console₁, w₁, console₂, w₂, htrouble, hheld, hrun, hstop⟩
    · rw [hrun]
      exact Or.inl hheld
    · rw [hrun] at he ⊢
      have hdelivered := (under_deliver c path r console₁ w₁ htrouble hheld).2 e he
      rcases hdelivered with hkept | ⟨hkey, ⟨hfault, hempty⟩ | hclose⟩
      · exact Or.inl (hstop data hkept)
      · refine Or.inr ⟨path, h.arguments, hkey, Or.inl ⟨hfault, ?_⟩⟩
        exact (hstop [] (hempty.of_key_eq hkey.symm)).of_key_eq hkey
      · exact Or.inr ⟨path, h.arguments, hkey, Or.inr hclose⟩
  · push Not at hselects
    obtain ⟨outcome, console', hrun, -⟩ := dispatch_idle hselects console w
    rw [hrun]
    exact Or.inl hdata

/-- The command line that writes a file in place. -/
def writing (path : Bytes) : CommandLine := ⟨[(.write, .truth true)], [path]⟩

/-- A world with a source on which calls of one kind fail. -/
def faultyWorld (call : FileCall) : World :=
  { sourceWorld "/a.cxx" with trouble := fun _ _ => Trouble.injecting [call] "/a.cxx" }

/-- A source that cannot be opened for writing keeps its bytes. -/
theorem execute_failed_unopened :
    (execute (calledWith ["--write", "/a.cxx"]) freshConsole (faultyWorld .openWrite)).1 = 1 ∧
    (execute (calledWith ["--write", "/a.cxx"]) freshConsole
      (faultyWorld .openWrite)).2.1.out.written = [] ∧
    (execute (calledWith ["--write", "/a.cxx"]) freshConsole
      (faultyWorld .openWrite)).2.2.files.data? "/a.cxx" = some hangingText := by
  have hstatus : (execute (calledWith ["--write", "/a.cxx"]) freshConsole
      (faultyWorld .openWrite)).1 = 1 := by decide +kernel
  have hused : cacheUsed (calledWith ["--write", "/a.cxx"]) (writing "/a.cxx")
      (faultyWorld .openWrite) = none := by decide +kernel
  have happart : Apart (calledWith ["--write", "/a.cxx"]) (writing "/a.cxx")
      (faultyWorld .openWrite) "/a.cxx" := by
    refine ⟨fun cache hcache => ?_, by decide +kernel⟩
    rw [hused] at hcache
    simp at hcache
  obtain ⟨hout, hfiles⟩ := @execute_failed (calledWith ["--write", "/a.cxx"]) (writing "/a.cxx")
    (by decide +kernel) freshConsole rfl (faultyWorld .openWrite) (by rw [hstatus]; decide)
  refine ⟨hstatus, by rw [hout]; rfl, ?_⟩
  rcases hfiles "/a.cxx" hangingText happart (by decide +kernel) with hkept | ⟨path, -, -, hcut⟩
  · exact hkept
  · rcases hcut with ⟨⟨n, e, hfault⟩, -⟩ | ⟨n, e, hfault⟩
    · simp [faultyWorld, Trouble.injecting] at hfault
    · simp [faultyWorld, Trouble.injecting] at hfault

/-- **A source that cannot be written is lost**: it was emptied before. -/
theorem not_kept_unwritable :
    CommandLine.ofArguments ["--write", "/a.cxx"] = .ok (writing "/a.cxx") ∧
    (writing "/a.cxx").isSet .write = true ∧
    (faultyWorld .write).files.data? "/a.cxx" = some hangingText ∧
    (execute (calledWith ["--write", "/a.cxx"]) freshConsole (faultyWorld .write)).1 = 1 ∧
    (execute (calledWith ["--write", "/a.cxx"]) freshConsole
      (faultyWorld .write)).2.2.files.data? "/a.cxx" = some [] := by
  refine ⟨?_, ?_, ?_, ?_, ?_⟩
  all_goals decide +kernel

end Program

end Allman
