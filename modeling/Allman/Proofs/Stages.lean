import Allman.Proofs.Frames

/-! # The stages of the program

A run of the program reads the command line (`dispatch_of_selects`), starts the profilers
(`run_layOutProfiled`), finds the settings (`settled`), opens the cache and lays out the file
(`prepare`), and delivers the result. What the stages before the last leave behind is said once,
for a run that goes on and for one that ends there (`layOut_cases`): nothing was printed as a
result, and a file has its bytes unless it belongs to the cache in use. -/

namespace Allman

namespace Program

open FileSystem (Holding)

/-! ### Settings -/

/-- The settings of a file before the flags are put on top. -/
def chosen (c : CommandLine) (path : Bytes) : Act SettingsError Settings :=
  match (c.text? .config).filter (· ≠ []) with
  | some file => Settings.load file
  | none => Settings.discover path

/-- **The settings for a file**, as an action in the world alone. -/
def settled (c : CommandLine) (path : Bytes) : Act Failure Settings := do
  let found ← (chosen c path).mapError Failure.settings
  match (mergeFlags found c).invalid? with
  | some e => throw (.invalid e)
  | none => pure (mergeFlags found c)

theorem settingsFor_eq (c : CommandLine) (path : Bytes) : settingsFor c path = (do
    let found ← Shell.lift .settings (chosen c path)
    match (mergeFlags found c).invalid? with
    | some e => throw (.invalid e)
    | none => pure (mergeFlags found c)) := by
  unfold settingsFor chosen
  rcases (c.text? .config).filter (· ≠ []) with _ | file
  · rfl
  · rfl

theorem run_settingsFor (c : CommandLine) (path : Bytes) (console : Console) (w : World) :
    (settingsFor c path).run console w =
      ((w.run (settled c path)).1, console, (w.run (settled c path)).2) := by
  rw [settingsFor_eq, settled, Shell.run_bind, Shell.run_lift, World.run_bind, World.run_mapError]
  rcases w.run (chosen c path) with ⟨e | found, w'⟩
  · rfl
  · dsimp only [Except.mapError]
    rcases (mergeFlags found c).invalid? with _ | e
    · rfl
    · rfl

theorem keeps_settled {t : Trouble} {P : FileSystem → Prop} (c : CommandLine) (path : Bytes) :
    Act.Keeps t P (settled c path) := by
  have hchosen : Act.Keeps t P (chosen c path) := by
    unfold chosen
    split
    · exact Settings.keeps_load _
    · exact Settings.keeps_discover path
  refine (hchosen.mapError _).bind fun found => ?_
  rcases (mergeFlags found c).invalid? with _ | e
  · exact Act.keeps_pure _
  · exact Act.keeps_throw _

/-! ### The cache -/

/-- The cache in a directory; none if no directory is named and there is no home for one. -/
def cacheIn (env : Environment) (dir : Bytes) : Option Cache :=
  if dir = [] then
    match Cache.defaultDirectory env cacheName with
    | .ok dir => some ⟨dir⟩
    | .error _ => none
  else some ⟨dir⟩

/-- The cache that settings ask for. -/
def cacheAt (env : Environment) (s : Settings) : Option Cache :=
  if s.cacheEnabled then cacheIn env s.cacheDir else none

/-- The file is none of a cache, and does not go when the cache is cleared. -/
structure Spared (cache : Cache) (clear : Bool) (p : Bytes) : Prop where
  owned : ¬ cache.Owns p
  cleared : clear = true → Path.isWithin (FileSystem.key cache.dir) (FileSystem.key p) = false

section Cache

variable {t : Trouble} {p data : Bytes} {env : Environment} {clear : Bool}

theorem gives_openCache {dir : Bytes} (hp : ∀ cache ∈ cacheIn env dir, Spared cache clear p) :
    Act.Gives t (Holding p data) (openCache env dir clear)
      fun cache => cacheIn env dir = some cache := by
  have hopen : ∀ d, cacheIn env dir = some ⟨d⟩ →
      Act.Gives t (Holding p data) (do
        let cache ← Cache.openAt d
        if clear then cache.clear.mapError (CacheError.clearing d)
        pure cache) fun cache => cacheIn env dir = some cache := by
    intro d hd
    refine (Cache.gives_openAt d).bind fun cache hcache => ?_
    subst hcache
    split
    · next hclear =>
      have hwithin := (hp ⟨d⟩ hd).cleared hclear
      exact ((Cache.keeps_clear hwithin).mapError _).gives.bind fun _ _ => Act.gives_pure hd
    · exact Act.gives_pure hd
  unfold openCache
  by_cases hdir : dir = []
  · rw [if_pos hdir]
    rcases hdefault : Cache.defaultDirectory env cacheName with e | d
    · have hthrow : Act.Gives t (Holding p data) (throw e : Act CacheError Bytes)
          fun _ => False := Act.gives_throw e
      exact hthrow.bind fun d hd => hd.elim
    · exact hopen d (by rw [cacheIn, if_pos hdir, hdefault])
  · rw [if_neg hdir]
    exact hopen dir (by rw [cacheIn, if_neg hdir])

/-- **The cache is opened**, and cleared on request, without harm to other files. -/
theorem gives_cacheFor {s : Settings} (hp : ∀ cache ∈ cacheAt env s, Spared cache clear p) :
    Shell.Gives t (Holding p data) (cacheFor env s clear)
      fun opened => ∀ cache ∈ opened.1, Spared cache clear p := by
  unfold cacheFor
  split
  · next henabled =>
    have hcache : cacheAt env s = cacheIn env s.cacheDir := by rw [cacheAt, if_pos henabled]
    rw [hcache] at hp
    refine (Shell.gives_attempt (gives_openCache hp)).bind fun outcome houtcome => ?_
    rcases outcome with e | cache
    · exact Shell.gives_pure (by simp)
    · exact Shell.gives_pure (by simpa using hp cache (houtcome cache rfl))
  · exact Shell.gives_pure (by simp)

theorem silent_cacheFor (s : Settings) : Shell.Silent (cacheFor env s clear) := by
  unfold cacheFor
  split
  · refine (Shell.silent_attempt _).bind fun outcome => ?_
    rcases outcome with e | cache
    · exact Shell.silent_pure _
    · exact Shell.silent_pure _
  · exact Shell.silent_pure _

end Cache

/-! ### Laying out -/

/-- What is asked for with settings and flags. -/
def requestFor (inv : Invocation) (c : CommandLine) (path : Bytes) (s : Settings)
    (cache : Option Cache) : RunRequest :=
  { path, maxDiagnostics := s.maxDiagnostics, cache
    watch := if c.isSet .timings then some ⟨inv.clock, .empty⟩ else none
    timingDiagnostic := wantsDocument s }

/-- The result with a warning if the cache could not be opened. -/
def warned (performed : RunResult) : Option CacheError → RunResult
  | none => performed
  | some e => { performed with bag := performed.bag.warnOfCache e }

/-- Prints the messages about a result. -/
def announce (inv : Invocation) (c : CommandLine) (s : Settings) (r : RunResult) : Shell Unit := do
  if !c.isSet .quiet then showDiagnostics s (wantsColor s inv.terminal) r
  if c.isSet .timings && !wantsDocument s then Shell.tryComplain r.timing.summary

/-- **All that comes between the settings and the delivery of the result.** -/
def prepare (inv : Invocation) (c : CommandLine) (path : Bytes) (s : Settings) :
    Shell RunResult := do
  let opened ← cacheFor inv.environment s (c.isSet .clearCache)
  let performed ← Shell.lift .run (Run.perform (requestFor inv c path s opened.1) inv.patience)
  announce inv c s (warned performed opened.2)
  pure (warned performed opened.2)

theorem layOut_eq (inv : Invocation) (c : CommandLine) (path : Bytes) : layOut inv c path = (do
    let s ← settingsFor c path
    let r ← prepare inv c path s
    deliver c path r) := by
  -- the messages are printed by the same two conditional steps
  have hsplit : ∀ (quiet timed : Bool) (shown told next : Shell Unit),
      (do
        if quiet then shown
        if timed then told
        next) = (do
          if quiet then shown
          if timed then told) >>= fun _ => next := by
    intro quiet timed shown told next
    cases quiet
    · cases timed
      · rfl
      · rfl
    · cases timed
      · simp
      · simp
  unfold layOut prepare announce
  refine congrArg _ (funext fun s => ?_)
  simp only [bind_assoc, pure_bind]
  refine congrArg _ (funext fun opened => congrArg _ (funext fun performed => ?_))
  rcases opened with ⟨cache, _ | e⟩
  · exact hsplit _ _ _ _ _
  · exact hsplit _ _ _ _ _

section Prepare

variable {t : Trouble} (inv : Invocation) (c : CommandLine) (path : Bytes) (s : Settings)

theorem tells_showDiagnostics (color : Bool) (r : RunResult) :
    Shell.Tells (showDiagnostics s color r) := by
  unfold showDiagnostics
  split
  · exact Shell.tells_complain _
  · refine (Shell.tells_complain _).bind ?_
    split
    · exact Shell.tells_tryComplain _
    · exact Shell.tells_pure

theorem tells_announce (r : RunResult) : Shell.Tells (announce inv c s r) := by
  have htimings : Shell.Tells (if c.isSet .timings && !wantsDocument s then
      Shell.tryComplain r.timing.summary else pure ()) := by
    split
    · exact Shell.tells_tryComplain _
    · exact Shell.tells_pure
  unfold announce
  dsimp only
  by_cases hquiet : (!c.isSet .quiet) = true
  · rw [if_pos hquiet]
    exact (tells_showDiagnostics s _ r).bind htimings
  · rw [if_neg hquiet]
    exact htimings

/-- **Before the result is delivered** no file changes but those of the cache. -/
theorem keeps_prepare {p data : Bytes}
    (hp : ∀ cache ∈ cacheAt inv.environment s, Spared cache (c.isSet .clearCache) p) :
    Shell.Keeps t (Holding p data) (prepare inv c path s) := by
  refine (gives_cacheFor hp).keeps_bind fun opened hopened => ?_
  have hperform := @Run.keeps_perform t p data (requestFor inv c path s opened.1)
    (fun cache hcache => (hopened cache hcache).owned) inv.patience
  refine (Shell.keeps_lift .run hperform).bind fun performed => ?_
  exact (tells_announce inv c s _).keeps.bind fun _ => Shell.keeps_pure _

theorem silent_prepare : Shell.Silent (prepare inv c path s) := by
  refine (silent_cacheFor s).bind fun opened => (Shell.silent_lift _ _).bind fun performed => ?_
  exact (tells_announce inv c s _).silent.bind fun _ => Shell.silent_pure _

end Prepare

/-- **A run ends before the result is delivered, or goes on to deliver one.** In both cases a file
that does not belong to the cache in use has its bytes. -/
theorem layOut_cases {inv : Invocation} {c : CommandLine} {path : Bytes} {w : World}
    {p data : Bytes} (hp : ∀ s, (w.run (settled c path)).1 = .ok s →
      ∀ cache ∈ cacheAt inv.environment s, Spared cache (c.isSet .clearCache) p)
    (hdata : Holding p data w.files) (console : Console) :
    ∃ console' w', w'.trouble = w.trouble ∧ Holding p data w'.files ∧
      ((∃ e, (layOut inv c path).run console w = (.error e, console', w')) ∨
        ∃ r, (layOut inv c path).run console w = (deliver c path r).run console' w') := by
  have hsettled := @keeps_settled w.trouble (Holding p data) c path w rfl hdata
  rw [layOut_eq, Shell.run_bind, run_settingsFor]
  rcases hrun : w.run (settled c path) with ⟨e | s, w₁⟩
  · rw [hrun] at hsettled
    exact ⟨console, w₁, hsettled.1, hsettled.2, Or.inl ⟨e, rfl⟩⟩
  · rw [hrun] at hsettled
    have hprepare := @keeps_prepare w.trouble inv c path s p data (hp s (by rw [hrun])) console w₁
      hsettled.1 hsettled.2
    dsimp only
    rw [Shell.run_bind]
    rcases hprepared : (prepare inv c path s).run console w₁ with ⟨e | r, console', w'⟩
    · rw [hprepared] at hprepare
      exact ⟨console', w', hprepare.1, hprepare.2, Or.inl ⟨e, rfl⟩⟩
    · rw [hprepared] at hprepare
      exact ⟨console', w', hprepare.1, hprepare.2, Or.inr ⟨r, rfl⟩⟩

/-! ### Delivery -/

section Deliver

variable {c : CommandLine} (path : Bytes) (r : RunResult)

/-- To check a file prints at most a message, and fails if the file would change. -/
theorem run_deliver_check (hcheck : c.isSet .check = true) (console : Console) (w : World) :
    ∃ err, (deliver c path r).run console w =
      ((if r.changed then .error .wouldChange else .ok ()), { console with err := err }, w) := by
  unfold deliver
  rw [if_pos hcheck]
  cases r.changed
  · exact ⟨console.err, rfl⟩
  · cases c.isSet .quiet
    · exact ⟨_, rfl⟩
    · exact ⟨console.err, rfl⟩

theorem deliver_write (hcheck : c.isSet .check = false) (hwrite : c.isSet .write = true) :
    deliver c path r =
      if r.changed then Shell.lift (.writing path) (writeInPlace path r.output) else pure () := by
  unfold deliver
  simp only [hcheck, hwrite, Bool.false_eq_true, ↓reduceIte]

theorem deliver_print (hcheck : c.isSet .check = false) (hwrite : c.isSet .write = false) :
    deliver c path r = Shell.print r.output := by
  unfold deliver
  simp only [hcheck, hwrite, Bool.false_eq_true, ↓reduceIte]

theorem world_deliver (h : c.isSet .check = true ∨ c.isSet .write = false) (console : Console)
    (w : World) : ((deliver c path r).run console w).2.2 = w := by
  by_cases hcheck : c.isSet .check = true
  · obtain ⟨err, hrun⟩ := run_deliver_check path r hcheck console w
    rw [hrun]
  · have hwrite := h.resolve_left hcheck
    rw [deliver_print path r (by simpa using hcheck) hwrite, Shell.run_print]

/-- A result is printed as the last thing, so that nothing is printed if the run fails. -/
theorem failsSilently_layOut (inv : Invocation) (c : CommandLine) :
    Shell.FailsSilently (layOut inv c path) := by
  have hsettings : Shell.Silent (settingsFor c path) := by
    intro console w
    rw [run_settingsFor]
  have hdeliver : ∀ r, Shell.FailsSilently (deliver c path r) := by
    intro r
    by_cases hcheck : c.isSet .check = true
    · intro console w _ _ _
      obtain ⟨err, hrun⟩ := run_deliver_check path r hcheck console w
      rw [hrun]
    have hcheck' : c.isSet .check = false := by simpa using hcheck
    by_cases hwrite : c.isSet .write = true
    · rw [deliver_write path r hcheck' hwrite]
      split
      · exact (Shell.silent_lift _ _).failsSilently
      · exact (Shell.silent_pure _).failsSilently
    · rw [deliver_print path r hcheck' (by simpa using hwrite)]
      exact Shell.failsSilently_print _
  rw [layOut_eq]
  refine hsettings.failsSilently_bind fun s => ?_
  exact (silent_prepare inv c path s).failsSilently_bind hdeliver

end Deliver

/-! ### Profiles -/

/-- The files that the command line names for profiles. -/
def profilePaths (c : CommandLine) : ProfilePaths :=
  ⟨(c.text? .cpuProfile).getD [], (c.text? .memProfile).getD [], (c.text? .runtimeTrace).getD []⟩

theorem run_layOutProfiled_error {inv : Invocation} {c : CommandLine} {path : Bytes}
    {console : Console} {w w₁ : World} {e : ProfileError}
    (h : w.run (ProfileSession.start (profilePaths c)) = (.error e, w₁)) :
    (layOutProfiled inv c path).run console w = (.error (.profile e), console, w₁) := by
  unfold layOutProfiled
  dsimp only
  rw [Shell.run_bind, Shell.run_lift]
  unfold profilePaths at h
  rw [h]
  rfl

/-- **The profilers end what they began**, whatever comes of the run, and its outcome stays. -/
theorem run_layOutProfiled_ok {inv : Invocation} {c : CommandLine} {path : Bytes}
    {console : Console} {w w₁ : World} {session : ProfileSession}
    (h : w.run (ProfileSession.start (profilePaths c)) = (.ok session, w₁)) :
    ∃ err, (layOutProfiled inv c path).run console w =
      (((layOut inv c path).run console w₁).1,
        { ((layOut inv c path).run console w₁).2.1 with err := err },
        (((layOut inv c path).run console w₁).2.2.run (session.stop : Act Failure _)).2) := by
  unfold layOutProfiled
  dsimp only
  rw [Shell.run_bind, Shell.run_lift]
  unfold profilePaths at h
  rw [h]
  have hcapture : Shell.run (ExceptT.mk (do
      let outcome ← ExceptT.run (layOut inv c path)
      pure (.ok outcome)) : Shell _) console w₁ =
        (.ok ((layOut inv c path).run console w₁).1, ((layOut inv c path).run console w₁).2) := rfl
  dsimp only [Except.mapError]
  rw [Shell.run_bind, hcapture]
  rcases (layOut inv c path).run console w₁ with ⟨outcome, console₂, w₂⟩
  obtain ⟨errors, herrors⟩ := @ProfileSession.total_stop Failure session w₂
  dsimp only
  rw [Shell.run_bind, Shell.run_lift, herrors]
  dsimp only [Except.mapError]
  rcases outcome with e | _
  · split
    · exact ⟨_, rfl⟩
    · exact ⟨console₂.err, rfl⟩
  · split
    · exact ⟨_, rfl⟩
    · exact ⟨console₂.err, rfl⟩

/-! ### The command line -/

/-- The command line selects a file to lay out. -/
structure Selects (inv : Invocation) (c : CommandLine) (path : Bytes) : Prop where
  read : CommandLine.ofArguments inv.arguments = .ok c
  help : c.isSet .help = false
  version : c.isSet .version = false
  arguments : c.arguments = [path]
  modes : (c.has .write && c.has .check) = false

theorem dispatch_of_selects {inv : Invocation} {c : CommandLine} {path : Bytes}
    (h : Selects inv c path) : dispatch inv = layOutProfiled inv c path := by
  unfold dispatch
  rw [h.read]
  simp [h.help, h.version, h.arguments, h.modes]

theorem run_help (console : Console) (w : World) : ∀ pieces : List Bytes,
    ∃ out, (pieces.forM Shell.tryPrint : Shell _).run console w =
      (.ok (), { console with out := out }, w)
  | [] => ⟨console.out, rfl⟩
  | piece :: pieces => by
    obtain ⟨out, hrun⟩ := run_help { console with out := console.out.tryWrite piece } w pieces
    exact ⟨out, hrun⟩

theorem run_version (console : Console) (w : World) : ∃ outcome out, Shell.run (do
      Shell.print (Release.current.describe false)
      Shell.print [Byte.newline]) console w = (outcome, { console with out := out }, w) ∧
    (console.out.room = none → outcome = .ok ()) := by
  by_cases hroom : console.out.room = none
  · rw [Shell.run_bind, Shell.run_print_room hroom]
    dsimp only
    rw [Shell.run_print_room (by exact hroom)]
    exact ⟨_, _, rfl, fun _ => rfl⟩
  · rw [Shell.run_bind, Shell.run_print]
    cases (console.out.write (Release.current.describe false)).1
    · exact ⟨_, _, rfl, fun h => absurd h hroom⟩
    · exact ⟨_, _, Shell.run_print _ _ _, fun h => absurd h hroom⟩

/-- **A run that lays out no file** changes none, and if it fails no result is printed. -/
theorem dispatch_idle {inv : Invocation} (h : ∀ c path, ¬ Selects inv c path) (console : Console)
    (w : World) : ∃ outcome console', (dispatch inv).run console w = (outcome, console', w) ∧
      (console.out.room = none → ∀ e, outcome = .error e → console'.out = console.out) := by
  unfold dispatch
  rcases hread : CommandLine.ofArguments inv.arguments with e | c
  · exact ⟨_, console, rfl, fun _ _ _ => rfl⟩
  · dsimp only
    by_cases hhelp : c.isSet .help = true
    · rw [if_pos hhelp]
      obtain ⟨out, hrun⟩ := run_help console w Help.pieces
      exact ⟨_, _, hrun, fun _ e he => by simp at he⟩
    rw [if_neg hhelp]
    by_cases hversion : c.isSet .version = true
    · rw [if_pos hversion]
      obtain ⟨outcome, out, hrun, hok⟩ := run_version console w
      exact ⟨_, _, hrun, fun hroom e he => by rw [hok hroom] at he; simp at he⟩
    rw [if_neg hversion]
    rcases harguments : c.arguments with _ | ⟨path, _ | ⟨second, rest⟩⟩
    · exact ⟨_, console, rfl, fun _ _ _ => rfl⟩
    · have hmodes : (c.has .write && c.has .check) = true := by
        by_contra hne
        refine h c path ⟨hread, ?_, ?_, harguments, ?_⟩
        · simpa using hhelp
        · simpa using hversion
        · simpa using hne
      dsimp only
      rw [if_pos hmodes]
      exact ⟨_, console, rfl, fun _ _ _ => rfl⟩
    · exact ⟨_, console, rfl, fun _ _ _ => rfl⟩

/-- **A run that fails prints no result**, where every result can be printed. -/
theorem failsSilently_dispatch (inv : Invocation) : Shell.FailsSilently (dispatch inv) := by
  by_cases hselects : ∃ c path, Selects inv c path
  · obtain ⟨c, path, h⟩ := hselects
    rw [dispatch_of_selects h]
    intro console w hroom e he
    rcases hstart : w.run (ProfileSession.start (profilePaths c)) with ⟨e' | session, w₁⟩
    · rw [run_layOutProfiled_error hstart]
    · obtain ⟨err, hrun⟩ := @run_layOutProfiled_ok inv c path console w w₁ session hstart
      rw [hrun] at he ⊢
      exact failsSilently_layOut path inv c console w₁ hroom e he
  · push Not at hselects
    intro console w hroom e he
    obtain ⟨outcome, console', hrun, hout⟩ := dispatch_idle hselects console w
    rw [hrun] at he ⊢
    exact hout hroom e he

/-! ### The exit status -/

theorem execute_eq (inv : Invocation) (console : Console) (w : World) : execute inv console w =
    match (dispatch inv).run console w with
    | (.ok _, console', w') => (0, console', w')
    | (.error e, console', w') => (1, explain e console', w') := by
  unfold execute Shell.run
  rcases ((ExceptT.run (dispatch inv)).run console).run w with ⟨⟨_ | _, console'⟩, w'⟩
  · rfl
  · rfl

theorem out_execute (inv : Invocation) (console : Console) (w : World) :
    (execute inv console w).2.1.out = ((dispatch inv).run console w).2.1.out := by
  have hexplain : ∀ e console', (explain e console').out = console'.out := fun e console' => by
    unfold explain
    exact (apply_ite Console.out _ _ _).trans (ite_self _)
  rw [execute_eq]
  rcases (dispatch inv).run console w with ⟨e | _, console', w'⟩
  · exact hexplain e console'
  · rfl

theorem world_execute (inv : Invocation) (console : Console) (w : World) :
    (execute inv console w).2.2 = ((dispatch inv).run console w).2.2 := by
  rw [execute_eq]
  rcases (dispatch inv).run console w with ⟨e | _, console', w'⟩
  · rfl
  · rfl

theorem status_execute (inv : Invocation) (console : Console) (w : World) :
    (execute inv console w).1 =
      match ((dispatch inv).run console w).1 with
      | .ok _ => 0
      | .error _ => 1 := by
  rw [execute_eq]
  rcases (dispatch inv).run console w with ⟨e | _, console', w'⟩
  · rfl
  · rfl

theorem exists_error {inv : Invocation} {console : Console} {w : World}
    (h : (execute inv console w).1 ≠ 0) : ∃ e, ((dispatch inv).run console w).1 = .error e := by
  rw [status_execute] at h
  rcases hrun : ((dispatch inv).run console w).1 with e | _
  · exact ⟨e, rfl⟩
  · rw [hrun] at h
    exact absurd rfl h

/-! ### A source to run on -/

/-- A source in which a pair of braces hangs. -/
def hangingText : Bytes := "if (x)\n  \x7b\n  \x7d\n"

/-- A world with this source at a path. -/
def sourceWorld (path : Bytes) : World :=
  .ofFiles (FileSystem.empty.write path hangingText 0o640)

/-- The program is called with arguments, and nothing else is said. -/
def calledWith (arguments : List Bytes) : Invocation := ⟨arguments, ⟨none, none⟩, none, ⟨0, 0⟩, false⟩

/-- A console on which everything can be printed. -/
def freshConsole : Console := ⟨.ofRoom none, .ofRoom none⟩

end Program

end Allman
