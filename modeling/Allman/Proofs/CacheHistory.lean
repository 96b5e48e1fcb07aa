import Allman.Proofs.Acts
import Allman.Proofs.Paths
import Allman.Proofs.Replay
import Mathlib.Data.Set.Function
import Mathlib.Logic.Relation

/-! # The cache is transparent

What the cache keeps for a text is nothing, an empty node, or the record of this text (`Sound`). No
operation of the cache breaks this, whatever calls fail and wherever they fail: a record is written
to a file of its own, which is the file of no key, and only when it is complete it is moved to the
file of its key. So after any history of runs, clearings and changes elsewhere (`Step`), a run that
finds a record finds the record of its text, and gives what it would give without a cache, up to a
warning about the cache (`perform_cached`). -/

namespace Allman

namespace Cache

open FileSystem

/-- The bytes that the cache keeps for a text. -/
def kept (c : Cache) (fs : FileSystem) (content : Bytes) : Option Bytes :=
  fs.data? (c.fileFor (key content))

/-- **What the cache keeps is right** for the given texts: it is empty, or the record of its
text. -/
def Sound (c : Cache) (used : Set Bytes) (fs : FileSystem) : Prop :=
  ∀ content ∈ used, ∀ data, c.kept fs content = some data →
    data = [] ∨ data = (CacheRecord.ofContent content).encode

/-- The path is that of no record. -/
def Apart (c : Cache) (p : Bytes) : Prop :=
  ∀ key, FileSystem.key (c.fileFor key) ≠ FileSystem.key p

variable {c : Cache} {used : Set Bytes} {fs fs' : FileSystem} {p : Bytes}

/-! ### Changes that keep the cache right -/

theorem Sound.of_kept (h : Sound c used fs)
    (hkept : ∀ content ∈ used, c.kept fs' content = c.kept fs content ∨
      c.kept fs' content = none ∨ c.kept fs' content = some []) : Sound c used fs' := by
  intro content hcontent data hdata
  rcases hkept content hcontent with heq | hnone | hempty
  · exact h content hcontent data (heq ▸ hdata)
  · rw [hnone] at hdata
    simp at hdata
  · rw [hempty, Option.some.injEq] at hdata
    exact Or.inl hdata.symm

theorem Sound.grows (h : Sound c used fs) (hgrows : Grows fs fs') : Sound c used fs' := by
  refine h.of_kept fun content _ => ?_
  rcases hgrows (FileSystem.key (c.fileFor (key content))) with heq | ⟨-, hempty⟩
  · exact Or.inl heq
  · exact Or.inr (Or.inr hempty)

theorem Sound.create (h : Sound c used fs) (hp : c.Apart p) (mode : Nat) :
    Sound c used (fs.create p mode) := by
  refine h.of_kept fun content _ => ?_
  rcases (dataAt_create fs p mode).2 _ (hp (key content)) with heq | ⟨-, hempty⟩
  · exact Or.inl heq
  · exact Or.inr (Or.inr hempty)

theorem Sound.setData (h : Sound c used fs) (hp : c.Apart p) (data : Bytes) :
    Sound c used (fs.setData p data) := by
  refine h.of_kept fun content _ => Or.inl ?_
  have hset := dataAt_setData fs p data (FileSystem.key (c.fileFor (key content)))
  rw [if_neg (hp (key content))] at hset
  exact hset

theorem Sound.remove (h : Sound c used fs) (hp : c.Apart p) : Sound c used (fs.remove p) := by
  refine h.of_kept fun content _ => Or.inl ?_
  have hremove := dataAt_remove fs p (FileSystem.key (c.fileFor (key content)))
  rw [if_neg (hp (key content))] at hremove
  exact hremove

theorem Sound.takeTree (h : Sound c used fs) (removal : Removal) (p : Bytes) :
    Sound c used (fs.takeTree removal p) := by
  refine h.of_kept fun content _ => ?_
  rcases dataAt_takeTree fs removal p (FileSystem.key (c.fileFor (key content))) with
    heq | ⟨-, hnone⟩
  · exact Or.inl heq
  · exact Or.inr (Or.inl hnone)

/-- **A complete record is moved into place.** -/
theorem Sound.move (h : Sound c used fs) (hp : c.Apart p) (hinj : Set.InjOn key used)
    {content : Bytes} (hcontent : content ∈ used)
    (hdata : fs.data? p = some (CacheRecord.ofContent content).encode) :
    Sound c used (fs.move p (c.fileFor (key content))) := by
  obtain ⟨htarget, hother⟩ := dataAt_move hdata (c.fileFor (key content))
  intro content' hcontent' data hkept
  by_cases hkey : FileSystem.key (c.fileFor (key content')) = FileSystem.key (c.fileFor (key content))
  · -- two texts with one key are the same
    obtain rfl := hinj hcontent' hcontent (fileFor_injective c hkey)
    have heq : some data = some (CacheRecord.ofContent content').encode := hkept.symm.trans htarget
    exact Or.inr (Option.some.inj heq)
  · rcases hother _ (hp (key content')) hkey with heq | ⟨-, hempty⟩
    · exact h content' hcontent' data (heq.symm.trans hkept)
    · exact Or.inl (Option.some.inj (hkept.symm.trans hempty))

/-! ### Operations of the cache -/

/-- A file that is the file of no key is written and then moved into place. -/
theorem ensures_write_rename (hp : c.Apart p) (hinj : Set.InjOn key used) {content : Bytes}
    (hcontent : content ∈ used) :
    Act.Ensures (fun fs => Sound c used fs ∧ fs.data? p = some [])
      (do
        Act.writeAndClose .cache p (CacheRecord.ofContent content).encode
        Act.rename .cache p (c.fileFor (key content)))
      fun _ fs => Sound c used fs := by
  have hwrite : Act.Ensures (fun fs => Sound c used fs ∧ fs.data? p = some [])
      (Act.writeAndClose .cache p (CacheRecord.ofContent content).encode) fun r fs =>
        Sound c used fs ∧
          (r = .ok () → fs.data? p = some (CacheRecord.ofContent content).encode) := by
    refine (Act.ensures_call .cache .write p).bind (fun _ _ h => ⟨h.1, by simp⟩) fun _ => ?_
    refine (Act.ensures_modifyFiles (Q := fun fs => Sound c used fs ∧
      fs.data? p = some (CacheRecord.ofContent content).encode) fun fs h => ?_).bind
      (fun _ _ h => ⟨h.1, by simp⟩) fun _ => ?_
    · refine ⟨h.1.setData hp _, ?_⟩
      have hset := dataAt_setData fs p (CacheRecord.ofContent content).encode (FileSystem.key p)
      rw [if_pos rfl, ← data?_eq, ← data?_eq, h.2] at hset
      exact hset
    · exact (Act.ensures_call .cache .close p).mono fun _ _ h => ⟨h.1, fun _ => h.2⟩
  refine hwrite.bind (fun _ _ h => h.1) fun _ => ?_
  refine (Act.ensures_call .cache .rename p).bind (fun _ _ h => h.1) fun _ => ?_
  refine (Act.ensures_node p).bind (fun _ _ h => h.1) fun _ => ?_
  exact Act.ensures_modifyFiles fun fs h => h.1.1.move hp hinj hcontent (h.1.2 rfl)

/-- **Keeping a record keeps the cache right**, wherever it fails. -/
theorem ensures_put (hinj : Set.InjOn key used) {content : Bytes} (hcontent : content ∈ used) :
    Act.Ensures (Sound c used) (c.put (key content) (.ofContent content))
      fun _ fs => Sound c used fs := by
  unfold put
  refine (Act.ensures_call_modifyFiles fun fs h => h.grows (grows_makeDirectory fs _)).bind
    (fun _ _ h => h) fun _ => ?_
  refine Act.ensures_get.bind (fun _ _ h => h) fun w => ?_
  dsimp only
  generalize htemp : unusedPath w.files (Path.parent (c.fileFor (key content))) = temporary
  have hapart : c.Apart temporary := fun k => by
    rw [← htemp]
    exact (key_unusedPath_ne c _ _ k).symm
  refine (Act.ensures_call .cache .openWrite temporary).bind (fun _ _ h => h) fun _ => ?_
  -- from here on the new file is there, empty at first
  refine (Act.ensures_modifyFiles (Q := fun fs => Sound c used fs ∧ fs.data? temporary = some [])
    fun fs h => ⟨h.create hapart _, (dataAt_create fs temporary _).1⟩).bind (fun _ _ h => h.1)
    fun _ => ?_
  refine (ensures_write_rename hapart hinj hcontent).attempt_bind fun outcome => ?_
  rcases outcome with e | _
  · have hremove : Act.Ensures (Sound c used) (Act.removeFile .cache temporary)
        fun _ fs => Sound c used fs :=
      Act.ensures_call_modifyFiles fun fs h => h.remove hapart
    exact hremove.ignore.bind (fun _ _ h => h) fun _ => Act.ensures_throw fun _ h => h
  · exact Act.ensures_pure fun _ h => h

/-- **A record that is found is the record of its text.** -/
theorem ensures_get {content : Bytes} (hcontent : content ∈ used)
    (hcodec : CacheRecord.decode? (CacheRecord.ofContent content).encode =
      some (.ofContent content)) :
    Act.Ensures (Sound c used) (c.get (key content)) fun r fs => Sound c used fs ∧
      ∀ record, r = .ok (some record) → record = .ofContent content := by
  unfold get
  refine (Act.ensures_openFile .cache (c.fileFor (key content))).attempt_bind fun outcome => ?_
  rcases outcome with e | data
  · dsimp only
    split
    · exact Act.ensures_pure fun _ h => ⟨h, by simp⟩
    · exact Act.ensures_throw fun _ h => ⟨h, by simp⟩
  · have hread : Act.Ensures
        (fun fs => Sound c used fs ∧ fs.data? (c.fileFor (key content)) = some data)
        ((Act.call .cache .read (c.fileFor (key content))).mapError fun e =>
          CacheError.undecodable (key content) (some e))
        fun _ fs => Sound c used fs ∧ fs.data? (c.fileFor (key content)) = some data :=
      (Act.ensures_call .cache .read _).mapError (fun _ _ h => h) fun _ _ h => h
    refine hread.bind (fun _ _ h => ⟨h.1, by simp⟩) fun _ => ?_
    refine Act.Ensures.of_fact (fun fs h => h.1 content hcontent data h.2) fun hdata => ?_
    rcases hdata with rfl | rfl
    · -- an empty node holds no record
      exact Act.ensures_throw fun _ h => ⟨h.1, by simp⟩
    · have hschema : (CacheRecord.ofContent content).schema = CacheRecord.currentSchema := rfl
      rw [hcodec]
      refine Act.ensures_pure fun _ h => ⟨h.1, fun record hrecord => ?_⟩
      rw [if_pos hschema, Except.ok.injEq, Option.some.injEq] at hrecord
      exact hrecord.symm

theorem ensures_clear : Act.Ensures (Sound c used) c.clear fun _ fs => Sound c used fs := by
  refine (Act.ensures_removeTree fun fs removal h => h.takeTree removal c.dir).bind
    (fun _ _ h => h) fun _ => ?_
  exact Act.ensures_call_modifyFiles fun fs h => h.grows (grows_makeDirectory fs c.dir)

end Cache

/-! ### Runs -/

namespace Run

open Cache

/-- What a run does once the file is read, where `record` is what it would compute. -/
def answer (q : RunRequest) (patience : Patience) (source : SourceText) (record : CacheRecord) :
    Act RunError RunResult := do
  let (found, lookupError) ← lookup q.cache source.content
  match found with
  | some kept => pure (resultOf q source (replay kept) true lookupError)
  | none => do
    if patience.endsBy 1 then throw .canceled
    let keepError ← keep q.cache source record
    pure (resultOf q source record false (lookupError.or keepError))

/-- What a run does once the file is read. -/
def afterLoad (q : RunRequest) (patience : Patience) (source : SourceText) :
    Act RunError RunResult := answer q patience source (.ofContent source.content)

theorem perform_eq (q : RunRequest) (patience : Patience) : perform q patience =
    if patience.endsBy 0 then throw .canceled else load q.path >>= afterLoad q patience := by
  unfold perform
  by_cases hends : patience.endsBy 0 = true
  · simp only [hends, ↓reduceIte]
    rfl
  · simp only [hends]
    rfl

theorem ensures_load {P : FileSystem → Prop} (path : Bytes) :
    Act.Ensures P (load path) fun _ fs => P fs := by
  have hread : Act.Ensures P ((Act.readFile .tree path).mapError (RunError.load path))
      fun _ fs => P fs :=
    (Act.ensures_readFile .tree path).mapError (fun _ _ h => h) fun _ _ h => h.1
  exact hread.bind (fun _ _ h => h) fun _ => Act.ensures_pure fun _ h => h

section Cached

variable {c : Cache} {used : Set Bytes} {q : RunRequest} {source : SourceText}

theorem ensures_lookup {content : Bytes} (hcontent : content ∈ used)
    (hcodec : CacheRecord.decode? (CacheRecord.ofContent content).encode =
      some (.ofContent content)) :
    Act.Ensures (Sound c used) (lookup (some c) content) fun r fs =>
      match r with
      | .ok (found, _) => Sound c used fs ∧ ∀ record, found = some record →
          record = .ofContent content
      | .error _ => False := by
  refine (Cache.ensures_get hcontent hcodec).attempt_bind fun outcome => ?_
  rcases outcome with e | found
  · exact Act.ensures_pure fun _ h => ⟨h.1, by simp⟩
  · exact Act.ensures_pure fun _ h => ⟨h.1, fun record hrecord => h.2 record (by rw [hrecord])⟩

theorem ensures_keep (hinj : Set.InjOn key used) (hcontent : source.content ∈ used) :
    Act.Ensures (Sound c used) (keep (some c) source (.ofContent source.content)) fun r fs =>
      match r with
      | .ok _ => Sound c used fs
      | .error _ => False := by
  refine (Cache.ensures_put hinj hcontent).attempt_bind fun outcome => ?_
  rcases outcome with e | _
  · exact Act.ensures_pure fun _ h => h
  · exact Act.ensures_pure fun _ h => h

/-- **A run with a cache gives the result of its text**, unless it is called off. -/
theorem ensures_afterLoad (hinj : Set.InjOn key used) (hcontent : source.content ∈ used)
    (hcodec : CacheRecord.decode? (CacheRecord.ofContent source.content).encode =
      some (.ofContent source.content)) (hcache : q.cache = some c) (patience : Patience) :
    Act.Ensures (Sound c used) (afterLoad q patience source) fun r fs => Sound c used fs ∧
      (patience.endsBy 1 = true ∨
        ∃ hit e, r = .ok (resultOf q source (.ofContent source.content) hit e)) := by
  unfold afterLoad answer
  rw [hcache]
  refine (ensures_lookup hcontent hcodec).bind (fun _ _ h => h.elim) fun (found, lookupError) => ?_
  rcases found with _ | record
  · dsimp only
    by_cases hends : patience.endsBy 1 = true
    · rw [if_pos hends]
      exact Act.ensures_throw fun _ h => ⟨h.1, Or.inl hends⟩
    · rw [if_neg hends]
      refine (ensures_keep hinj hcontent).of_le (fun _ h => h.1) |>.bind (fun _ _ h => h.elim)
        fun keepError => ?_
      exact Act.ensures_pure fun _ h => ⟨h, Or.inr ⟨false, _, rfl⟩⟩
  · refine Act.Ensures.of_fact (fun _ h => h.2 record rfl) fun hrecord => ?_
    rw [hrecord]
    refine Act.ensures_pure fun _ h => ⟨h.1, Or.inr ⟨true, lookupError, ?_⟩⟩
    rw [replay_ofContent]

end Cached

theorem run_afterLoad_uncached {q : RunRequest} (hcache : q.cache = none) {patience : Patience}
    (hends : patience.endsBy 1 = false) (source : SourceText) (w : World) :
    w.run (afterLoad q patience source) =
      (.ok (resultOf q source (.ofContent source.content) false none), w) := by
  unfold afterLoad answer
  have hlookup : w.run (lookup none source.content) = (.ok (none, none), w) := rfl
  rw [hcache, World.run_bind_ok w hlookup]
  dsimp only
  rw [if_neg (by simp [hends])]
  rfl

/-! ### Histories -/

/-- **One step in the life of a cache**: a run that uses it, whether or not it is called off and
whatever fails in it; an attempt to clear it; or any change elsewhere, in files, failing calls and
the rest of the world, that writes no file of the cache for the given texts. -/
inductive Step (c : Cache) (used : Set Bytes) : World → World → Prop
  | perform {w : World} (q : RunRequest) (patience : Patience) (hcache : q.cache = some c)
      (hload : ∀ source, (w.run (load q.path)).1 = .ok source → source.content ∈ used) :
      Step c used w (w.run (perform q patience)).2
  | clear {w : World} : Step c used w (w.run c.clear).2
  | elsewhere {w w' : World} (hkept : ∀ content ∈ used,
      c.kept w'.files content = c.kept w.files content ∨ c.kept w'.files content = none) :
      Step c used w w'

section History

variable {c : Cache} {used : Set Bytes}

/-- Decoding inverts encoding for the records of the given texts. -/
def Decodes (used : Set Bytes) : Prop := ∀ content ∈ used,
  CacheRecord.decode? (CacheRecord.ofContent content).encode = some (.ofContent content)

theorem files_run_load (w : World) (path : Bytes) : (w.run (load path)).2.files = w.files :=
  ensures_load (P := (· = w.files)) path w rfl

theorem Step.sound (hinj : Set.InjOn key used) (hcodec : Decodes used) {w w' : World}
    (h : Step c used w w') (hsound : Sound c used w.files) : Sound c used w'.files := by
  cases h with
  | perform q patience hcache hload =>
    rw [perform_eq]
    split
    · exact hsound
    · have hfiles := files_run_load w q.path
      rw [World.run_bind]
      rcases hrun : w.run (load q.path) with ⟨e | source, w'⟩
      · rw [hrun] at hfiles
        change Sound c used w'.files
        rw [hfiles]
        exact hsound
      · rw [hrun] at hfiles
        have hused := hload source (by rw [hrun])
        have hafter := ensures_afterLoad hinj hused (hcodec _ hused) hcache patience w'
        exact (hafter (by rw [hfiles]; exact hsound)).1
  | clear => exact Cache.ensures_clear w hsound
  | elsewhere hkept =>
    refine hsound.of_kept fun content hcontent => ?_
    rcases hkept content hcontent with heq | hnone
    · exact Or.inl heq
    · exact Or.inr (Or.inl hnone)

/-- **The cache is right after every history** that starts without records. -/
theorem sound_of_history (hinj : Set.InjOn key used) (hcodec : Decodes used) {w₀ w : World}
    (hempty : ∀ content ∈ used, c.kept w₀.files content = none)
    (hrun : Relation.ReflTransGen (Step c used) w₀ w) : Sound c used w.files := by
  induction hrun with
  | refl =>
    intro content hcontent data hdata
    rw [hempty content hcontent] at hdata
    simp at hdata
  | tail _ hstep ih => exact hstep.sound hinj hcodec ih

/-- **Two results that differ by the cache at most**: the bag of the first may have one more
warning. -/
structure SameOutcome (q : RunRequest) (r r₀ : RunResult) : Prop where
  output : r.output = r₀.output
  changed : r.changed = r₀.changed
  adjusted : r.adjusted = r₀.adjusted
  unclosed : r.unclosed = r₀.unclosed
  dropped : r.bag.dropped = r₀.bag.dropped
  items : ∃ shown, (∀ d ∈ shown, d.IsBracket) ∧ r₀.bag.items = shown ++ timeDiagnostic q r₀ ∧
    r.bag.items = shown ++ cacheWarning r ++ timeDiagnostic q r

theorem sameOutcome_resultOf (q : RunRequest) (source : SourceText) (hit : Bool)
    (cacheError : Option CacheError) :
    SameOutcome q (resultOf q source (.ofContent source.content) hit cacheError)
      (resultOf { q with cache := none } source (.ofContent source.content) false none) := by
  refine ⟨rfl, rfl, rfl, rfl, ?_, shown q.maxDiagnostics (.ofContent source.content), ?_, ?_, ?_⟩
  · rw [dropped_resultOf, dropped_resultOf]
  · intro d hd
    exact CacheRecord.isBracket_of_mem_ofContent (mem_of_mem_shown hd)
  · have hitems := items_resultOf { q with cache := none } source (.ofContent source.content) false
      none
    rw [hitems]
    exact congrArg (· ++ _) (List.append_nil _)
  · exact items_resultOf q source (.ofContent source.content) hit cacheError

/-- **The cache is transparent.** Take any history of a cache that starts without records for the
texts used, and a run that uses the cache, can read its file and is not called off. Then the run
gives a result, whatever calls of the cache fail; and the same run without a cache gives the same,
up to one warning about the cache. -/
theorem perform_cached (hinj : Set.InjOn key used) (hcodec : Decodes used) {w₀ w : World}
    (hempty : ∀ content ∈ used, c.kept w₀.files content = none)
    (hrun : Relation.ReflTransGen (Step c used) w₀ w) {q : RunRequest} (hcache : q.cache = some c)
    {source : SourceText} (hload : (w.run (load q.path)).1 = .ok source)
    (hused : source.content ∈ used) {patience : Patience} (hends : patience.endsBy 1 = false) :
    ∃ r r₀, (w.run (perform q patience)).1 = .ok r ∧
      (w.run (perform { q with cache := none } patience)).1 = .ok r₀ ∧ SameOutcome q r r₀ := by
  have hsound := sound_of_history hinj hcodec hempty hrun
  have hstart : patience.endsBy 0 = false := by
    cases patience with
    | none => rfl
    | some n =>
      simp only [Patience.endsBy, decide_eq_false_iff_not] at hends ⊢
      omega
  obtain ⟨w', hread⟩ : ∃ w', w.run (load q.path) = (.ok source, w') :=
    ⟨_, Prod.ext hload rfl⟩
  have hfiles := files_run_load w q.path
  rw [hread] at hfiles
  have hafter := ensures_afterLoad hinj hused (hcodec _ hused) hcache patience w'
    (by rw [hfiles]; exact hsound)
  obtain ⟨hit, e, hresult⟩ := hafter.2.resolve_left (by simp [hends])
  refine ⟨_, _, ?_, ?_, sameOutcome_resultOf q source hit e⟩
  · rw [perform_eq, if_neg (by simp [hstart]), World.run_bind_ok w hread, hresult]
  · rw [perform_eq, if_neg (by simp [hstart]), World.run_bind_ok w hread,
      run_afterLoad_uncached rfl hends]

end History

/-- A request for the layout of a file by a cache in `/c`. -/
def cachedRequest (path : Bytes) : RunRequest := ⟨path, 100, some ⟨"/c"⟩, none, false⟩

/-- A world with two files in which no directory of the cache can be removed. -/
def stubbornWorld : World :=
  { World.ofFiles ((FileSystem.empty.write "/a" "(" 0o644).write "/b" "\x7d" 0o644) with
    trouble := fun side _ call _ =>
      if side = .cache ∧ call = .removeTree then some (.injected call) else none }

/-- That world after a run on each file and an attempt to clear the cache. -/
def stubbornWorldLater : World :=
  let first := (stubbornWorld.run (perform (cachedRequest "/a") none)).2
  let second := (first.run (perform (cachedRequest "/b") none)).2
  (second.run (Cache.clear ⟨"/c"⟩)).2

/-- A history with two runs and a failed clearing, after which a record is found. -/
theorem perform_cached_again : ∃ r r₀,
    (stubbornWorldLater.run (perform (cachedRequest "/a") none)).1 = .ok r ∧
    (stubbornWorldLater.run (perform { cachedRequest "/a" with cache := none } none)).1 = .ok r₀ ∧
    SameOutcome (cachedRequest "/a") r r₀ ∧ r.cacheHit = true := by
  have hinj : Set.InjOn key {Bytes.ofString "(", Bytes.ofString "\x7d"} := by
    have hne : key (Bytes.ofString "(") ≠ key (Bytes.ofString "\x7d") := by decide +kernel
    rintro _ (rfl | rfl) _ (rfl | rfl) heq
    · rfl
    · exact absurd heq hne
    · exact absurd heq.symm hne
    · rfl
  have hcodec : Decodes {Bytes.ofString "(", Bytes.ofString "\x7d"} := by
    rintro _ (rfl | rfl)
    · decide +kernel
    · decide +kernel
  have hempty : ∀ content ∈ ({Bytes.ofString "(", Bytes.ofString "\x7d"} : Set Bytes),
      (Cache.mk "/c").kept stubbornWorld.files content = none := by
    rintro _ (rfl | rfl)
    · decide +kernel
    · decide +kernel
  -- all that is to be computed about the history, at once
  obtain ⟨hfirst, hsecond, hload, hhit⟩ :
      (stubbornWorld.run (load "/a")).1 = .ok ⟨"/a", "(", false⟩ ∧
      ((stubbornWorld.run (perform (cachedRequest "/a") none)).2.run (load "/b")).1 =
        .ok ⟨"/b", "\x7d", false⟩ ∧
      (stubbornWorldLater.run (load "/a")).1 = .ok ⟨"/a", "(", false⟩ ∧
      (stubbornWorldLater.run (perform (cachedRequest "/a") none)).1.toOption.map (·.cacheHit) =
        some true := by decide +kernel
  have hrun : Relation.ReflTransGen (Step ⟨"/c"⟩ {Bytes.ofString "(", Bytes.ofString "\x7d"})
      stubbornWorld stubbornWorldLater := by
    refine .tail (.tail (.single (.perform (cachedRequest "/a") none rfl ?_))
      (.perform (cachedRequest "/b") none rfl ?_)) .clear
    · intro source hsource
      rw [← Except.ok.inj (hfirst.symm.trans hsource)]
      exact Or.inl rfl
    · intro source hsource
      rw [← Except.ok.inj (hsecond.symm.trans hsource)]
      exact Or.inr rfl
  have hends : Patience.endsBy none 1 = false := rfl
  obtain ⟨r, r₀, hr, hr₀, hsame⟩ := perform_cached hinj hcodec hempty hrun
    (q := cachedRequest "/a") rfl hload (Or.inl rfl) hends
  rw [hr] at hhit
  exact ⟨r, r₀, hr, hr₀, hsame, Option.some.inj hhit⟩

end Run

end Allman
