import Allman.Proofs.Fitting
import Allman.Settings
import Mathlib.Data.List.Rotate
import Mathlib.Data.List.Sort

/-! # Which diagnostics a run shows

A layout reports what does not match while it reads, and what is never closed at its end. No two of
its diagnostics are at the same place, so that a filter suppresses none of them (`through_of_perm`),
and sorting them for show is the same as sorting them by row and column (`diagnostics_ofContent`).
They are sorted before a bag takes as many as it has room for. So a run shows the first ones in
reading order, whether it lays the text out or finds it in the cache (`perform_shows`).

A limit that does not fit in 16 bits counts as the default. Where this does not happen to the larger
of two limits alone, the larger limit shows at least as much (`perform_limits`). -/

namespace Allman

/-! ### Diagnostics in order -/

namespace Diagnostic

/-- The order by place alone: by row, then by column. -/
def placeLe (a b : Diagnostic) : Bool :=
  a.position.row < b.position.row ||
    a.position.row == b.position.row && a.position.col ≤ b.position.col

theorem placeLe_iff {a b : Diagnostic} : a.placeLe b = true ↔
    a.position.row < b.position.row ∨
      a.position.row = b.position.row ∧ a.position.col ≤ b.position.col := by
  simp [placeLe]

theorem placeLe_trans (a b c : Diagnostic) (hab : a.placeLe b = true) (hbc : b.placeLe c = true) :
    a.placeLe c = true := by
  rw [placeLe_iff] at *
  omega

theorem placeLe_total (a b : Diagnostic) : (a.placeLe b || b.placeLe a) = true := by
  rw [Bool.or_eq_true, placeLe_iff, placeLe_iff]
  omega

theorem position_eq_of_placeLe {a b : Diagnostic} (hab : a.placeLe b = true)
    (hba : b.placeLe a = true) : a.position = b.position := by
  rw [placeLe_iff] at hab hba
  have hrow : a.position.row = b.position.row := by omega
  have hcol : a.position.col = b.position.col := by omega
  exact congrArg₂ Position.mk hrow hcol

theorem le_iff {a b : Diagnostic} : a.le b = true ↔ a.position.row < b.position.row ∨
    a.position.row = b.position.row ∧ (a.position.col < b.position.col ∨
      a.position.col = b.position.col ∧ (b.severity.rank.toNat < a.severity.rank.toNat ∨
        b.severity.rank.toNat = a.severity.rank.toNat ∧
          a.code.number.toNat ≤ b.code.number.toNat)) := by
  obtain ⟨⟨rank⟩, code, message, position, notes⟩ := a
  obtain ⟨⟨rank'⟩, code', message', position', notes'⟩ := b
  have hranks : rank = rank' ↔ rank.toNat = rank'.toNat := UInt8.toNat_inj.symm
  unfold Diagnostic.le
  simp only [Severity.mk.injEq, ne_eq, hranks]
  split_ifs
  all_goals simp only [decide_eq_true_eq, UInt8.lt_iff_toNat_lt, UInt16.le_iff_toNat_le]
  all_goals omega

theorem le_trans (a b c : Diagnostic) (hab : a.le b = true) (hbc : b.le c = true) :
    a.le c = true := by
  rw [le_iff] at *
  omega

theorem le_total (a b : Diagnostic) : (a.le b || b.le a) = true := by
  rw [Bool.or_eq_true, le_iff, le_iff]
  omega

theorem placeLe_of_le {a b : Diagnostic} (h : a.le b = true) : a.placeLe b = true := by
  rw [le_iff] at h
  rw [placeLe_iff]
  omega

end Diagnostic

namespace Layout

open Pairing

/-- All diagnostics of the layout of a text, sorted by row and column. -/
def inOrder (content : Bytes) : List Diagnostic :=
  (layout (splitLines content)).diagnostics.mergeSort Diagnostic.placeLe

theorem inOrder_perm (content : Bytes) :
    (inOrder content).Perm (layout (splitLines content)).diagnostics :=
  List.mergeSort_perm _ _

theorem nodup_positions_layout (lines : List Bytes) :
    ((layout lines).diagnostics.map Diagnostic.position).Nodup := by
  rw [layout_diagnostics]
  exact nodup_positions_findings (sorted_marks _)

theorem isBracket_of_mem_inOrder {content : Bytes} {d : Diagnostic} (h : d ∈ inOrder content) :
    d.IsBracket :=
  isBracket_of_mem_diagnostics ((inOrder_perm content).subset h)

/-- **A filter suppresses no diagnostic of a layout**, in whatever order they come. -/
theorem through_of_perm {lines : List Bytes} {ds : List Diagnostic}
    (h : ds.Perm (layout lines).diagnostics) : Filter.empty.through ds = ds := by
  refine Filter.through_of_nodup (fun _ _ => List.not_mem_nil) ?_
  have hpositions : ((ds.map Filter.key).map Fingerprint.position).Nodup := by
    rw [List.map_map]
    exact ((h.map Diagnostic.position).nodup_iff).mpr (nodup_positions_layout lines)
  exact hpositions.of_map _

/-- No two diagnostics of a layout are at the same place, so there is one way to sort them. -/
theorem eq_inOrder {content : Bytes} {ds : List Diagnostic}
    (hperm : ds.Perm (layout (splitLines content)).diagnostics)
    (hsorted : ds.Pairwise fun d d' => d.placeLe d' = true) : ds = inOrder content := by
  have hplaced := List.pairwise_mergeSort Diagnostic.placeLe_trans Diagnostic.placeLe_total
    (layout (splitLines content)).diagnostics
  refine (hperm.trans (inOrder_perm content).symm).eq_of_pairwise (fun a b ha hb hab hba => ?_)
    hsorted hplaced
  exact List.inj_on_of_nodup_map (nodup_positions_layout _) (hperm.subset ha)
    ((inOrder_perm content).subset hb) (Diagnostic.position_eq_of_placeLe hab hba)

/-- **The order in which diagnostics are shown is that of their places.** -/
theorem mergeSort_diagnostics (content : Bytes) :
    (layout (splitLines content)).diagnostics.mergeSort Diagnostic.le = inOrder content := by
  refine eq_inOrder (List.mergeSort_perm _ _) ?_
  exact (List.pairwise_mergeSort Diagnostic.le_trans Diagnostic.le_total _).imp
    Diagnostic.placeLe_of_le

theorem pairwise_inOrder (content : Bytes) :
    (inOrder content).Pairwise fun d d' => d.le d' = true := by
  rw [← mergeSort_diagnostics]
  exact List.pairwise_mergeSort Diagnostic.le_trans Diagnostic.le_total _

end Layout

theorem CacheRecord.diagnostics_ofContent (content : Bytes) :
    (ofContent content).diagnostics = Layout.inOrder content := by
  have hthrough := Layout.through_of_perm (List.Perm.refl (layout (splitLines content)).diagnostics)
  rw [← Layout.mergeSort_diagnostics]
  exact congrArg (List.mergeSort · Diagnostic.le) hthrough

/-! ### Runs that give a result -/

namespace Run

open Cache

/-- **The records of a cache come from runs**: it started without records for some texts, this one
among them, and no one else wrote records for these. No two of them have one key, and what is kept
of them can be decoded, which is so if they are short enough (`decodes_of_length_lt`). -/
def Filled (c : Cache) (content : Bytes) (w : World) : Prop :=
  ∃ used w₀, content ∈ used ∧ Set.InjOn key used ∧ Decodes used ∧
    (∀ content ∈ used, c.kept w₀.files content = none) ∧ Relation.ReflTransGen (Step c used) w₀ w

/-- **A run that gives a result**: it can read its file and is not called off, and the cache that it
uses, if any, has its records from runs. -/
structure Proceeds (w : World) (q : RunRequest) (patience : Patience) (source : SourceText) :
    Prop where
  load : (w.run (load q.path)).1 = .ok source
  ends : patience.endsBy 1 = false
  filled : ∀ c, q.cache = some c → Filled c source.content w

variable {w : World} {q : RunRequest} {patience : Patience} {source : SourceText}

/-- Whether or not there is a record in the cache, the result is that of the text. -/
theorem Proceeds.result (h : Proceeds w q patience source) : ∃ hit e,
    (w.run (perform q patience)).1 = .ok (resultOf q source (.ofContent source.content) hit e) := by
  have hstart : patience.endsBy 0 = false := by
    cases patience with
    | none => rfl
    | some n =>
      have hends := h.ends
      simp only [Patience.endsBy, decide_eq_false_iff_not] at hends ⊢
      omega
  obtain ⟨w', hread⟩ : ∃ w', w.run (Run.load q.path) = (.ok source, w') :=
    ⟨_, Prod.ext h.load rfl⟩
  have hfiles := files_run_load w q.path
  rw [hread] at hfiles
  rw [perform_eq, if_neg (by simp [hstart]), World.run_bind_ok w hread]
  rcases hcache : q.cache with _ | c
  · exact ⟨false, none, by rw [run_afterLoad_uncached hcache h.ends]⟩
  · obtain ⟨used, w₀, hused, hinj, hcodec, hempty, hrun⟩ := h.filled c hcache
    have hsound := sound_of_history hinj hcodec hempty hrun
    have hafter := ensures_afterLoad hinj hused (hcodec _ hused) hcache patience w'
      (by rw [hfiles]; exact hsound)
    exact hafter.2.resolve_left (by simp [h.ends])

/-! ### What is shown -/

theorem shown_ofContent (max : Int) (content : Bytes) : shown max (.ofContent content) =
    (Layout.inOrder content).take (Bag.capacity max) := by
  have hitems : ((Bag.ofMax max).addAll (CacheRecord.ofContent content).diagnostics).items =
      (Layout.inOrder content).take (Bag.capacity max) := by
    rw [Bag.addAll_eq (n := Bag.capacity max) _ _ rfl, CacheRecord.diagnostics_ofContent]
    rfl
  have hsorted : ((Layout.inOrder content).take (Bag.capacity max)).Pairwise
      fun d d' => d.le d' = true :=
    (Layout.pairwise_inOrder _).sublist (List.take_sublist _ _)
  unfold shown Bag.sort
  rw [hitems]
  exact List.mergeSort_of_pairwise hsorted

theorem dropped_ofContent (q : RunRequest) (source : SourceText) (hit : Bool)
    (e : Option CacheError) :
    (resultOf q source (.ofContent source.content) hit e).bag.dropped =
      (Layout.inOrder source.content).length - Bag.capacity q.maxDiagnostics := by
  rw [dropped_resultOf, Bag.addAll_eq (n := Bag.capacity q.maxDiagnostics) _ _ rfl,
    CacheRecord.diagnostics_ofContent]
  exact Nat.zero_add _

/-- **What a result shows of a text**: the first diagnostics in order, no more than a limit, with
the others counted; behind them at most one warning about the cache, and then at most one report of
times. -/
structure Shows (q : RunRequest) (content : Bytes) (limit : Nat) (r : RunResult) : Prop where
  items : r.bag.items =
    (Layout.inOrder content).take (min limit (Layout.inOrder content).length) ++
      cacheWarning r ++ timeDiagnostic q r
  dropped : r.bag.dropped = (Layout.inOrder content).length -
    min limit (Layout.inOrder content).length
  warning : (cacheWarning r).length ≤ 1 ∧ ∀ d ∈ cacheWarning r, d.code = .cacheFailure
  times : (timeDiagnostic q r).length ≤ 1 ∧ ∀ d ∈ timeDiagnostic q r, d.code = .timings

theorem shows_resultOf (q : RunRequest) (source : SourceText) (hit : Bool) (e : Option CacheError) :
    Shows q source.content (Bag.capacity q.maxDiagnostics)
      (resultOf q source (.ofContent source.content) hit e) := by
  have htake : ∀ n, (Layout.inOrder source.content).take
      (min n (Layout.inOrder source.content).length) =
        (Layout.inOrder source.content).take n := by
    intro n
    rw [← List.take_take, List.take_length]
  refine ⟨?_, ?_, ?_, ?_⟩
  · rw [items_resultOf, shown_ofContent, htake]
  · rw [dropped_ofContent]
    omega
  · generalize resultOf q source (.ofContent source.content) hit e = r
    unfold cacheWarning
    rcases r.cacheError with _ | e
    · simp
    · simp [Diagnostic.warning]
  · unfold timeDiagnostic
    split_ifs
    · simp [TimeReport.diagnostic]
    · simp

/-- Computed or found in the cache, the result shows the same of the text. -/
theorem Proceeds.shows (h : Proceeds w q patience source) : ∃ r,
    (w.run (perform q patience)).1 = .ok r ∧
      Shows q source.content (Bag.capacity q.maxDiagnostics) r := by
  obtain ⟨hit, e, hrun⟩ := h.result
  exact ⟨_, hrun, shows_resultOf q source hit e⟩

/-- **Which diagnostics a run shows.** A filter suppresses nothing of what the layout reports, and
whether it is computed or found in the cache, the run shows the first of it in order: as many as
asked for if this number is from 1 to 65535, and 256 otherwise. -/
theorem perform_shows (h : Proceeds w q patience source) :
    (∀ ds, ds.Perm (layout (splitLines source.content)).diagnostics →
      Filter.empty.through ds = ds) ∧
    ∃ r, (w.run (perform q patience)).1 = .ok r ∧
      Shows q source.content
        (if 1 ≤ q.maxDiagnostics ∧ q.maxDiagnostics ≤ 65535 then q.maxDiagnostics.toNat else 256)
        r := by
  refine ⟨fun _ => Layout.through_of_perm, ?_⟩
  obtain ⟨r, hrun, hshows⟩ := h.shows
  exact ⟨r, hrun, hshows⟩

/-- A text in which the diagnostics are not found in reading order. -/
def lateText : Bytes := Bytes.ofString "\x7b\x7b(\n]"

/-- What is kept of it: the first diagnostic that is found comes last. -/
def lateRecord : CacheRecord :=
  let result := layout (splitLines lateText)
  ⟨CacheRecord.currentSchema, some result.lines, none, 2, result.diagnostics.rotate 1⟩

theorem ofContent_lateText : CacheRecord.ofContent lateText = lateRecord := by
  have hdiagnostics : (CacheRecord.ofContent lateText).diagnostics =
      (layout (splitLines lateText)).diagnostics.rotate 1 := by
    rw [CacheRecord.diagnostics_ofContent]
    exact (Layout.eq_inOrder (List.rotate_perm _ 1) (by decide +kernel)).symm
  have hunclosed : (CacheRecord.ofContent lateText).unclosed = 2 := by decide +kernel
  have hadjusted : (CacheRecord.ofContent lateText).adjusted = none := by decide +kernel
  rw [lateRecord, ← hdiagnostics, ← hunclosed, ← hadjusted]
  rfl

/-- A world in which this text is a file. -/
def lateWorld : World := World.ofFiles (FileSystem.empty.write "/a" lateText 0o644)

/-- That world after a run that keeps its result. -/
def lateWorldLater : World := (lateWorld.run (perform (cachedRequest "/a") none)).2

/-- A request for no more than two diagnostics. -/
def pairRequest : RunRequest := { cachedRequest "/a" with maxDiagnostics := 2 }

/-- The world after the run, where the record is not to be computed. -/
theorem lateWorldLater_eq : lateWorldLater = ((lateWorld.run (load "/a")).2.run
    (answer (cachedRequest "/a") none ⟨"/a", lateText, false⟩ lateRecord)).2 := by
  have hread : lateWorld.run (load "/a") =
      (.ok ⟨"/a", lateText, false⟩, (lateWorld.run (load "/a")).2) :=
    Prod.ext (by decide +kernel) rfl
  have hstart : Patience.endsBy none 0 = false := rfl
  unfold lateWorldLater
  rw [perform_eq, if_neg (by simp [hstart])]
  change (lateWorld.run (load "/a" >>= _)).2 = _
  rw [World.run_bind_ok lateWorld hread, afterLoad, ofContent_lateText]

/-- A result from the cache shows the two brackets that are never closed, and not the mismatched
one, which is found before them. -/
theorem perform_shows_kept : ∃ r, (lateWorldLater.run (perform pairRequest none)).1 = .ok r ∧
    Shows pairRequest lateText 2 r ∧ r.cacheHit = true ∧ r.bag.dropped = 1 := by
  have hcodec : Decodes {lateText} := by
    refine decodes_of_length_lt ?_
    rintro _ rfl
    decide
  -- all that is to be computed about the worlds, at once
  obtain ⟨hempty, hfirst, hload, hhit⟩ :
      (Cache.mk "/c").kept lateWorld.files lateText = none ∧
      (lateWorld.run (load "/a")).1 = .ok ⟨"/a", lateText, false⟩ ∧
      (lateWorldLater.run (load "/a")).1 = .ok ⟨"/a", lateText, false⟩ ∧
      (lateWorldLater.run (perform pairRequest none)).1.toOption.map (·.cacheHit) = some true := by
    rw [lateWorldLater_eq]
    decide +kernel
  have hrun : Relation.ReflTransGen (Step ⟨"/c"⟩ {lateText}) lateWorld lateWorldLater := by
    refine .single (.perform (cachedRequest "/a") none rfl fun source hsource => ?_)
    rw [← Except.ok.inj (hfirst.symm.trans hsource)]
    exact Set.mem_singleton lateText
  have hfilled : Filled ⟨"/c"⟩ lateText lateWorldLater := by
    refine ⟨{lateText}, lateWorld, Set.mem_singleton lateText, Set.injOn_singleton _ _, hcodec, ?_,
      hrun⟩
    rintro _ rfl
    exact hempty
  have hends : Patience.endsBy none 1 = false := rfl
  obtain ⟨-, r, hr, hshows⟩ := perform_shows (w := lateWorldLater) (q := pairRequest)
    ⟨hload, hends, fun c hc => by rwa [← Option.some.inj hc]⟩
  have hall : (Layout.inOrder lateText).length = 3 := by
    rw [(Layout.inOrder_perm _).length_eq]
    decide +kernel
  rw [hr] at hhit
  exact ⟨r, hr, hshows, Option.some.inj hhit, by rw [hshows.dropped, hall]; rfl⟩

/-! ### Two limits -/

/-- The diagnostics about brackets that a result shows. -/
def brackets (r : RunResult) : List Diagnostic := r.bag.items.filter fun d => d.IsBracket

section Limits

variable {content : Bytes} {limit limit' : Nat} {r r' : RunResult} {q' : RunRequest}

theorem Shows.brackets_eq (h : Shows q content limit r) : brackets r =
    (Layout.inOrder content).take limit := by
  have hshown : ∀ d ∈ (Layout.inOrder content).take
      (min limit (Layout.inOrder content).length), decide d.IsBracket = true :=
    fun d hd => decide_eq_true (Layout.isBracket_of_mem_inOrder (List.mem_of_mem_take hd))
  have hwarning : ∀ d ∈ cacheWarning r, ¬ decide d.IsBracket = true := by
    intro d hd
    simp [Diagnostic.IsBracket, h.warning.2 d hd, Code.cacheFailure, Code.mismatched, Code.unclosed]
  have htimes : ∀ d ∈ timeDiagnostic q r, ¬ decide d.IsBracket = true := by
    intro d hd
    simp [Diagnostic.IsBracket, h.times.2 d hd, Code.timings, Code.mismatched, Code.unclosed]
  unfold brackets
  rw [h.items, List.filter_append, List.filter_append, List.filter_eq_self.mpr hshown,
    List.filter_eq_nil_iff.mpr hwarning, List.filter_eq_nil_iff.mpr htimes, List.append_nil,
    List.append_nil, ← List.take_take, List.take_length]

/-- One result shows no more than another if its limit is no larger or the other shows all. -/
theorem Shows.monotone_iff (h : Shows q content limit r) (h' : Shows q' content limit' r') :
    brackets r <+: brackets r' ∧ r'.bag.dropped ≤ r.bag.dropped ↔
      limit ≤ limit' ∨ (Layout.inOrder content).length ≤ limit' := by
  have hshorter : brackets r <+: brackets r' ↔
      min limit (Layout.inOrder content).length ≤ limit' := by
    rw [h.brackets_eq, h'.brackets_eq, List.prefix_take_iff, List.length_take]
    exact and_iff_right (List.take_prefix _ _)
  rw [hshorter, h.dropped, h'.dropped]
  omega

end Limits

/-- **A larger limit shows no less**, wherever the results come from: the diagnostics about brackets
of the run with the smaller limit come first among those of the other, which drops no more. It fails
in one case alone. A limit that does not fit in 16 bits counts as 256, which is less than a limit
that fits and is larger than 256; this matters where there are more diagnostics than that. -/
theorem perform_limits {w w' : World} {q q' : RunRequest} {patience patience' : Patience}
    {source source' : SourceText} (h : Proceeds w q patience source)
    (h' : Proceeds w' q' patience' source') (hcontent : source'.content = source.content)
    (hpos : 1 ≤ q.maxDiagnostics) (hle : q.maxDiagnostics ≤ q'.maxDiagnostics) :
    ∃ r r', (w.run (perform q patience)).1 = .ok r ∧ (w'.run (perform q' patience')).1 = .ok r' ∧
      (brackets r <+: brackets r' ∧ r'.bag.dropped ≤ r.bag.dropped ↔
        ¬ (256 < q.maxDiagnostics ∧ q.maxDiagnostics ≤ 65535 ∧ 65535 < q'.maxDiagnostics ∧
          256 < (layout (splitLines source.content)).diagnostics.length)) := by
  obtain ⟨r, hrun, hshows⟩ := h.shows
  obtain ⟨r', hrun', hshows'⟩ := h'.shows
  rw [hcontent] at hshows'
  refine ⟨r, r', hrun, hrun', ?_⟩
  rw [hshows.monotone_iff hshows', (Layout.inOrder_perm _).length_eq]
  unfold Bag.capacity Bag.defaultLimit
  split_ifs
  all_goals omega

/-- A text of 257 closing brackets. -/
def closers : Bytes := List.replicate 257 0x29

/-- A world in which this text is a file. -/
def closersWorld : World := World.ofFiles (FileSystem.empty.write "/a" closers 0o644)

/-- A request for the layout of that file, without a cache. -/
def closersRequest (max : Int) : RunRequest := ⟨"/a", max, none, none, false⟩

theorem load_closers : (closersWorld.run (load "/a")).1 = .ok ⟨"/a", closers, false⟩ := by
  decide +kernel

theorem proceeds_closers (max : Int) :
    Proceeds closersWorld (closersRequest max) none ⟨"/a", closers, false⟩ :=
  ⟨load_closers, rfl, by simp [closersRequest]⟩

theorem length_diagnostics_closers :
    (layout (splitLines closers)).diagnostics.length = 257 := by decide +kernel

/-- A limit of 65536 shows no less than one of 100. -/
theorem perform_limits_closers : ∃ r r',
    (closersWorld.run (perform (closersRequest 100) none)).1 = .ok r ∧
    (closersWorld.run (perform (closersRequest 65536) none)).1 = .ok r' ∧
    brackets r <+: brackets r' ∧ r'.bag.dropped ≤ r.bag.dropped := by
  obtain ⟨r, r', hr, hr', hiff⟩ :=
    perform_limits (proceeds_closers 100) (proceeds_closers 65536) rfl (by decide) (by decide)
  exact ⟨r, r', hr, hr', hiff.mpr (by simp [closersRequest])⟩

/-- But it shows less than a limit of 257, though both are valid settings. -/
theorem not_monotone_closers :
    Settings.invalid? { Settings.default with maxDiagnostics := 257 } = none ∧
    Settings.invalid? { Settings.default with maxDiagnostics := 65536 } = none ∧
    ∃ r r', (closersWorld.run (perform (closersRequest 257) none)).1 = .ok r ∧
      (closersWorld.run (perform (closersRequest 65536) none)).1 = .ok r' ∧
      ¬ brackets r <+: brackets r' ∧ ¬ r'.bag.dropped ≤ r.bag.dropped := by
  refine ⟨by decide +kernel, by decide +kernel, ?_⟩
  obtain ⟨r, hrun, hshows⟩ := (proceeds_closers 257).shows
  obtain ⟨r', hrun', hshows'⟩ := (proceeds_closers 65536).shows
  have hall : (Layout.inOrder closers).length = 257 := by
    rw [(Layout.inOrder_perm _).length_eq, length_diagnostics_closers]
  have hcapacity : Bag.capacity (closersRequest 257).maxDiagnostics = 257 := by decide
  have hcapacity' : Bag.capacity (closersRequest 65536).maxDiagnostics = 256 := by decide
  refine ⟨r, r', hrun, hrun', fun hshorter => ?_, fun hfewer => ?_⟩
  · have hlen := hshorter.length_le
    rw [hshows.brackets_eq, hshows'.brackets_eq, List.length_take, List.length_take, hall,
      hcapacity, hcapacity'] at hlen
    omega
  · rw [hshows.dropped, hshows'.dropped, hall, hcapacity, hcapacity'] at hfewer
    omega

end Run

end Allman
