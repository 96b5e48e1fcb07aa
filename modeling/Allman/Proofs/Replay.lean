import Allman.Proofs.Findings
import Allman.Run

/-! # What a run shows

A record keeps each diagnostic once, in the order in which they are shown. A filter lets such a list
through as it is (`through_of_nodup`), so that a record from the cache is shown as it was kept
(`replay_ofContent`). Of the diagnostics, a bag takes as many as it has room for (`addAll_eq`);
a warning about the cache and the report of times stand behind them (`items_resultOf`). -/

namespace Allman

/-- The diagnostic is about a bracket. -/
def Diagnostic.IsBracket (d : Diagnostic) : Prop := d.code = .mismatched ∨ d.code = .unclosed

instance : DecidablePred Diagnostic.IsBracket := fun _ => inferInstanceAs (Decidable (_ ∨ _))

/-! ### Each diagnostic once -/

namespace Filter

theorem key_not_mem_of_mem_through : ∀ {ds : List Diagnostic} {f : Filter} {d : Diagnostic},
    d ∈ f.through ds → key d ∉ f.seen
  | [], _, _, h => by simp [through] at h
  | d' :: ds, f, d, h => by
    unfold through at h
    split at h
    · next hnew =>
      have hseen : key d' ∉ f.seen := by simpa [isNew] using hnew
      rcases List.mem_cons.mp h with rfl | h
      · exact hseen
      · have hlater := key_not_mem_of_mem_through h
        rw [note, if_pos hnew] at hlater
        exact fun hmem => hlater (List.mem_cons_of_mem _ hmem)
    · exact key_not_mem_of_mem_through h

theorem nodup_through : ∀ (ds : List Diagnostic) (f : Filter), ((f.through ds).map key).Nodup
  | [], _ => by simp [through]
  | d :: ds, f => by
    unfold through
    split
    · next hnew =>
      rw [List.map_cons, List.nodup_cons]
      refine ⟨fun hmem => ?_, nodup_through ds _⟩
      obtain ⟨d', hd', hkey⟩ := List.mem_map.mp hmem
      have hlater := key_not_mem_of_mem_through hd'
      rw [note, if_pos hnew, hkey] at hlater
      exact hlater List.mem_cons_self
    · exact nodup_through ds f

theorem through_sublist : ∀ (ds : List Diagnostic) (f : Filter), (f.through ds).Sublist ds
  | [], _ => .slnil
  | d :: ds, f => by
    unfold through
    split
    · exact (through_sublist ds _).cons_cons d
    · exact (through_sublist ds f).cons d

/-- **A filter lets a list without repetition through.** -/
theorem through_of_nodup : ∀ {ds : List Diagnostic} {f : Filter},
    (∀ d ∈ ds, key d ∉ f.seen) → (ds.map key).Nodup → f.through ds = ds
  | [], _, _, _ => rfl
  | d :: ds, f, hseen, hnodup => by
    rw [List.map_cons, List.nodup_cons] at hnodup
    have hnew : f.isNew d = true := by simpa [isNew] using hseen d List.mem_cons_self
    have hrest : ∀ d' ∈ ds, key d' ∉ (f.note d).seen := by
      intro d' hd' hmem
      rw [note, if_pos hnew] at hmem
      rcases List.mem_cons.mp hmem with heq | hmem
      · exact hnodup.1 (List.mem_map.mpr ⟨d', hd', heq⟩)
      · exact hseen d' (List.mem_cons_of_mem _ hd') hmem
    rw [through, if_pos hnew, through_of_nodup hrest hnodup.2]

end Filter

/-- **A record is shown as it was kept.** -/
theorem Run.replay_ofContent (content : Bytes) :
    replay (.ofContent content) = .ofContent content := by
  have hperm : (CacheRecord.ofContent content).diagnostics.Perm
      (Filter.empty.through (reformat content).layout.diagnostics) := List.mergeSort_perm _ _
  have hnodup := (hperm.map Filter.key).nodup_iff.mpr (Filter.nodup_through _ _)
  have hthrough : Filter.empty.through (CacheRecord.ofContent content).diagnostics =
      (CacheRecord.ofContent content).diagnostics :=
    Filter.through_of_nodup (fun _ _ => List.not_mem_nil) hnodup
  unfold replay
  rw [hthrough]

/-! ### Diagnostics about brackets -/

namespace Layout

open Pairing

theorem isBracket_of_mem_complaint {wait : List Mark} {m : Mark} {d : Diagnostic}
    (h : d ∈ complaint wait m) : d.IsBracket := by
  unfold complaint at h
  split at h
  · simp at h
  · split at h
    · rw [List.mem_singleton.mp h]
      exact Or.inl rfl
    · split at h
      · simp at h
      · rw [List.mem_singleton.mp h]
        exact Or.inl rfl

theorem isBracket_of_mem_complaints : ∀ {ms wait : List Mark} {d : Diagnostic},
    d ∈ complaints wait ms → d.IsBracket
  | [], _, _, h => by simp [complaints] at h
  | m :: ms, wait, d, h => by
    rw [complaints, List.mem_append] at h
    rcases h with h | h
    · exact isBracket_of_mem_complaint h
    · exact isBracket_of_mem_complaints h

/-- **All that a layout finds wrong is about brackets.** -/
theorem isBracket_of_mem_diagnostics {lines : List Bytes} {d : Diagnostic}
    (h : d ∈ (layout lines).diagnostics) : d.IsBracket := by
  rw [layout_diagnostics, findings, List.mem_append] at h
  rcases h with h | h
  · exact isBracket_of_mem_complaints h
  · obtain ⟨m, -, rfl⟩ := List.mem_map.mp h
    exact Or.inr rfl

end Layout

theorem CacheRecord.isBracket_of_mem_ofContent {content : Bytes} {d : Diagnostic}
    (h : d ∈ (ofContent content).diagnostics) : d.IsBracket := by
  have hmem : d ∈ Filter.empty.through (reformat content).layout.diagnostics :=
    List.mem_mergeSort.mp h
  exact Layout.isBracket_of_mem_diagnostics ((Filter.through_sublist _ _).subset hmem)

/-! ### Bags -/

namespace Bag

theorem add_of_lt {b : Bag} {n : Nat} (h : b.limit = some n) (hlt : b.items.length < n)
    (d : Diagnostic) : b.add d = b.force d := by
  unfold add hasRoom
  rw [h]
  exact if_pos (decide_eq_true hlt)

theorem add_of_le {b : Bag} {n : Nat} (h : b.limit = some n) (hle : n ≤ b.items.length)
    (d : Diagnostic) : b.add d = { b with dropped := b.dropped + 1 } := by
  unfold add hasRoom
  rw [h]
  exact if_neg (by simpa using hle)

/-- **A bag takes diagnostics in order as long as there is room**, and counts the others. -/
theorem addAll_eq {n : Nat} : ∀ (ds : List Diagnostic) (b : Bag), b.limit = some n →
    b.addAll ds = { b with
      items := b.items ++ ds.take (n - b.items.length)
      dropped := b.dropped + (ds.length - (n - b.items.length)) }
  | [], b, _ => by simp [addAll]
  | d :: ds, b, h => by
    have ih := addAll_eq (n := n) ds (b.add d)
    change (b.add d).addAll ds = _
    rcases Nat.lt_or_ge b.items.length n with hlt | hle
    · rw [add_of_lt h hlt] at ih ⊢
      obtain ⟨k, hk⟩ : ∃ k, n - b.items.length = k + 1 := ⟨n - b.items.length - 1, by omega⟩
      have hleft : n - (b.force d).items.length = k := by
        have hlen : (b.force d).items.length = b.items.length + 1 := by simp [force]
        omega
      rw [ih h, hleft, hk]
      simp [force]
    · rw [add_of_le h hle] at ih ⊢
      have hzero : n - b.items.length = 0 := by omega
      rw [ih h]
      simp only [hzero, List.take_zero, List.length_cons, Nat.sub_zero, Bag.mk.injEq, true_and]
      omega

end Bag

namespace Run

/-- The diagnostics of a record that a run shows. -/
def shown (max : Int) (record : CacheRecord) : List Diagnostic :=
  ((Bag.ofMax max).addAll record.diagnostics).sort.items

theorem mem_of_mem_shown {max : Int} {record : CacheRecord} {d : Diagnostic}
    (h : d ∈ shown max record) : d ∈ record.diagnostics := by
  have hmem : d ∈ ((Bag.ofMax max).addAll record.diagnostics).items := List.mem_mergeSort.mp h
  rw [Bag.addAll_eq (n := Bag.capacity max) _ _ rfl] at hmem
  exact List.mem_of_mem_take hmem

/-- The warning about the cache, if there is one. -/
def cacheWarning (r : RunResult) : List Diagnostic :=
  (r.cacheError.map fun e => .warning .cacheFailure ⟨0, 0⟩ e.message).toList

/-- The report of times, if it is to be shown. -/
def timeDiagnostic (q : RunRequest) (r : RunResult) : List Diagnostic :=
  if q.watch.isSome ∧ q.timingDiagnostic then [r.timing.diagnostic [] r.source.path] else []

/-- **What the bag of a result holds.** -/
theorem items_resultOf (q : RunRequest) (source : SourceText) (record : CacheRecord) (hit : Bool)
    (cacheError : Option CacheError) :
    (resultOf q source record hit cacheError).bag.items =
      shown q.maxDiagnostics record ++ cacheWarning (resultOf q source record hit cacheError) ++
        timeDiagnostic q (resultOf q source record hit cacheError) := by
  by_cases htimed : q.watch.isSome ∧ q.timingDiagnostic
  · rcases cacheError with _ | e
    · simp [resultOf, timeDiagnostic, cacheWarning, shown, Bag.force, htimed]
    · simp [resultOf, timeDiagnostic, cacheWarning, shown, Bag.force, Bag.warnOfCache, htimed]
  · rcases cacheError with _ | e
    · simp [resultOf, timeDiagnostic, cacheWarning, shown, htimed]
    · simp [resultOf, timeDiagnostic, cacheWarning, shown, Bag.force, Bag.warnOfCache, htimed]

theorem dropped_resultOf (q : RunRequest) (source : SourceText) (record : CacheRecord) (hit : Bool)
    (cacheError : Option CacheError) :
    (resultOf q source record hit cacheError).bag.dropped =
      ((Bag.ofMax q.maxDiagnostics).addAll record.diagnostics).dropped := by
  unfold resultOf
  dsimp only
  rcases cacheError with _ | e
  · split
    · rfl
    · rfl
  · split
    · rfl
    · rfl

end Run

end Allman
