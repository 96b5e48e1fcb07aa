import Allman.Proofs.Preservation
import Allman.Proofs.Showing
import Allman.Proofs.Splitting

/-! # When reformatting changes a text

A text is untidy if a line ends in white space or the last line does not end. Writing out the lines
of a text gives the text back iff it is tidy (`render_splitLines_eq_iff`). A row that is moved is
written out shorter than it was, whatever its end looks like, so that a moved row is always a change
(`adjusted_eq_nil_of_output_eq`). Hence a text changes iff a row is moved or the text is untidy, in
the formatter as in a run on a file (`changed_iff`). -/

namespace Allman

/-! ### Writing out the lines of a text -/

/-- **A text that does not stay as it is when its lines are written out**: some line ends in white
space, or the last line does not end. -/
def Untidy (content : Bytes) : Prop :=
  (∃ line ∈ splitLines content, ∃ b, line.getLast? = some b ∧ Byte.isTrailing b = true) ∨
    content ≠ [] ∧ content.getLast? ≠ some Byte.newline

/-- **Writing out the lines of a text gives the text back iff it is tidy.** -/
theorem render_splitLines_eq_iff (content : Bytes) :
    render (splitLines content) = content ↔ ¬ Untidy content := by
  rw [render_splitLines_eq_self_iff, Untidy, not_or, not_and_or, not_not, not_not]
  simp only [not_exists, not_and, Bool.not_eq_true]

/-! ### The formatter -/

/-- **A moved row is a change**: what is written out for it is shorter than it was. -/
theorem adjusted_eq_nil_of_output_eq {content : Bytes} (h : (reformat content).output = content) :
    (reformat content).layout.adjusted = [] := by
  refine Layout.adjusted_eq_nil_iff.mpr fun row => ?_
  rcases Nat.lt_or_ge row (splitLines content).length with hrow | hrow
  · have hline := List.getElem?_eq_getElem hrow
    have hafter := splitLines_reformat_getElem? hline
    rw [h, hline, Option.some.injEq] at hafter
    have hspaces : (layout (splitLines content)).lost (splitLines content) row ≤
        (splitLines content)[row].leadingSpaces := Layout.lost_le_leadingSpaces hline
    have hlength := Bytes.leadingSpaces_le_length (splitLines content)[row]
    have hshorter := (Bytes.trimTrailing_prefix ((splitLines content)[row].drop
      ((layout (splitLines content)).lost (splitLines content) row))).length_le
    rw [← hafter, List.length_drop] at hshorter
    change (layout (splitLines content)).lost (splitLines content) row = 0
    omega
  · exact Layout.lost_eq_zero_of_le hrow

theorem output_eq_iff (content : Bytes) : (reformat content).output = content ↔
    (reformat content).layout.adjusted = [] ∧ ¬ Untidy content := by
  have hsame : (reformat content).layout.adjusted = [] →
      (reformat content).output = render (splitLines content) := by
    intro hnil
    have hlines : (layout (splitLines content)).lines = splitLines content :=
      Layout.run_lines_of_lost_eq_zero (Layout.adjusted_eq_nil_iff.mp hnil)
    exact congrArg render hlines
  rw [← render_splitLines_eq_iff]
  constructor
  · intro h
    have hnil := adjusted_eq_nil_of_output_eq h
    exact ⟨hnil, (hsame hnil).symm.trans h⟩
  · rintro ⟨hnil, hrender⟩
    rw [hsame hnil, hrender]

theorem reformat_changed_iff (content : Bytes) : (reformat content).changed = true ↔
    (reformat content).layout.adjusted ≠ [] ∨ Untidy content := by
  change ((reformat content).output != content) = true ↔ _
  rw [bne_iff_ne, ne_eq, output_eq_iff, not_and_or, not_not]

/-! ### Runs -/

namespace Run

theorem resultOf_changed_iff (q : RunRequest) (source : SourceText) (hit : Bool)
    (e : Option CacheError) :
    (resultOf q source (.ofContent source.content) hit e).changed = true ↔
      (resultOf q source (.ofContent source.content) hit e).adjusted ≠ [] ∨
        Untidy source.content := by
  have hadjusted : (resultOf q source (.ofContent source.content) hit e).adjusted ≠ [] ↔
      (reformat source.content).layout.adjusted ≠ [] := by
    simp only [resultOf, CacheRecord.ofContent]
    split
    · next hnil => simp [hnil]
    · simp
  rw [hadjusted, ← reformat_changed_iff]
  rfl

/-- If two actions give a result, the first gives one from which the second comes to it. -/
theorem exists_of_run_bind {ε α β : Type} {w : World} {act : Act ε α} {f : α → Act ε β} {b : β}
    (h : (w.run (act >>= f)).1 = .ok b) :
    ∃ a, (w.run act).1 = .ok a ∧ ((w.run act).2.run (f a)).1 = .ok b := by
  rw [World.run_bind] at h
  rcases hrun : w.run act with ⟨e | a, w'⟩
  · rw [hrun] at h
    simp at h
  · rw [hrun] at h
    exact ⟨a, rfl, h⟩

/-- A result that is not from the cache is computed, whatever the cache holds. -/
theorem exists_resultOf_of_not_hit {w : World} {q : RunRequest} {patience : Patience}
    {r : RunResult} (h : (w.run (perform q patience)).1 = .ok r) (hhit : r.cacheHit = false) :
    ∃ source e, r = resultOf q source (.ofContent source.content) false e := by
  rw [perform_eq] at h
  split at h
  · cases h
  · obtain ⟨source, -, hafter⟩ := exists_of_run_bind h
    obtain ⟨⟨found, lookupError⟩, -, hfound⟩ := exists_of_run_bind hafter
    dsimp only at hfound
    rcases found with _ | record
    · dsimp only at hfound
      split at hfound
      · cases hfound
      · obtain ⟨keepError, -, hkeep⟩ := exists_of_run_bind hfound
        exact ⟨source, lookupError.or keepError, (Except.ok.inj hkeep).symm⟩
    · -- a record that is found is a hit
      rw [← Except.ok.inj hfound] at hhit
      simp [resultOf] at hhit

end Run

open Run in
/-- **When a text changes**: iff a row of it is moved, or some line ends in white space, or the last
line does not end. It is the same for the formatter, for a run on a file that gives a result, and
for every result that is not from the cache. -/
theorem changed_iff (content : Bytes) :
    (∀ watch, ∃ r, ((Reformatter.fresh watch).use fun _ => reformat content).1 = some r ∧
      (r.changed = true ↔ r.layout.adjusted ≠ [] ∨ Untidy content)) ∧
    (∀ (w : World) q patience source, source.content = content → Proceeds w q patience source →
      ∃ r, (w.run (perform q patience)).1 = .ok r ∧
        (r.changed = true ↔ r.adjusted ≠ [] ∨ Untidy content)) ∧
    ∀ (w : World) q patience r, (w.run (perform q patience)).1 = .ok r →
      r.source.content = content →
      r.cacheHit = false → (r.changed = true ↔ r.adjusted ≠ [] ∨ Untidy content) := by
  refine ⟨fun _ => ⟨_, rfl, reformat_changed_iff content⟩, ?_, ?_⟩
  · rintro w q patience source rfl h
    obtain ⟨hit, e, hrun⟩ := h.result
    exact ⟨_, hrun, resultOf_changed_iff q source hit e⟩
  · rintro w q patience r hrun rfl hhit
    obtain ⟨source, e, rfl⟩ := exists_resultOf_of_not_hit hrun hhit
    exact resultOf_changed_iff q source false e

/-- A line that ends in a space is a change, though no row is moved. -/
theorem changed_iff_padded_line :
    (reformat (Bytes.ofString "x \n")).layout.adjusted = [] ∧
    ∃ r, ((World.ofFiles (FileSystem.empty.write "/a" "x \n" 0o644)).run
      (Run.perform ⟨"/a", 100, none, none, false⟩ none)).1 = .ok r ∧ r.changed = true := by
  obtain ⟨hadjusted, hload, hline⟩ :
      (reformat (Bytes.ofString "x \n")).layout.adjusted = [] ∧
      ((World.ofFiles (FileSystem.empty.write "/a" "x \n" 0o644)).run (Run.load "/a")).1 =
        .ok ⟨"/a", "x \n", false⟩ ∧
      Bytes.ofString "x " ∈ splitLines (Bytes.ofString "x \n") := by decide +kernel
  obtain ⟨r, hrun, hiff⟩ := (changed_iff (Bytes.ofString "x \n")).2.1 _
    ⟨"/a", 100, none, none, false⟩ none _ rfl ⟨hload, rfl, fun _ h => by cases h⟩
  refine ⟨hadjusted, r, hrun, hiff.mpr (Or.inr (Or.inl ⟨_, hline, Byte.space, ?_, rfl⟩))⟩
  decide +kernel

end Allman
