import Allman.Proofs.Accounting
import Allman.Proofs.CacheHistory
import Allman.Proofs.Decoding
import Mathlib.Algebra.BigOperators.Group.List.Lemmas
import Mathlib.Algebra.GroupWithZero.Nat
import Mathlib.Algebra.Order.BigOperators.Group.List
import Mathlib.Algebra.Order.Group.Nat
import Mathlib.Data.List.Perm.Subperm

/-! # What is kept of a text fits

A text has at most one line more than it has bytes, and no more brackets than bytes; each bracket is
reported at most once (`length_findings_le`) and its place is a row and a column of the text
(`fits_of_mem_marks`). So the record of a text shorter than four gigabytes fits in the fields it is
written to, and the cache can read what it keeps of it (`Run.decodes_of_length_lt`). -/

namespace Allman

/-! ### Lines -/

theorem sum_length_splitOn (sep : UInt8) (s : Bytes) :
    ((Bytes.splitOn sep s).map (·.length + 1)).sum = s.length + 1 := by
  have hlength := congrArg List.length (Bytes.flatMap_splitOn sep s)
  simpa only [List.length_flatMap, List.length_append, List.length_singleton] using hlength

/-- The lines of a text, each with its newline, are not longer than the text with a newline. -/
theorem sum_length_splitLines (content : Bytes) :
    ((splitLines content).map (·.length + 1)).sum ≤ content.length + 1 := by
  unfold splitLines
  split
  · simp
  · rw [sum_length_splitOn]
    split_ifs
    · rw [List.length_dropLast]
      omega
    · exact Nat.le_refl _

theorem length_splitLines_le (content : Bytes) :
    (splitLines content).length ≤ content.length + 1 := by
  have hlen := List.length_le_sum_of_one_le ((splitLines content).map (·.length + 1)) (by simp)
  rw [List.length_map] at hlen
  exact Nat.le_trans hlen (sum_length_splitLines content)

theorem length_le_of_mem_splitLines {content line : Bytes} (h : line ∈ splitLines content) :
    line.length ≤ content.length := by
  have hmem := List.le_sum_of_mem (List.mem_map_of_mem (f := (·.length + 1)) h)
  exact Nat.le_of_succ_le_succ (Nat.le_trans hmem (sum_length_splitLines content))

/-! ### Brackets and what is found -/

namespace Layout

open Pairing

theorem length_rowMarks_le (row : Nat) : ∀ (s : Bytes) (col : Nat),
    (rowMarks row col s).length ≤ s.length
  | [], _ => Nat.le_refl 0
  | b :: s, col => by
    have ih := length_rowMarks_le row s (col + 1)
    unfold rowMarks
    split_ifs
    · exact Nat.succ_le_succ ih
    · exact Nat.le_succ_of_le ih

theorem length_marksFrom_le : ∀ (masked : List Bytes) (row : Nat),
    (marksFrom row masked).length ≤ (masked.map (·.length + 1)).sum
  | [], _ => Nat.le_refl 0
  | s :: masked, row => by
    have ih := length_marksFrom_le masked (row + 1)
    have hrow := length_rowMarks_le row s 0
    rw [marksFrom, List.length_append, List.map_cons, List.sum_cons]
    omega

theorem map_length_maskSteps : ∀ (mode : Mode) (lines : List Bytes),
    ((maskSteps mode lines).map (·.1)).map (·.length + 1) = lines.map (·.length + 1)
  | _, [] => rfl
  | mode, line :: lines => by
    rw [maskSteps, List.map_cons, List.map_cons, List.map_cons, map_length_maskSteps _ lines,
      length_maskLine]

/-- A bracket is reported at most once. -/
theorem length_complaints_add_le : ∀ ms wait : List Mark,
    (complaints wait ms).length + (ms.foldl step wait).length ≤ wait.length + ms.length
  | [], wait => by simp [complaints]
  | m :: ms, wait => by
    have ih := length_complaints_add_le ms (step wait m)
    have hone : (complaint wait m).length + (step wait m).length ≤ wait.length + 1 := by
      unfold complaint step
      split_ifs with hopen
      · simp
      · rcases wait with _ | ⟨o, wait⟩
        · simp
        · dsimp only
          split_ifs
          all_goals simp only [List.length_nil, List.length_cons, List.tail_cons]
          all_goals omega
    rw [complaints, List.length_append, List.foldl_cons, List.length_cons]
    omega

theorem length_findings_le (ms : List Mark) : (findings ms).length ≤ ms.length := by
  have hadd := length_complaints_add_le ms []
  rw [List.length_nil, Nat.zero_add] at hadd
  rw [findings, List.length_append, List.length_map, List.length_reverse]
  exact hadd

theorem fits_mismatched {row col : Nat} {closer : UInt8} {taken : Option (Entry Nat)}
    (hcloser : Position.Fits ⟨row, col⟩)
    (htaken : ∀ e, taken = some e → Position.Fits ⟨e.row, e.col⟩) :
    (mismatched row col closer taken).Fits := by
  have hquoted : (("mismatched '" : Bytes) ++ [closer] ++ ("'" : Bytes)).length < 0x100000000 := by
    rw [List.length_append, List.length_append, List.length_singleton]
    decide
  rcases taken with _ | e
  · exact ⟨hquoted, hcloser, by simp [mismatched, Diagnostic.warning],
      by simp [mismatched, Diagnostic.warning]⟩
  · refine ⟨hquoted, hcloser, by simp [mismatched, Diagnostic.warning, Diagnostic.withNote],
      fun n hn => ?_⟩
    rw [List.mem_singleton.mp hn]
    refine ⟨?_, htaken e rfl⟩
    rw [List.length_append, List.length_append, List.length_singleton]
    decide

theorem fits_unclosed {e : Entry Nat} (h : Position.Fits ⟨e.row, e.col⟩) : (unclosed e).Fits := by
  refine ⟨?_, h, by simp [unclosed, Diagnostic.warning], by simp [unclosed, Diagnostic.warning]⟩
  change (("unclosed '" : Bytes) ++ [e.opener] ++ ("'" : Bytes)).length < 0x100000000
  rw [List.length_append, List.length_append, List.length_singleton]
  decide

section Content

variable {content : Bytes} (hlen : content.length < 0xffffffff)
include hlen

theorem fits_of_mem_marks {m : Mark} (hm : m ∈ marks (maskLines (splitLines content))) :
    m.position.Fits := by
  obtain ⟨text, htext, hcol, -⟩ := mem_marks.mp hm
  have hrow : m.row < (splitLines content).length := by
    rw [← length_maskLines]
    exact (List.getElem?_eq_some_iff.mp htext).1
  have hline := List.getElem?_eq_getElem hrow
  rw [maskLines_getElem? hline, Option.some.injEq] at htext
  have hcol' : m.col < text.length := (List.getElem?_eq_some_iff.mp hcol).1
  rw [← htext, length_maskLine] at hcol'
  have hrows := length_splitLines_le content
  have hcols := length_le_of_mem_splitLines (List.mem_of_getElem? hline)
  constructor
  · change m.row < 0x100000000
    omega
  · change m.col < 0x100000000
    omega

theorem fits_of_mem_diagnostics {d : Diagnostic}
    (hd : d ∈ (layout (splitLines content)).diagnostics) : d.Fits := by
  rw [layout_diagnostics] at hd
  rcases mem_findings.mp hd with ⟨⟨c, t⟩, hx, -, rfl⟩ | ⟨o, ho, rfl⟩
  · refine fits_mismatched (fits_of_mem_marks hlen (mem_of_mem_takings hx).1) fun e he => ?_
    obtain ⟨o, rfl, rfl⟩ := Option.map_eq_some_iff.mp he
    have ho := (mem_of_taken hx).resolve_left (by simp)
    exact fits_of_mem_marks hlen ho
  · exact fits_unclosed (fits_of_mem_marks hlen (mem_of_mem_waiting ho))

end Content

theorem length_marks_le (content : Bytes) :
    (marks (maskLines (splitLines content))).length ≤ content.length + 1 := by
  have hmarks := length_marksFrom_le (maskLines (splitLines content)) 0
  rw [maskLines, map_length_maskSteps] at hmarks
  exact Nat.le_trans hmarks (sum_length_splitLines content)

theorem length_diagnostics_le (content : Bytes) :
    (layout (splitLines content)).diagnostics.length ≤ content.length + 1 := by
  rw [layout_diagnostics]
  exact Nat.le_trans (length_findings_le _) (length_marks_le content)

theorem length_leftover_le (content : Bytes) :
    (layout (splitLines content)).leftover.length ≤ content.length + 1 := by
  have hwaiting := (reverse_waiting_sublist (marks (maskLines (splitLines content)))).length_le
  rw [← layout_leftover, List.length_map] at hwaiting
  exact Nat.le_trans hwaiting (length_marks_le content)

theorem length_adjusted_le (content : Bytes) :
    (layout (splitLines content)).adjusted.length ≤ content.length + 1 := by
  have hnodup : (layout (splitLines content)).adjusted.Nodup :=
    pairwise_adjusted.imp Nat.ne_of_lt
  have hsub : (layout (splitLines content)).adjusted ⊆ List.range (splitLines content).length :=
    fun row hrow => List.mem_range.mpr (lt_of_mem_adjusted hrow)
  have hle := (List.subperm_of_subset hnodup hsub).length_le
  rw [List.length_range] at hle
  exact Nat.le_trans hle (length_splitLines_le content)

theorem length_le_of_mem_layout {content line : Bytes}
    (h : line ∈ (layout (splitLines content)).lines) : line.length ≤ content.length := by
  obtain ⟨row, hrow, rfl⟩ := List.mem_iff_getElem.mp h
  have hsame : (layout (splitLines content)).lines.length = (splitLines content).length :=
    length_run_lines
  have hline := List.getElem?_eq_getElem (hsame ▸ hrow)
  have hout : (layout (splitLines content)).lines[row]? = some _ := run_getElem? hline
  rw [List.getElem?_eq_getElem hrow, Option.some.injEq] at hout
  have hcols := length_le_of_mem_splitLines (List.mem_of_getElem? hline)
  rw [hout, List.length_drop]
  omega

end Layout

/-! ### Records -/

/-- **What is kept of a text fits**, if the text is shorter than four gigabytes. -/
theorem CacheRecord.fits_ofContent {content : Bytes} (hlen : content.length < 0xffffffff) :
    (ofContent content).Fits := by
  have hrows : (layout (splitLines content)).lines.length = (splitLines content).length :=
    Layout.length_run_lines
  have hle := length_splitLines_le content
  have hadjusted := Layout.length_adjusted_le content
  have hleftover := Layout.length_leftover_le content
  have hfound := Layout.length_diagnostics_le content
  have hthrough := Filter.through_sublist (layout (splitLines content)).diagnostics .empty
  have hdiagnostics : (ofContent content).diagnostics.Perm
      (Filter.empty.through (layout (splitLines content)).diagnostics) := List.mergeSort_perm _ _
  refine ⟨show 1 < 0x10000 by decide, fun l hl => ?_, fun l hl => ?_, ?_, ?_, fun d hd => ?_⟩
  · rw [← Option.some.inj hl]
    refine ⟨?_, fun s hs => ?_⟩
    · change (layout (splitLines content)).lines.length < _
      omega
    · have hline := Layout.length_le_of_mem_layout hs
      omega
  · have hmap : l = (layout (splitLines content)).adjusted.map Int.ofNat := by
      change (if (layout (splitLines content)).adjusted = [] then none else some _) = some l at hl
      split_ifs at hl
      exact (Option.some.inj hl).symm
    rw [hmap, List.length_map]
    refine ⟨by omega, fun n hn => ?_⟩
    obtain ⟨row, hrow, rfl⟩ := List.mem_map.mp hn
    have hlt := Layout.lt_of_mem_adjusted hrow
    rw [Int.ofNat_eq_natCast]
    omega
  · change -_ ≤ (((layout (splitLines content)).leftover.length : Nat) : Int) ∧
      (((layout (splitLines content)).leftover.length : Nat) : Int) < _
    omega
  · have hkept := hthrough.length_le
    rw [hdiagnostics.length_eq]
    omega
  · exact Layout.fits_of_mem_diagnostics hlen (hthrough.subset (hdiagnostics.subset hd))

/-- **The cache can read what it keeps** of texts that are shorter than four gigabytes. -/
theorem Run.decodes_of_length_lt {used : Set Bytes}
    (h : ∀ content ∈ used, content.length < 0xffffffff) : Decodes used := by
  intro content hcontent
  exact CacheRecord.decode?_encode (CacheRecord.fits_ofContent (h content hcontent))

end Allman
