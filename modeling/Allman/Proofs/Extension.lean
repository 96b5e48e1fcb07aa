import Allman.Proofs.Accounting
import Allman.Proofs.Embedding

/-! # Text that is added at the end

Lines `b` are added behind lines `a`. Up to the end of `a` nothing changes: the pass over both
follows the pass over `a`. From there on a pass only adds to what it knows (`Extends`): a row that
is to be moved keeps its distance, and a row of `a` gets one only from a bracket that was still open
at the end of `a`, since every other bracket of `a` has been taken. One bracket keeps this
(`Extends.byte`), so that it holds after all rows of `b` (`Extends.rows`).

So the moves of `a` stay, later text moves no row of `a` but those of brackets left open there
(`lost_append`), and what was found mismatched in `a` comes first in both (`layout_append`). -/

namespace Allman.Layout

open Pairing

/-! ### Rows that are read later -/

/-- **What rows from `row` on do to a pass**: what waits afterwards waited before or stands in
these rows, no distance changes, and a row before these gets one only if a bracket waited in it. -/
structure Extends (row : Nat) (p q : Pass) : Prop where
  stack : ∀ e ∈ q.stack.entries, e ∈ p.stack.entries ∨ row ≤ e.row
  stays : ∀ x, p.dedent.getD x 0 ≠ 0 → q.dedent.getD x 0 = p.dedent.getD x 0
  only : ∀ x < row, q.dedent.getD x 0 ≠ p.dedent.getD x 0 → ∃ e ∈ p.stack.entries, e.row = x

variable {start row : Nat} {p q : Pass} {lines : List Bytes}

theorem Extends.refl (start : Nat) (p : Pass) : Extends start p p :=
  ⟨fun _ he => Or.inl he, fun _ _ => rfl, fun _ _ hne => absurd rfl hne⟩

theorem Pass.getD_move_eq_or (p : Pass) (row distance x : Nat) :
    (p.move row distance).dedent.getD x 0 = p.dedent.getD x 0 ∨
      x = row ∧ p.dedent.getD x 0 = 0 := by
  simp only [Pass.move, List.getD_eq_getElem?_getD, List.getElem?_modify]
  by_cases hx : row = x
  · rcases hget : p.dedent[x]? with _ | n
    · simp
    · by_cases hn : n = 0
      · exact Or.inr ⟨hx.symm, by simp [hn]⟩
      · simp [hn]
  · simp [hx]

/-- A row may be moved if it is one of the later rows, or a bracket waited in it at the start. -/
theorem Extends.move (h : Extends start p q)
    (hrow : start ≤ row ∨ ∃ e ∈ p.stack.entries, e.row = row) (distance : Nat) :
    Extends start p (q.move row distance) := by
  refine ⟨h.stack, fun x hx => ?_, fun x hlt hne => ?_⟩
  · have hstay := h.stays x hx
    rcases q.getD_move_eq_or row distance x with heq | ⟨-, hzero⟩
    · rw [heq, hstay]
    · rw [hstay] at hzero
      exact absurd hzero hx
  · rcases q.getD_move_eq_or row distance x with heq | ⟨rfl, -⟩
    · rw [heq] at hne
      exact h.only x hlt hne
    · rcases hrow with hge | hwaits
      · omega
      · exact hwaits

theorem Extends.close (h : Extends start p q) (hrow : start ≤ row) (col : Nat)
    (closer opener : UInt8) : Extends start p (q.close lines row col closer opener) := by
  rcases hstack : q.stack.entries with _ | ⟨e, rest⟩
  · rw [Pass.close_empty hstack]
    exact ⟨h.stack, h.stays, h.only⟩
  · have hpop : Extends start p { q with stack := ⟨rest⟩ } := by
      refine ⟨fun e' he' => h.stack e' ?_, h.stays, h.only⟩
      rw [hstack]
      exact List.mem_cons_of_mem e he'
    -- the bracket that is taken waited at the start, or stands in a later row
    have hopen : start ≤ e.row ∨ ∃ e' ∈ p.stack.entries, e'.row = e.row := by
      rcases h.stack e (by rw [hstack]; exact List.mem_cons_self) with he | hge
      · exact Or.inr ⟨e, he, rfl⟩
      · exact Or.inl hge
    rw [Pass.close_cons hstack]
    split
    · exact ⟨hpop.stack, hpop.stays, hpop.only⟩
    · split
      · exact (hpop.move hopen (e.col - e.indent)).move (Or.inl hrow) (e.col - e.indent)
      · exact hpop

/-- **One byte.** -/
theorem Extends.byte (h : Extends start p q) (hrow : start ≤ row) (col : Nat) (b : UInt8) :
    Extends start p (q.byte lines row col b) := by
  rcases Pass.byte_cases lines row col b q with ⟨-, heq⟩ | ⟨opener, -, -, heq⟩ | ⟨-, -, heq⟩
  · rw [heq]
    refine ⟨fun e he => ?_, h.stays, h.only⟩
    rcases List.mem_cons.mp he with rfl | he
    · exact Or.inr hrow
    · exact h.stack e he
  · rw [heq]
    exact h.close hrow col b opener
  · rw [heq]
    exact h

theorem Extends.bytes (hrow : start ≤ row) : ∀ (s : Bytes) (col : Nat) {q : Pass},
    Extends start p q → Extends start p (Pass.bytes lines row col s q)
  | [], _, _, h => h
  | b :: s, col, _, h => Extends.bytes hrow s (col + 1) (h.byte hrow col b)

/-- **Rows.** -/
theorem Extends.rows : ∀ (masked : List Bytes) (row : Nat) {q : Pass}, start ≤ row →
    Extends start p q → Extends start p (Pass.rows lines row masked q)
  | [], _, _, _, h => h
  | text :: masked, row, q, hrow, h => by
    have hbytes : Extends start p (Pass.bytes lines row 0 text q) := Extends.bytes hrow text 0 h
    refine Extends.rows masked (row + 1) (by omega) ?_
    unfold Pass.row
    split
    · exact ⟨hbytes.stack, hbytes.stays, hbytes.only⟩
    · exact hbytes

/-! ### A text and its first part -/

section Append

variable {a b ma mb : List Bytes}

theorem sits_append (a b : List Bytes) : Sits id a (a ++ b) := by
  refine ⟨strictMono_id, fun row line h => ?_⟩
  rw [id, List.getElem?_append_left (List.getElem?_eq_some_iff.mp h).1, h]

/-- **A row of the first part loses the same in both texts**, or nothing in the first and a bracket
of the row is left open there. -/
theorem lost_append (hlen : ma.length = a.length) {row : Nat} (hrow : row < a.length) :
    (run (a ++ b) (ma ++ mb)).lost (a ++ b) row = (run a ma).lost a row ∨
      (run a ma).lost a row = 0 ∧ ∃ e ∈ (run a ma).leftover, e.row = row := by
  have hsits := sits_append a b
  have hfirst : finalPass a ma = Pass.rows a 0 ma (.start a.length) := by
    rw [finalPass, List.take_of_length_le (Nat.le_of_eq hlen)]
  have hfollows : Follows id a (finalPass a ma)
      (Pass.rows (a ++ b) 0 ma (.start (a ++ b).length)) := by
    rw [hfirst]
    exact Follows.rows hsits ma 0 0 (by omega) (fun _ _ => rfl) (follows_start hsits)
  have hextends : Extends a.length (Pass.rows (a ++ b) 0 ma (.start (a ++ b).length))
      (finalPass (a ++ b) (ma ++ mb)) := by
    rw [finalPass_append hlen]
    exact Extends.rows (mb.take b.length) a.length (Nat.le_refl _) (Extends.refl _ _)
  generalize Pass.rows (a ++ b) 0 ma (.start (a ++ b).length) = halfway at hfollows hextends
  have hnow : halfway.dedent.getD row 0 = (finalPass a ma).dedent.getD row 0 :=
    hfollows.getD_dedent hrow
  have hline := List.getElem?_eq_getElem hrow
  have hlost : (run (a ++ b) (ma ++ mb)).lost (a ++ b) row =
      min ((finalPass (a ++ b) (ma ++ mb)).dedent.getD row 0) a[row].leadingSpaces :=
    lost_run (hsits.getElem? row _ hline)
  rw [hlost, lost_run hline, ← hnow]
  by_cases hsame : (finalPass (a ++ b) (ma ++ mb)).dedent.getD row 0 = halfway.dedent.getD row 0
  · rw [hsame]
    exact Or.inl rfl
  · have hzero : halfway.dedent.getD row 0 = 0 := by
      by_contra hne
      exact hsame (hextends.stays row hne)
    obtain ⟨e, he, hrow'⟩ := hextends.only row hrow hsame
    rw [hfollows.stack, List.mem_map] at he
    obtain ⟨e', he', rfl⟩ := he
    rw [hzero, Nat.zero_min]
    exact Or.inr ⟨rfl, e', List.mem_reverse.mpr he', hrow'⟩

/-- A row of the first part that loses as much in both texts has the same line in both results. -/
theorem getElem?_run_append {row : Nat} (hrow : row < a.length)
    (hlost : (run (a ++ b) mb).lost (a ++ b) row = (run a ma).lost a row) :
    (run (a ++ b) mb).lines[row]? = (run a ma).lines[row]? := by
  have hline := List.getElem?_eq_getElem hrow
  have hboth : (a ++ b)[row]? = some a[row] := (sits_append a b).getElem? row _ hline
  rw [run_getElem? hboth, run_getElem? hline, hlost]

end Append

/-! ### Mismatches -/

/-- The mismatches among the findings are the complaints about closing brackets. -/
theorem filter_mismatched_findings (ms : List Mark) :
    (findings ms).filter (·.code = .mismatched) = complaints [] ms := by
  have hcomplaints : (complaints [] ms).filter (·.code = .mismatched) = complaints [] ms := by
    rw [List.filter_eq_self, complaints_eq_map_blame]
    intro d hd
    obtain ⟨x, -, rfl⟩ := List.mem_map.mp hd
    simp
  have hunclosed : ((waiting ms).reverse.map unclosedMark).filter (·.code = .mismatched) = [] := by
    rw [List.filter_eq_nil_iff]
    intro d hd
    obtain ⟨o, -, rfl⟩ := List.mem_map.mp hd
    simp [Code.mismatched, Code.unclosed]
  rw [findings, List.filter_append, hcomplaints, hunclosed, List.append_nil]

theorem filter_mismatched_layout_prefix (a b : List Bytes) :
    (layout a).diagnostics.filter (·.code = .mismatched) <+:
      (layout (a ++ b)).diagnostics.filter (·.code = .mismatched) := by
  rw [layout_diagnostics, layout_diagnostics, filter_mismatched_findings,
    filter_mismatched_findings, maskLines_append, marks, marks, marksFrom_append,
    complaints_append]
  exact List.prefix_append _ _

theorem lost_layout_append (a b : List Bytes) {row : Nat} (hrow : row < a.length) :
    (layout (a ++ b)).lost (a ++ b) row = (layout a).lost a row ∨
      (layout a).lost a row = 0 ∧ ∃ e ∈ (layout a).leftover, e.row = row := by
  rw [layout, maskLines_append]
  exact lost_append (length_maskLines a) hrow

/-- **Later text never undoes an earlier decision.** Lines `b` are added behind lines `a`. A row
that is moved in `a` is moved in both, to the same line; a row of `a` that is moved in both but not
in `a` alone is the row of a bracket that is left open in `a`; and the mismatches found in `a` come
first among those found in both. -/
theorem layout_append (a b : List Bytes) :
    (∀ row ∈ (layout a).adjusted, row ∈ (layout (a ++ b)).adjusted ∧
      (layout (a ++ b)).lines[row]? = (layout a).lines[row]?) ∧
    (∀ row < a.length, row ∈ (layout (a ++ b)).adjusted → row ∉ (layout a).adjusted →
      ∃ e ∈ (layout a).leftover, e.row = row) ∧
    (layout a).diagnostics.filter (·.code = .mismatched) <+:
      (layout (a ++ b)).diagnostics.filter (·.code = .mismatched) := by
  have hmoved : ∀ lines row, row ∈ (layout lines).adjusted ↔ 0 < (layout lines).lost lines row :=
    fun _ _ => mem_adjusted_iff
  refine ⟨fun row hmem => ?_, fun row hrow hmem hnot => ?_, filter_mismatched_layout_prefix a b⟩
  · have hrow := lt_of_mem_adjusted hmem
    rw [hmoved] at hmem ⊢
    rcases lost_layout_append a b hrow with hlost | ⟨hzero, -⟩
    · rw [hlost]
      exact ⟨hmem, getElem?_run_append hrow hlost⟩
    · omega
  · rw [hmoved] at hmem hnot
    rcases lost_layout_append a b hrow with hlost | ⟨-, hleft⟩
    · omega
    · exact hleft

/-- A block, a parenthesis that nothing opened, and a brace that nothing closes. -/
def unfinishedLines : List Bytes :=
  splitLines ("if (x)\n  \x7b\n  \x7d)\ndo\n  \x7b\n" : String)

/-- A brace that closes it. -/
def closingLine : Bytes := ("  \x7d" : String)

/-- The block stays moved and the parenthesis mismatched when a line closes the brace, and the row
of the brace is moved only then. -/
theorem layout_append_closed_later :
    (1 ∈ (layout (unfinishedLines ++ [closingLine])).adjusted ∧
      (layout (unfinishedLines ++ [closingLine])).lines[1]? =
        (layout unfinishedLines).lines[1]?) ∧
    (∃ e ∈ (layout unfinishedLines).leftover, e.row = 4) ∧
    (layout unfinishedLines).diagnostics.filter (·.code = .mismatched) <+:
      (layout (unfinishedLines ++ [closingLine])).diagnostics.filter
        (·.code = .mismatched) := by
  obtain ⟨hstay, hopen, hprefix⟩ := layout_append unfinishedLines [closingLine]
  exact ⟨hstay 1 (by decide +kernel),
    hopen 4 (by decide +kernel) (by decide +kernel) (by decide +kernel), hprefix⟩

end Allman.Layout
