import Allman.Proofs.Lines
import Mathlib.Data.List.GetD

/-! # What a run over the lines does to them

A run reads the masked rows one after the other (`Pass.rows_append`), and a byte changes a pass in
one of few ways (`Pass.byte_cases`). Whatever the masked rows are, the outcome is a distance for
every row, of which at most the leading spaces are taken: `Result.lost` counts the bytes a row
lost, `run_getElem?` says that they were leading spaces, `mem_adjusted_iff` that the rows listed as
moved are those that lost any, and `pairwise_adjusted` that they are listed in order. -/

namespace Allman.Layout

/-! ### Steps of a pass -/

namespace Pass

variable (lines : List Bytes)

theorem rows_append : ∀ (a b : List Bytes) (row : Nat) (p : Pass),
    Pass.rows lines row (a ++ b) p =
      Pass.rows lines (row + a.length) b (Pass.rows lines row a p)
  | [], b, row, p => by simp [Pass.rows]
  | x :: a, b, row, p => by
    rw [List.cons_append, Pass.rows, Pass.rows, rows_append a b, List.length_cons,
      Nat.add_right_comm row 1, Nat.add_assoc]

variable {lines}

theorem close_empty {row col : Nat} {closer opener : UInt8} {p : Pass}
    (h : p.stack.entries = []) :
    p.close lines row col closer opener = p.report (mismatched row col closer none) := by
  unfold Pass.close Stack.pop
  rw [h]

theorem close_cons {row col : Nat} {closer opener : UInt8} {p : Pass} {e : Entry Nat}
    {rest : List (Entry Nat)} (h : p.stack.entries = e :: rest) :
    p.close lines row col closer opener =
      if e.opener ≠ opener then
        { p with stack := ⟨rest⟩ }.report (mismatched row col closer (some e))
      else if hangs lines e row col then
        ({ p with stack := ⟨rest⟩ }.move e.row (e.col - e.indent)).move row (e.col - e.indent)
      else { p with stack := ⟨rest⟩ } := by
  unfold Pass.close Stack.pop
  rw [h]

variable (lines)

/-- **What a byte does**: it opens a bracket, it closes one, or it leaves the pass as it is. -/
theorem byte_cases (row col : Nat) (b : UInt8) (p : Pass) :
    (Bracket.isOpener b = true ∧
      p.byte lines row col b = { p with stack := p.stack.push ⟨b, row, col, p.indent⟩ }) ∨
    (∃ opener, Bracket.isOpener b = false ∧ Bracket.openerOf? b = some opener ∧
      p.byte lines row col b = p.close lines row col b opener) ∨
    (Bracket.isOpener b = false ∧ Bracket.openerOf? b = none ∧ p.byte lines row col b = p) := by
  unfold Pass.byte
  by_cases hb : Bracket.isOpener b = true
  · exact Or.inl ⟨hb, if_pos hb⟩
  · right
    rw [if_neg hb]
    rcases ho : Bracket.openerOf? b with _ | opener
    · exact Or.inr ⟨Bool.eq_false_iff.mpr hb, rfl, rfl⟩
    · exact Or.inl ⟨opener, Bool.eq_false_iff.mpr hb, rfl, rfl⟩

/-! ### Every row keeps its distance -/

theorem length_dedent_close (row col : Nat) (closer opener : UInt8) (p : Pass) :
    (p.close lines row col closer opener).dedent.length = p.dedent.length := by
  rcases hstack : p.stack.entries with _ | ⟨e, rest⟩
  · rw [close_empty hstack]; rfl
  · rw [close_cons hstack]
    split
    · rfl
    · split
      · simp only [Pass.move, List.length_modify]
      · rfl

theorem length_dedent_byte (row col : Nat) (b : UInt8) (p : Pass) :
    (p.byte lines row col b).dedent.length = p.dedent.length := by
  rcases byte_cases lines row col b p with ⟨-, h⟩ | ⟨opener, -, -, h⟩ | ⟨-, -, h⟩
  · rw [h]
  · rw [h, length_dedent_close]
  · rw [h]

theorem length_dedent_bytes (row : Nat) : ∀ (s : Bytes) (col : Nat) (p : Pass),
    (Pass.bytes lines row col s p).dedent.length = p.dedent.length
  | [], _, _ => rfl
  | b :: s, col, p => by rw [Pass.bytes, length_dedent_bytes row s, length_dedent_byte]

theorem length_dedent_row (row : Nat) (masked : Bytes) (p : Pass) :
    (p.row lines row masked).dedent.length = p.dedent.length := by
  have h := length_dedent_bytes lines row masked 0 p
  unfold Pass.row
  split
  · exact h
  · exact h

theorem length_dedent_rows : ∀ (masked : List Bytes) (row : Nat) (p : Pass),
    (Pass.rows lines row masked p).dedent.length = p.dedent.length
  | [], _, _ => rfl
  | m :: masked, row, p => by rw [Pass.rows, length_dedent_rows masked, length_dedent_row]

end Pass

/-! ### The outcome of a run -/

/-- The pass after the last row. -/
def finalPass (lines masked : List Bytes) : Pass :=
  Pass.rows lines 0 (masked.take lines.length) (.start lines.length)

/-- How many bytes a row lost in a run over `lines`. -/
def Result.lost (lines : List Bytes) (r : Result) (row : Nat) : Nat :=
  (lines.getD row []).length - (r.lines.getD row []).length

variable {lines masked : List Bytes}

theorem getD_of_getElem? {row : Nat} {line : Bytes} (h : lines[row]? = some line) :
    lines.getD row [] = line := by
  rw [List.getD_eq_getElem?_getD, h, Option.getD_some]

theorem length_dedent_finalPass : (finalPass lines masked).dedent.length = lines.length := by
  unfold finalPass
  rw [Pass.length_dedent_rows]
  exact List.length_replicate

theorem length_strips : (strips lines (finalPass lines masked).dedent).length = lines.length := by
  unfold strips
  rw [List.length_zipWith, length_dedent_finalPass, Nat.min_self]

@[simp] theorem length_run_lines : (run lines masked).lines.length = lines.length := by
  have h : (run lines masked).lines.length =
      min lines.length (strips lines (finalPass lines masked).dedent).length :=
    List.length_zipWith
  rw [h, length_strips, Nat.min_self]

/-- The distance of a row, as far as its leading spaces allow. -/
theorem strips_getElem? {row : Nat} {line : Bytes} (h : lines[row]? = some line) :
    (strips lines (finalPass lines masked).dedent)[row]? =
      some (min ((finalPass lines masked).dedent.getD row 0) line.leadingSpaces) := by
  have hrow : row < (finalPass lines masked).dedent.length := by
    rw [length_dedent_finalPass]
    exact (List.getElem?_eq_some_iff.mp h).1
  unfold strips
  rw [List.getElem?_zipWith, h, List.getElem?_eq_getElem hrow, List.getD_eq_getElem _ _ hrow]

theorem run_lines_getElem? {row : Nat} {line : Bytes} (h : lines[row]? = some line) :
    (run lines masked).lines[row]? =
      some (line.drop (min ((finalPass lines masked).dedent.getD row 0) line.leadingSpaces)) := by
  have hrun : (run lines masked).lines = List.zipWith (fun line n => line.drop n) lines
      (strips lines (finalPass lines masked).dedent) := rfl
  rw [hrun, List.getElem?_zipWith, h, strips_getElem? h]

theorem lost_run {row : Nat} {line : Bytes} (h : lines[row]? = some line) :
    (run lines masked).lost lines row =
      min ((finalPass lines masked).dedent.getD row 0) line.leadingSpaces := by
  have hle := line.leadingSpaces_le_length
  unfold Result.lost
  rw [getD_of_getElem? h, getD_of_getElem? (run_lines_getElem? h), List.length_drop]
  omega

theorem lost_eq_zero_of_le {row : Nat} (h : lines.length ≤ row) :
    (run lines masked).lost lines row = 0 := by
  unfold Result.lost
  rw [List.getD_eq_default _ _ h, List.length_nil, Nat.zero_sub]

/-- **A row loses only leading spaces.** -/
theorem lost_le_leadingSpaces {row : Nat} {line : Bytes} (h : lines[row]? = some line) :
    (run lines masked).lost lines row ≤ line.leadingSpaces := by
  rw [lost_run h]
  exact Nat.min_le_right _ _

/-- **A row of the result is the row without what it lost.** -/
theorem run_getElem? {row : Nat} {line : Bytes} (h : lines[row]? = some line) :
    (run lines masked).lines[row]? = some (line.drop ((run lines masked).lost lines row)) := by
  rw [lost_run h, run_lines_getElem? h]

theorem run_lines_of_lost_eq_zero (h : ∀ row, (run lines masked).lost lines row = 0) :
    (run lines masked).lines = lines := by
  refine List.ext_getElem? fun row => ?_
  rcases hline : lines[row]? with _ | line
  · rw [List.getElem?_eq_none_iff] at hline ⊢
    rw [length_run_lines]
    exact hline
  · rw [run_getElem? hline, h row, List.drop_zero]

/-! ### The rows that are listed -/

theorem adjusted_eq : (run lines masked).adjusted =
    ((strips lines (finalPass lines masked).dedent).zipIdx.filter fun x => x.1 ≠ 0).map (·.2) := by
  have hrun : (run lines masked).adjusted =
      (strips lines (finalPass lines masked).dedent).zipIdx.filterMap
        fun x => if x.1 = 0 then none else some x.2 := rfl
  rw [hrun]
  induction (strips lines (finalPass lines masked).dedent).zipIdx with
  | nil => rfl
  | cons x xs ih =>
    obtain ⟨n, row⟩ := x
    by_cases hn : n = 0
    · simpa [hn] using ih
    · simpa [hn] using ih

/-- **The moved rows are listed in order.** -/
theorem pairwise_adjusted : (run lines masked).adjusted.Pairwise (· < ·) := by
  rw [adjusted_eq]
  have hsub := (List.filter_sublist (p := fun x => decide (x.1 ≠ 0))
    (l := (strips lines (finalPass lines masked).dedent).zipIdx)).map (·.2)
  refine List.Pairwise.sublist hsub ?_
  rw [List.zipIdx_map_snd]
  exact List.pairwise_lt_range'

/-- **The rows listed as moved are those that lost something.** -/
theorem mem_adjusted_iff {row : Nat} :
    row ∈ (run lines masked).adjusted ↔ 0 < (run lines masked).lost lines row := by
  rw [adjusted_eq]
  simp only [List.mem_map, List.mem_filter, List.mem_zipIdx_iff_getElem?, decide_eq_true_eq,
    Prod.exists, exists_eq_right]
  rcases Nat.lt_or_ge row lines.length with hrow | hrow
  · have hline := List.getElem?_eq_getElem hrow
    simp only [strips_getElem? hline, lost_run hline, Option.some.injEq]
    constructor
    · rintro ⟨n, rfl, hn⟩; exact Nat.pos_of_ne_zero hn
    · intro h; exact ⟨_, rfl, Nat.ne_of_gt h⟩
  · rw [lost_eq_zero_of_le hrow, List.getElem?_eq_none (by rw [length_strips]; exact hrow)]
    simp

theorem adjusted_eq_nil_iff :
    (run lines masked).adjusted = [] ↔ ∀ row, (run lines masked).lost lines row = 0 := by
  rw [List.eq_nil_iff_forall_not_mem]
  simp only [mem_adjusted_iff, Nat.pos_iff_ne_zero, not_not]

theorem lt_of_mem_adjusted {row : Nat} (h : row ∈ (run lines masked).adjusted) :
    row < lines.length := by
  by_contra hrow
  rw [mem_adjusted_iff, lost_eq_zero_of_le (by omega)] at h
  exact Nat.lt_irrefl 0 h

end Allman.Layout
