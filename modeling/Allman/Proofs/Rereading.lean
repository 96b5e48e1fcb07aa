import Allman.Proofs.Alike
import Allman.Proofs.Findings
import Allman.Proofs.Opacity

/-! # Reading a layout again

Moving braces touches no comment and no literal, and does not change which brackets there are. A row
that loses spaces starts as code, since a brace that has only spaces before it would be masked if
anything were open (`modeAt_of_first`). So the lines after the move are masked as before, less what
their rows lost, and leave the same modes. The brackets are the same, each as far to the left as its
row was moved, so that a second run finds the same wrong and leaves the same brackets open
(`layout_again`). -/

namespace Allman

open Mask Layout Pairing

/-! ### Rows that are moved start as code -/

theorem Bracket.isDelimiter_of_isBracket {b : UInt8} (h : isBracket b = true) :
    Byte.isDelimiter b = false := by
  rw [Bool.eq_false_iff]
  intro hb
  unfold Byte.isDelimiter at hb
  simp only [Bool.or_eq_true, beq_iff_eq] at hb
  rcases hb with (((rfl | rfl) | rfl) | rfl) | rfl <;> exact absurd h (by decide)

theorem Byte.ne_of_isDelimiter {b c : UInt8} (hb : isDelimiter b = false)
    (hc : isDelimiter c = true) : b ≠ c := by
  rintro rfl
  rw [hb] at hc
  simp at hc

/-- A byte that ends nothing is masked where something is open. -/
theorem head?_maskLine_of_ne_code {mode : Mode} (hmode : mode ≠ .code) {b : UInt8} (s : Bytes)
    (hb : Byte.isDelimiter b = false) :
    (maskLine mode (b :: s)).1.head? = some Byte.space := by
  match mode with
  | .code => exact absurd rfl hmode
  | .comment =>
    have hcut := cutComment_cons (a := b) (s := s) fun t ht =>
      Byte.ne_of_isDelimiter hb rfl (List.cons.inj ht).1
    rcases hs : cutComment s with _ | ⟨inside, after⟩
    · rw [hs, Option.map_none] at hcut
      simp only [maskLine, hcut]
      rfl
    · rw [hs, Option.map_some] at hcut
      simp only [maskLine, hcut]
      rfl
  | .literal q =>
    have hslash : b ≠ Byte.backslash := Byte.ne_of_isDelimiter hb rfl
    have hcut := cutLiteral_plain hslash (Byte.ne_of_isDelimiter hb (isDelimiter_quote q)) s
    rcases hs : cutLiteral q s with _ | ⟨inside, after⟩
    · rw [hs, Option.map_none] at hcut
      simp only [maskLine, hcut]
      rw [blankOpen_cons hslash]
      rfl
    · rw [hs, Option.map_some] at hcut
      simp only [maskLine, hcut]
      rfl

/-- **A row starts as code if it begins with a bracket** that masking keeps. -/
theorem modeAt_of_first {lines : List Bytes} {m : Mark} (hm : m ∈ marks (maskLines lines))
    (hfirst : First lines m) : modeAt .code lines m.row = .code := by
  obtain ⟨line, hline, hbyte, hne⟩ := (fits_maskLines lines).getElem? hm
  obtain ⟨text, htext, hmasked, hbracket⟩ := mem_marks.mp hm
  rw [maskLines_getElem? hline, Option.some.injEq] at htext
  rw [first_iff, getD_of_getElem? hline] at hfirst
  have hspaces : ∀ b ∈ line.take m.col, b = Byte.space := by
    rw [Bytes.take_of_le_leadingSpaces hfirst]
    exact fun b hb => List.eq_of_mem_replicate hb
  have hdrop : line.drop m.col = m.byte :: line.drop (m.col + 1) := by
    obtain ⟨hlt, hget⟩ := List.getElem?_eq_some_iff.mp hbyte
    rw [List.drop_eq_getElem_cons hlt, hget]
  -- mask the line from the bracket on
  have hmask := maskLine_drop (modeAt .code lines m.row) m.col line hspaces
  by_contra hmode
  have hhead := head?_maskLine_of_ne_code hmode (line.drop (m.col + 1))
    (Bracket.isDelimiter_of_isBracket hbracket)
  rw [← hdrop, hmask, htext, List.head?_drop, hmasked, Option.some.injEq] at hhead
  exact hne hhead

theorem modeAt_of_mem_adjusted {lines : List Bytes} {row : Nat}
    (h : row ∈ (layout lines).adjusted) : modeAt .code lines row = .code := by
  have hpos := mem_adjusted_iff.mp h
  obtain ⟨o, c, I, hblock, -, -, hrow⟩ :=
    (placed_lost (fits_maskLines lines)).only row (Nat.ne_of_gt hpos)
  rcases hrow with rfl | rfl
  · exact modeAt_of_first hblock.pairs.mem_opener hblock.first_opener
  · exact modeAt_of_first hblock.pairs.mem_closer hblock.first_closer

/-! ### The brackets of a layout -/

/-- The position before its row lost `k row` bytes at the start, for each row. -/
def padded (k : Nat → Nat) (p : Position) : Position := ⟨p.row, p.col + k p.row⟩

theorem Layout.le_col_of_droppable {k : Nat → Nat} {masked : List Bytes} (h : Droppable k masked)
    {m : Mark} (hm : m ∈ marks masked) : k m.row ≤ m.col := by
  obtain ⟨text, htext, hbyte, hbracket⟩ := mem_marks.mp hm
  by_contra hlt
  have hmem : m.byte ∈ text.take (k m.row) := by
    refine List.mem_of_getElem? (i := m.col) ?_
    rw [List.getElem?_take, if_pos (by omega), hbyte]
  exact Bracket.ne_space_of_isBracket hbracket (h m.row text htext m.byte hmem)

/-- Brackets go back to where they stood. -/
theorem marks_eq_map_padded {k : Nat → Nat} {masked : List Bytes} (h : Droppable k masked) :
    marks masked =
      (marks (masked.mapIdx fun row text => text.drop (k row))).map (Mark.relocate (padded k)) := by
  rw [(alike_drop h).marks_eq, List.map_map]
  conv_lhs => rw [← List.map_id (marks masked)]
  refine List.map_congr_left fun m hm => ?_
  have hle := le_col_of_droppable h hm
  have hcol : m.col - k m.row + k m.row = m.col := by omega
  change m = ⟨m.byte, m.row, m.col - k m.row + k m.row⟩
  rw [hcol]

/-- **Moving braces touches no comment and no literal and keeps the brackets.** Every row that is
moved starts as code. Masked again, the lines are the masked lines without the spaces that their
rows lost, and leave the same modes. A second run finds the same wrong in the same order and leaves
the same brackets open, with every column less by what its row lost. -/
theorem layout_again (lines : List Bytes) :
    (∀ row ∈ (layout lines).adjusted, modeAt .code lines row = .code) ∧
    Droppable ((layout lines).lost lines) (maskLines lines) ∧
    maskLines (layout lines).lines =
      (maskLines lines).mapIdx (fun row text => text.drop ((layout lines).lost lines row)) ∧
    (maskSteps .code (layout lines).lines).map (·.2) = (maskSteps .code lines).map (·.2) ∧
    (layout lines).diagnostics =
      (layout (layout lines).lines).diagnostics.map
        (Diagnostic.relocate (padded ((layout lines).lost lines))) ∧
    (layout lines).leftover.map Mark.ofEntry =
      ((layout (layout lines).lines).leftover.map Mark.ofEntry).map
        (Mark.relocate (padded ((layout lines).lost lines))) := by
  have hdrop : Droppable ((layout lines).lost lines) lines := droppable_lost
  have hmasked := (fits_maskLines lines).droppable hdrop
  have hlines : (layout lines).lines =
      lines.mapIdx fun row line => line.drop ((layout lines).lost lines row) := run_lines_eq_mapIdx
  have hmask : maskLines (layout lines).lines = (maskLines lines).mapIdx
      fun row text => text.drop ((layout lines).lost lines row) := by
    rw [hlines]
    exact maskLines_mapIdx_drop hdrop
  have hmarks := marks_eq_map_padded hmasked
  rw [← hmask] at hmarks
  refine ⟨fun row => modeAt_of_mem_adjusted, hmasked, hmask, ?_, ?_, ?_⟩
  · rw [hlines, maskSteps_mapIdx_drop .code lines _ hdrop]
    refine List.ext_getElem? fun row => ?_
    simp only [List.getElem?_map, List.getElem?_mapIdx, Option.map_map]
    rfl
  · rw [layout_diagnostics, layout_diagnostics, hmarks, findings_relocate]
  · rw [layout_leftover, layout_leftover, hmarks, waiting_map (f := Mark.relocate _) fun _ => rfl,
      List.map_reverse]

end Allman
