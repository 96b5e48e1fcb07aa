import Allman.Proofs.Moves
import Allman.Proofs.Splitting

/-! # Reformatting preserves a text

A line is *kept* as `after` if `after` is the line without its first `k` bytes, all of them spaces,
and without the white space at its end (`Kept`). The checker accepts a layout iff every line is
kept with some `k` (`checkLines_eq_none_iff`), and a reformatted text has the lines of the given
one, each kept with the number of bytes its row lost (`reformat_preserves`). -/

namespace Allman

/-- `after` is `line` without its first `k` bytes, which are spaces, and without the white space at
its end. -/
structure Kept (line after : Bytes) (k : Nat) : Prop where
  le_leadingSpaces : k ≤ line.leadingSpaces
  spaces : line.take k = List.replicate k Byte.space
  eq_trim : after = Bytes.trimTrailing (line.drop k)

theorem kept_of_le {line : Bytes} {k : Nat} (h : k ≤ line.leadingSpaces) :
    Kept line (Bytes.trimTrailing (line.drop k)) k :=
  ⟨h, Bytes.take_of_le_leadingSpaces h, rfl⟩

namespace Preserved

/-! ### The checker -/

theorem kept_of_checkLine {row : Nat} {line after : Bytes} (h : checkLine row line after = none) :
    ∃ k, Kept line after k := by
  simp only [checkLine] at h
  split at h
  · simp at h
  · split at h
    · simp at h
    · next removed hcut =>
      split at h
      · next hall =>
        have hline := Bytes.cutSuffix?_eq_some_iff.mp hcut
        have hspaces : removed = List.replicate removed.length Byte.space :=
          List.eq_replicate_iff.mpr
            ⟨rfl, fun b hb => beq_iff_eq.mp (List.all_eq_true.mp hall b hb)⟩
        have htake : line.take removed.length = List.replicate removed.length Byte.space := by
          obtain ⟨tail, htail⟩ := line.trimTrailing_prefix
          rw [← htail, hline, List.append_assoc, List.take_left]
          exact hspaces
        refine ⟨removed.length, Bytes.le_leadingSpaces_of_take htake, htake, ?_⟩
        rw [Bytes.trimTrailing_drop, hline, List.drop_left]
      · simp at h

theorem checkLine_of_kept {row k : Nat} {line after : Bytes} (h : Kept line after k) :
    checkLine row line after = none := by
  obtain ⟨-, hspaces, rfl⟩ := h
  have hcut : line.trimTrailing.cutSuffix? (Bytes.trimTrailing (line.drop k)) =
      some (line.trimTrailing.take k) := by
    rw [Bytes.cutSuffix?_eq_some_iff, Bytes.trimTrailing_drop, List.take_append_drop]
  -- the removed bytes are among the first `k` of the line
  have hall : ∀ b ∈ line.trimTrailing.take k, b = Byte.space := by
    intro b hb
    obtain ⟨tail, htail⟩ := line.trimTrailing_prefix
    have hmem : b ∈ line.take k := by
      rw [← htail, List.take_append]
      exact List.mem_append_left _ hb
    rw [hspaces] at hmem
    exact List.eq_of_mem_replicate hmem
  simp only [checkLine]
  rw [if_neg (by simp), hcut]
  exact if_pos (List.all_eq_true.mpr fun b hb => beq_iff_eq.mpr (hall b hb))

/-- **The checker accepts a line iff it is kept.** -/
theorem checkLine_eq_none_iff (row : Nat) (line after : Bytes) :
    checkLine row line after = none ↔ ∃ k, Kept line after k :=
  ⟨kept_of_checkLine, fun ⟨_, h⟩ => checkLine_of_kept h⟩

theorem checkLines_eq_none_iff : ∀ (pairs : List (Bytes × Bytes)) (row : Nat),
    checkLines row pairs = none ↔ ∀ line after, (line, after) ∈ pairs → ∃ k, Kept line after k
  | [], _ => by simp [checkLines]
  | (line, after) :: pairs, row => by
    have ih := checkLines_eq_none_iff pairs (row + 1)
    have hline := checkLine_eq_none_iff row line after
    unfold checkLines
    rcases hcheck : checkLine row line after with _ | violation
    · have hkept := hline.mp hcheck
      simp only [ih, List.mem_cons, Prod.mk.injEq]
      constructor
      · rintro h line' after' (⟨rfl, rfl⟩ | hmem)
        · exact hkept
        · exact h line' after' hmem
      · exact fun h line' after' hmem => h line' after' (Or.inr hmem)
    · refine ⟨fun h => by simp at h, fun h => ?_⟩
      have := hline.mpr (h line after (by simp))
      rw [hcheck] at this
      exact this

theorem forall_mem_zip_iff {p : Bytes → Bytes → Prop} {lines rests : List Bytes} :
    (∀ line rest, (line, rest) ∈ lines.zip rests → p line rest) ↔
      ∀ (row : Nat) line rest, lines[row]? = some line → rests[row]? = some rest → p line rest := by
  simp only [List.mem_iff_getElem?, List.getElem?_zip_eq_some]
  constructor
  · exact fun h row line rest hline hrest => h line rest ⟨row, hline, hrest⟩
  · rintro h line rest ⟨row, hline, hrest⟩
    exact h row line rest hline hrest

/-- The checker in the words of the formatter's lines. -/
theorem checkPreserved_eq (before after : Bytes) : checkPreserved before after =
    if (splitLines before).length ≠ (splitLines after).length then
      some (.lineCount (splitLines before).length (splitLines after).length)
    else if after ≠ [] ∧ after.getLast? ≠ some Byte.newline then some .noFinalNewline
    else checkLines 0 ((splitLines before).zip (splitLines after)) := by
  unfold checkPreserved
  simp only [rows_eq_splitLines]

end Preserved

/-! ### The lines of a reformatted text -/

theorem newline_not_mem_layout {content line : Bytes}
    (h : line ∈ (layout (splitLines content)).lines) : Byte.newline ∉ line := by
  obtain ⟨row, hrow, rfl⟩ := List.getElem_of_mem h
  have hlen : row < (splitLines content).length := by
    rwa [layout, Layout.length_run_lines] at hrow
  have hline := List.getElem?_eq_getElem hlen
  have heq : (layout (splitLines content)).lines[row]? = _ := Layout.run_getElem? hline
  rw [List.getElem?_eq_getElem hrow, Option.some.injEq] at heq
  rw [heq]
  exact fun hmem => newline_not_mem_of_mem_splitLines (List.getElem_mem hlen)
    (List.mem_of_mem_drop hmem)

/-- **The lines of a reformatted text** are those of the layout, without trailing white space. -/
theorem splitLines_reformat (content : Bytes) : splitLines (reformat content).output =
    (layout (splitLines content)).lines.map Bytes.trimTrailing :=
  splitLines_render fun _ => newline_not_mem_layout

theorem splitLines_reformat_getElem? {content line : Bytes} {row : Nat}
    (h : (splitLines content)[row]? = some line) :
    (splitLines (reformat content).output)[row]? =
      some (Bytes.trimTrailing (line.drop
        ((layout (splitLines content)).lost (splitLines content) row))) := by
  rw [splitLines_reformat, List.getElem?_map, layout, Layout.run_getElem? h]
  rfl

theorem length_splitLines_reformat (content : Bytes) :
    (splitLines (reformat content).output).length = (splitLines content).length := by
  rw [splitLines_reformat, List.length_map, layout, Layout.length_run_lines]

theorem output_eq_flatMap (content : Bytes) : (reformat content).output =
    (splitLines (reformat content).output).flatMap (· ++ [Byte.newline]) := by
  rw [splitLines_reformat]
  exact render_eq_flatMap _

theorem checkPreserved_reformat (content : Bytes) :
    checkPreserved content (reformat content).output = none := by
  have hended : (reformat content).output = [] ∨
      (reformat content).output.getLast? = some Byte.newline := by
    rw [← ended_eq_self_iff, ← flatMap_splitLines]
    exact (output_eq_flatMap content).symm
  rw [Preserved.checkPreserved_eq, if_neg (not_not.mpr (length_splitLines_reformat content).symm),
    if_neg (by rwa [not_and_or, not_not, not_not])]
  rw [Preserved.checkLines_eq_none_iff, Preserved.forall_mem_zip_iff]
  intro row line after hline hafter
  rw [splitLines_reformat_getElem? hline, Option.some.injEq] at hafter
  rw [← hafter]
  exact ⟨_, kept_of_le (Layout.lost_le_leadingSpaces hline)⟩

/-- **Reformatting preserves a text.** It always gives a result, and the checker finds nothing
wrong with it. The output has one line for each line of the text, each ended by a newline; line
`row` is kept with some `k row`, and the rows with a positive `k row` are those listed as moved, in
order. -/
theorem reformat_preserves (content : Bytes) (watch : Option Stopwatch) :
    ((Reformatter.fresh watch).use fun _ => reformat content).1 = some (reformat content) ∧
    checkPreserved content (reformat content).output = none ∧
    (∃ after : List Bytes, ∃ k : Nat → Nat,
      (reformat content).output = after.flatMap (· ++ [Byte.newline]) ∧
      splitLines (reformat content).output = after ∧
      after.length = (splitLines content).length ∧
      ∀ row line, (splitLines content)[row]? = some line →
        (∃ rest, after[row]? = some rest ∧ Kept line rest (k row)) ∧
        (0 < k row ↔ row ∈ (reformat content).layout.adjusted)) ∧
    (reformat content).layout.adjusted.Pairwise (· < ·) ∧
    ∀ row ∈ (reformat content).layout.adjusted, row < (splitLines content).length := by
  refine ⟨rfl, checkPreserved_reformat content,
    ⟨splitLines (reformat content).output,
      (layout (splitLines content)).lost (splitLines content), output_eq_flatMap content, rfl,
      length_splitLines_reformat content, fun row line hline => ⟨?_, ?_⟩⟩,
    Layout.pairwise_adjusted, fun row hrow => Layout.lt_of_mem_adjusted hrow⟩
  · exact ⟨_, splitLines_reformat_getElem? hline, kept_of_le (Layout.lost_le_leadingSpaces hline)⟩
  · exact Layout.mem_adjusted_iff.symm

end Allman
