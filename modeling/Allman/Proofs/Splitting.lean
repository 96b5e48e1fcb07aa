import Allman.Proofs.Lines

/-! # A text and its lines

The lines of a text hold no newline, and each of them with a newline behind it is the text with its
last line ended (`flatMap_splitLines`). No other lines do both (`splitLines_eq_iff`), which settles
where the off-by-one cases lie: the empty text has no line, a newline alone ends an empty line, and
a text that ends in a newline has no further line behind it.

So writing lines out and splitting a text undo each other, up to white space at the ends of lines
and the end of the last line (`lines_round_trip`). -/

namespace Allman

/-- The text with its last line ended, if it has a line. -/
def Bytes.ended (s : Bytes) : Bytes :=
  if s = [] ∨ s.getLast? = some Byte.newline then s else s ++ [Byte.newline]

/-! ### The lines of a text -/

/-- **The lines of a text, each with a newline, are the text with its last line ended.** -/
theorem flatMap_splitLines (content : Bytes) :
    (splitLines content).flatMap (· ++ [Byte.newline]) = content.ended := by
  rcases List.eq_nil_or_concat content with rfl | ⟨body, last, rfl⟩
  · rfl
  · rw [List.concat_eq_append, Bytes.ended, List.getLast?_concat]
    by_cases hlast : last = Byte.newline
    · subst hlast
      rw [splitLines_append_newline, Bytes.flatMap_splitOn, if_pos (Or.inr rfl)]
    · have hlines : splitLines (body ++ [last]) =
          Bytes.splitOn Byte.newline (body ++ [last]) := by
        unfold splitLines
        rw [List.getLast?_concat]
        exact congrArg _ (if_neg hlast)
      rw [hlines, Bytes.flatMap_splitOn, if_neg (by simp [hlast])]

/-- The end of the last line makes no difference to the lines. -/
theorem splitLines_ended (content : Bytes) : splitLines content.ended = splitLines content := by
  rw [← flatMap_splitLines, splitLines_flatMap fun _ => newline_not_mem_of_mem_splitLines]

/-- **The lines of a text are the only ones** that hold no newline and are the text, its last line
ended, when they are written out. -/
theorem splitLines_eq_iff {content : Bytes} {lines : List Bytes} :
    splitLines content = lines ↔
      (∀ line ∈ lines, Byte.newline ∉ line) ∧
        lines.flatMap (· ++ [Byte.newline]) = content.ended := by
  constructor
  · rintro rfl
    exact ⟨fun _ => newline_not_mem_of_mem_splitLines, flatMap_splitLines content⟩
  · rintro ⟨hlines, hflat⟩
    rw [← splitLines_ended, ← hflat, splitLines_flatMap hlines]

/-! ### Writing out the lines of a text -/

theorem map_trimTrailing_eq_self_iff {lines : List Bytes} :
    lines.map Bytes.trimTrailing = lines ↔
      ∀ line ∈ lines, ∀ b, line.getLast? = some b → Byte.isTrailing b = false := by
  simp only [← Bytes.trimTrailing_eq_self_iff]
  conv_lhs => rw [← List.map_id lines, List.map_map]
  exact List.map_inj_left

theorem ended_eq_self_iff {content : Bytes} :
    content.ended = content ↔ content = [] ∨ content.getLast? = some Byte.newline := by
  unfold Bytes.ended
  split
  · next h => exact iff_of_true rfl h
  · next h => exact iff_of_false (by simp) h

/-- **Writing out the lines of a text gives the text back** iff no line ends in white space and the
last line ends. -/
theorem render_splitLines_eq_self_iff (content : Bytes) :
    render (splitLines content) = content ↔
      (∀ line ∈ splitLines content, ∀ b, line.getLast? = some b → Byte.isTrailing b = false) ∧
        (content = [] ∨ content.getLast? = some Byte.newline) := by
  rw [← map_trimTrailing_eq_self_iff, ← ended_eq_self_iff, ← flatMap_splitLines]
  constructor
  · intro h
    have hlines : (splitLines content).map Bytes.trimTrailing = splitLines content := by
      rw [← splitLines_render fun _ => newline_not_mem_of_mem_splitLines, h]
    rw [render_eq_flatMap, hlines] at h
    exact ⟨hlines, h⟩
  · rintro ⟨hlines, hflat⟩
    rw [render_eq_flatMap, hlines, hflat]

/-- **Splitting and writing out undo each other.** Lines that are written out are found again
without the white space at their ends; the lines of a text give it back when they are written out
iff none of them ends in white space and the last one ends; and the checker finds the same lines as
the formatter. -/
theorem lines_round_trip :
    (∀ lines : List Bytes, (∀ line ∈ lines, Byte.newline ∉ line) →
      splitLines (render lines) = lines.map Bytes.trimTrailing) ∧
    (∀ content : Bytes, render (splitLines content) = content ↔
      (∀ line ∈ splitLines content, ∀ b, line.getLast? = some b → Byte.isTrailing b = false) ∧
        (content = [] ∨ content.getLast? = some Byte.newline)) ∧
    ∀ content : Bytes, splitLines content = Preserved.rows content :=
  ⟨fun _ => splitLines_render, render_splitLines_eq_self_iff,
    fun content => (rows_eq_splitLines content).symm⟩

/-- An empty line, a line of white space and a last line with a carriage return. -/
theorem lines_round_trip_blank :
    (∀ line ∈ [[], Bytes.ofString " \t", Bytes.ofString " x \r"], Byte.newline ∉ line) ∧
      splitLines (render [[], Bytes.ofString " \t", Bytes.ofString " x \r"]) =
        [[], [], Bytes.ofString " x"] := by
  have hlines : ∀ line ∈ [[], Bytes.ofString " \t", Bytes.ofString " x \r"],
      Byte.newline ∉ line := by decide
  exact ⟨hlines, (lines_round_trip.1 _ hlines).trans (by decide)⟩

end Allman
