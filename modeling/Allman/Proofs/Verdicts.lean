import Allman.Proofs.Preservation

/-! # What the checker tells

The checker accepts a layout iff it has as many lines as the text, ends its last line, and has in
every row the given line without some of its leading spaces and without the white space at its end
(`checkPreserved_eq_none_iff`). The two ends of a line of white space overlap, so that it is kept
with more than one number of spaces.

What the checker tells of a layout that it does not accept is true, and about the first row that is
not kept (`holds_of_checkPreserved`). -/

namespace Allman

namespace Preserved

namespace Violation

/-- The row that a violation is about, if it is about one. -/
def row? : Violation → Option Nat
  | lineCount _ _ => none
  | noFinalNewline => none
  | trailing row _ => some row
  | content row _ _ => some row
  | notSpaces row _ _ => some row

/-- **What a violation says** of a text and its layout. -/
def Holds (before after : Bytes) : Violation → Prop
  | lineCount m n =>
    m = (splitLines before).length ∧ n = (splitLines after).length ∧ m ≠ n
  | noFinalNewline => after ≠ [] ∧ after.getLast? ≠ some Byte.newline
  | trailing row rest =>
    (splitLines after)[row]? = some rest ∧
      ∃ b, rest.getLast? = some b ∧ Byte.isTrailing b = true
  | content row body rest =>
    (splitLines after)[row]? = some rest ∧
      (∃ line, (splitLines before)[row]? = some line ∧ body = line.trimTrailing) ∧
      ¬ rest <:+ body
  | notSpaces row body rest =>
    (splitLines after)[row]? = some rest ∧
      (∃ line, (splitLines before)[row]? = some line ∧ body = line.trimTrailing) ∧
      ∃ removed, body = removed ++ rest ∧ ∃ b ∈ removed, b ≠ Byte.space

end Violation

/-! ### Lines and rows -/

theorem exists_kept_iff {line rest : Bytes} :
    (∃ k, Kept line rest k) ↔
      ∃ k ≤ line.leadingSpaces, rest = Bytes.trimTrailing (line.drop k) := by
  constructor
  · rintro ⟨k, h⟩
    exact ⟨k, h.le_leadingSpaces, h.eq_trim⟩
  · rintro ⟨k, hk, rfl⟩
    exact ⟨k, kept_of_le hk⟩

end Preserved

open Preserved

/-! ### Acceptance -/

/-- **The checker is exact.** It accepts a layout iff the layout has as many lines as the text, is
empty or ends its last line, and has in every row the line of the text without some of its leading
spaces and without the white space at its end. -/
theorem checkPreserved_eq_none_iff (before after : Bytes) :
    checkPreserved before after = none ↔
      (splitLines before).length = (splitLines after).length ∧
      (after = [] ∨ after.getLast? = some Byte.newline) ∧
      ∀ (row : Nat) line rest, (splitLines before)[row]? = some line →
        (splitLines after)[row]? = some rest →
        ∃ k ≤ line.leadingSpaces, rest = Bytes.trimTrailing (line.drop k) := by
  have hlines : checkLines 0 ((splitLines before).zip (splitLines after)) = none ↔
      ∀ (row : Nat) line rest, (splitLines before)[row]? = some line →
        (splitLines after)[row]? = some rest →
        ∃ k ≤ line.leadingSpaces, rest = Bytes.trimTrailing (line.drop k) := by
    rw [checkLines_eq_none_iff, forall_mem_zip_iff]
    simp only [exists_kept_iff]
  rw [checkPreserved_eq]
  split_ifs with hlength hlast
  · simp [hlength]
  · have hnot : ¬ (after = [] ∨ after.getLast? = some Byte.newline) := by
      rintro (h | h)
      · exact hlast.1 h
      · exact hlast.2 h
    simp [hnot]
  · rw [not_not] at hlength
    rw [not_and_or, not_not, not_not] at hlast
    rw [hlines, and_iff_right hlength, and_iff_right hlast]

/-! ### Violations -/

namespace Preserved

variable {before after : Bytes} {v : Violation}

theorem holds_of_checkLine {row : Nat} {line rest : Bytes}
    (hline : (splitLines before)[row]? = some line) (hrest : (splitLines after)[row]? = some rest)
    (h : checkLine row line rest = some v) : v.Holds before after ∧ v.row? = some row := by
  simp only [checkLine] at h
  split at h
  · next htrim =>
    obtain rfl := Option.some.inj h
    have hlast : ¬ ∀ b, rest.getLast? = some b → Byte.isTrailing b = false := fun hall =>
      htrim (Bytes.trimTrailing_eq_self_iff.mpr hall).symm
    simp only [not_forall, Bool.not_eq_false] at hlast
    obtain ⟨b, hb, htrailing⟩ := hlast
    exact ⟨⟨hrest, b, hb, htrailing⟩, rfl⟩
  · split at h
    · next hcut =>
      obtain rfl := Option.some.inj h
      refine ⟨⟨hrest, ⟨line, hline, rfl⟩, ?_⟩, rfl⟩
      rintro ⟨removed, hremoved⟩
      rw [Bytes.cutSuffix?_eq_some_iff.mpr hremoved.symm] at hcut
      cases hcut
    · next removed hcut =>
      split at h
      · cases h
      · next hspaces =>
        obtain rfl := Option.some.inj h
        simp only [List.all_eq_true, not_forall, beq_iff_eq] at hspaces
        obtain ⟨b, hb, hne⟩ := hspaces
        exact ⟨⟨hrest, ⟨line, hline, rfl⟩, removed, Bytes.cutSuffix?_eq_some_iff.mp hcut, b, hb,
          hne⟩, rfl⟩

/-- What is told of lines is told of the first one that is not kept. -/
theorem exists_of_checkLines_eq_some : ∀ {pairs : List (Bytes × Bytes)} {row : Nat},
    checkLines row pairs = some v →
    ∃ (i : Nat) (line rest : Bytes), pairs[i]? = some (line, rest) ∧
      checkLine (row + i) line rest = some v ∧
      ∀ j < i, ∀ line rest, pairs[j]? = some (line, rest) → ∃ k, Kept line rest k
  | [], _, h => by simp [checkLines] at h
  | (line, rest) :: pairs, row, h => by
    unfold checkLines at h
    split at h
    · next violation hfound =>
      obtain rfl := Option.some.inj h
      exact ⟨0, line, rest, rfl, hfound, fun j hj => absurd hj (Nat.not_lt_zero j)⟩
    · next hkept =>
      obtain ⟨i, line', rest', hpair, hfound, hearlier⟩ := exists_of_checkLines_eq_some h
      refine ⟨i + 1, line', rest', hpair, ?_, fun j hj line'' rest'' hpair' => ?_⟩
      · rwa [Nat.add_assoc, Nat.add_comm 1] at hfound
      · rcases j with _ | j
        · rw [List.getElem?_cons_zero, Option.some.injEq, Prod.mk.injEq] at hpair'
          obtain ⟨rfl, rfl⟩ := hpair'
          exact (checkLine_eq_none_iff row line rest).mp hkept
        · exact hearlier j (Nat.lt_of_succ_lt_succ hj) line'' rest'' hpair'

/-- **What the checker tells is true**, and if it is about a row, all rows before it are kept. -/
theorem holds_of_checkPreserved (h : checkPreserved before after = some v) :
    v.Holds before after ∧
      ∀ row, v.row? = some row → ∀ earlier < row, ∀ line rest,
        (splitLines before)[earlier]? = some line → (splitLines after)[earlier]? = some rest →
        ∃ k, Kept line rest k := by
  rw [checkPreserved_eq] at h
  split_ifs at h with hlength hlast
  · obtain rfl := Option.some.inj h
    exact ⟨⟨rfl, rfl, hlength⟩, fun row hrow => by cases hrow⟩
  · obtain rfl := Option.some.inj h
    exact ⟨hlast, fun row hrow => by cases hrow⟩
  · obtain ⟨i, line, rest, hpair, hfound, hearlier⟩ := exists_of_checkLines_eq_some h
    rw [Nat.zero_add] at hfound
    obtain ⟨hline, hrest⟩ := List.getElem?_zip_eq_some.mp hpair
    obtain ⟨hholds, hrow⟩ := holds_of_checkLine hline hrest hfound
    refine ⟨hholds, fun row hrow' earlier hlt line' rest' hline' hrest' => ?_⟩
    obtain rfl := Option.some.inj (hrow.symm.trans hrow')
    exact hearlier earlier hlt line' rest' (List.getElem?_zip_eq_some.mpr ⟨hline', hrest'⟩)

end Preserved

end Allman
