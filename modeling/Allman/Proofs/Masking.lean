import Allman.Proofs.Lines
import Allman.Proofs.Segments
import Mathlib.Data.List.Forall2

/-! # What masking keeps

Two facts about masked lines on which everything else rests.

* `veils_maskLine`: a masked line has the bytes of the line, some of them replaced by spaces. So a
  bracket of the masked line stands in the line (`Veils.getElem?`).
* `maskLine_drop`: spaces at the start of a line are masked as they are, whatever is open, and do
  not change how the rest of the line is read. So a text whose lines lose leading spaces has the
  same masked lines less those spaces, and the same modes (`maskSteps_mapIdx_drop`). -/

namespace Allman

namespace Mask

/-! ### Masked bytes are bytes of the line -/

/-- `masked` is `line` with some of its bytes replaced by spaces. -/
def Veils (line masked : Bytes) : Prop :=
  List.Forall₂ (fun b m => m = b ∨ m = Byte.space) line masked

theorem veils_refl (s : Bytes) : Veils s s := List.forall₂_same.mpr fun _ _ => Or.inl rfl

theorem veils_blank : ∀ s : Bytes, Veils s (blank s)
  | [] => .nil
  | _ :: s => .cons (Or.inr rfl) (veils_blank s)

theorem Veils.append {s t s' t' : Bytes} (h : Veils s s') (h' : Veils t t') :
    Veils (s ++ t) (s' ++ t') := List.rel_append h h'

theorem veils_piece (piece : Piece) : Veils piece.bytes piece.masked := by
  cases piece with
  | plain b => exact veils_refl _
  | comment s => exact veils_blank s
  | lineComment s => exact veils_blank s
  | openComment s => exact veils_blank s
  | literal q inside => exact .cons (Or.inl rfl) ((veils_blank inside).append (veils_refl _))
  | literalEnd q inside => exact (veils_blank inside).append (veils_refl _)
  | openLiteral q inside => exact .cons (Or.inl rfl) ((veils_blank inside).append (veils_refl _))
  | literalLine inside final => exact (veils_blank inside).append (veils_refl _)

theorem Shows.veils {pieces : List Piece} {line masked : Bytes} (h : Shows pieces line masked) :
    Veils line masked := by
  obtain ⟨rfl, rfl⟩ := h
  induction pieces with
  | nil => exact .nil
  | cons piece pieces ih =>
    rw [List.flatMap_cons, List.flatMap_cons]
    exact (veils_piece piece).append ih

end Mask

open Mask

/-- **A masked line has the bytes of the line, some of them replaced by spaces.** -/
theorem veils_maskLine (mode : Mode) (line : Bytes) : Veils line (maskLine mode line).1 := by
  obtain ⟨pieces, -, hshow⟩ := lineSegments_maskLine mode line
  exact hshow.veils

theorem length_maskLine (mode : Mode) (line : Bytes) :
    (maskLine mode line).1.length = line.length := (veils_maskLine mode line).length_eq.symm

/-- **What is no space in a masked line stands in the line.** -/
theorem Mask.Veils.getElem? {s masked : Bytes} (h : Veils s masked) {col : Nat} {b : UInt8}
    (hb : masked[col]? = some b) (hne : b ≠ Byte.space) : s[col]? = some b := by
  obtain ⟨hcol, rfl⟩ := List.getElem?_eq_some_iff.mp hb
  have hcol' : col < s.length := by rw [h.length_eq]; exact hcol
  have := h.get hcol' hcol
  rw [List.getElem?_eq_getElem hcol', Option.some.injEq]
  simp only [List.get_eq_getElem] at this
  exact (this.resolve_right hne).symm

/-! ### Leading spaces -/

theorem lexeme_space (rest : Bytes) : lexeme Byte.space rest = .plain := by
  unfold lexeme
  rw [if_neg (by decide)]
  rfl

theorem maskCode_space (s : Bytes) :
    maskCode (Byte.space :: s) = (Byte.space :: (maskCode s).1, (maskCode s).2) := by
  rw [maskCode_cons, lexeme_space]

theorem blankOpen_cons {b : UInt8} (hb : b ≠ Byte.backslash) (s : Bytes) :
    blankOpen (b :: s) = Byte.space :: blankOpen s := by
  rcases List.eq_nil_or_concat s with rfl | ⟨init, last, rfl⟩
  · rw [blankOpen_of_getLast?_ne (by simpa using hb)]
    rfl
  · rw [List.concat_eq_append, ← List.cons_append]
    by_cases hlast : last = Byte.backslash
    · rw [hlast, blankOpen_concat, blankOpen_concat]
      rfl
    · have hne : ∀ t : Bytes, (t ++ [last]).getLast? ≠ some Byte.backslash := by
        intro t
        rw [List.getLast?_concat]
        simpa using hlast
      rw [blankOpen_of_getLast?_ne (hne _), blankOpen_of_getLast?_ne (hne _)]
      rfl

/-- **A space at the start of a line is masked as it is**, whatever is open. -/
theorem maskLine_space (mode : Mode) (s : Bytes) :
    maskLine mode (Byte.space :: s) = (Byte.space :: (maskLine mode s).1, (maskLine mode s).2) := by
  match mode with
  | .code => exact maskCode_space s
  | .comment =>
    have hcut := cutComment_cons (a := Byte.space) (s := s) fun t ht => by
      simp only [List.cons.injEq] at ht
      exact absurd ht.1 (by decide)
    rcases hs : cutComment s with _ | ⟨inside, after⟩
    · rw [hs] at hcut
      simp only [maskLine, hs, hcut, Option.map_none]
      rfl
    · rw [hs] at hcut
      simp only [maskLine, hs, hcut, Option.map_some]
      rfl
  | .literal q =>
    have hquote : Byte.space ≠ q.byte := by cases q <;> decide
    have hcut := cutLiteral_plain (by decide : Byte.space ≠ Byte.backslash) hquote s
    rcases hs : cutLiteral q s with _ | ⟨inside, after⟩
    · rw [hs] at hcut
      simp only [maskLine, hs, hcut, Option.map_none]
      rw [blankOpen_cons (by decide)]
    · rw [hs] at hcut
      simp only [maskLine, hs, hcut, Option.map_some]
      rfl

/-- **Leading spaces can be dropped before masking or after it.** -/
theorem maskLine_drop (mode : Mode) : ∀ (k : Nat) (s : Bytes), (∀ b ∈ s.take k, b = Byte.space) →
    maskLine mode (s.drop k) = ((maskLine mode s).1.drop k, (maskLine mode s).2)
  | 0, s, _ => rfl
  | k + 1, [], _ => by
    have hlen := length_maskLine mode []
    rw [List.drop_nil, List.eq_nil_of_length_eq_zero hlen, List.drop_nil]
    exact Prod.ext (List.eq_nil_of_length_eq_zero hlen) rfl
  | k + 1, b :: s, h => by
    have hb : b = Byte.space := h b (by simp)
    subst hb
    rw [List.drop_succ_cons, maskLine_space, List.drop_succ_cons]
    exact maskLine_drop mode k s fun c hc => h c (by simp [hc])

/-! ### The lines of a text -/

theorem length_maskSteps : ∀ (mode : Mode) (lines : List Bytes),
    (maskSteps mode lines).length = lines.length
  | _, [] => rfl
  | mode, line :: lines => by rw [maskSteps, List.length_cons, length_maskSteps, List.length_cons]

@[simp] theorem length_maskLines (lines : List Bytes) :
    (maskLines lines).length = lines.length := by
  rw [maskLines, List.length_map, length_maskSteps]

/-- What is open at the start of a row of lines that start in a mode. -/
def modeAt (mode : Mode) (lines : List Bytes) (row : Nat) : Mode :=
  (lines.take row).foldl (fun mode line => (maskLine mode line).2) mode

theorem modeAt_succ {mode : Mode} {lines : List Bytes} {row : Nat} {line : Bytes}
    (h : lines[row]? = some line) :
    modeAt mode lines (row + 1) = (maskLine (modeAt mode lines row) line).2 := by
  unfold modeAt
  rw [List.take_add_one, h, Option.toList_some, List.foldl_append]
  rfl

theorem modeAt_succ_of_none {mode : Mode} {lines : List Bytes} {row : Nat}
    (h : lines[row]? = none) : modeAt mode lines (row + 1) = modeAt mode lines row := by
  unfold modeAt
  rw [List.take_add_one, h, Option.toList_none, List.append_nil]

theorem maskSteps_getElem? : ∀ {lines : List Bytes} {row : Nat} {line : Bytes} (mode : Mode),
    lines[row]? = some line →
      (maskSteps mode lines)[row]? = some (maskLine (modeAt mode lines row) line)
  | [], _, _, _, h => by simp at h
  | first :: lines, 0, line, mode, h => by
    rw [List.getElem?_cons_zero, Option.some.injEq] at h
    rw [h]
    rfl
  | first :: lines, row + 1, line, mode, h => by
    rw [List.getElem?_cons_succ] at h
    exact maskSteps_getElem? (maskLine mode first).2 h

/-- **Lines are masked one part after the other**: the second part starts with what the first leaves
open. -/
theorem maskSteps_append : ∀ (mode : Mode) (a b : List Bytes),
    maskSteps mode (a ++ b) = maskSteps mode a ++ maskSteps (modeAt mode a a.length) b
  | _, [], _ => rfl
  | mode, line :: a, b => by
    have ih := maskSteps_append (maskLine mode line).2 a b
    rw [List.cons_append, maskSteps, maskSteps, ih]
    rfl

theorem maskLines_append (a b : List Bytes) : maskLines (a ++ b) =
    maskLines a ++ (maskSteps (modeAt .code a a.length) b).map (·.1) := by
  rw [maskLines, maskLines, maskSteps_append, List.map_append]

theorem maskLines_getElem? {lines : List Bytes} {row : Nat} {line : Bytes}
    (h : lines[row]? = some line) :
    (maskLines lines)[row]? = some (maskLine (modeAt .code lines row) line).1 := by
  rw [maskLines, List.getElem?_map, maskSteps_getElem? .code h]
  rfl

theorem veils_maskLines {lines : List Bytes} {row : Nat} {masked : Bytes}
    (h : (maskLines lines)[row]? = some masked) :
    ∃ line, lines[row]? = some line ∧ Veils line masked := by
  have hrow : row < lines.length := by
    rw [← length_maskLines lines]
    exact (List.getElem?_eq_some_iff.mp h).1
  have hline := List.getElem?_eq_getElem hrow
  rw [maskLines_getElem? hline, Option.some.injEq] at h
  exact ⟨_, hline, h ▸ veils_maskLine _ _⟩

/-- The first `k row` bytes of each row are spaces, as far as there are so many. -/
def Droppable (k : Nat → Nat) (lines : List Bytes) : Prop :=
  ∀ (row : Nat) (line : Bytes), lines[row]? = some line → ∀ b ∈ line.take (k row), b = Byte.space

/-- **Lines that lose leading spaces are masked as before**, less those spaces, and leave the same
modes. -/
theorem maskSteps_mapIdx_drop : ∀ (mode : Mode) (lines : List Bytes) (k : Nat → Nat),
    Droppable k lines → maskSteps mode (lines.mapIdx fun row line => line.drop (k row)) =
      (maskSteps mode lines).mapIdx fun row step => (step.1.drop (k row), step.2)
  | _, [], _, _ => rfl
  | mode, line :: lines, k, h => by
    have hline := maskLine_drop mode (k 0) line (h 0 line rfl)
    have ih := maskSteps_mapIdx_drop (maskLine mode line).2 lines (fun row => k (row + 1))
      fun row l hl => h (row + 1) l hl
    simp only [List.mapIdx_cons, maskSteps, hline, ih]

theorem maskLines_mapIdx_drop {lines : List Bytes} {k : Nat → Nat} (h : Droppable k lines) :
    maskLines (lines.mapIdx fun row line => line.drop (k row)) =
      (maskLines lines).mapIdx fun row masked => masked.drop (k row) := by
  unfold maskLines
  rw [maskSteps_mapIdx_drop .code lines k h]
  refine List.ext_getElem? fun row => ?_
  simp only [List.getElem?_map, List.getElem?_mapIdx, Option.map_map]
  rfl

end Allman
