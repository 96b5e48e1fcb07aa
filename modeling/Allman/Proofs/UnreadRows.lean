import Allman.Proofs.Balance
import Allman.Proofs.Embedding
import Allman.Proofs.Trimming

/-! # Rows that are not read

A masked row that is blank, or a preprocessor line without brackets, is not read: it holds no
bracket and no code, so that the pass behind it is the pass before it (`Pass.row_of_unread`). A line
that is masked to such a row, and leaves open what it found open, can be put anywhere between the
lines of a text. The pass over the longer text follows the pass over the shorter one
(`follows_insert`), and nothing changes but the numbers of the later rows (`layout_insert`).

That a blank row holds no bracket has to do with characters: white space may be a sequence of
several bytes, but none of these is ASCII (`Rune.le_of_mem_sequence?`). -/

namespace Allman

/-! ### White space holds no bracket -/

namespace Rune

theorem code_of_lt {first : UInt8} {rest : Bytes} {code more : Nat} (hfirst : first < 0x80)
    (h : sequence? first rest = some (code, more)) : code = first.toNat := by
  rw [sequence?_of_lt hfirst, Option.some.injEq, Prod.mk.injEq] at h
  exact h.1.symm

end Rune

namespace Bracket

theorem not_isSpace_of_isBracket {b : UInt8} (h : isBracket b = true) (encoding : Bytes) :
    Rune.isSpace (.char b.toNat encoding) = false := by
  rw [isBracket_eq_decide_mem, decide_eq_true_eq] at h
  simp only [all, List.mem_cons, List.not_mem_nil, or_false] at h
  rcases h with rfl | rfl | rfl | rfl | rfl | rfl <;> rfl

end Bracket

/-- **A blank text holds no bracket.** -/
theorem Bytes.not_isBracket_of_isBlank {s : Bytes} (h : s.isBlank = true) :
    ∀ b ∈ s, ¬ Bracket.isBracket b = true := by
  unfold isBlank at h
  fun_induction Rune.decode s with
  | case1 => simp
  | case2 first rest code more hseq ih =>
    rw [List.all_cons, Bool.and_eq_true] at h
    intro b hb hbracket
    rw [← List.take_append_drop more rest, List.mem_cons, List.mem_append] at hb
    rcases hb with rfl | hb | hb
    · have hspace := h.1
      rw [Rune.code_of_lt (Bracket.lt_of_isBracket hbracket) hseq,
        Bracket.not_isSpace_of_isBracket hbracket] at hspace
      simp at hspace
    · have hle := Rune.le_of_mem_sequence? hseq b hb
      exact absurd (Bracket.lt_of_isBracket hbracket) (UInt8.not_lt.mpr hle)
    · exact ih h.2 b hb hbracket
  | case3 first rest hseq ih => simp [Rune.isSpace] at h

namespace Layout

open Pairing

/-! ### Unread rows -/

/-- **The masked row is not read**: it is blank, or it begins with a hash, white space apart, and
holds no bracket. -/
def Unread (masked : Bytes) : Prop :=
  masked.isBlank = true ∨
    masked.trimSpace.head? = some Byte.hash ∧ ∀ b ∈ masked, b ∉ Bracket.all

instance (masked : Bytes) : Decidable (Unread masked) := inferInstanceAs (Decidable (_ ∨ _))

theorem Unread.isCode_eq_false {masked : Bytes} (h : Unread masked) : isCode masked = false := by
  unfold isCode
  rcases h with hblank | ⟨hhash, -⟩
  · have hnone : (Rune.decode masked).dropWhile Rune.isSpace = [] := by
      rw [List.dropWhile_eq_nil_iff]
      exact List.all_eq_true.mp hblank
    rw [Bytes.firstCode?, hnone]
    rfl
  · rw [head?_trimSpace] at hhash
    rw [hhash]
    rfl

theorem Unread.not_isBracket {masked : Bytes} (h : Unread masked) :
    ∀ b ∈ masked, ¬ Bracket.isBracket b = true := by
  rcases h with hblank | ⟨-, hnone⟩
  · exact Bytes.not_isBracket_of_isBlank hblank
  · intro b hb
    rw [Bracket.isBracket_eq_decide_mem, decide_eq_true_eq]
    exact hnone b hb

theorem Pass.bytes_of_not_isBracket (lines : List Bytes) (row : Nat) : ∀ (s : Bytes) (col : Nat)
    (p : Pass), (∀ b ∈ s, ¬ Bracket.isBracket b = true) → Pass.bytes lines row col s p = p
  | [], _, _, _ => rfl
  | b :: s, col, p, h => by
    rw [Pass.bytes, Pass.byte_of_not_isBracket p (h b List.mem_cons_self)]
    exact Pass.bytes_of_not_isBracket lines row s (col + 1) p fun c hc =>
      h c (List.mem_cons_of_mem b hc)

/-- **An unread row changes nothing.** -/
theorem Pass.row_of_unread (lines : List Bytes) (row : Nat) {masked : Bytes} (h : Unread masked)
    (p : Pass) : p.row lines row masked = p := by
  unfold Pass.row
  rw [Pass.bytes_of_not_isBracket lines row masked 0 p h.not_isBracket]
  exact if_neg (by simp [h.isCode_eq_false])

/-! ### A line between others -/

/-- The number of a row when a line is put in before row `n`. -/
def past (n row : Nat) : Nat := if row < n then row else row + 1

theorem strictMono_past (n : Nat) : StrictMono (past n) := by
  intro row row' h
  unfold past
  split_ifs <;> omega

theorem past_ne (n row : Nat) : past n row ≠ n := by
  unfold past
  split_ifs <;> omega

section Insert

variable {a b ma : List Bytes} {x mx : Bytes}

theorem sits_insert (a b : List Bytes) (x : Bytes) :
    Sits (past a.length) (a ++ b) (a ++ x :: b) := by
  refine ⟨strictMono_past a.length, fun row line h => ?_⟩
  unfold past
  split_ifs with hrow
  · rw [List.getElem?_append_left hrow] at h ⊢
    exact h
  · rw [List.getElem?_append_right (by omega)] at h ⊢
    rw [show row + 1 - a.length = row - a.length + 1 by omega, List.getElem?_cons_succ]
    exact h

/-- **The pass over a text with one more line**, if that is masked to an unread row, follows the
pass without it. -/
theorem follows_insert (b mb : List Bytes) (x : Bytes) (hlen : ma.length = a.length)
    (h : Unread mx) : Follows (past a.length) (a ++ b) (finalPass (a ++ b) (ma ++ mb))
      (finalPass (a ++ x :: b) (ma ++ mx :: mb)) := by
  have hsits := sits_insert a b x
  have htake : (mb.take b.length).length ≤ b.length := List.length_take_le _ _
  rw [finalPass_append hlen, finalPass_append hlen, List.length_cons, List.take_succ_cons,
    Pass.rows, Pass.row_of_unread _ _ h]
  refine Follows.rows hsits _ _ _ ?_ ?_ (Follows.rows hsits ma 0 0 ?_ ?_ (follows_start hsits))
  · rw [List.length_append]
    omega
  · intro i _
    unfold past
    split_ifs <;> omega
  · rw [List.length_append]
    omega
  · intro i hi
    unfold past
    split_ifs <;> omega

/-- The lines of the result are those without the line, and the line as it is. -/
theorem run_lines_insert {masked masked' : List Bytes}
    (h : Follows (past a.length) (a ++ b) (finalPass (a ++ b) masked)
      (finalPass (a ++ x :: b) masked')) :
    (run (a ++ x :: b) masked').lines = (run (a ++ b) masked).lines.insertIdx a.length x := by
  have hsits := sits_insert a b x
  have hlen : (a ++ b).length = a.length + b.length := List.length_append
  -- a row of the shorter text is the same line in both results
  have hold : ∀ row < (a ++ b).length, (run (a ++ x :: b) masked').lines[past a.length row]? =
      (run (a ++ b) masked).lines[row]? := by
    intro row hrow
    have hline := List.getElem?_eq_getElem hrow
    rw [run_getElem? hline, run_getElem? (hsits.getElem? row _ hline), h.lost hsits hrow]
  refine List.ext_getElem? fun row => ?_
  rw [List.getElem?_insertIdx, length_run_lines]
  split_ifs with hbefore heq hle
  · have hrow := hold row (by omega)
    rwa [past, if_pos hbefore] at hrow
  · subst heq
    have hline : (a ++ x :: b)[a.length]? = some x := by
      rw [List.getElem?_append_right (Nat.le_refl _), Nat.sub_self, List.getElem?_cons_zero]
    rw [run_getElem? hline, h.lost_eq_zero fun r _ => (past_ne a.length r).symm, List.drop_zero]
  · omega
  · rcases Nat.lt_or_ge (row - 1) (a ++ b).length with hlt | hge
    · have hrow := hold (row - 1) hlt
      rwa [past, if_neg (by omega), Nat.sub_add_cancel (by omega)] at hrow
    · have hend : (a ++ x :: b).length ≤ row := by
        rw [List.length_append, List.length_cons]
        omega
      rw [List.getElem?_eq_none (by rw [length_run_lines]; exact hend),
        List.getElem?_eq_none (by rw [length_run_lines]; exact hge)]

/-- **Unread lines are transparent.** Let a line stand anywhere in a text, and be masked to an
unread row that leaves open what it found open. Then the text is laid out as without the line: the
line stays as it is, and all that is said of later rows is said of rows that come one later. -/
theorem layout_insert (a b : List Bytes) (x : Bytes)
    (hmode : (maskLine (modeAt .code a a.length) x).2 = modeAt .code a a.length)
    (hunread : Unread (maskLine (modeAt .code a a.length) x).1) :
    (layout (a ++ x :: b)).lines = (layout (a ++ b)).lines.insertIdx a.length x ∧
    (layout (a ++ x :: b)).adjusted = (layout (a ++ b)).adjusted.map (past a.length) ∧
    (layout (a ++ x :: b)).leftover =
      (layout (a ++ b)).leftover.map (Entry.carry (past a.length)) ∧
    (layout (a ++ x :: b)).diagnostics =
      (layout (a ++ b)).diagnostics.map (Diagnostic.relocate (Position.carry (past a.length))) := by
  have hmasked : maskLines (a ++ x :: b) = maskLines a ++
      (maskLine (modeAt .code a a.length) x).1 ::
        (maskSteps (modeAt .code a a.length) b).map (·.1) := by
    rw [maskLines_append, maskSteps, List.map_cons, hmode]
  have hfollows := follows_insert b ((maskSteps (modeAt .code a a.length) b).map (·.1)) x
    (length_maskLines a) hunread
  rw [layout, layout, hmasked, maskLines_append]
  exact ⟨run_lines_insert hfollows, hfollows.adjusted (sits_insert a b x), hfollows.leftover,
    hfollows.diagnostics⟩

/-- A statement with a comment that runs on. -/
def commentStart : List Bytes := [Bytes.ofString "if (x) /* ("]

/-- A line that ends the comment and starts another one, with brackets in both. -/
def commentLine : Bytes := Bytes.ofString "  \x7d */ /* \x7b"

/-- The end of the comment, a block to be moved and a bracket that does not fit. -/
def commentEnd : List Bytes := splitLines ("*/\n  \x7b\n  \x7d ]\n(" : String)

/-- A line between a statement and its block, inside a comment. -/
theorem layout_insert_comment :
    (maskLine (modeAt .code commentStart commentStart.length) commentLine).2 =
      modeAt .code commentStart commentStart.length ∧
    Unread (maskLine (modeAt .code commentStart commentStart.length) commentLine).1 ∧
    (layout (commentStart ++ commentLine :: commentEnd)).lines =
      (layout (commentStart ++ commentEnd)).lines.insertIdx commentStart.length commentLine ∧
    (layout (commentStart ++ commentLine :: commentEnd)).adjusted =
      (layout (commentStart ++ commentEnd)).adjusted.map (past commentStart.length) ∧
    (layout (commentStart ++ commentLine :: commentEnd)).leftover =
      (layout (commentStart ++ commentEnd)).leftover.map
        (Entry.carry (past commentStart.length)) ∧
    (layout (commentStart ++ commentLine :: commentEnd)).diagnostics =
      (layout (commentStart ++ commentEnd)).diagnostics.map
        (Diagnostic.relocate (Position.carry (past commentStart.length))) := by
  have hmode : (maskLine (modeAt .code commentStart commentStart.length) commentLine).2 =
      modeAt .code commentStart commentStart.length := by decide +kernel
  have hunread : Unread (maskLine (modeAt .code commentStart commentStart.length) commentLine).1 :=
    by decide +kernel
  exact ⟨hmode, hunread, layout_insert commentStart commentEnd commentLine hmode hunread⟩

end Insert

end Layout

end Allman
