import Allman.Proofs.Scan
import Allman.Reformat

/-! # Where the braces are placed

A statement of what a run strips that does not mention the run. Take two braces that pair, each with
only spaces before it in its line. Let `I` be the indentation of the statement that controls the
row of the opening one: the leading spaces of the last row before it that starts a statement, or
nothing if there is no such row. If the opening brace stands at least `unit` right of `I`, its row
loses what stands between, and the row of the closing brace as much of that as it has. No other
row loses anything (`Placed`).

The statement refers to itself: if the row that starts the statement begins with a closing brace,
its leading spaces count as they are left (`StatementIndent`). Rows above decide rows below, so
there is only one solution (`Placed.unique`), and it is what a run strips (`placed_lost`).

A run compares with what is known when the row is read, not with the final distances. That this
is the same rests on `dedent_passAt`: a row that begins with a closing brace gets its distance while
it is read, and any other row gets it later. -/

namespace Allman.Layout

open Pairing Mask

/-! ### The placement -/

/-- The first byte of the row that is no space is a closing brace. -/
def BeginsClosing (lines : List Bytes) (row : Nat) : Prop :=
  (lines.getD row [])[(lines.getD row []).leadingSpaces]? = some Byte.closeBrace

/-- **The indentation of the statement that controls a row**, where `strip` says how much each row
loses. -/
inductive StatementIndent (lines masked : List Bytes) (strip : Nat → Nat) (r : Nat) : Nat → Prop
  | none : (∀ s < r, ¬ Starts masked s) → StatementIndent lines masked strip r 0
  | still {s : Nat} : Controls masked s r → ¬ BeginsClosing lines s →
    StatementIndent lines masked strip r (lines.getD s []).leadingSpaces
  | moved {s : Nat} : Controls masked s r → BeginsClosing lines s →
    StatementIndent lines masked strip r ((lines.getD s []).leadingSpaces - strip s)

/-- Two braces pair, each with only spaces before it in its line. -/
structure Block (lines masked : List Bytes) (o c : Mark) : Prop where
  pairs : Pairs (marks masked) o c
  brace : o.byte = Byte.openBrace
  first_opener : First lines o
  first_closer : First lines c

/-- **`strip` moves exactly the hanging braces**, each pair to the column of its statement. -/
structure Placed (lines masked : List Bytes) (strip : Nat → Nat) : Prop where
  hanging : ∀ o c I, Block lines masked o c → StatementIndent lines masked strip o.row I →
    I + unit ≤ o.col → strip o.row = o.col - I ∧ strip c.row = min (o.col - I) c.col
  only : ∀ row, strip row ≠ 0 → ∃ o c I, Block lines masked o c ∧
    StatementIndent lines masked strip o.row I ∧ I + unit ≤ o.col ∧ (row = o.row ∨ row = c.row)

/-! ### There is only one -/

section Unique

variable {lines masked : List Bytes} {strip strip' : Nat → Nat}

theorem StatementIndent.congr {r I : Nat} (h : StatementIndent lines masked strip r I)
    (heq : ∀ s < r, strip s = strip' s) : StatementIndent lines masked strip' r I := by
  cases h with
  | none hno => exact .none hno
  | still hs hopen => exact .still hs hopen
  | moved hs hclose =>
    rw [heq _ hs.lt]
    exact .moved hs hclose

theorem Block.row_le {o c : Mark} (h : Block lines masked o c) : o.row ≤ c.row := by
  rcases h.pairs.before (sorted_marks masked) with hlt | ⟨heq, -⟩
  · exact Nat.le_of_lt hlt
  · exact Nat.le_of_eq heq

theorem Block.brace_closer {o c : Mark} (h : Block lines masked o c) :
    c.byte = Byte.closeBrace := by
  refine Bracket.closeBrace_of_openerOf? ?_
  rw [h.pairs.kind, h.brace]

theorem Placed.eq_of_ne_zero (h : Placed lines masked strip) (h' : Placed lines masked strip')
    {row : Nat} (ih : ∀ s < row, strip s = strip' s) (hne : strip row ≠ 0) :
    strip row = strip' row := by
  obtain ⟨o, c, I, hblock, hI, hunit, hrow⟩ := h.only row hne
  have hle := hblock.row_le
  have hor : o.row ≤ row := by rcases hrow with rfl | rfl <;> omega
  have hI' : StatementIndent lines masked strip' o.row I := hI.congr fun s hs => ih s (by omega)
  obtain ⟨h1, h2⟩ := h.hanging o c I hblock hI hunit
  obtain ⟨h1', h2'⟩ := h'.hanging o c I hblock hI' hunit
  rcases hrow with rfl | rfl
  · rw [h1, h1']
  · rw [h2, h2']

/-- **There is at most one placement.** -/
theorem Placed.unique (h : Placed lines masked strip) (h' : Placed lines masked strip') :
    strip = strip' := by
  funext row
  induction row using Nat.strong_induction_on with
  | _ row ih =>
    by_cases hne : strip row = 0
    · by_cases hne' : strip' row = 0
      · rw [hne, hne']
      · exact (h'.eq_of_ne_zero h (fun s hs => (ih s hs).symm) hne').symm
    · exact h.eq_of_ne_zero h' ih hne

end Unique

/-! ### A row that starts a statement -/

section Scan

variable {lines masked : List Bytes}

theorem mem_marks_take {row : Nat} {m : Mark} :
    m ∈ marks (masked.take row) ↔ m ∈ marks masked ∧ m.row < row := by
  rw [mem_marks, mem_marks]
  constructor
  · rintro ⟨text, htext, h⟩
    rw [List.getElem?_take] at htext
    split at htext
    · next hlt => exact ⟨⟨text, htext, h⟩, hlt⟩
    · simp at htext
  · rintro ⟨⟨text, htext, h⟩, hlt⟩
    exact ⟨text, by rw [List.getElem?_take, if_pos hlt]; exact htext, h⟩

theorem pairs_take_iff {row : Nat} {o c : Mark} :
    Pairs (marks (masked.take row)) o c ↔ Pairs (marks masked) o c ∧ c.row < row := by
  have happ := marks_eq_append masked row
  constructor
  · intro h
    refine ⟨?_, (mem_marks_take.mp h.mem_closer).2⟩
    rw [happ]
    exact h.append _
  · rintro ⟨h, hrow⟩
    have hc : c ∈ marks (masked.take row) := mem_marks_take.mpr ⟨h.mem_closer, hrow⟩
    have hnodup := nodup_marks masked
    rw [happ] at h hnodup
    exact h.of_append hnodup hc

/-- What the pass knows after the last row. -/
theorem reads_finalPass (hfit : Fits lines masked) :
    Reads lines (indentAt lines masked) (marks masked) (finalPass lines masked) := by
  have h := reads_passAt hfit masked.length (Nat.le_refl _)
  rw [List.take_length, hfit.length] at h
  exact h

/-- The bracket that is first in its line. -/
theorem Fits.getElem?_leadingSpaces (hfit : Fits lines masked) {m : Mark}
    (hm : m ∈ marks masked) (hfirst : First lines m) :
    (lines.getD m.row [])[(lines.getD m.row []).leadingSpaces]? = some m.byte := by
  obtain ⟨line, hline, hbyte, -⟩ := hfit.getElem? hm
  rw [hfit.leadingSpaces_eq hm hfirst, getD_of_getElem? hline]
  exact hbyte

/-- A distance that is known once its row is read belongs to a closing brace of the row. -/
theorem exists_closer_of_dedent_passAt (hfit : Fits lines masked) {s : Nat}
    (hs : s < masked.length) (hne : (passAt lines masked (s + 1)).dedent.getD s 0 ≠ 0) :
    ∃ o c, Pairs (marks (masked.take (s + 1))) o c ∧ Hangs lines (indentAt lines masked) o c ∧
      s = c.row := by
  obtain ⟨o, c, hpair, hhang, hrow⟩ := (reads_passAt hfit (s + 1) hs).only s hne
  rcases hrow with hrow | hrow
  · -- the closing brace would come later in the row of the opening one
    obtain ⟨hpair', hc⟩ := pairs_take_iff.mp hpair
    obtain ⟨-, -, hfc, hfo⟩ := hangs_iff.mp hhang
    rcases hpair'.before (sorted_marks masked) with hlt | ⟨heq, hcol⟩
    · omega
    · rw [hfit.eq_of_first hpair'.mem_opener hpair'.mem_closer heq hfo hfc] at hcol
      exact absurd hcol (Nat.lt_irrefl _)
  · exact ⟨o, c, hpair, hhang, hrow⟩

/-- **When a row gets its distance**: while it is read if it begins with a closing brace, and
otherwise later. -/
theorem dedent_passAt (hfit : Fits lines masked) {s : Nat} (hs : s < masked.length) :
    (BeginsClosing lines s → (passAt lines masked (s + 1)).dedent.getD s 0 =
      (finalPass lines masked).dedent.getD s 0) ∧
    (¬ BeginsClosing lines s → (passAt lines masked (s + 1)).dedent.getD s 0 = 0) := by
  have hnow := reads_passAt hfit (s + 1) hs
  have hend := reads_finalPass hfit
  constructor
  · intro hbegins
    by_cases hne : (passAt lines masked (s + 1)).dedent.getD s 0 = 0
    · by_contra hend'
      rw [hne] at hend'
      obtain ⟨o, c, hpair, hhang, hrow⟩ := hend.only s fun h => hend' h.symm
      obtain ⟨hbrace, hunit, -, hfo⟩ := hangs_iff.mp hhang
      rcases hrow with rfl | rfl
      · -- the row would begin with both braces
        have hget := hfit.getElem?_leadingSpaces hpair.mem_opener hfo
        rw [hbegins, hbrace, Option.some.injEq] at hget
        exact absurd hget (by decide)
      · have hpair' := pairs_take_iff.mpr ⟨hpair, Nat.lt_succ_self c.row⟩
        have hmoved := (hnow.moved o c hpair' hhang).2
        unfold unit at hunit
        omega
    · obtain ⟨o, c, hpair, hhang, rfl⟩ := exists_closer_of_dedent_passAt hfit hs hne
      rw [(hnow.moved o c hpair hhang).2,
        (hend.moved o c (pairs_take_iff.mp hpair).1 hhang).2]
  · intro hbegins
    by_contra hne
    obtain ⟨o, c, hpair, hhang, rfl⟩ := exists_closer_of_dedent_passAt hfit hs hne
    obtain ⟨hbrace, -, hfc, -⟩ := hangs_iff.mp hhang
    obtain ⟨hpair', -⟩ := pairs_take_iff.mp hpair
    have hc := Bracket.closeBrace_of_openerOf? (hbrace ▸ hpair'.kind)
    have hget := hfit.getElem?_leadingSpaces hpair'.mem_closer hfc
    rw [hc] at hget
    exact hbegins hget

/-! ### The run strips the placement -/

theorem statementIndent_indentAt (hfit : Fits lines masked) {r : Nat} (hr : r ≤ masked.length) :
    StatementIndent lines masked ((run lines masked).lost lines) r (indentAt lines masked r) := by
  rcases exists_controls masked r with hno | ⟨s, hs⟩
  · rw [indentAt_of_no_start hfit hr hno]
    exact .none hno
  · have hlt := hs.lt
    rw [indentAt_of_controls hfit hr hs]
    obtain ⟨hclosing, hopening⟩ := dedent_passAt hfit (show s < masked.length by omega)
    by_cases hbegins : BeginsClosing lines s
    · have hlen : s < lines.length := by rw [← hfit.length]; omega
      -- no more is lost than there are leading spaces
      have hlost : (lines.getD s []).leadingSpaces - (finalPass lines masked).dedent.getD s 0 =
          (lines.getD s []).leadingSpaces - (run lines masked).lost lines s := by
        rw [lost_run (List.getElem?_eq_getElem hlen), List.getD_eq_getElem _ _ hlen]
        omega
      rw [hclosing hbegins, hlost]
      exact .moved hs hbegins
    · rw [hopening hbegins, Nat.sub_zero]
      exact .still hs hbegins

theorem StatementIndent.unique {strip : Nat → Nat} {r I I' : Nat}
    (h : StatementIndent lines masked strip r I) (h' : StatementIndent lines masked strip r I') :
    I = I' := by
  cases h with
  | none hno =>
    cases h' with
    | none => rfl
    | still hs => exact absurd hs.starts (hno _ hs.lt)
    | moved hs => exact absurd hs.starts (hno _ hs.lt)
  | still hs hopen =>
    cases h' with
    | none hno => exact absurd hs.starts (hno _ hs.lt)
    | still hs' => rw [hs.unique hs']
    | moved hs' hclose => exact absurd (hs.unique hs' ▸ hclose) hopen
  | moved hs hclose =>
    cases h' with
    | none hno => exact absurd hs.starts (hno _ hs.lt)
    | still hs' hopen => exact absurd (hs'.unique hs ▸ hclose) hopen
    | moved hs' => rw [hs.unique hs']

theorem hangs_iff_block {o c : Mark} :
    Pairs (marks masked) o c ∧ Hangs lines (indentAt lines masked) o c ↔
      Block lines masked o c ∧ indentAt lines masked o.row + unit ≤ o.col := by
  have hunit : unit ≤ o.col - indentAt lines masked o.row ↔
      indentAt lines masked o.row + unit ≤ o.col := by unfold unit; omega
  rw [hangs_iff, hunit]
  constructor
  · rintro ⟨hpair, hbrace, hle, hfc, hfo⟩
    exact ⟨⟨hpair, hbrace, hfo, hfc⟩, hle⟩
  · rintro ⟨⟨hpair, hbrace, hfo, hfc⟩, hle⟩
    exact ⟨hpair, hbrace, hle, hfc, hfo⟩

/-- What a row that begins with a bracket loses. -/
theorem lost_of_first (hfit : Fits lines masked) {m : Mark} (hm : m ∈ marks masked)
    (hfirst : First lines m) : (run lines masked).lost lines m.row =
      min ((finalPass lines masked).dedent.getD m.row 0) m.col := by
  have hline := List.getElem?_eq_getElem (hfit.row_lt hm)
  have hcol := hfit.leadingSpaces_eq hm hfirst
  rw [List.getD_eq_getElem?_getD, hline, Option.getD_some] at hcol
  rw [lost_run hline, hcol]

/-- **A run strips the placement.** -/
theorem placed_lost (hfit : Fits lines masked) :
    Placed lines masked ((run lines masked).lost lines) := by
  have hend := reads_finalPass hfit
  have hindent : ∀ {m : Mark}, m ∈ marks masked →
      StatementIndent lines masked ((run lines masked).lost lines) m.row
        (indentAt lines masked m.row) := by
    intro m hm
    have hrow := hfit.row_lt hm
    rw [← hfit.length] at hrow
    exact statementIndent_indentAt hfit (Nat.le_of_lt hrow)
  refine ⟨fun o c I hblock hI hunit => ?_, fun row hne => ?_⟩
  · have ho := hblock.pairs.mem_opener
    have hc := hblock.pairs.mem_closer
    obtain rfl := hI.unique (hindent ho)
    obtain ⟨hpair, hhang⟩ := hangs_iff_block.mpr ⟨hblock, hunit⟩
    obtain ⟨hmo, hmc⟩ := hend.moved o c hpair hhang
    rw [lost_of_first hfit ho hblock.first_opener, lost_of_first hfit hc hblock.first_closer, hmo,
      hmc]
    exact ⟨Nat.min_eq_left (Nat.sub_le _ _), rfl⟩
  · have hrow : row < lines.length := by
      by_contra hge
      exact hne (lost_eq_zero_of_le (by omega))
    rw [lost_run (List.getElem?_eq_getElem hrow)] at hne
    obtain ⟨o, c, hpair, hhang, hor⟩ := hend.only row (by omega)
    obtain ⟨hblock, hunit⟩ := hangs_iff_block.mp ⟨hpair, hhang⟩
    exact ⟨o, c, _, hblock, hindent hblock.pairs.mem_opener, hunit, hor⟩

theorem run_lines_eq_mapIdx : (run lines masked).lines =
    lines.mapIdx fun row line => line.drop ((run lines masked).lost lines row) := by
  refine List.ext_getElem? fun row => ?_
  rw [List.getElem?_mapIdx]
  rcases hline : lines[row]? with _ | line
  · rw [List.getElem?_eq_none_iff] at hline
    rw [Option.map_none, List.getElem?_eq_none_iff]
    exact Nat.le_trans (Nat.le_of_eq length_run_lines) hline
  · exact run_getElem? hline

theorem droppable_lost : Droppable ((run lines masked).lost lines) lines := by
  intro row line hline b hb
  rw [Bytes.take_of_le_leadingSpaces (lost_le_leadingSpaces hline)] at hb
  exact List.eq_of_mem_replicate hb

end Scan

/-- **The layout of lines moves exactly the hanging braces**: what it takes from the rows is their
placement, the only one there is, and it takes nothing but leading spaces. -/
theorem layout_placed (lines : List Bytes) :
    Placed lines (maskLines lines) ((layout lines).lost lines) ∧
      (∀ strip, Placed lines (maskLines lines) strip → strip = (layout lines).lost lines) ∧
      (layout lines).lines =
        lines.mapIdx (fun row line => line.drop ((layout lines).lost lines row)) ∧
      Droppable ((layout lines).lost lines) lines := by
  have hplaced := placed_lost (fits_maskLines lines)
  exact ⟨hplaced, fun strip h => h.unique hplaced, run_lines_eq_mapIdx, droppable_lost⟩

end Allman.Layout
