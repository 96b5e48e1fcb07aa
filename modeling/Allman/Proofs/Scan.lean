import Allman.Proofs.Masking
import Allman.Proofs.Statements

/-! # What a pass knows after some rows

`passAt` is the pass before a row. Its state is tied to the text read so far: the stack holds the
waiting brackets, each with the indentation that was current in its row, and the table of distances
holds the rows of the hanging pairs so far (`Reads`). One bracket keeps this (`Reads.byte`), so
that it holds before every row (`reads_passAt`).

The table is never asked to move a row twice: two brackets that have only spaces before them in
the same row are the same bracket (`eq_of_first`), and no bracket is in two pairs. -/

namespace Allman.Layout

open Pairing Mask

/-! ### Masked rows that fit their lines -/

/-- There are as many masked rows as lines, and each is its line with some bytes replaced by
spaces. -/
structure Fits (lines masked : List Bytes) : Prop where
  length : masked.length = lines.length
  veils : ∀ (row : Nat) (text : Bytes), masked[row]? = some text →
    ∃ line, lines[row]? = some line ∧ Veils line text

theorem fits_maskLines (lines : List Bytes) : Fits lines (maskLines lines) :=
  ⟨length_maskLines lines, fun _ _ h => veils_maskLines h⟩

/-- The mark has only spaces before it in its line. -/
def First (lines : List Bytes) (m : Mark) : Prop :=
  Bytes.blankBefore (lines.getD m.row []) m.col = true

variable {lines masked : List Bytes}

/-- A mark stands in its line. -/
theorem Fits.getElem? (hfit : Fits lines masked) {m : Mark} (hm : m ∈ marks masked) :
    ∃ s, lines[m.row]? = some s ∧ s[m.col]? = some m.byte ∧ m.byte ≠ Byte.space := by
  obtain ⟨text, htext, hbyte, hbracket⟩ := mem_marks.mp hm
  obtain ⟨line, hline, hveils⟩ := hfit.veils m.row text htext
  have hne := Bracket.ne_space_of_isBracket hbracket
  exact ⟨line, hline, hveils.getElem? hbyte hne, hne⟩

theorem Fits.row_lt (hfit : Fits lines masked) {m : Mark} (hm : m ∈ marks masked) :
    m.row < lines.length := by
  obtain ⟨line, hline, -⟩ := hfit.getElem? hm
  exact (List.getElem?_eq_some_iff.mp hline).1

/-- A mark with only spaces before it stands behind the leading spaces of its line. -/
theorem Fits.leadingSpaces_eq (hfit : Fits lines masked) {m : Mark} (hm : m ∈ marks masked)
    (hfirst : First lines m) : (lines.getD m.row []).leadingSpaces = m.col := by
  obtain ⟨line, hline, hbyte, hne⟩ := hfit.getElem? hm
  unfold First at hfirst
  rw [getD_of_getElem? hline] at hfirst ⊢
  exact (Bytes.leadingSpaces_eq_iff hbyte hne).mpr (Bytes.blankBefore_iff.mp hfirst)

/-- **Only one bracket of a row has only spaces before it.** -/
theorem Fits.eq_of_first (hfit : Fits lines masked) {m m' : Mark} (hm : m ∈ marks masked)
    (hm' : m' ∈ marks masked) (hrow : m.row = m'.row) (hfirst : First lines m)
    (hfirst' : First lines m') : m = m' := by
  have hcol : m.col = m'.col := by
    rw [← hfit.leadingSpaces_eq hm hfirst, ← hfit.leadingSpaces_eq hm' hfirst', hrow]
  obtain ⟨line, hline, hbyte, -⟩ := hfit.getElem? hm
  obtain ⟨line', hline', hbyte', -⟩ := hfit.getElem? hm'
  rw [← hrow, hline, Option.some.injEq] at hline'
  rw [← hline', ← hcol, hbyte, Option.some.injEq] at hbyte'
  obtain ⟨b, r, c⟩ := m
  obtain ⟨b', r', c'⟩ := m'
  simp only at hrow hcol hbyte'
  rw [hrow, hcol, hbyte']

/-! ### Entries and hanging pairs -/

/-- The entry of an opening bracket, where `indent` gives the indentation current in each row. -/
def entryOf (indent : Nat → Nat) (m : Mark) : Entry Nat := ⟨m.byte, m.row, m.col, indent m.row⟩

/-- The pair of brackets is one of braces that is to be moved. -/
def Hangs (lines : List Bytes) (indent : Nat → Nat) (o c : Mark) : Prop :=
  hangs lines (entryOf indent o) c.row c.col = true

theorem hangs_iff {indent : Nat → Nat} {o c : Mark} : Hangs lines indent o c ↔
    o.byte = Byte.openBrace ∧ unit ≤ o.col - indent o.row ∧ First lines c ∧ First lines o := by
  unfold Hangs hangs First
  rw [Bool.and_eq_true, Bool.and_eq_true, Bool.and_eq_true, beq_iff_eq, decide_eq_true_iff,
    and_assoc, and_assoc]
  rfl

/-- **What a pass knows** after the marks `ms`. -/
structure Reads (lines : List Bytes) (indent : Nat → Nat) (ms : List Mark) (p : Pass) : Prop where
  length : p.dedent.length = lines.length
  stack : p.stack.entries = (waiting ms).map (entryOf indent)
  moved : ∀ o c, Pairs ms o c → Hangs lines indent o c →
    p.dedent.getD o.row 0 = o.col - indent o.row ∧ p.dedent.getD c.row 0 = o.col - indent o.row
  only : ∀ row, p.dedent.getD row 0 ≠ 0 →
    ∃ o c, Pairs ms o c ∧ Hangs lines indent o c ∧ (row = o.row ∨ row = c.row)

theorem reads_start (indent : Nat → Nat) : Reads lines indent [] (.start lines.length) where
  length := List.length_replicate
  stack := rfl
  moved := by
    rintro o c ⟨before, after, h, -⟩ -
    simp at h
  only := by
    intro row h
    rcases Nat.lt_or_ge row lines.length with hrow | hrow
    · rw [Pass.start, List.getD_replicate _ hrow] at h
      exact absurd rfl h
    · rw [Pass.start, List.getD_eq_default _ _ (by simpa using hrow)] at h
      exact absurd rfl h

theorem getD_move (p : Pass) (row distance x : Nat) (hrow : row < p.dedent.length)
    (hzero : p.dedent.getD row 0 = 0) :
    (p.move row distance).dedent.getD x 0 = if x = row then distance else p.dedent.getD x 0 := by
  unfold Pass.move
  simp only [List.getD_eq_getElem?_getD, List.getElem?_modify]
  rw [List.getD_eq_getElem?_getD, List.getElem?_eq_getElem hrow, Option.getD_some] at hzero
  by_cases hx : row = x
  · subst hx
    rw [if_pos rfl, List.getElem?_eq_getElem hrow]
    simp [hzero]
  · rw [if_neg fun h => hx h.symm]
    simp [hx]

/-- Two rows that are not yet moved are moved by the same distance. -/
theorem getD_move_move {p : Pass} {row row' : Nat} (distance x : Nat) (hne : row' ≠ row)
    (hrow : row < p.dedent.length) (hrow' : row' < p.dedent.length)
    (hzero : p.dedent.getD row 0 = 0) (hzero' : p.dedent.getD row' 0 = 0) :
    ((p.move row distance).move row' distance).dedent.getD x 0 =
      if x = row' then distance else if x = row then distance else p.dedent.getD x 0 := by
  have hlen : row' < (p.move row distance).dedent.length := by
    rw [Pass.move, List.length_modify]
    exact hrow'
  have hstill : (p.move row distance).dedent.getD row' 0 = 0 := by
    rw [getD_move _ _ _ _ hrow hzero, if_neg hne, hzero']
  rw [getD_move _ _ _ _ hlen hstill, getD_move _ _ _ _ hrow hzero]

/-! ### One bracket -/

section Step

variable {indent : Nat → Nat} {ms : List Mark} {p : Pass} {m : Mark}

/-- A row whose first bracket is in no pair so far is not yet moved. -/
theorem Reads.getD_eq_zero (hfit : Fits lines masked) (h : Reads lines indent ms p)
    (hms : ∀ x ∈ ms, x ∈ marks masked) (hm : m ∈ marks masked) (hfirst : First lines m)
    (hfree : ∀ o c, Pairs ms o c → m ≠ o ∧ m ≠ c) : p.dedent.getD m.row 0 = 0 := by
  by_contra hne
  obtain ⟨o, c, hpair, hhang, hrow⟩ := h.only m.row hne
  obtain ⟨-, -, hfc, hfo⟩ := hangs_iff.mp hhang
  rcases hrow with hrow | hrow
  · exact (hfree o c hpair).1
      (hfit.eq_of_first hm (hms o hpair.mem_opener) hrow hfirst hfo)
  · exact (hfree o c hpair).2
      (hfit.eq_of_first hm (hms c hpair.mem_closer) hrow hfirst hfc)

/-- Pairs and moves stay as they are when a mark pairs with nothing that hangs. -/
theorem Reads.of_no_hanging {q : Pass} (h : Reads lines indent ms p)
    (hdedent : q.dedent = p.dedent)
    (hstack : q.stack.entries = (waiting (ms ++ [m])).map (entryOf indent))
    (hno : ∀ o, (waiting ms).head? = some o → Bracket.openerOf? m.byte = some o.byte →
      ¬ Hangs lines indent o m) : Reads lines indent (ms ++ [m]) q where
  length := by rw [hdedent]; exact h.length
  stack := hstack
  moved := by
    intro o c hpair hhang
    rw [hdedent]
    rcases pairs_concat.mp hpair with hold | ⟨rfl, hhead, hkind⟩
    · exact h.moved o c hold hhang
    · exact absurd hhang (hno o hhead hkind)
  only := by
    intro row hrow
    rw [hdedent] at hrow
    obtain ⟨o, c, hpair, hhang, hor⟩ := h.only row hrow
    exact ⟨o, c, hpair.append [m], hhang, hor⟩

/-- A hanging pair moves its two rows, neither of which was moved before. -/
theorem Reads.of_hanging {q : Pass} {o : Mark} (hfit : Fits lines masked)
    (h : Reads lines indent ms p) (hpre : ms ++ [m] <+: marks masked)
    (hhead : (waiting ms).head? = some o) (hkind : Bracket.openerOf? m.byte = some o.byte)
    (hhang : Hangs lines indent o m)
    (hdedent : q.dedent =
      ((p.move o.row (o.col - indent o.row)).move m.row (o.col - indent o.row)).dedent)
    (hstack : q.stack.entries = (waiting (ms ++ [m])).map (entryOf indent)) :
    Reads lines indent (ms ++ [m]) q := by
  have hnodup : (ms ++ [m]).Nodup := hpre.sublist.nodup (nodup_marks masked)
  have hms : ∀ x ∈ ms, x ∈ marks masked := fun x hx => hpre.subset (by simp [hx])
  have hm : m ∈ marks masked := hpre.subset (by simp)
  have hnew : m ∉ ms := fun hmem => (List.nodup_append.mp hnodup).2.2 m hmem m (by simp) rfl
  have hwait : o ∈ waiting ms := List.mem_of_mem_head? hhead
  have ho : o ∈ marks masked := hms o (mem_of_mem_waiting hwait)
  have hopen := isOpener_of_mem_waiting hwait
  have hclose := Bracket.isOpener_eq_false_of_openerOf? hkind
  obtain ⟨-, hunit, hfm, hfo⟩ := hangs_iff.mp hhang
  -- neither of the two brackets is in an earlier pair
  have hzo : p.dedent.getD o.row 0 = 0 := h.getD_eq_zero hfit hms ho hfo fun o' c' hpair => by
    constructor
    · rintro rfl
      exact hpair.not_mem_waiting (List.nodup_append.mp hnodup).1 hwait
    · rintro rfl
      rw [hpair.isOpener_closer] at hopen
      simp at hopen
  have hzm : p.dedent.getD m.row 0 = 0 := h.getD_eq_zero hfit hms hm hfm fun o' c' hpair =>
    ⟨fun heq => hnew (heq ▸ hpair.mem_opener), fun heq => hnew (heq ▸ hpair.mem_closer)⟩
  have hrows : m.row ≠ o.row := by
    intro hrow
    rw [hfit.eq_of_first hm ho hrow hfm hfo, hopen] at hclose
    simp at hclose
  have hget : ∀ x, q.dedent.getD x 0 = if x = m.row then o.col - indent o.row
      else if x = o.row then o.col - indent o.row else p.dedent.getD x 0 := by
    intro x
    have hlo : o.row < p.dedent.length := by rw [h.length]; exact hfit.row_lt ho
    have hlm : m.row < p.dedent.length := by rw [h.length]; exact hfit.row_lt hm
    rw [hdedent, getD_move_move _ x hrows hlo hlm hzo hzm]
  refine ⟨?_, hstack, ?_, ?_⟩
  · rw [hdedent]
    simp only [Pass.move, List.length_modify, h.length]
  · intro o' c' hpair hhang'
    rcases pairs_concat.mp hpair with hold | ⟨rfl, hhead', -⟩
    · -- the rows of an earlier pair are moved, so they are not those of the new one
      obtain ⟨h1, h2⟩ := h.moved o' c' hold hhang'
      have hpos : unit ≤ o'.col - indent o'.row := (hangs_iff.mp hhang').2.1
      have hstay : ∀ x, p.dedent.getD x 0 = o'.col - indent o'.row →
          q.dedent.getD x 0 = o'.col - indent o'.row := by
        intro x hx
        unfold unit at hpos
        rw [hget x, if_neg (by rintro rfl; omega), if_neg (by rintro rfl; omega), hx]
      exact ⟨hstay _ h1, hstay _ h2⟩
    · rw [hhead, Option.some.injEq] at hhead'
      subst hhead'
      refine ⟨?_, ?_⟩
      · rw [hget, if_neg fun h => hrows h.symm, if_pos rfl]
      · rw [hget, if_pos rfl]
  · intro x hx
    rw [hget] at hx
    split at hx
    · next hxm => exact ⟨o, m, pairs_concat.mpr (Or.inr ⟨rfl, hhead, hkind⟩), hhang, Or.inr hxm⟩
    · split at hx
      · next hxo => exact ⟨o, m, pairs_concat.mpr (Or.inr ⟨rfl, hhead, hkind⟩), hhang, Or.inl hxo⟩
      · obtain ⟨o', c', hpair, hhang', hor⟩ := h.only x hx
        exact ⟨o', c', hpair.append [m], hhang', hor⟩

/-- **A bracket** keeps what the pass knows. -/
theorem Reads.byte (hfit : Fits lines masked) (h : Reads lines indent ms p)
    (hindent : p.indent = indent m.row) (hpre : ms ++ [m] <+: marks masked) :
    Reads lines indent (ms ++ [m]) (p.byte lines m.row m.col m.byte) := by
  obtain ⟨-, -, -, hbracket⟩ := mem_marks.mp (hpre.subset (by simp : m ∈ ms ++ [m]))
  rcases Pass.byte_cases lines m.row m.col m.byte p with
    ⟨hopen, heq⟩ | ⟨opener, hclose, hkind, heq⟩ | ⟨hopen, hkind, -⟩
  · rw [heq]
    refine h.of_no_hanging rfl ?_ fun o _ hkind => ?_
    · rw [waiting_concat, step, if_pos hopen, List.map_cons, ← h.stack, entryOf, ← hindent]
      rfl
    · rw [Bracket.openerOf?_eq_none_of_isOpener hopen] at hkind
      simp at hkind
  · have hwait : waiting (ms ++ [m]) = (waiting ms).tail := by
      rw [waiting_concat, step, if_neg (by simp [hclose])]
    rw [heq]
    rcases hw : waiting ms with _ | ⟨o, rest⟩
    · have hstack : p.stack.entries = [] := by rw [h.stack, hw]; rfl
      rw [Pass.close_empty hstack]
      refine h.of_no_hanging rfl ?_ fun o hhead => ?_
      · rw [hwait, hw]
        exact hstack
      · rw [hw] at hhead
        simp at hhead
    · have hstack : p.stack.entries = entryOf indent o :: rest.map (entryOf indent) := by
        rw [h.stack, hw]
        rfl
      have hrest : (waiting (ms ++ [m])).map (entryOf indent) = rest.map (entryOf indent) := by
        rw [hwait, hw]
        rfl
      have hhead : (waiting ms).head? = some o := by rw [hw]; rfl
      rw [Pass.close_cons hstack]
      split
      · next hne =>
        refine h.of_no_hanging rfl hrest.symm fun o' hhead' hkind' => ?_
        rw [hhead, Option.some.injEq] at hhead'
        rw [hkind, Option.some.injEq, ← hhead'] at hkind'
        exact absurd hkind'.symm hne
      · next heq =>
        have hkind' : Bracket.openerOf? m.byte = some o.byte := by
          rw [hkind]
          exact congrArg some (not_not.mp heq).symm
        split
        · next hhang => exact h.of_hanging hfit hpre hhead hkind' hhang rfl hrest.symm
        · next hhang =>
          refine h.of_no_hanging rfl hrest.symm fun o' hhead' _ => ?_
          rw [hhead, Option.some.injEq] at hhead'
          exact hhead' ▸ hhang
  · unfold Bracket.isBracket at hbracket
    rw [hopen, hkind] at hbracket
    simp at hbracket

end Step

/-! ### The bytes of a row -/

namespace Pass

theorem indent_fresh_byte (lines : List Bytes) (row col : Nat) (b : UInt8) (p : Pass) :
    (p.byte lines row col b).indent = p.indent ∧ (p.byte lines row col b).fresh = p.fresh := by
  rcases byte_cases lines row col b p with ⟨-, h⟩ | ⟨opener, -, -, h⟩ | ⟨-, -, h⟩
  · rw [h]
    exact ⟨rfl, rfl⟩
  · rw [h]
    rcases hstack : p.stack.entries with _ | ⟨e, rest⟩
    · rw [close_empty hstack]
      exact ⟨rfl, rfl⟩
    · rw [close_cons hstack]
      split
      · exact ⟨rfl, rfl⟩
      · split
        · exact ⟨rfl, rfl⟩
        · exact ⟨rfl, rfl⟩
  · rw [h]
    exact ⟨rfl, rfl⟩

theorem indent_fresh_bytes (lines : List Bytes) (row : Nat) : ∀ (s : Bytes) (col : Nat) (p : Pass),
    (Pass.bytes lines row col s p).indent = p.indent ∧
      (Pass.bytes lines row col s p).fresh = p.fresh
  | [], _, _ => ⟨rfl, rfl⟩
  | b :: s, col, p => by
    obtain ⟨h1, h2⟩ := indent_fresh_byte lines row col b p
    obtain ⟨h3, h4⟩ := indent_fresh_bytes lines row s (col + 1) (p.byte lines row col b)
    exact ⟨h3.trans h1, h4.trans h2⟩

/-- A byte that is no bracket changes nothing. -/
theorem byte_of_not_isBracket {row col : Nat} {b : UInt8} (p : Pass)
    (hb : ¬ Bracket.isBracket b = true) : p.byte lines row col b = p := by
  unfold Bracket.isBracket at hb
  rw [Bool.or_eq_true, not_or] at hb
  rcases byte_cases lines row col b p with ⟨h, -⟩ | ⟨opener, -, h, -⟩ | ⟨-, -, h⟩
  · exact absurd h hb.1
  · rw [h] at hb
    exact absurd rfl hb.2
  · exact h

end Pass

theorem Reads.bytes (hfit : Fits lines masked) {indent : Nat → Nat} {row : Nat} :
    ∀ (s : Bytes) (col : Nat) {ms : List Mark} {p : Pass}, Reads lines indent ms p →
      p.indent = indent row → ms ++ rowMarks row col s <+: marks masked →
      Reads lines indent (ms ++ rowMarks row col s) (Pass.bytes lines row col s p)
  | [], _, ms, p, h, _, _ => by
    rw [rowMarks, List.append_nil]
    exact h
  | b :: s, col, ms, p, h, hindent, hpre => by
    rw [Pass.bytes]
    unfold rowMarks at hpre ⊢
    split
    · next hb =>
      rw [if_pos hb] at hpre
      rw [List.append_cons] at hpre ⊢
      have hbyte := h.byte (m := ⟨b, row, col⟩) hfit hindent ((List.prefix_append _ _).trans hpre)
      have hindent' := (Pass.indent_fresh_byte lines row col b p).1.trans hindent
      exact Reads.bytes hfit s (col + 1) hbyte hindent' hpre
    · next hb =>
      rw [if_neg hb] at hpre
      rw [Pass.byte_of_not_isBracket p hb]
      exact Reads.bytes hfit s (col + 1) h hindent hpre

/-- Only the stack and the table of distances matter. -/
theorem Reads.congr {indent : Nat → Nat} {ms : List Mark} {p q : Pass}
    (h : Reads lines indent ms p) (hstack : q.stack = p.stack) (hdedent : q.dedent = p.dedent) :
    Reads lines indent ms q := by
  obtain ⟨h1, h2, h3, h4⟩ := h
  exact ⟨by rw [hdedent, h1], by rw [hstack, h2], by rw [hdedent]; exact h3,
    by rw [hdedent]; exact h4⟩

/-! ### The rows of a text -/

/-- The pass before a row. -/
def passAt (lines masked : List Bytes) (row : Nat) : Pass :=
  Pass.rows lines 0 (masked.take row) (.start lines.length)

/-- The indentation that is current in a row. -/
def indentAt (lines masked : List Bytes) (row : Nat) : Nat := (passAt lines masked row).indent

theorem passAt_succ {row : Nat} {text : Bytes} (h : masked[row]? = some text) :
    passAt lines masked (row + 1) = (passAt lines masked row).row lines row text := by
  have hrow : row < masked.length := (List.getElem?_eq_some_iff.mp h).1
  unfold passAt
  rw [List.take_add_one, h, Option.toList_some, Pass.rows_append, List.length_take,
    Nat.min_eq_left (Nat.le_of_lt hrow), Nat.zero_add]
  rfl

theorem Pass.stack_row (row : Nat) (text : Bytes) (p : Pass) :
    (p.row lines row text).stack = (Pass.bytes lines row 0 text p).stack := by
  unfold Pass.row
  split
  · rfl
  · rfl

theorem Pass.dedent_row (row : Nat) (text : Bytes) (p : Pass) :
    (p.row lines row text).dedent = (Pass.bytes lines row 0 text p).dedent := by
  unfold Pass.row
  split
  · rfl
  · rfl

theorem marks_take_isPrefix (masked : List Bytes) (row : Nat) :
    marks (masked.take row) <+: marks masked := by
  rw [marks_eq_append masked row]
  exact List.prefix_append _ _

/-- **What the pass knows before a row.** -/
theorem reads_passAt (hfit : Fits lines masked) : ∀ row ≤ masked.length,
    Reads lines (indentAt lines masked) (marks (masked.take row)) (passAt lines masked row)
  | 0, _ => reads_start _
  | row + 1, hrow => by
    have ih := reads_passAt hfit row (by omega)
    have htext := List.getElem?_eq_getElem (show row < masked.length by omega)
    have hpre := marks_take_isPrefix masked (row + 1)
    rw [passAt_succ htext]
    rw [marks_take_succ htext] at hpre ⊢
    exact (Reads.bytes hfit _ 0 ih rfl hpre).congr (Pass.stack_row _ _ _) (Pass.dedent_row _ _ _)

/-- The next row of code starts a statement if the last row of code ended one. -/
theorem fresh_passAt : ∀ row ≤ masked.length,
    ((passAt lines masked row).fresh = true ↔ ∀ text, LastCode masked row text → Ends text)
  | 0, _ => by
    refine ⟨fun _ text h => absurd h (not_lastCode_zero text), fun _ => rfl⟩
  | row + 1, hrow => by
    have ih := fresh_passAt row (by omega)
    have htext := List.getElem?_eq_getElem (show row < masked.length by omega)
    rw [passAt_succ htext]
    unfold Pass.row
    by_cases hcode : isCode masked[row] = true
    · rw [if_pos hcode]
      simp only [lastCode_succ_of_hasCode htext (isCode_iff.mp hcode), forall_eq]
      exact endsStatement_iff
    · rw [if_neg hcode]
      simp only [lastCode_succ_of_not_hasCode htext fun h => hcode (isCode_iff.mpr h)]
      rw [← ih]
      exact Bool.eq_iff_iff.mp (Pass.indent_fresh_bytes _ row _ 0 _).2

/-- No group is open inside the innermost brace if that is the innermost bracket. -/
theorem groupDepth_passAt (hfit : Fits lines masked) {row : Nat} (hrow : row ≤ masked.length) :
    (passAt lines masked row).stack.groupDepth = 0 ↔
      ∀ m, (waiting (marks (masked.take row))).head? = some m → m.byte = Byte.openBrace := by
  unfold Stack.groupDepth
  rw [(reads_passAt hfit row hrow).stack]
  rcases waiting (marks (masked.take row)) with _ | ⟨m, rest⟩
  · simp
  · by_cases hm : m.byte = Byte.openBrace
    · simp [entryOf, hm]
    · simp [entryOf, hm]

theorem starts_iff (hfit : Fits lines masked) {row : Nat} {text : Bytes}
    (h : masked[row]? = some text) : Starts masked row ↔ isCode text = true ∧
      ((passAt lines masked row).fresh &&
        (passAt lines masked row).stack.groupDepth == 0) = true := by
  have hrow : row ≤ masked.length := Nat.le_of_lt (List.getElem?_eq_some_iff.mp h).1
  rw [Bool.and_eq_true, beq_iff_eq, fresh_passAt row hrow, groupDepth_passAt hfit hrow, isCode_iff]
  constructor
  · rintro ⟨⟨text', htext, hcode⟩, hgroup, hended⟩
    rw [h, Option.some.injEq] at htext
    exact ⟨htext ▸ hcode, hended, hgroup⟩
  · rintro ⟨hcode, hended, hgroup⟩
    exact ⟨⟨text, h, hcode⟩, hgroup, hended⟩

theorem indentAt_succ_of_starts (hfit : Fits lines masked) {row : Nat}
    (hstarts : Starts masked row) : indentAt lines masked (row + 1) =
      (lines.getD row []).leadingSpaces - (passAt lines masked (row + 1)).dedent.getD row 0 := by
  obtain ⟨text, htext, -⟩ := hstarts.hasCode
  obtain ⟨hcode, hfresh⟩ := (starts_iff hfit htext).mp hstarts
  unfold indentAt
  rw [passAt_succ htext, Pass.dedent_row]
  unfold Pass.row
  rw [if_pos hcode]
  exact if_pos hfresh

theorem indentAt_succ_of_not_starts (hfit : Fits lines masked) {row : Nat}
    (hrow : row < masked.length) (hstarts : ¬ Starts masked row) :
    indentAt lines masked (row + 1) = indentAt lines masked row := by
  have htext := List.getElem?_eq_getElem hrow
  have hbytes := (Pass.indent_fresh_bytes lines row masked[row] 0
    (passAt lines masked row)).1
  unfold indentAt
  rw [passAt_succ htext]
  unfold Pass.row
  split
  · next hcode =>
    have hfresh := fun h => hstarts ((starts_iff hfit htext).mpr ⟨hcode, h⟩)
    exact (if_neg hfresh).trans hbytes
  · exact hbytes

/-- **The current indentation** is that of the row that controls the row, as it stands once it is
read. -/
theorem indentAt_of_controls (hfit : Fits lines masked) {s : Nat} : ∀ {r : Nat},
    r ≤ masked.length → Controls masked s r → indentAt lines masked r =
      (lines.getD s []).leadingSpaces - (passAt lines masked (s + 1)).dedent.getD s 0
  | 0, _, h => absurd h.lt (Nat.not_lt_zero s)
  | r + 1, hr, h => by
    rcases Nat.eq_or_lt_of_le (Nat.le_of_lt_succ h.lt) with rfl | hlt
    · exact indentAt_succ_of_starts hfit h.starts
    · rw [indentAt_succ_of_not_starts hfit (by omega) (h.last r hlt (by omega))]
      exact indentAt_of_controls hfit (by omega)
        ⟨hlt, h.starts, fun t h1 h2 => h.last t h1 (by omega)⟩

theorem indentAt_of_no_start (hfit : Fits lines masked) : ∀ {r : Nat}, r ≤ masked.length →
    (∀ s < r, ¬ Starts masked s) → indentAt lines masked r = 0
  | 0, _, _ => rfl
  | r + 1, hr, h => by
    rw [indentAt_succ_of_not_starts hfit (by omega) (h r (by omega))]
    exact indentAt_of_no_start hfit (by omega) fun s hs => h s (by omega)

end Allman.Layout
