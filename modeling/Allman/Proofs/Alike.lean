import Allman.Proofs.Placement
import Allman.Proofs.Runes

/-! # Texts that read alike

Two masked texts read alike if, row by row, they have the same brackets up to columns, hold code or
not, and end a statement or not (`Alike`). Then the same rows start and control statements
(`Alike.starts_iff`, `Alike.controls_iff`), and the blocks of one text are those of the other,
carried over (`Alike.block_iff`).

A text that loses leading spaces reads as before (`alike_drop`), with every bracket moved by what
its row lost (`shift`). -/

namespace Allman.Layout

open Pairing Mask

/-! ### The relation -/

/-- Every bracket keeps its byte and its row. -/
structure Carries (f : Mark → Mark) : Prop where
  byte : ∀ m, (f m).byte = m.byte
  row : ∀ m, (f m).row = m.row

/-- **The rows of two masked texts read alike**, where `f` carries the brackets of the first text to
those of the second. -/
structure Alike (f : Mark → Mark) (masked masked' : List Bytes) : Prop where
  length : masked'.length = masked.length
  hasCode : ∀ (row : Nat) (text text' : Bytes), masked[row]? = some text →
    masked'[row]? = some text' → (HasCode text' ↔ HasCode text)
  ends : ∀ (row : Nat) (text text' : Bytes), masked[row]? = some text →
    masked'[row]? = some text' → (Ends text' ↔ Ends text)
  brackets : ∀ (row : Nat) (text text' : Bytes), masked[row]? = some text →
    masked'[row]? = some text' → rowMarks row 0 text' = (rowMarks row 0 text).map f

section Transport

variable {f : Mark → Mark} {masked masked' : List Bytes}

theorem Alike.exists_left (h : Alike f masked masked') {row : Nat} {text' : Bytes}
    (htext' : masked'[row]? = some text') : ∃ text, masked[row]? = some text := by
  have hrow := (List.getElem?_eq_some_iff.mp htext').1
  rw [h.length] at hrow
  exact ⟨_, List.getElem?_eq_getElem hrow⟩

theorem Alike.exists_right (h : Alike f masked masked') {row : Nat} {text : Bytes}
    (htext : masked[row]? = some text) : ∃ text', masked'[row]? = some text' := by
  have hrow := (List.getElem?_eq_some_iff.mp htext).1
  rw [← h.length] at hrow
  exact ⟨_, List.getElem?_eq_getElem hrow⟩

theorem Alike.marks_take (h : Alike f masked masked') : ∀ row ≤ masked.length,
    marks (masked'.take row) = (marks (masked.take row)).map f
  | 0, _ => rfl
  | row + 1, hrow => by
    have htext := List.getElem?_eq_getElem (show row < masked.length by omega)
    obtain ⟨text', htext'⟩ := h.exists_right htext
    rw [marks_take_succ htext, marks_take_succ htext', List.map_append,
      h.marks_take row (by omega), h.brackets row _ _ htext htext']

theorem Alike.marks_eq (h : Alike f masked masked') : marks masked' = (marks masked).map f := by
  have hall := h.marks_take masked.length (Nat.le_refl _)
  rwa [List.take_length, ← h.length, List.take_length] at hall

theorem Alike.ended_iff (h : Alike f masked masked') {row : Nat} :
    (∀ text', LastCode masked' row text' → Ends text') ↔
      ∀ text, LastCode masked row text → Ends text := by
  constructor
  · rintro hall text ⟨t, ht, htext, hcode, hlast⟩
    obtain ⟨text', htext'⟩ := h.exists_right htext
    rw [← h.ends t text text' htext htext']
    refine hall text' ⟨t, ht, htext', (h.hasCode t text text' htext htext').mpr hcode, ?_⟩
    intro u other' h1 h2 hother' hcode'
    obtain ⟨other, hother⟩ := h.exists_left hother'
    exact hlast u other h1 h2 hother ((h.hasCode u other other' hother hother').mp hcode')
  · rintro hall text' ⟨t, ht, htext', hcode, hlast⟩
    obtain ⟨text, htext⟩ := h.exists_left htext'
    rw [h.ends t text text' htext htext']
    refine hall text ⟨t, ht, htext, (h.hasCode t text text' htext htext').mp hcode, ?_⟩
    intro u other h1 h2 hother hcode'
    obtain ⟨other', hother'⟩ := h.exists_right hother
    exact hlast u other' h1 h2 hother' ((h.hasCode u other other' hother hother').mpr hcode')

theorem Alike.noGroup_iff (hf : Carries f) (h : Alike f masked masked') {row : Nat}
    (hrow : row ≤ masked.length) :
    (∀ m, (waiting (marks (masked'.take row))).head? = some m → m.byte = Byte.openBrace) ↔
      ∀ m, (waiting (marks (masked.take row))).head? = some m → m.byte = Byte.openBrace := by
  rw [h.marks_take row hrow, waiting_map hf.byte, List.head?_map]
  constructor
  · intro hall m hm
    rw [← hf.byte m]
    exact hall (f m) (by rw [hm, Option.map_some])
  · intro hall m' hm'
    obtain ⟨m, hm, rfl⟩ := Option.map_eq_some_iff.mp hm'
    rw [hf.byte m]
    exact hall m hm

/-- **The same rows start statements.** -/
theorem Alike.starts_iff (hf : Carries f) (h : Alike f masked masked') {row : Nat} :
    Starts masked' row ↔ Starts masked row := by
  constructor
  · rintro ⟨⟨text', htext', hcode⟩, hgroup, hended⟩
    obtain ⟨text, htext⟩ := h.exists_left htext'
    have hrow := Nat.le_of_lt (List.getElem?_eq_some_iff.mp htext).1
    exact ⟨⟨text, htext, (h.hasCode row text text' htext htext').mp hcode⟩,
      (h.noGroup_iff hf hrow).mp hgroup, h.ended_iff.mp hended⟩
  · rintro ⟨⟨text, htext, hcode⟩, hgroup, hended⟩
    obtain ⟨text', htext'⟩ := h.exists_right htext
    have hrow := Nat.le_of_lt (List.getElem?_eq_some_iff.mp htext).1
    exact ⟨⟨text', htext', (h.hasCode row text text' htext htext').mpr hcode⟩,
      (h.noGroup_iff hf hrow).mpr hgroup, h.ended_iff.mpr hended⟩

theorem Alike.controls_iff (hf : Carries f) (h : Alike f masked masked') {s r : Nat} :
    Controls masked' s r ↔ Controls masked s r := by
  constructor
  · rintro ⟨hlt, hstarts, hlast⟩
    exact ⟨hlt, (h.starts_iff hf).mp hstarts,
      fun t h1 h2 ht => hlast t h1 h2 ((h.starts_iff hf).mpr ht)⟩
  · rintro ⟨hlt, hstarts, hlast⟩
    exact ⟨hlt, (h.starts_iff hf).mpr hstarts,
      fun t h1 h2 ht => hlast t h1 h2 ((h.starts_iff hf).mp ht)⟩

/-- **The blocks are the same**, carried over, if the same brackets are first in their lines. -/
theorem Alike.block_iff {lines lines' : List Bytes} (hf : Carries f) (h : Alike f masked masked')
    (hfirst : ∀ m ∈ marks masked, (First lines' (f m) ↔ First lines m)) {o' c' : Mark} :
    Block lines' masked' o' c' ↔ ∃ o c, Block lines masked o c ∧ f o = o' ∧ f c = c' := by
  constructor
  · rintro ⟨hpairs, hbrace, hfo, hfc⟩
    rw [h.marks_eq] at hpairs
    obtain ⟨o, c, hpair, rfl, rfl⟩ := (pairs_map_iff hf.byte).mp hpairs
    rw [hf.byte] at hbrace
    exact ⟨o, c, ⟨hpair, hbrace, (hfirst o hpair.mem_opener).mp hfo,
      (hfirst c hpair.mem_closer).mp hfc⟩, rfl, rfl⟩
  · rintro ⟨o, c, ⟨hpair, hbrace, hfo, hfc⟩, rfl, rfl⟩
    refine ⟨?_, by rw [hf.byte]; exact hbrace, (hfirst o hpair.mem_opener).mpr hfo,
      (hfirst c hpair.mem_closer).mpr hfc⟩
    rw [h.marks_eq]
    exact (pairs_map_iff hf.byte).mpr ⟨o, c, hpair, rfl, rfl⟩

end Transport

/-! ### Rows that lose leading spaces -/

theorem hasCode_space (s : Bytes) : HasCode (Byte.space :: s) ↔ HasCode s := by
  have hdecode : Rune.decode (Byte.space :: s) = .char 32 [Byte.space] :: Rune.decode s :=
    Rune.decode_cons_of_lt (by decide) s
  rw [← isCode_iff, ← isCode_iff, isCode, isCode, Bytes.firstCode?, Bytes.firstCode?, hdecode,
    List.dropWhile_cons_of_pos (by rfl)]

theorem ends_space (s : Bytes) : Ends (Byte.space :: s) ↔ Ends s := by
  have hdrop : s.trimTrailing = (Bytes.trimTrailing (Byte.space :: s)).drop 1 :=
    Bytes.trimTrailing_drop (Byte.space :: s) 1
  have hpre := Bytes.trimTrailing_prefix (Byte.space :: s)
  constructor
  · rintro ⟨before, last, heq, hlast⟩
    rw [heq] at hdrop hpre
    rcases before with _ | ⟨b, before⟩
    · -- a space alone ends nothing
      obtain rfl : last = Byte.space := (List.cons_prefix_cons.mp hpre).1
      exact absurd hlast (by decide)
    · refine ⟨before, last, hdrop, ?_⟩
      rcases hlast with hl | hl | hl | ⟨hl, hcolon⟩
      · exact Or.inl hl
      · exact Or.inr (Or.inl hl)
      · exact Or.inr (Or.inr (Or.inl hl))
      · refine Or.inr (Or.inr (Or.inr ⟨hl, fun h => hcolon ?_⟩))
        rw [List.getLast?_cons, h]
        rfl
  · rintro ⟨before, last, heq, hlast⟩
    rw [heq] at hdrop
    rcases htrim : Bytes.trimTrailing (Byte.space :: s) with _ | ⟨b, rest⟩
    · rw [htrim] at hdrop
      simp at hdrop
    · rw [htrim] at hdrop hpre
      rw [List.drop_succ_cons, List.drop_zero] at hdrop
      obtain rfl : b = Byte.space := (List.cons_prefix_cons.mp hpre).1
      refine ⟨Byte.space :: before, last, by rw [htrim, ← hdrop]; rfl, ?_⟩
      rcases hlast with hl | hl | hl | ⟨hl, hcolon⟩
      · exact Or.inl hl
      · exact Or.inr (Or.inl hl)
      · exact Or.inr (Or.inr (Or.inl hl))
      · refine Or.inr (Or.inr (Or.inr ⟨hl, fun h => hcolon ?_⟩))
        rcases before with _ | ⟨c, before⟩
        · exact absurd h (by decide)
        · rw [List.getLast?_cons_cons] at h
          exact h

/-- What does not see a space at the start of a row does not see that the row loses some. -/
theorem iff_drop {P : Bytes → Prop} (hspace : ∀ s, P (Byte.space :: s) ↔ P s) :
    ∀ (k : Nat) (s : Bytes), (∀ b ∈ s.take k, b = Byte.space) → (P (s.drop k) ↔ P s)
  | 0, _, _ => Iff.rfl
  | _ + 1, [], _ => Iff.rfl
  | k + 1, b :: s, h => by
    obtain rfl : b = Byte.space := h b (by simp)
    rw [List.drop_succ_cons, hspace]
    exact iff_drop hspace k s fun c hc => h c (by simp [hc])

theorem rowMarks_add (row n : Nat) : ∀ (s : Bytes) (col : Nat),
    (rowMarks row (col + n) s).map (fun m => ⟨m.byte, m.row, m.col - n⟩) = rowMarks row col s
  | [], _ => rfl
  | b :: s, col => by
    have ih := rowMarks_add row n s (col + 1)
    rw [Nat.add_right_comm] at ih
    unfold rowMarks
    split
    · rw [List.map_cons, ih, Nat.add_sub_cancel]
    · exact ih

theorem rowMarks_drop (row : Nat) : ∀ (n : Nat) (s : Bytes) (col : Nat),
    (∀ b ∈ s.take n, b = Byte.space) → rowMarks row (col + n) (s.drop n) = rowMarks row col s
  | 0, _, _, _ => rfl
  | _ + 1, [], _, _ => rfl
  | n + 1, b :: s, col, h => by
    obtain rfl : b = Byte.space := h b (by simp)
    have ih := rowMarks_drop row n s (col + 1) fun c hc => h c (by simp [hc])
    rw [List.drop_succ_cons, show col + (n + 1) = col + 1 + n by omega, ih]
    rfl

/-- The bracket after row `row` has lost `k row` leading bytes, for each row. -/
def shift (k : Nat → Nat) (m : Mark) : Mark := ⟨m.byte, m.row, m.col - k m.row⟩

theorem carries_shift (k : Nat → Nat) : Carries (shift k) := ⟨fun _ => rfl, fun _ => rfl⟩

/-- **A text that loses leading spaces reads as before.** -/
theorem alike_drop {k : Nat → Nat} {masked : List Bytes} (h : Droppable k masked) :
    Alike (shift k) masked (masked.mapIdx fun row text => text.drop (k row)) := by
  have hrow : ∀ (row : Nat) (text text' : Bytes), masked[row]? = some text →
      (masked.mapIdx fun row text => text.drop (k row))[row]? = some text' →
      text' = text.drop (k row) := by
    intro row text text' htext htext'
    rw [List.getElem?_mapIdx, htext, Option.map_some, Option.some.injEq] at htext'
    exact htext'.symm
  refine ⟨List.length_mapIdx, fun row text text' htext htext' => ?_,
    fun row text text' htext htext' => ?_, fun row text text' htext htext' => ?_⟩
  · rw [hrow row text text' htext htext']
    exact iff_drop hasCode_space (k row) text (h row text htext)
  · rw [hrow row text text' htext htext']
    exact iff_drop ends_space (k row) text (h row text htext)
  · rw [hrow row text text' htext htext', ← rowMarks_add row (k row),
      rowMarks_drop row (k row) text 0 (h row text htext)]
    refine List.map_congr_left fun m hm => ?_
    rw [shift, ((mem_rowMarks text 0).mp hm).1]

/-! ### Columns in such a text -/

section Columns

variable {k : Nat → Nat} {lines masked : List Bytes}

theorem leadingSpaces_drop_of_spaces {s : Bytes} {n : Nat} (h : ∀ b ∈ s.take n, b = Byte.space) :
    Bytes.leadingSpaces (s.drop n) = s.leadingSpaces - n := by
  rcases Nat.lt_or_ge s.length n with hlt | hge
  · have hle := s.leadingSpaces_le_length
    rw [List.drop_eq_nil_of_le (Nat.le_of_lt hlt)]
    change 0 = _
    omega
  · exact Bytes.leadingSpaces_drop (Bytes.le_leadingSpaces_of_spaces h hge)

theorem take_getD_of_droppable (h : Droppable k lines) (row : Nat) :
    ∀ b ∈ (lines.getD row []).take (k row), b = Byte.space := by
  rcases hline : lines[row]? with _ | line
  · rw [List.getD_eq_getElem?_getD, hline]
    simp
  · rw [getD_of_getElem? hline]
    exact h row line hline

theorem getD_mapIdx_drop (row : Nat) :
    (lines.mapIdx fun row line => line.drop (k row)).getD row [] =
      (lines.getD row []).drop (k row) := by
  rw [List.getD_eq_getElem?_getD, List.getD_eq_getElem?_getD, List.getElem?_mapIdx]
  rcases lines[row]? with _ | line
  · exact List.drop_nil.symm
  · rfl

theorem leadingSpaces_mapIdx_drop (h : Droppable k lines) (row : Nat) :
    Bytes.leadingSpaces ((lines.mapIdx fun row line => line.drop (k row)).getD row []) =
      (lines.getD row []).leadingSpaces - k row := by
  rw [getD_mapIdx_drop]
  exact leadingSpaces_drop_of_spaces (take_getD_of_droppable h row)

theorem first_iff {m : Mark} : First lines m ↔ m.col ≤ (lines.getD m.row []).leadingSpaces :=
  Bytes.blankBefore_iff

theorem first_shift (hfit : Fits lines masked) (h : Droppable k lines) {m : Mark}
    (hm : m ∈ marks masked) :
    First (lines.mapIdx fun row line => line.drop (k row)) (shift k m) ↔ First lines m := by
  obtain ⟨line, hline, hbyte, hne⟩ := hfit.getElem? hm
  have hspaces := h m.row line hline
  have hcol : m.col < line.length := (List.getElem?_eq_some_iff.mp hbyte).1
  -- the bracket is no space, so it stands behind what its row lost
  have hk : k m.row ≤ m.col := by
    by_contra hlt
    refine hne (hspaces m.byte (List.mem_of_getElem? (i := m.col) ?_))
    rw [List.getElem?_take, if_pos (by omega), hbyte]
  have hlead : k m.row ≤ line.leadingSpaces := Bytes.le_leadingSpaces_of_spaces hspaces (by omega)
  rw [first_iff, first_iff]
  change m.col - k m.row ≤ Bytes.leadingSpaces
    ((lines.mapIdx fun row line => line.drop (k row)).getD m.row []) ↔ _
  rw [leadingSpaces_mapIdx_drop h, getD_of_getElem? hline]
  omega

/-- What is a space in a line is one in the masked line. -/
theorem Fits.droppable (hfit : Fits lines masked) (h : Droppable k lines) :
    Droppable k masked := by
  intro row text htext b hb
  obtain ⟨line, hline, hveils⟩ := hfit.veils row text htext
  obtain ⟨col, hcol⟩ := List.mem_iff_getElem?.mp hb
  by_contra hne
  rw [List.getElem?_take] at hcol
  split at hcol
  · next hlt =>
    have hbyte := hveils.getElem? hcol hne
    refine hne (h row line hline b (List.mem_of_getElem? (i := col) ?_))
    rw [List.getElem?_take, if_pos hlt, hbyte]
  · simp at hcol

end Columns

end Allman.Layout
