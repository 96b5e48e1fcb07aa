import Allman.Proofs.Findings
import Mathlib.Data.List.Sort

/-! # Lines that stand in another text

Let lines stand in another text in the same order, row `row` as row `ρ row` (`Sits`). A pass over
the text *follows* one over the lines if it has the same open brackets, the same indentation and the
same findings, each in the row its row is carried to, and has moved the same rows by the same
distances and no others (`Follows`). Reading a byte in both keeps this (`Follows.byte`), and so does
reading rows that come one after the other in both texts (`Follows.rows`). Nothing is assumed of the
masked rows: they need not fit the lines.

If the last pass over the text follows the last one over the lines, the outcome is the same up to
the rows: `Follows.leftover`, `Follows.diagnostics`, `Follows.lost`, `Follows.adjusted`. -/

namespace Allman

/-- The position in the row that its row is carried to. -/
def Position.carry (ρ : Nat → Nat) (p : Position) : Position := ⟨ρ p.row, p.col⟩

/-- The entry in the row that its row is carried to. -/
def Entry.carry (ρ : Nat → Nat) (e : Entry Nat) : Entry Nat := { e with row := ρ e.row }

namespace Layout

/-- **The lines stand in another text**, in order: their row `row` is its row `ρ row`. -/
structure Sits (ρ : Nat → Nat) (lines lines' : List Bytes) : Prop where
  strictMono : StrictMono ρ
  getElem? : ∀ (row : Nat) (line : Bytes), lines[row]? = some line → lines'[ρ row]? = some line

/-- **The second pass follows the first**, which reads lines that stand in its text. -/
structure Follows (ρ : Nat → Nat) (lines : List Bytes) (p p' : Pass) : Prop where
  stack : p'.stack.entries = p.stack.entries.map (Entry.carry ρ)
  bounded : ∀ e ∈ p.stack.entries, e.row < lines.length
  indent : p'.indent = p.indent
  fresh : p'.fresh = p.fresh
  found : p'.found = p.found.map (Diagnostic.relocate (Position.carry ρ))
  length : p.dedent.length = lines.length
  dedent : ∀ row < lines.length, p'.dedent[ρ row]? = p.dedent[row]?
  others : ∀ x, (∀ row < lines.length, x ≠ ρ row) → p'.dedent.getD x 0 = 0

variable {ρ : Nat → Nat} {lines lines' masked masked' : List Bytes} {p p' : Pass}

/-! ### Lines and entries -/

theorem Sits.getD (h : Sits ρ lines lines') {row : Nat} (hrow : row < lines.length) :
    lines'.getD (ρ row) [] = lines.getD row [] := by
  have hline := List.getElem?_eq_getElem hrow
  rw [getD_of_getElem? hline, getD_of_getElem? (h.getElem? row _ hline)]

theorem Sits.lt_length (h : Sits ρ lines lines') {row : Nat} (hrow : row < lines.length) :
    ρ row < lines'.length :=
  (List.getElem?_eq_some_iff.mp (h.getElem? row _ (List.getElem?_eq_getElem hrow))).1

theorem Sits.hangs_carry (h : Sits ρ lines lines') {e : Entry Nat} {row col : Nat}
    (he : e.row < lines.length) (hrow : row < lines.length) :
    hangs lines' (e.carry ρ) (ρ row) col = hangs lines e row col := by
  have hopener : lines'.getD (e.carry ρ).row [] = lines.getD e.row [] := h.getD he
  unfold hangs
  rw [hopener, h.getD hrow]
  rfl

theorem relocate_mismatched (row col : Nat) (closer : UInt8) (taken : Option (Entry Nat)) :
    (mismatched row col closer taken).relocate (Position.carry ρ) =
      mismatched (ρ row) col closer (taken.map (Entry.carry ρ)) := by
  rcases taken with _ | e
  · rfl
  · rfl

/-! ### One byte -/

theorem follows_start (h : Sits ρ lines lines') :
    Follows ρ lines (.start lines.length) (.start lines'.length) where
  stack := rfl
  bounded := by
    intro e he
    exact absurd he List.not_mem_nil
  indent := rfl
  fresh := rfl
  found := rfl
  length := List.length_replicate
  dedent := by
    intro row hrow
    rw [Pass.start, Pass.start, List.getElem?_replicate, List.getElem?_replicate,
      if_pos (h.lt_length hrow), if_pos hrow]
  others := by
    intro x _
    rcases Nat.lt_or_ge x lines'.length with hx | hx
    · exact List.getD_replicate _ hx
    · exact List.getD_eq_default _ _ (by rw [Pass.start, List.length_replicate]; exact hx)

theorem Follows.report (h : Follows ρ lines p p') {d d' : Diagnostic}
    (hd : d' = d.relocate (Position.carry ρ)) : Follows ρ lines (p.report d) (p'.report d') := by
  refine { h with found := ?_ }
  rw [Pass.report, Pass.report, List.map_cons, h.found, hd]

theorem Follows.move (hsits : Sits ρ lines lines') (h : Follows ρ lines p p') {row : Nat}
    (hrow : row < lines.length) (distance : Nat) :
    Follows ρ lines (p.move row distance) (p'.move (ρ row) distance) := by
  refine { h with length := ?_, dedent := ?_, others := ?_ }
  · rw [Pass.move, List.length_modify, h.length]
  · intro x hx
    simp only [Pass.move, List.getElem?_modify, hsits.strictMono.injective.eq_iff, h.dedent x hx]
  · intro x hx
    have hne : ρ row ≠ x := (hx row hrow).symm
    have hold := h.others x hx
    rw [List.getD_eq_getElem?_getD] at hold ⊢
    simpa [Pass.move, List.getElem?_modify, hne] using hold

/-- Taking the innermost bracket off both stacks. -/
theorem Follows.pop (h : Follows ρ lines p p') {e : Entry Nat} {rest : List (Entry Nat)}
    (hstack : p.stack.entries = e :: rest) :
    Follows ρ lines { p with stack := ⟨rest⟩ }
      { p' with stack := ⟨rest.map (Entry.carry ρ)⟩ } := by
  refine { h with stack := rfl, bounded := fun e' he' => h.bounded e' ?_ }
  rw [hstack]
  exact List.mem_cons_of_mem e he'

theorem Follows.close (hsits : Sits ρ lines lines') (h : Follows ρ lines p p') {row : Nat}
    (hrow : row < lines.length) (col : Nat) (closer opener : UInt8) :
    Follows ρ lines (p.close lines row col closer opener)
      (p'.close lines' (ρ row) col closer opener) := by
  have hstack' := h.stack
  rcases hstack : p.stack.entries with _ | ⟨e, rest⟩
  · rw [hstack, List.map_nil] at hstack'
    rw [Pass.close_empty hstack, Pass.close_empty hstack']
    exact h.report (relocate_mismatched row col closer none).symm
  · rw [hstack, List.map_cons] at hstack'
    have he : e.row < lines.length := h.bounded e (by rw [hstack]; exact List.mem_cons_self)
    have hpop := h.pop hstack
    rw [Pass.close_cons hstack, Pass.close_cons hstack', hsits.hangs_carry he hrow]
    change Follows ρ lines _ (if e.opener ≠ opener then _ else _)
    split
    · exact hpop.report (relocate_mismatched row col closer (some e)).symm
    · split
      · exact (hpop.move hsits he (e.col - e.indent)).move hsits hrow (e.col - e.indent)
      · exact hpop

/-- **One byte.** -/
theorem Follows.byte (hsits : Sits ρ lines lines') (h : Follows ρ lines p p') {row : Nat}
    (hrow : row < lines.length) (col : Nat) (b : UInt8) :
    Follows ρ lines (p.byte lines row col b) (p'.byte lines' (ρ row) col b) := by
  rcases Pass.byte_cases lines row col b p with
    ⟨hopen, heq⟩ | ⟨opener, hopen, hkind, heq⟩ | ⟨hopen, hkind, heq⟩
  · rw [heq, Pass.byte, if_pos hopen]
    refine { h with stack := ?_, bounded := ?_ }
    · rw [Stack.push, Stack.push, List.map_cons, h.stack, h.indent]
      rfl
    · intro e he
      rcases List.mem_cons.mp he with rfl | he
      · exact hrow
      · exact h.bounded e he
  · rw [heq, Pass.byte, if_neg (by simp [hopen]), hkind]
    exact h.close hsits hrow col b opener
  · rw [heq, Pass.byte, if_neg (by simp [hopen]), hkind]
    exact h

theorem Follows.bytes (hsits : Sits ρ lines lines') {row : Nat} (hrow : row < lines.length) :
    ∀ (s : Bytes) (col : Nat) {p p' : Pass}, Follows ρ lines p p' →
      Follows ρ lines (Pass.bytes lines row col s p) (Pass.bytes lines' (ρ row) col s p')
  | [], _, _, _, h => h
  | b :: s, col, _, _, h => Follows.bytes hsits hrow s (col + 1) (h.byte hsits hrow col b)

/-! ### Rows -/

theorem groupDepth_carry (s : Stack Nat) :
    (Stack.mk (s.entries.map (Entry.carry ρ))).groupDepth = s.groupDepth := by
  unfold Stack.groupDepth
  rw [List.takeWhile_map, List.length_map]
  rfl

theorem Follows.groupDepth (h : Follows ρ lines p p') :
    p'.stack.groupDepth = p.stack.groupDepth := by
  rw [← groupDepth_carry (ρ := ρ) p.stack, ← h.stack]

theorem Follows.getD_dedent (h : Follows ρ lines p p') {row : Nat} (hrow : row < lines.length) :
    p'.dedent.getD (ρ row) 0 = p.dedent.getD row 0 := by
  rw [List.getD_eq_getElem?_getD, List.getD_eq_getElem?_getD, h.dedent row hrow]

/-- **One row.** -/
theorem Follows.row (hsits : Sits ρ lines lines') (h : Follows ρ lines p p') {row : Nat}
    (hrow : row < lines.length) (text : Bytes) :
    Follows ρ lines (p.row lines row text) (p'.row lines' (ρ row) text) := by
  have hbytes := Follows.bytes hsits hrow text 0 h
  unfold Pass.row
  dsimp only
  rw [h.fresh, h.groupDepth, hsits.getD hrow, hbytes.getD_dedent hrow, hbytes.indent]
  split
  · exact { hbytes with indent := rfl, fresh := rfl }
  · exact hbytes

/-- **Rows that come one after the other in both texts.** -/
theorem Follows.rows (hsits : Sits ρ lines lines') : ∀ (masked : List Bytes) (row row' : Nat)
    {p p' : Pass}, row + masked.length ≤ lines.length →
      (∀ i < masked.length, ρ (row + i) = row' + i) → Follows ρ lines p p' →
      Follows ρ lines (Pass.rows lines row masked p) (Pass.rows lines' row' masked p')
  | [], _, _, _, _, _, _, h => h
  | text :: masked, row, row', p, p', hlen, hcarry, h => by
    rw [List.length_cons] at hlen hcarry
    obtain rfl : ρ row = row' := hcarry 0 (by omega)
    refine Follows.rows hsits masked (row + 1) (ρ row + 1) (by omega) ?_
      (h.row hsits (by omega) text)
    intro i hi
    have hnext := hcarry (i + 1) (by omega)
    rw [Nat.add_right_comm row, Nat.add_assoc row, hnext]
    omega

/-- The last pass over a text in two parts goes over the second part from where the first ends. -/
theorem finalPass_append {a b ma mb : List Bytes} (hlen : ma.length = a.length) :
    finalPass (a ++ b) (ma ++ mb) = Pass.rows (a ++ b) a.length (mb.take b.length)
      (Pass.rows (a ++ b) 0 ma (.start (a ++ b).length)) := by
  have htake : (ma ++ mb).take (a ++ b).length = ma ++ mb.take b.length := by
    rw [List.length_append, ← hlen, List.take_length_add_append]
  rw [finalPass, htake, Pass.rows_append, hlen, Nat.zero_add]

/-! ### The outcome -/

section Outcome

variable (h : Follows ρ lines (finalPass lines masked) (finalPass lines' masked'))
include h

theorem Follows.leftover :
    (run lines' masked').leftover = (run lines masked).leftover.map (Entry.carry ρ) := by
  change (finalPass lines' masked').stack.entries.reverse =
    (finalPass lines masked).stack.entries.reverse.map (Entry.carry ρ)
  rw [h.stack, List.map_reverse]

theorem Follows.diagnostics : (run lines' masked').diagnostics =
    (run lines masked).diagnostics.map (Diagnostic.relocate (Position.carry ρ)) := by
  have hrun : ∀ lines masked, (run lines masked).diagnostics =
      (finalPass lines masked).found.reverse ++ (run lines masked).leftover.map unclosed :=
    fun _ _ => rfl
  rw [hrun, hrun, h.found, h.leftover, List.map_append, List.map_reverse, List.map_map,
    List.map_map]
  rfl

/-- A row loses in the text what it loses by itself. -/
theorem Follows.lost (hsits : Sits ρ lines lines') {row : Nat} (hrow : row < lines.length) :
    (run lines' masked').lost lines' (ρ row) = (run lines masked).lost lines row := by
  have hline := List.getElem?_eq_getElem hrow
  rw [lost_run hline, lost_run (hsits.getElem? row _ hline), h.getD_dedent hrow]

/-- The other rows of the text lose nothing. -/
theorem Follows.lost_eq_zero {x : Nat} (hx : ∀ row < lines.length, x ≠ ρ row) :
    (run lines' masked').lost lines' x = 0 := by
  rcases hline : lines'[x]? with _ | line
  · exact lost_eq_zero_of_le (List.getElem?_eq_none_iff.mp hline)
  · rw [lost_run hline, h.others x hx, Nat.zero_min]

theorem Follows.adjusted (hsits : Sits ρ lines lines') :
    (run lines' masked').adjusted = (run lines masked).adjusted.map ρ := by
  have hsorted : ((run lines masked).adjusted.map ρ).Pairwise (· < ·) :=
    pairwise_adjusted.map ρ fun _ _ hlt => hsits.strictMono hlt
  refine List.Pairwise.eq_of_mem_iff pairwise_adjusted hsorted fun x => ?_
  rw [mem_adjusted_iff, List.mem_map]
  constructor
  · intro hx
    by_cases hrow : ∃ row < lines.length, x = ρ row
    · obtain ⟨row, hlt, rfl⟩ := hrow
      rw [h.lost hsits hlt] at hx
      exact ⟨row, mem_adjusted_iff.mpr hx, rfl⟩
    · push Not at hrow
      rw [h.lost_eq_zero hrow] at hx
      exact absurd hx (Nat.lt_irrefl 0)
  · rintro ⟨row, hmem, rfl⟩
    rw [h.lost hsits (lt_of_mem_adjusted hmem)]
    exact mem_adjusted_iff.mp hmem

end Outcome

end Layout

end Allman
