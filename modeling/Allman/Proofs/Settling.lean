import Allman.Proofs.Preservation
import Allman.Proofs.Trimming

/-! # When reformatting again changes nothing

A second run moves nothing iff the first left no block hanging, that is, no opening brace stands
at least `unit` right of its statement once all rows have lost what they lose (`Settled`). The
second run reads the text without the white space at the ends of its lines, so this speaks of the
blocks and statements of that text (`fixed_iff_settled`).

If trimming exposes no backslash, the text reads as before, and only one thing can go wrong. A block
is compared with its statement as that stood when it was read. If the statement began with an
opening brace that was moved later, the block may hang when the run is over
(`settled_iff_of_placed`). -/

namespace Allman

namespace Layout

open Pairing Mask

/-! ### Blocks that are left hanging -/

/-- The indentation that the statement controlling a row is left with, where `strip` says how much
each row loses. -/
inductive LeftIndent (lines masked : List Bytes) (strip : Nat → Nat) (r : Nat) : Nat → Prop
  | none : (∀ s < r, ¬ Starts masked s) → LeftIndent lines masked strip r 0
  | some {s : Nat} : Controls masked s r →
    LeftIndent lines masked strip r ((lines.getD s []).leadingSpaces - strip s)

/-- **No block is left hanging** when each row loses `strip`. -/
def Settled (lines masked : List Bytes) (strip : Nat → Nat) : Prop :=
  ∀ o c I, Block lines masked o c → LeftIndent lines masked strip o.row I →
    o.col - strip o.row < I + unit

/-- The first byte of the row that is no space is an opening brace. -/
def BeginsOpening (lines : List Bytes) (row : Nat) : Prop :=
  (lines.getD row [])[(lines.getD row []).leadingSpaces]? = some Byte.openBrace

section Settled

variable {lines masked : List Bytes}

theorem leftIndent_zero_iff {r I : Nat} :
    LeftIndent lines masked (fun _ => 0) r I ↔ StatementIndent lines masked (fun _ => 0) r I := by
  constructor
  · intro h
    cases h with
    | none hno => exact .none hno
    | @some s hs =>
      by_cases hbegins : BeginsClosing lines s
      · exact .moved hs hbegins
      · exact .still hs hbegins
  · intro h
    cases h with
    | none hno => exact .none hno
    | still hs _ => exact .some hs
    | moved hs _ => exact .some hs

/-- Nothing is to be moved iff no block hangs. -/
theorem placed_zero_iff : Placed lines masked (fun _ => 0) ↔ Settled lines masked fun _ => 0 := by
  constructor
  · intro h o c I hblock hI
    rw [Nat.sub_zero]
    by_contra hge
    have hunit : I + unit ≤ o.col := by omega
    have hzero : 0 = o.col - I := (h.hanging o c I hblock (leftIndent_zero_iff.mp hI) hunit).1
    unfold unit at hunit
    omega
  · intro h
    refine ⟨fun o c I hblock hI hunit => ?_, fun row hne => absurd rfl hne⟩
    have hlt := h o c I hblock (leftIndent_zero_iff.mpr hI)
    rw [Nat.sub_zero] at hlt
    omega

theorem lost_eq_zero_iff_settled (hfit : Fits lines masked) :
    (∀ row, (run lines masked).lost lines row = 0) ↔ Settled lines masked fun _ => 0 := by
  rw [← placed_zero_iff]
  have hplaced := placed_lost hfit
  constructor
  · intro h
    rw [show (run lines masked).lost lines = fun _ => 0 from funext h] at hplaced
    exact hplaced
  · intro h row
    exact congrFun (hplaced.unique h) row

end Settled

/-! ### The same blocks hang in texts that read alike -/

section Transport

variable {f : Mark → Mark} {lines lines' masked masked' : List Bytes} {strip strip' : Nat → Nat}

theorem Alike.leftIndent_iff (hf : Carries f) (h : Alike f masked masked')
    (hlead : ∀ s, Starts masked s → (lines'.getD s []).leadingSpaces - strip' s =
      (lines.getD s []).leadingSpaces - strip s) {r I : Nat} :
    LeftIndent lines' masked' strip' r I ↔ LeftIndent lines masked strip r I := by
  constructor
  · intro hI
    cases hI with
    | none hno => exact .none fun s hs hstarts => hno s hs ((h.starts_iff hf).mpr hstarts)
    | some hs' =>
      have hs := (h.controls_iff hf).mp hs'
      rw [hlead _ hs.starts]
      exact .some hs
  · intro hI
    cases hI with
    | none hno => exact .none fun s hs hstarts => hno s hs ((h.starts_iff hf).mp hstarts)
    | some hs =>
      rw [← hlead _ hs.starts]
      exact .some ((h.controls_iff hf).mpr hs)

theorem Alike.settled_iff (hf : Carries f) (h : Alike f masked masked')
    (hfirst : ∀ m ∈ marks masked, (First lines' (f m) ↔ First lines m))
    (hcol : ∀ m, (f m).col - strip' m.row = m.col - strip m.row)
    (hlead : ∀ s, Starts masked s → (lines'.getD s []).leadingSpaces - strip' s =
      (lines.getD s []).leadingSpaces - strip s) :
    Settled lines' masked' strip' ↔ Settled lines masked strip := by
  constructor
  · intro hall o c I hblock hI
    have hlt := hall (f o) (f c) I ((h.block_iff hf hfirst).mpr ⟨o, c, hblock, rfl, rfl⟩)
    rw [hf.row, h.leftIndent_iff hf hlead, hcol] at hlt
    exact hlt hI
  · intro hall o' c' I hblock' hI
    obtain ⟨o, c, hblock, rfl, rfl⟩ := (h.block_iff hf hfirst).mp hblock'
    rw [hf.row, h.leftIndent_iff hf hlead] at hI
    rw [hf.row, hcol]
    exact hall o c I hblock hI

/-- What `strip` leaves hanging is what hangs in the text that has lost it. -/
theorem settled_drop (hfit : Fits lines masked) (h : Droppable strip lines) :
    (Settled (lines.mapIdx fun row line => line.drop (strip row))
      (masked.mapIdx fun row text => text.drop (strip row)) fun _ => 0) ↔
        Settled lines masked strip :=
  (alike_drop (hfit.droppable h)).settled_iff (carries_shift strip)
    (fun _ hm => first_shift hfit h hm) (fun _ => rfl)
    fun s _ => by rw [leadingSpaces_mapIdx_drop h, Nat.sub_zero]

/-- White space at the ends of lines does not count, where it conceals nothing. -/
theorem settled_trim (h : Candid lines) :
    Settled (lines.map Bytes.trimTrailing) (maskLines (lines.map Bytes.trimTrailing)) strip ↔
      Settled lines (maskLines lines) strip := by
  have hfit := fits_maskLines lines
  refine (alike_trim h).settled_iff carries_id (fun m hm => first_trim hfit hm) (fun _ => rfl) ?_
  intro s hs
  obtain ⟨text, htext, hcode⟩ := hs.hasCode
  rw [leadingSpaces_trim_of_hasCode hfit htext hcode]

end Transport

/-! ### What a placement leaves hanging -/

section Placed

variable {lines masked : List Bytes} {strip : Nat → Nat}

/-- A row that loses something and does not begin with a closing brace begins with the opening
brace of a block that hung. -/
theorem Placed.exists_opener (hfit : Fits lines masked) (h : Placed lines masked strip) {row : Nat}
    (hne : strip row ≠ 0) (hbegins : ¬ BeginsClosing lines row) :
    BeginsOpening lines row ∧ ∃ o c I, Block lines masked o c ∧ o.row = row ∧
      StatementIndent lines masked strip o.row I ∧ I + unit ≤ o.col := by
  obtain ⟨o, c, I, hblock, hI, hunit, hrow⟩ := h.only row hne
  rcases hrow with rfl | rfl
  · have hget := hfit.getElem?_leadingSpaces hblock.pairs.mem_opener hblock.first_opener
    rw [hblock.brace] at hget
    exact ⟨hget, o, c, I, hblock, rfl, hI, hunit⟩
  · have hget := hfit.getElem?_leadingSpaces hblock.pairs.mem_closer hblock.first_closer
    rw [hblock.brace_closer] at hget
    exact absurd hget hbegins

theorem BeginsOpening.not_beginsClosing {row : Nat} (h : BeginsOpening lines row) :
    ¬ BeginsClosing lines row := by
  intro hclose
  unfold BeginsOpening at h
  rw [hclose, Option.some.injEq] at h
  exact absurd h (by decide)

theorem Block.beginsOpening (hfit : Fits lines masked) {o c : Mark}
    (h : Block lines masked o c) : BeginsOpening lines o.row := by
  have hget := hfit.getElem?_leadingSpaces h.pairs.mem_opener h.first_opener
  rw [h.brace] at hget
  exact hget

/-- **What a placement leaves hanging**: a block whose statement begins with an opening brace that
was moved, and that stands at least `unit` right of where the brace was put. -/
theorem settled_iff_of_placed (hfit : Fits lines masked) (h : Placed lines masked strip) :
    Settled lines masked strip ↔ ∀ o c s, Block lines masked o c → Controls masked s o.row →
      BeginsOpening lines s → strip s ≠ 0 →
        o.col < (lines.getD s []).leadingSpaces - strip s + unit := by
  constructor
  · intro hsettled o c s hblock hs hopening hne
    have hleft := hsettled o c _ hblock (.some hs)
    by_cases hzero : strip o.row = 0
    · rwa [hzero, Nat.sub_zero] at hleft
    -- the block was moved to the column where its statement began, and that moved further left
    · obtain ⟨-, o', c', I, hblock', hrow, hI, hunit⟩ :=
        h.exists_opener hfit hzero (hblock.beginsOpening hfit).not_beginsClosing
      obtain rfl : o' = o := hfit.eq_of_first hblock'.pairs.mem_opener hblock.pairs.mem_opener hrow
        hblock'.first_opener hblock.first_opener
      have hstill : StatementIndent lines masked strip o'.row (lines.getD s []).leadingSpaces :=
        .still hs hopening.not_beginsClosing
      obtain rfl := hI.unique hstill
      have hmoved := (h.hanging o' c' _ hblock' hstill hunit).1
      obtain ⟨-, p, d, J, hblock'', rfl, hJ, hunit'⟩ :=
        h.exists_opener hfit hne hopening.not_beginsClosing
      have hcol := hfit.leadingSpaces_eq hblock''.pairs.mem_opener hblock''.first_opener
      have hmoved' := (h.hanging p d J hblock'' hJ hunit').1
      omega
  · intro hall o c I hblock hI
    have hle : ∀ J, StatementIndent lines masked strip o.row J →
        o.col - strip o.row < J + unit := by
      intro J hJ
      by_cases hunit : J + unit ≤ o.col
      · rw [(h.hanging o c J hblock hJ hunit).1]
        unfold unit at hunit ⊢
        omega
      · omega
    cases hI with
    | none hno => exact hle 0 (.none hno)
    | @some s hs =>
      by_cases hclosing : BeginsClosing lines s
      · exact hle _ (.moved hs hclosing)
      · by_cases hne : strip s = 0
        · rw [hne, Nat.sub_zero]
          exact hle _ (.still hs hclosing)
        · have hopening := (h.exists_opener hfit hne hclosing).1
          have := hall o c s hblock hs hopening hne
          omega

end Placed

end Layout

/-! ### Reformatting twice -/

open Layout

/-- **Reformatting the output of a text gives it back**, and moves nothing. -/
def Fixed (content : Bytes) : Prop :=
  (reformat (reformat content).output).output = (reformat content).output ∧
    (reformat (reformat content).output).changed = false ∧
    (reformat (reformat content).output).layout.adjusted = []

instance (content : Bytes) : Decidable (Fixed content) :=
  inferInstanceAs (Decidable (_ ∧ _ ∧ _))

theorem render_map_trimTrailing (lines : List Bytes) :
    render (lines.map Bytes.trimTrailing) = render lines := by
  unfold render
  rw [List.flatMap_map]
  simp only [Bytes.trimTrailing_trimTrailing]

theorem fixed_iff_lost_eq_zero (content : Bytes) : Fixed content ↔
    ∀ row, (layout (splitLines (reformat content).output)).lost
      (splitLines (reformat content).output) row = 0 := by
  constructor
  · rintro ⟨-, -, hadjusted⟩
    exact adjusted_eq_nil_iff.mp hadjusted
  · intro hzero
    have hlines : (layout (splitLines (reformat content).output)).lines =
        splitLines (reformat content).output := run_lines_of_lost_eq_zero hzero
    have houtput : (reformat (reformat content).output).output = (reformat content).output := by
      change render (layout (splitLines (reformat content).output)).lines = _
      rw [hlines, splitLines_reformat, render_map_trimTrailing]
      rfl
    refine ⟨houtput, ?_, adjusted_eq_nil_iff.mpr hzero⟩
    change ((reformat (reformat content).output).output != (reformat content).output) = false
    rw [houtput, bne_self_eq_false]

/-- The lines of the output are the trimmed lines without what the layout took. -/
theorem splitLines_output (content : Bytes) : splitLines (reformat content).output =
    ((splitLines content).map Bytes.trimTrailing).mapIdx fun row line =>
      line.drop ((layout (splitLines content)).lost (splitLines content) row) := by
  rw [splitLines_reformat, layout, run_lines_eq_mapIdx]
  refine List.ext_getElem? fun row => ?_
  rw [List.getElem?_map, List.getElem?_mapIdx, List.getElem?_mapIdx, List.getElem?_map]
  rcases (splitLines content)[row]? with _ | line
  · rfl
  · exact congrArg some (Bytes.trimTrailing_drop line _)

theorem droppable_map_trimTrailing {k : Nat → Nat} {lines : List Bytes} (h : Droppable k lines) :
    Droppable k (lines.map Bytes.trimTrailing) := by
  intro row line' hline' b hb
  rw [List.getElem?_map, Option.map_eq_some_iff] at hline'
  obtain ⟨line, hline, rfl⟩ := hline'
  have hprefix : line.trimTrailing <+: line := Bytes.trimTrailing_prefix line
  rw [List.prefix_iff_eq_take.mp hprefix, List.take_take] at hb
  exact h row line hline b ((List.take_prefix_take_left (Nat.min_le_left _ _)).subset hb)

theorem fixed_iff_settled (content : Bytes) : Fixed content ↔
    Settled ((splitLines content).map Bytes.trimTrailing)
      (maskLines ((splitLines content).map Bytes.trimTrailing))
      ((layout (splitLines content)).lost (splitLines content)) := by
  have hdrop : Droppable ((layout (splitLines content)).lost (splitLines content))
      ((splitLines content).map Bytes.trimTrailing) := droppable_map_trimTrailing droppable_lost
  rw [fixed_iff_lost_eq_zero, ← settled_drop (fits_maskLines _) hdrop,
    ← maskLines_mapIdx_drop hdrop, splitLines_output]
  exact lost_eq_zero_iff_settled (fits_maskLines _)

/-- **When reformatting again changes nothing.** In general: iff the first run leaves no block
hanging, where blocks and statements are those of the trimmed lines. If no line hides a backslash:
iff no block stands at least `unit` right of where the run puts the opening brace that begins the
statement of the block and that the run moves. -/
theorem reformat_fixed_iff (content : Bytes) :
    (Fixed content ↔
      Settled ((splitLines content).map Bytes.trimTrailing)
        (maskLines ((splitLines content).map Bytes.trimTrailing))
        ((layout (splitLines content)).lost (splitLines content))) ∧
    ((∀ line ∈ splitLines content, ¬ HidesBackslash line) →
      (Fixed content ↔ ∀ o c s,
        Block (splitLines content) (maskLines (splitLines content)) o c →
        Controls (maskLines (splitLines content)) s o.row →
        BeginsOpening (splitLines content) s →
        (layout (splitLines content)).lost (splitLines content) s ≠ 0 →
        o.col < Bytes.leadingSpaces ((splitLines content).getD s []) -
          (layout (splitLines content)).lost (splitLines content) s + unit)) := by
  refine ⟨fixed_iff_settled content, fun hhides => ?_⟩
  rw [fixed_iff_settled, settled_trim (candid_of_not_hidesBackslash hhides)]
  have hfit := fits_maskLines (splitLines content)
  exact settled_iff_of_placed hfit (placed_lost hfit)

/-- Two texts that do not stay as they are. In the first the outer opening brace begins the
statement of the inner block, and is moved after that was compared with it. In the second, trimming
makes a backslash the last byte of its line, so that the string continues. -/
theorem not_fixed_moved_brace_hidden_backslash :
    ¬ Fixed (";\n  \x7b\n  \x7b\n  \x7d\n  \x7d\n" : String) ∧
      ¬ Fixed ("        x \"\\ \n\" ;//\"\n  b\n    \x7b\n    \x7d\n" : String) := by
  decide +kernel

end Allman
