import Allman.Proofs.Findings
import Allman.Proofs.Settling

/-! # White space at the ends of lines does not count

Trimmed lines read alike unless a row conceals that a literal goes on (`alike_trim`). The brackets
are then the same, at the same places, so that the findings are the same; and so is the placement,
which looks at the lines only where brackets are first and where statements start
(`Alike.placed`). Since there is only one placement, trimmed lines lose what the lines lose
(`lost_trim`), and a text and the same text with its lines trimmed give one result
(`reformat_trim`). The carriage returns of a file with CRLF line ends are a case of this. -/

namespace Allman

namespace Layout

open Pairing Mask

/-! ### The placement of texts that read alike -/

section Transport

variable {lines lines' masked masked' : List Bytes} {strip : Nat → Nat}

/-- **Statements have the same indentation** if the rows that start them begin alike. -/
theorem Alike.statementIndent_iff (h : Alike id masked masked')
    (hlead : ∀ s, Starts masked s →
      (lines'.getD s []).leadingSpaces = (lines.getD s []).leadingSpaces)
    (hclosing : ∀ s, Starts masked s → (BeginsClosing lines' s ↔ BeginsClosing lines s))
    {r I : Nat} : StatementIndent lines' masked' strip r I ↔
      StatementIndent lines masked strip r I := by
  constructor
  · intro hI
    cases hI with
    | none hno => exact .none fun s hs hstarts => hno s hs ((h.starts_iff carries_id).mpr hstarts)
    | still hs' hopening =>
      have hs := (h.controls_iff carries_id).mp hs'
      rw [hlead _ hs.starts]
      exact .still hs fun hc => hopening ((hclosing _ hs.starts).mpr hc)
    | moved hs' hc =>
      have hs := (h.controls_iff carries_id).mp hs'
      rw [hlead _ hs.starts]
      exact .moved hs ((hclosing _ hs.starts).mp hc)
  · intro hI
    cases hI with
    | none hno => exact .none fun s hs hstarts => hno s hs ((h.starts_iff carries_id).mp hstarts)
    | still hs hopening =>
      rw [← hlead _ hs.starts]
      exact .still ((h.controls_iff carries_id).mpr hs)
        fun hc => hopening ((hclosing _ hs.starts).mp hc)
    | moved hs hc =>
      rw [← hlead _ hs.starts]
      exact .moved ((h.controls_iff carries_id).mpr hs) ((hclosing _ hs.starts).mpr hc)

/-- **A placement is one of every text that reads alike.** -/
theorem Alike.placed (h : Alike id masked masked')
    (hfirst : ∀ m ∈ marks masked, (First lines' m ↔ First lines m))
    (hindent : ∀ r I, StatementIndent lines' masked' strip r I ↔
      StatementIndent lines masked strip r I)
    (hplaced : Placed lines masked strip) : Placed lines' masked' strip := by
  refine ⟨fun o' c' I hblock' hI hunit => ?_, fun row hne => ?_⟩
  · obtain ⟨o, c, hblock, rfl, rfl⟩ := (h.block_iff carries_id hfirst).mp hblock'
    exact hplaced.hanging o c I hblock ((hindent _ _).mp hI) hunit
  · obtain ⟨o, c, I, hblock, hI, hunit, hrow⟩ := hplaced.only row hne
    have hblock' := (h.block_iff carries_id hfirst).mpr ⟨o, c, hblock, rfl, rfl⟩
    exact ⟨o, c, I, hblock', (hindent _ _).mpr hI, hunit, hrow⟩

end Transport

/-! ### Trimmed lines -/

section Trim

variable {lines : List Bytes}

/-- **Trimmed lines lose what the lines lose.** -/
theorem lost_trim (h : Candid lines) :
    (layout (lines.map Bytes.trimTrailing)).lost (lines.map Bytes.trimTrailing) =
      (layout lines).lost lines := by
  have hfit := fits_maskLines lines
  have hindent : ∀ r I, StatementIndent (lines.map Bytes.trimTrailing)
      (maskLines (lines.map Bytes.trimTrailing)) ((layout lines).lost lines) r I ↔
        StatementIndent lines (maskLines lines) ((layout lines).lost lines) r I := by
    intro r I
    refine (alike_trim h).statementIndent_iff (fun s hs => ?_) fun s hs => ?_
    · obtain ⟨text, htext, hcode⟩ := hs.hasCode
      exact leadingSpaces_trim_of_hasCode hfit htext hcode
    · obtain ⟨text, htext, hcode⟩ := hs.hasCode
      exact beginsClosing_trim_of_hasCode hfit htext hcode
  have hplaced := (alike_trim h).placed (fun m hm => first_trim hfit hm) hindent (placed_lost hfit)
  exact (placed_lost (fits_maskLines _)).unique hplaced

theorem adjusted_trim (h : Candid lines) :
    (layout (lines.map Bytes.trimTrailing)).adjusted = (layout lines).adjusted := by
  have hmem : ∀ row, row ∈ (layout (lines.map Bytes.trimTrailing)).adjusted ↔
      row ∈ (layout lines).adjusted := by
    intro row
    have hlost := congrFun (lost_trim h) row
    rw [layout, layout, mem_adjusted_iff, mem_adjusted_iff]
    rw [layout, layout] at hlost
    rw [hlost]
  -- both lists are strictly increasing
  have hperm := (List.perm_ext_iff_of_nodup (pairwise_adjusted.imp Nat.ne_of_lt)
    (pairwise_adjusted.imp Nat.ne_of_lt)).mpr hmem
  exact hperm.eq_of_pairwise (fun a b _ _ hab hba => absurd hab (Nat.lt_asymm hba))
    pairwise_adjusted pairwise_adjusted

theorem marks_trim (h : Candid lines) :
    marks (maskLines (lines.map Bytes.trimTrailing)) = marks (maskLines lines) := by
  rw [(alike_trim h).marks_eq, List.map_id]

end Trim

end Layout

/-! ### Texts -/

open Layout

/-- **Reformatting does not see how the lines of a text end**: it gives the same for the lines of
the text, trimmed and each with a newline. -/
def EndsIgnored (content : Bytes) : Prop :=
  (reformat (render (splitLines content))).output = (reformat content).output ∧
    (reformat (render (splitLines content))).layout.adjusted =
      (reformat content).layout.adjusted ∧
    (reformat (render (splitLines content))).unclosed = (reformat content).unclosed ∧
    (reformat (render (splitLines content))).layout.diagnostics =
      (reformat content).layout.diagnostics

instance (content : Bytes) : Decidable (EndsIgnored content) :=
  inferInstanceAs (Decidable (_ ∧ _ ∧ _ ∧ _))

theorem splitLines_render_splitLines (content : Bytes) :
    splitLines (render (splitLines content)) = (splitLines content).map Bytes.trimTrailing :=
  splitLines_render fun _ => newline_not_mem_of_mem_splitLines

/-- **White space at the ends of lines does not count** in a text that conceals nothing. -/
theorem reformat_trim (content : Bytes) (h : Candid (splitLines content)) :
    EndsIgnored content := by
  have hlines := splitLines_render_splitLines content
  refine ⟨?_, ?_, ?_, ?_⟩
  · have hsplit : splitLines (reformat (render (splitLines content))).output =
        splitLines (reformat content).output := by
      rw [splitLines_output, splitLines_output, hlines, lost_trim h, List.map_map]
      simp only [Function.comp_def, Bytes.trimTrailing_trimTrailing]
    rw [output_eq_flatMap, hsplit, ← output_eq_flatMap]
  · change (layout _).adjusted = (layout _).adjusted
    rw [hlines, adjusted_trim h]
  · have hleft := layout_leftover ((splitLines content).map Bytes.trimTrailing)
    rw [marks_trim h, ← layout_leftover, ← hlines] at hleft
    have hlength := congrArg List.length hleft
    rw [List.length_map, List.length_map] at hlength
    exact hlength
  · change (layout _).diagnostics = (layout _).diagnostics
    rw [hlines, layout_diagnostics, layout_diagnostics, marks_trim h]

/-- A file with CRLF line ends, a block that is moved, and a backslash before a carriage return that
conceals nothing. -/
theorem reformat_trim_crlf :
    Candid (splitLines ("#define A \\\r\nif (b)\r\n    \x7b \r\n    \x7d\r\n" : String)) ∧
      EndsIgnored ("#define A \\\r\nif (b)\r\n    \x7b \r\n    \x7d\r\n" : String) := by
  have hcandid :
      Candid (splitLines ("#define A \\\r\nif (b)\r\n    \x7b \r\n    \x7d\r\n" : String)) := by
    decide +kernel
  exact ⟨hcandid, reformat_trim _ hcandid⟩

/-- A carriage return behind the backslash conceals that the string goes on, and the brace in it is
read as code. -/
theorem not_endsIgnored_crlf : ¬ EndsIgnored ("s = \"a\\\r\n\x7b\";\r\n" : String) := by
  decide +kernel

end Allman
