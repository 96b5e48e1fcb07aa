import Allman.Proofs.Settling

/-! # Laying out again and again

A second run over the lines of a layout moves a row only if the first run moved an opening brace
that itself began a statement: other statements stand where the run took them to stand when it
compared their blocks with them (`adjusted_again_eq_nil_iff`, `layout_again_moves`).

A text that was written out loses nothing but leading spaces of its lines when it is reformatted
(`splitLines_round`), so it becomes shorter or stays as it is (`round_sublist`, `round_eq_iff`).
Reformatting again and again therefore comes to an end (`rounds_converge`). -/

namespace Allman

open Layout Pairing Mask

/-! ### The second run -/

namespace Layout

/-- The row begins a statement when the pass comes to it: the last row of code ended one, and no
parenthesis or square bracket is open inside the innermost brace. -/
def StartsWhenRead (lines masked : List Bytes) (row : Nat) : Prop :=
  (passAt lines masked row).fresh = true ∧ (passAt lines masked row).stack.groupDepth = 0

instance (lines masked : List Bytes) (row : Nat) : Decidable (StartsWhenRead lines masked row) :=
  inferInstanceAs (Decidable (_ ∧ _))

instance (lines : List Bytes) (row : Nat) : Decidable (BeginsOpening lines row) :=
  inferInstanceAs (Decidable (_ = _))

theorem startsWhenRead_of_starts {lines masked : List Bytes} (hfit : Fits lines masked) {row : Nat}
    (h : Starts masked row) : StartsWhenRead lines masked row := by
  obtain ⟨text, htext, -⟩ := h.hasCode
  have hpass := ((starts_iff hfit htext).mp h).2
  simpa [StartsWhenRead] using hpass

end Layout

/-- **When a second run moves nothing**: no block stands at least `unit` right of where the first
run puts an opening brace that begins the statement of the block and that it moves. -/
theorem adjusted_again_eq_nil_iff (lines : List Bytes) :
    (layout (layout lines).lines).adjusted = [] ↔ ∀ o c s,
      Block lines (maskLines lines) o c → Controls (maskLines lines) s o.row →
      BeginsOpening lines s → s ∈ (layout lines).adjusted →
        o.col < Bytes.leadingSpaces (lines.getD s []) - (layout lines).lost lines s + unit := by
  have hfit := fits_maskLines lines
  have hdrop : Droppable ((layout lines).lost lines) lines := droppable_lost
  have hlines : (layout lines).lines =
      lines.mapIdx fun row line => line.drop ((layout lines).lost lines row) := run_lines_eq_mapIdx
  have hmoved : ∀ s, s ∈ (layout lines).adjusted ↔ (layout lines).lost lines s ≠ 0 := by
    intro s
    rw [← Nat.pos_iff_ne_zero]
    exact mem_adjusted_iff
  have hzero : (layout (layout lines).lines).adjusted = [] ↔
      Settled (layout lines).lines (maskLines (layout lines).lines) fun _ => 0 :=
    adjusted_eq_nil_iff.trans (lost_eq_zero_iff_settled (fits_maskLines _))
  rw [hzero, hlines, maskLines_mapIdx_drop hdrop, settled_drop hfit hdrop]
  simp only [hmoved]
  exact settled_iff_of_placed hfit (placed_lost hfit)

/-- **A second run only reacts to opening braces that began a statement and were moved.** If it
moves a row, the first run moved such a brace; if the first run moved none, its lines stay as they
are. -/
theorem layout_again_moves (lines : List Bytes) :
    ((layout (layout lines).lines).adjusted ≠ [] → ∃ row ∈ (layout lines).adjusted,
      BeginsOpening lines row ∧ StartsWhenRead lines (maskLines lines) row) ∧
    ((∀ row ∈ (layout lines).adjusted, BeginsOpening lines row →
        ¬ StartsWhenRead lines (maskLines lines) row) →
      (layout (layout lines).lines).adjusted = [] ∧
        (layout (layout lines).lines).lines = (layout lines).lines) := by
  have hreacts : (layout (layout lines).lines).adjusted ≠ [] → ∃ row ∈ (layout lines).adjusted,
      BeginsOpening lines row ∧ StartsWhenRead lines (maskLines lines) row := by
    intro hne
    rw [Ne, adjusted_again_eq_nil_iff] at hne
    push Not at hne
    obtain ⟨o, c, s, -, hcontrols, hopening, hmoved, -⟩ := hne
    exact ⟨s, hmoved, hopening, startsWhenRead_of_starts (fits_maskLines lines) hcontrols.starts⟩
  refine ⟨hreacts, fun hnone => ?_⟩
  have hnil : (layout (layout lines).lines).adjusted = [] := by
    by_contra hne
    obtain ⟨row, hmoved, hopening, hstarts⟩ := hreacts hne
    exact hnone row hmoved hopening hstarts
  exact ⟨hnil, run_lines_of_lost_eq_zero (adjusted_eq_nil_iff.mp hnil)⟩

/-- A bare block in a bare block is moved by the second run; the block of a statement is not. -/
theorem layout_again_moves_bare_block :
    (∃ row ∈ (layout (splitLines (";\n  \x7b\n  \x7b\n  \x7d\n  \x7d\n" : String))).adjusted,
      BeginsOpening (splitLines (";\n  \x7b\n  \x7b\n  \x7d\n  \x7d\n" : String)) row ∧
      StartsWhenRead (splitLines (";\n  \x7b\n  \x7b\n  \x7d\n  \x7d\n" : String))
        (maskLines (splitLines (";\n  \x7b\n  \x7b\n  \x7d\n  \x7d\n" : String))) row) ∧
    (layout (layout (splitLines ("if (x)\n  \x7b\n  \x7d\n" : String))).lines).lines =
      (layout (splitLines ("if (x)\n  \x7b\n  \x7d\n" : String))).lines :=
  ⟨(layout_again_moves _).1 (by decide +kernel),
    ((layout_again_moves _).2 (by decide +kernel)).2⟩

/-! ### One more round -/

/-- How many bytes a row of a text loses when the text is laid out. -/
def lostFrom (content : Bytes) (row : Nat) : Nat :=
  (layout (splitLines content)).lost (splitLines content) row

theorem lostFrom_le_leadingSpaces {content line : Bytes} {row : Nat}
    (h : (splitLines content)[row]? = some line) : lostFrom content row ≤ line.leadingSpaces :=
  lost_le_leadingSpaces h

theorem reformat_adjusted_eq_nil_iff {content : Bytes} :
    (reformat content).layout.adjusted = [] ↔ ∀ row, lostFrom content row = 0 :=
  adjusted_eq_nil_iff

/-- **What a round takes** from the lines of a text that was written out: leading spaces. -/
theorem splitLines_round (content : Bytes) :
    splitLines (reformat (reformat content).output).output =
      (splitLines (reformat content).output).mapIdx fun row line =>
        line.drop (lostFrom (reformat content).output row) := by
  have htrimmed : (splitLines (reformat content).output).map Bytes.trimTrailing =
      splitLines (reformat content).output := by
    rw [splitLines_reformat, List.map_map]
    simp only [Function.comp_def, Bytes.trimTrailing_trimTrailing]
  have hlines := splitLines_output (reformat content).output
  rwa [htrimmed] at hlines

theorem splitLines_round_getElem? {content line : Bytes} {row : Nat}
    (h : (splitLines (reformat content).output)[row]? = some line) :
    (splitLines (reformat (reformat content).output).output)[row]? =
      some (line.drop (lostFrom (reformat content).output row)) := by
  rw [splitLines_round, List.getElem?_mapIdx, h, Option.map_some]

theorem flatMap_drop_sublist : ∀ (lines : List Bytes) (k : Nat → Nat),
    ((lines.mapIdx fun row line => line.drop (k row)).flatMap (· ++ [Byte.newline])).Sublist
      (lines.flatMap (· ++ [Byte.newline]))
  | [], _ => by simp
  | line :: lines, k => by
    have ih := flatMap_drop_sublist lines fun row => k (row + 1)
    rw [List.mapIdx_cons, List.flatMap_cons, List.flatMap_cons]
    exact ((List.drop_sublist _ _).append (List.Sublist.refl _)).append ih

/-- **A round only takes bytes away.** -/
theorem round_sublist (content : Bytes) :
    (reformat (reformat content).output).output.Sublist (reformat content).output := by
  have hsub := flatMap_drop_sublist (splitLines (reformat content).output)
    (lostFrom (reformat content).output)
  rwa [← splitLines_round, ← output_eq_flatMap, ← output_eq_flatMap] at hsub

/-- **A round takes something iff it moves a row.** -/
theorem round_eq_iff (content : Bytes) :
    (reformat (reformat content).output).output = (reformat content).output ↔
      (reformat (reformat content).output).layout.adjusted = [] := by
  rw [reformat_adjusted_eq_nil_iff]
  constructor
  · intro heq row
    rcases hline : (splitLines (reformat content).output)[row]? with _ | line
    · exact lost_eq_zero_of_le (List.getElem?_eq_none_iff.mp hline)
    · -- the line stays as long as it is, and it has the spaces that it would lose
      have hround := splitLines_round_getElem? hline
      have hle := lostFrom_le_leadingSpaces hline
      have hlen := line.leadingSpaces_le_length
      rw [heq, hline, Option.some.injEq] at hround
      have hlength := congrArg List.length hround
      rw [List.length_drop] at hlength
      omega
  · exact fun hzero => ((fixed_iff_lost_eq_zero content).mpr hzero).1

/-! ### Rounds -/

/-- The text after it was reformatted once and then `k` times more. -/
def rounds (content : Bytes) : Nat → Bytes
  | 0 => (reformat content).output
  | k + 1 => (reformat (rounds content k)).output

section Rounds

variable (content : Bytes)

/-- Every round starts with a text that was written out. -/
theorem exists_rounds_eq : ∀ k, ∃ before, rounds content k = (reformat before).output
  | 0 => ⟨content, rfl⟩
  | k + 1 => ⟨rounds content k, rfl⟩

theorem rounds_succ_eq_iff (k : Nat) : rounds content (k + 1) = rounds content k ↔
    (reformat (rounds content k)).layout.adjusted = [] := by
  obtain ⟨before, hk⟩ := exists_rounds_eq content k
  rw [rounds, hk]
  exact round_eq_iff before

theorem length_rounds_succ_lt {k : Nat} (h : rounds content (k + 1) ≠ rounds content k) :
    (rounds content (k + 1)).length < (rounds content k).length := by
  obtain ⟨before, hk⟩ := exists_rounds_eq content k
  have hsub : (rounds content (k + 1)).Sublist (rounds content k) := by
    rw [rounds, hk]
    exact round_sublist before
  have hle := hsub.length_le
  have hne : (rounds content (k + 1)).length ≠ (rounds content k).length :=
    fun hlength => h (hsub.eq_of_length hlength)
  omega

/-- A round that changes nothing is followed by such rounds only. -/
theorem rounds_eq_of_le {k : Nat} (h : rounds content (k + 1) = rounds content k) :
    ∀ n, k ≤ n → rounds content n = rounds content k := by
  intro n hn
  induction n, hn using Nat.le_induction with
  | base => rfl
  | succ n _ ih =>
    rw [rounds, ih]
    exact h

/-- As long as every round changes something, each takes at least one byte. -/
theorem length_rounds_add_le : ∀ k, (∀ j < k, rounds content (j + 1) ≠ rounds content j) →
    (rounds content k).length + k ≤ (rounds content 0).length
  | 0, _ => Nat.le_refl _
  | k + 1, h => by
    have ih := length_rounds_add_le k fun j hj => h j (by omega)
    have hlt := length_rounds_succ_lt content (h k (by omega))
    omega

theorem exists_rounds_succ_eq :
    ∃ k ≤ (rounds content 0).length, rounds content (k + 1) = rounds content k := by
  by_contra hnone
  push Not at hnone
  have hle := length_rounds_add_le content ((rounds content 0).length + 1)
    fun j hj => hnone j (by omega)
  omega

/-- After any number of rounds a line is what it was after none, without some leading spaces. -/
theorem rounds_getElem? {row : Nat} {line : Bytes}
    (h : (splitLines (rounds content 0))[row]? = some line) : ∀ k, ∃ j ≤ line.leadingSpaces,
      (splitLines (rounds content k))[row]? = some (line.drop j)
  | 0 => ⟨0, Nat.zero_le _, h⟩
  | k + 1 => by
    obtain ⟨j, hj, hline⟩ := rounds_getElem? h k
    obtain ⟨before, hk⟩ := exists_rounds_eq content k
    rw [hk] at hline
    have hround := splitLines_round_getElem? hline
    have hle := lostFrom_le_leadingSpaces hline
    rw [Bytes.leadingSpaces_drop hj] at hle
    rw [List.drop_drop] at hround
    rw [rounds, hk]
    exact ⟨_, by omega, hround⟩

theorem length_splitLines_rounds : ∀ k,
    (splitLines (rounds content k)).length = (splitLines (rounds content 0)).length
  | 0 => rfl
  | k + 1 => by
    have hround := length_splitLines_reformat (rounds content k)
    exact hround.trans (length_splitLines_rounds k)

/-- **Reformatting again and again comes to an end.** A round that moves no row gives its text back,
and any other makes it shorter; so after no more rounds than the text has bytes nothing changes any
more. At any time every line is the line of the first output without some of its leading spaces. -/
theorem rounds_converge :
    (∀ k, (reformat (rounds content k)).layout.adjusted = [] →
      rounds content (k + 1) = rounds content k) ∧
    (∀ k, (reformat (rounds content k)).layout.adjusted ≠ [] →
      (rounds content (k + 1)).length < (rounds content k).length) ∧
    (∃ k ≤ (rounds content 0).length, ∀ n, k ≤ n → rounds content n = rounds content k) ∧
    ∀ k, (splitLines (rounds content k)).length = (splitLines (rounds content 0)).length ∧
      ∀ (row : Nat) (line : Bytes), (splitLines (rounds content 0))[row]? = some line →
        ∃ j ≤ line.leadingSpaces, (splitLines (rounds content k))[row]? = some (line.drop j) := by
  refine ⟨fun k => (rounds_succ_eq_iff content k).mpr, fun k hmoved => ?_, ?_, fun k => ?_⟩
  · refine length_rounds_succ_lt content fun heq => hmoved ?_
    exact (rounds_succ_eq_iff content k).mp heq
  · obtain ⟨k, hk, hstays⟩ := exists_rounds_succ_eq content
    exact ⟨k, hk, rounds_eq_of_le content hstays⟩
  · exact ⟨length_splitLines_rounds content k, fun row line h => rounds_getElem? content h k⟩

end Rounds

end Allman
