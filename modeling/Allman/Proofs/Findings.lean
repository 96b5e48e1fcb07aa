import Allman.Proofs.Scan
import Allman.Reformat

/-! # What a run finds wrong

The findings of a run are read off the brackets of the masked rows alone. A closing bracket that
takes nothing, or a bracket of another kind, gives a complaint (`complaint`), and what waits after
the last bracket is unclosed (`findings`). Neither the lines nor the moves have a part in it
(`run_diagnostics`, `run_leftover`), so brackets that stand elsewhere in the same order give the same
findings at their new places (`findings_relocate`). -/

namespace Allman

/-- The diagnostic with its position and those of its remarks carried elsewhere. -/
def Diagnostic.relocate (f : Position → Position) (d : Diagnostic) : Diagnostic :=
  { d with
    position := f d.position
    notes := d.notes.map fun n => { n with position := f n.position } }

namespace Mark

/-- The mark of an entry. -/
def ofEntry (e : Entry Nat) : Mark := ⟨e.opener, e.row, e.col⟩

/-- Where a mark stands. -/
def position (m : Mark) : Position := ⟨m.row, m.col⟩

/-- The mark carried elsewhere. -/
def relocate (f : Position → Position) (m : Mark) : Mark :=
  ⟨m.byte, (f m.position).row, (f m.position).col⟩

end Mark

namespace Layout

open Pairing

/-! ### Findings of a list of brackets -/

/-- What is wrong with a bracket when `wait` waits. -/
def complaint (wait : List Mark) (m : Mark) : List Diagnostic :=
  if Bracket.isOpener m.byte then []
  else match wait with
    | [] => [mismatched m.row m.col m.byte none]
    | o :: _ =>
      if Bracket.openerOf? m.byte = some o.byte then []
      else [mismatched m.row m.col m.byte (some ⟨o.byte, o.row, o.col, 0⟩)]

/-- What is wrong with brackets when `wait` waits before the first of them. -/
def complaints : List Mark → List Mark → List Diagnostic
  | _, [] => []
  | wait, m :: ms => complaint wait m ++ complaints (step wait m) ms

/-- What is wrong with a bracket that nothing closes. -/
def unclosedMark (m : Mark) : Diagnostic := unclosed ⟨m.byte, m.row, m.col, 0⟩

/-- **What is wrong with the brackets of a text.** -/
def findings (ms : List Mark) : List Diagnostic :=
  complaints [] ms ++ (waiting ms).reverse.map unclosedMark

theorem complaints_append : ∀ (a b wait : List Mark),
    complaints wait (a ++ b) = complaints wait a ++ complaints (a.foldl step wait) b
  | [], _, _ => rfl
  | m :: a, b, wait => by
    rw [List.cons_append, complaints, complaints, complaints_append a b, List.foldl_cons,
      List.append_assoc]

/-! ### The pass -/

/-- The pass has the given brackets on its stack and has found the given things wrong. -/
structure Tells (wait : List Mark) (found : List Diagnostic) (p : Pass) : Prop where
  stack : p.stack.entries.map Mark.ofEntry = wait
  found : p.found.reverse = found

section Steps

variable {lines : List Bytes} {wait : List Mark} {found : List Diagnostic} {p : Pass}

theorem Tells.close (h : Tells wait found p) {row col : Nat} {closer opener : UInt8}
    (hopen : Bracket.isOpener closer = false) (hkind : Bracket.openerOf? closer = some opener) :
    Tells wait.tail (found ++ complaint wait ⟨closer, row, col⟩)
      (p.close lines row col closer opener) := by
  unfold complaint
  simp only [hopen, Bool.false_eq_true, if_false]
  rcases hstack : p.stack.entries with _ | ⟨e, rest⟩
  · obtain rfl : [] = wait := by rw [← h.stack, hstack]; rfl
    rw [Pass.close_empty hstack]
    refine ⟨?_, ?_⟩
    · simp only [Pass.report, hstack, List.map_nil, List.tail_nil]
    · simp only [Pass.report, List.reverse_cons, h.found]
  · obtain rfl : Mark.ofEntry e :: rest.map Mark.ofEntry = wait := by rw [← h.stack, hstack]; rfl
    simp only [hkind, Option.some.injEq, List.tail_cons]
    rw [Pass.close_cons hstack]
    by_cases heq : e.opener = opener
    · have hmark : opener = (Mark.ofEntry e).byte := heq.symm
      rw [if_neg (not_not.mpr heq), if_pos hmark, List.append_nil]
      split
      · exact ⟨rfl, h.found⟩
      · exact ⟨rfl, h.found⟩
    · have hmark : ¬ opener = (Mark.ofEntry e).byte := fun h => heq h.symm
      rw [if_pos heq, if_neg hmark]
      refine ⟨rfl, ?_⟩
      simp only [Pass.report, List.reverse_cons, h.found]
      rfl

/-- **One bracket.** -/
theorem Tells.byte (h : Tells wait found p) {row col : Nat} {b : UInt8}
    (hb : Bracket.isBracket b = true) :
    Tells (step wait ⟨b, row, col⟩) (found ++ complaint wait ⟨b, row, col⟩)
      (p.byte lines row col b) := by
  rcases Pass.byte_cases lines row col b p with
    ⟨hopen, heq⟩ | ⟨opener, hopen, hkind, heq⟩ | ⟨hopen, hkind, -⟩
  · have hnone : complaint wait ⟨b, row, col⟩ = [] := if_pos hopen
    rw [heq, hnone, List.append_nil, step, if_pos hopen]
    refine ⟨?_, h.found⟩
    rw [← h.stack]
    rfl
  · rw [heq, step, if_neg (by simp [hopen])]
    exact h.close hopen hkind
  · unfold Bracket.isBracket at hb
    rw [hopen, hkind] at hb
    simp at hb

theorem Tells.bytes {row : Nat} : ∀ (s : Bytes) (col : Nat) {wait : List Mark}
    {found : List Diagnostic} {p : Pass}, Tells wait found p →
    Tells ((rowMarks row col s).foldl step wait) (found ++ complaints wait (rowMarks row col s))
      (Pass.bytes lines row col s p)
  | [], _, _, found, _, h => by
    rw [rowMarks, complaints, List.append_nil]
    exact h
  | b :: s, col, wait, found, p, h => by
    rw [Pass.bytes]
    unfold rowMarks
    split
    · next hb =>
      rw [List.foldl_cons, complaints, ← List.append_assoc]
      exact Tells.bytes s (col + 1) (h.byte hb)
    · next hb =>
      rw [Pass.byte_of_not_isBracket p hb]
      exact Tells.bytes s (col + 1) h

theorem Tells.row (h : Tells wait found p) (row : Nat) (text : Bytes) :
    Tells ((rowMarks row 0 text).foldl step wait) (found ++ complaints wait (rowMarks row 0 text))
      (p.row lines row text) := by
  have hbytes : Tells _ _ (Pass.bytes lines row 0 text p) := h.bytes text 0
  unfold Pass.row
  split
  · exact ⟨hbytes.stack, hbytes.found⟩
  · exact hbytes

/-- **Rows of brackets.** -/
theorem Tells.rows : ∀ (masked : List Bytes) (row : Nat) {wait : List Mark}
    {found : List Diagnostic} {p : Pass}, Tells wait found p →
    Tells ((marksFrom row masked).foldl step wait)
      (found ++ complaints wait (marksFrom row masked)) (Pass.rows lines row masked p)
  | [], _, _, found, _, h => by
    rw [marksFrom, complaints, List.append_nil]
    exact h
  | text :: masked, row, wait, found, p, h => by
    rw [Pass.rows, marksFrom, List.foldl_append, complaints_append, ← List.append_assoc]
    exact Tells.rows masked (row + 1) (h.row row text)

end Steps

variable {lines masked : List Bytes}

theorem tells_finalPass (hlen : masked.length ≤ lines.length) :
    Tells (waiting (marks masked)) (complaints [] (marks masked)) (finalPass lines masked) := by
  have hstart : Tells [] [] (Pass.start lines.length) := ⟨rfl, rfl⟩
  unfold finalPass
  rw [List.take_of_length_le hlen]
  exact hstart.rows masked 0

/-- **The brackets that nothing closes** are those that wait after the last one. -/
theorem run_leftover (hlen : masked.length ≤ lines.length) :
    (run lines masked).leftover.map Mark.ofEntry = (waiting (marks masked)).reverse := by
  have hstack := (tells_finalPass hlen).stack
  change (finalPass lines masked).stack.entries.reverse.map Mark.ofEntry = _
  rw [List.map_reverse, hstack]

/-- **What a run finds wrong** is what is wrong with the brackets of the masked rows. -/
theorem run_diagnostics (hlen : masked.length ≤ lines.length) :
    (run lines masked).diagnostics = findings (marks masked) := by
  have hfound := (tells_finalPass hlen).found
  have hunclosed : (run lines masked).leftover.map unclosed =
      ((run lines masked).leftover.map Mark.ofEntry).map unclosedMark := by
    rw [List.map_map]
    rfl
  unfold findings
  rw [← run_leftover hlen, ← hunclosed, ← hfound]
  rfl

theorem layout_leftover (lines : List Bytes) : (layout lines).leftover.map Mark.ofEntry =
    (waiting (marks (maskLines lines))).reverse :=
  run_leftover (Nat.le_of_eq (length_maskLines lines))

theorem layout_diagnostics (lines : List Bytes) :
    (layout lines).diagnostics = findings (marks (maskLines lines)) :=
  run_diagnostics (Nat.le_of_eq (length_maskLines lines))

/-! ### Brackets that stand elsewhere -/

section Relocate

variable (f : Position → Position)

theorem complaint_relocate (wait : List Mark) (m : Mark) :
    complaint (wait.map (Mark.relocate f)) (m.relocate f) =
      (complaint wait m).map (Diagnostic.relocate f) := by
  unfold complaint
  have hbyte : (m.relocate f).byte = m.byte := rfl
  rw [hbyte]
  split
  · rfl
  · rcases wait with _ | ⟨o, wait⟩
    · rfl
    · rw [List.map_cons]
      have hkind : (o.relocate f).byte = o.byte := rfl
      simp only [hkind]
      split
      · rfl
      · rfl

theorem complaints_relocate : ∀ (ms wait : List Mark),
    complaints (wait.map (Mark.relocate f)) (ms.map (Mark.relocate f)) =
      (complaints wait ms).map (Diagnostic.relocate f)
  | [], _ => rfl
  | m :: ms, wait => by
    have hstep := step_map (f := Mark.relocate f) (fun _ => rfl) wait m
    rw [List.map_cons, complaints, complaints, complaint_relocate, hstep, complaints_relocate ms,
      List.map_append]

/-- **The same brackets elsewhere give the same findings elsewhere.** -/
theorem findings_relocate (ms : List Mark) :
    findings (ms.map (Mark.relocate f)) = (findings ms).map (Diagnostic.relocate f) := by
  have hcomplaints := complaints_relocate f ms []
  unfold findings
  rw [List.map_append, waiting_map (f := Mark.relocate f) fun _ => rfl, ← List.map_reverse,
    List.map_map, List.map_map]
  exact congrArg (· ++ _) hcomplaints

end Relocate

end Layout

end Allman
