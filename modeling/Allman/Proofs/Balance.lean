import Allman.Proofs.Findings

/-! # Balanced brackets

A word of brackets is balanced if it is empty, or consists of an opening bracket, a balanced word,
the closing bracket of the same kind and a balanced word (`Balanced`): the Dyck language over
braces, parentheses and square brackets. A run finds nothing wrong iff the brackets of the masked
rows are a balanced word (`diagnostics_eq_nil_iff_balanced`).

A balanced word is read without complaint and leaves waiting what waited before it
(`complaints_eq_nil_of_balanced`). For the converse let some brackets wait. If the rest is read
without complaint until nothing waits, it is cut by the closing brackets of those that wait, and the
pieces are balanced (`Closes`, `closes_of_complaints_eq_nil`). -/

namespace Allman

namespace Bracket

/-- The six brackets. -/
def all : Bytes := [Byte.openBrace, Byte.closeBrace, Byte.openParen, Byte.closeParen,
  Byte.openSquare, Byte.closeSquare]

/-- The opening bracket and the closing bracket are of one kind. -/
inductive Kin : UInt8 → UInt8 → Prop
  | braces : Kin Byte.openBrace Byte.closeBrace
  | parens : Kin Byte.openParen Byte.closeParen
  | squares : Kin Byte.openSquare Byte.closeSquare

theorem isBracket_eq_decide_mem (b : UInt8) : isBracket b = decide (b ∈ all) := by
  by_cases h : b ∈ all
  · rw [decide_eq_true h]
    simp only [all, List.mem_cons, List.not_mem_nil, or_false] at h
    rcases h with rfl | rfl | rfl | rfl | rfl | rfl <;> rfl
  · rw [decide_eq_false h]
    simp only [all, List.mem_cons, List.not_mem_nil, or_false, not_or] at h
    simp [isBracket, isOpener, closerOf?, openerOf?, h]

theorem lt_of_isBracket {b : UInt8} (h : isBracket b = true) : b < 0x80 := by
  rw [isBracket_eq_decide_mem, decide_eq_true_eq] at h
  simp only [all, List.mem_cons, List.not_mem_nil, or_false] at h
  rcases h with rfl | rfl | rfl | rfl | rfl | rfl <;> decide

theorem Kin.isOpener {o c : UInt8} (h : Kin o c) : isOpener o = true := by
  cases h <;> rfl

theorem Kin.openerOf? {o c : UInt8} (h : Kin o c) : openerOf? c = some o := by
  cases h <;> rfl

theorem kin_of_openerOf? {o c : UInt8} (h : openerOf? c = some o) : Kin o c := by
  unfold openerOf? at h
  split_ifs at h with h1 h2 h3
  · rw [← Option.some.inj h, h1]; exact .braces
  · rw [← Option.some.inj h, h2]; exact .parens
  · rw [← Option.some.inj h, h3]; exact .squares

end Bracket

namespace Pairing

/-! ### The language -/

/-- **A balanced word of brackets.** -/
inductive Balanced : Bytes → Prop
  | nil : Balanced []
  | wrap {o c : UInt8} {inner rest : Bytes} : Bracket.Kin o c → Balanced inner →
      Balanced rest → Balanced (o :: (inner ++ c :: rest))

/-- The brackets of masked rows, read row by row. -/
def word (masked : List Bytes) : Bytes := masked.flatten.filter (· ∈ Bracket.all)

theorem map_byte_rowMarks (row : Nat) : ∀ (s : Bytes) (col : Nat),
    (rowMarks row col s).map Mark.byte = s.filter (· ∈ Bracket.all)
  | [], _ => rfl
  | b :: s, col => by
    have ih := map_byte_rowMarks row s (col + 1)
    rw [rowMarks, List.filter_cons, Bracket.isBracket_eq_decide_mem]
    split_ifs
    · rw [List.map_cons, ih]
    · exact ih

theorem map_byte_marksFrom : ∀ (masked : List Bytes) (row : Nat),
    (marksFrom row masked).map Mark.byte = word masked
  | [], _ => rfl
  | text :: masked, row => by
    have ih := map_byte_marksFrom masked (row + 1)
    unfold word at ih ⊢
    rw [marksFrom, List.map_append, map_byte_rowMarks, ih, List.flatten_cons, List.filter_append]

end Pairing

namespace Layout

open Pairing

/-! ### Balanced words are read without complaint -/

theorem complaints_eq_nil_of_balanced {w : Bytes} (h : Balanced w) :
    ∀ ms wait : List Mark, ms.map Mark.byte = w →
      complaints wait ms = [] ∧ ms.foldl step wait = wait := by
  induction h with
  | nil =>
    intro ms wait hms
    rw [List.map_eq_nil_iff.mp hms]
    exact ⟨rfl, rfl⟩
  | @wrap o c inner rest hkind _ _ ih_inner ih_rest =>
    intro ms wait hms
    obtain ⟨m, tail, rfl, rfl, htail⟩ := List.map_eq_cons_iff.mp hms
    obtain ⟨a, tail, rfl, ha, htail⟩ := List.map_eq_append_iff.mp htail
    obtain ⟨m', b, rfl, rfl, hb⟩ := List.map_eq_cons_iff.mp htail
    have hopen := hkind.isOpener
    have htakes := hkind.openerOf?
    have hclose := Bracket.isOpener_eq_false_of_openerOf? htakes
    -- the opening bracket waits while the inner word is read, and is taken after it
    have hpush : step wait m = m :: wait := if_pos hopen
    have hpop : step (m :: wait) m' = wait := by simp [step, hclose]
    have hquiet : complaint wait m = [] := if_pos hopen
    have hquiet' : complaint (m :: wait) m' = [] := by simp [complaint, hclose, htakes]
    obtain ⟨hinner, hinner'⟩ := ih_inner a (m :: wait) ha
    obtain ⟨hrest, hrest'⟩ := ih_rest b wait hb
    refine ⟨?_, ?_⟩
    · rw [complaints, hquiet, hpush, complaints_append, hinner, hinner', complaints, hquiet', hpop,
        hrest]
      rfl
    · rw [List.foldl_cons, hpush, List.foldl_append, hinner', List.foldl_cons, hpop, hrest']

/-! ### What is read without complaint is balanced -/

/-- The word closes the brackets that wait: their closing brackets stand in it in turn, with
balanced words before, between and behind them. -/
inductive Closes : List Mark → Bytes → Prop
  | nil {w : Bytes} : Balanced w → Closes [] w
  | cons {o : Mark} {wait : List Mark} {c : UInt8} {w rest : Bytes} : Balanced w →
      Bracket.Kin o.byte c → Closes wait rest → Closes (o :: wait) (w ++ c :: rest)

theorem Closes.wrap {wait : List Mark} {o c : UInt8} {inner rest : Bytes} (h : Closes wait rest)
    (hkind : Bracket.Kin o c) (hinner : Balanced inner) :
    Closes wait (o :: (inner ++ c :: rest)) := by
  cases h with
  | nil hrest => exact .nil (.wrap hkind hinner hrest)
  | @cons o' wait c' w rest hw hkind' hrest =>
    have hcut := Closes.cons (.wrap hkind hinner hw) hkind' hrest
    simpa using hcut

theorem closes_of_complaints_eq_nil : ∀ (ms wait : List Mark),
    (∀ m ∈ ms, Bracket.isBracket m.byte = true) → complaints wait ms = [] →
      ms.foldl step wait = [] → Closes wait (ms.map Mark.byte)
  | [], wait, _, _, hend => by
    rw [List.foldl_nil] at hend
    rw [hend]
    exact .nil .nil
  | m :: ms, wait, hms, hquiet, hend => by
    rw [complaints, List.append_eq_nil_iff] at hquiet
    rw [List.foldl_cons] at hend
    have ih := closes_of_complaints_eq_nil ms (step wait m) (fun x hx => hms x (by simp [hx]))
      hquiet.2 hend
    rw [List.map_cons]
    by_cases hopen : Bracket.isOpener m.byte = true
    · -- the bracket waits first, so its closing bracket is the first to come
      rw [step, if_pos hopen] at ih
      generalize ms.map Mark.byte = w at ih
      cases ih with
      | cons hw hkind hrest => exact hrest.wrap hkind hw
    · have hclose := Bool.eq_false_iff.mpr hopen
      have htook : ∃ o rest, wait = o :: rest ∧ Bracket.openerOf? m.byte = some o.byte := by
        have hnone := hquiet.1
        rcases wait with _ | ⟨o, rest⟩
        · simp [complaint, hclose] at hnone
        · simp only [complaint, hclose] at hnone
          by_contra hno
          have hkind : Bracket.openerOf? m.byte ≠ some o.byte := fun h => hno ⟨o, rest, rfl, h⟩
          simp [hkind] at hnone
      obtain ⟨o, rest, rfl, hkind⟩ := htook
      rw [step, if_neg hopen, List.tail_cons] at ih
      exact Closes.cons .nil (Bracket.kin_of_openerOf? hkind) ih

/-! ### Runs -/

theorem findings_eq_nil_iff {ms : List Mark} (hms : ∀ m ∈ ms, Bracket.isBracket m.byte = true) :
    findings ms = [] ↔ Balanced (ms.map Mark.byte) := by
  have hnil : findings ms = [] ↔ complaints [] ms = [] ∧ ms.foldl step [] = [] := by
    simp [findings, waiting]
  rw [hnil]
  constructor
  · rintro ⟨hquiet, hend⟩
    cases closes_of_complaints_eq_nil ms [] hms hquiet hend with
    | nil hw => exact hw
  · intro h
    exact complaints_eq_nil_of_balanced h ms [] rfl

/-- **A run finds nothing wrong iff the brackets are balanced.** -/
theorem diagnostics_eq_nil_iff_balanced (lines masked : List Bytes)
    (hlen : masked.length = lines.length) :
    (run lines masked).diagnostics = [] ↔ Balanced (word masked) := by
  have hms : ∀ m ∈ marks masked, Bracket.isBracket m.byte = true := by
    intro m hm
    obtain ⟨-, -, -, hbracket⟩ := mem_marks.mp hm
    exact hbracket
  rw [run_diagnostics (Nat.le_of_eq hlen), findings_eq_nil_iff hms, marks, map_byte_marksFrom]

/-- Brackets that are nested over several rows are balanced, whatever a comment holds; brackets that
cross are not. -/
theorem balanced_nested_not_crossed :
    Balanced (word (maskLines (splitLines ("f(a[0]) // (\n  \x7b\n  \x7d;\n" : String)))) ∧
    ¬ Balanced (word (maskLines (splitLines ("\x7b(\n\x7d)\n" : String)))) := by
  have hnested := diagnostics_eq_nil_iff_balanced
    (splitLines ("f(a[0]) // (\n  \x7b\n  \x7d;\n" : String)) _ (length_maskLines _)
  have hcrossed := diagnostics_eq_nil_iff_balanced
    (splitLines ("\x7b(\n\x7d)\n" : String)) _ (length_maskLines _)
  exact ⟨hnested.mp (by decide +kernel), fun h => absurd (hcrossed.mpr h) (by decide +kernel)⟩

end Layout

end Allman
