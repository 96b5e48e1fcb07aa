import Allman.Bracket
import Mathlib.Data.List.Induction
import Mathlib.Data.List.Nodup

/-! # Which brackets pair

The brackets of masked rows in reading order are a list of `Mark`s. Those that are open after some
of them wait, the most recent first (`waiting`): an opening bracket joins them, a closing one takes
the first. A closing bracket pairs with what it takes if the kinds agree (`Pairs`).

* `mem_marks`: the marks are the brackets of the rows. `sorted_marks`: they come in reading order,
  so that no mark comes twice.
* `pairs_concat`: what one more mark adds to the pairs.
* `Pairs.not_mem_waiting`: what is taken never waits again. -/

namespace Allman

/-! ### Brackets -/

namespace Bracket

/-- The byte is a bracket. -/
def isBracket (b : UInt8) : Bool := isOpener b || (openerOf? b).isSome

theorem openerOf?_eq_none_of_isOpener {b : UInt8} (h : isOpener b = true) : openerOf? b = none := by
  unfold isOpener closerOf? at h
  split at h
  · next hb => subst hb; rfl
  · split at h
    · next hb => subst hb; rfl
    · split at h
      · next hb => subst hb; rfl
      · simp at h

theorem isOpener_eq_false_of_openerOf? {b o : UInt8} (h : openerOf? b = some o) :
    isOpener b = false := by
  rw [Bool.eq_false_iff]
  intro hb
  rw [openerOf?_eq_none_of_isOpener hb] at h
  simp at h

theorem ne_space_of_isBracket {b : UInt8} (h : isBracket b = true) : b ≠ Byte.space := by
  rintro rfl
  exact absurd h (by decide)

theorem closeBrace_of_openerOf? {b : UInt8} (h : openerOf? b = some Byte.openBrace) :
    b = Byte.closeBrace := by
  unfold openerOf? at h
  split at h
  · next hb => exact hb
  · split at h
    · exact absurd (Option.some.inj h) (by decide)
    · split at h
      · exact absurd (Option.some.inj h) (by decide)
      · simp at h

end Bracket

/-- A bracket and where it stands. -/
structure Mark where
  /-- The bracket. -/
  byte : UInt8
  /-- Its row. -/
  row : Nat
  /-- Its column. -/
  col : Nat
  deriving DecidableEq, Repr

namespace Pairing

/-! ### The brackets of a text -/

/-- The brackets of a row from column `col` on. -/
def rowMarks (row : Nat) : Nat → Bytes → List Mark
  | _, [] => []
  | col, b :: rest =>
    if Bracket.isBracket b then ⟨b, row, col⟩ :: rowMarks row (col + 1) rest
    else rowMarks row (col + 1) rest

/-- The brackets of rows from row `row` on. -/
def marksFrom : Nat → List Bytes → List Mark
  | _, [] => []
  | row, masked :: rest => rowMarks row 0 masked ++ marksFrom (row + 1) rest

/-- **The brackets of masked rows**, in reading order. -/
def marks (masked : List Bytes) : List Mark := marksFrom 0 masked

theorem mem_rowMarks {row : Nat} {m : Mark} : ∀ (s : Bytes) (col : Nat),
    m ∈ rowMarks row col s ↔
      m.row = row ∧ col ≤ m.col ∧ s[m.col - col]? = some m.byte ∧ Bracket.isBracket m.byte = true
  | [], col => by simp [rowMarks]
  | b :: s, col => by
    have ih : m ∈ rowMarks row (col + 1) s ↔ _ := mem_rowMarks s (col + 1)
    -- the mark is the first byte, or it stands in the rest
    have hcons : ∀ h : col + 1 ≤ m.col, (b :: s)[m.col - col]? = s[m.col - (col + 1)]? := by
      intro h
      rw [show m.col - col = m.col - (col + 1) + 1 by omega, List.getElem?_cons_succ]
    have hfirst : m.col = col → (b :: s)[m.col - col]? = some b := by
      intro h
      rw [h, Nat.sub_self, List.getElem?_cons_zero]
    unfold rowMarks
    split
    · next hb =>
      rw [List.mem_cons, ih]
      constructor
      · rintro (rfl | ⟨hrow, hcol, hget, hm⟩)
        · exact ⟨rfl, Nat.le_refl _, hfirst rfl, hb⟩
        · exact ⟨hrow, by omega, by rw [hcons hcol]; exact hget, hm⟩
      · rintro ⟨hrow, hcol, hget, hm⟩
        rcases Nat.eq_or_lt_of_le hcol with heq | hlt
        · left
          rw [hfirst heq.symm, Option.some.injEq] at hget
          obtain ⟨byte, r, c⟩ := m
          simp only at hrow heq hget
          rw [hrow, heq, hget]
        · right
          exact ⟨hrow, hlt, by rw [← hcons hlt]; exact hget, hm⟩
    · next hb =>
      rw [ih]
      constructor
      · rintro ⟨hrow, hcol, hget, hm⟩
        exact ⟨hrow, by omega, by rw [hcons hcol]; exact hget, hm⟩
      · rintro ⟨hrow, hcol, hget, hm⟩
        rcases Nat.eq_or_lt_of_le hcol with heq | hlt
        · rw [hfirst heq.symm, Option.some.injEq] at hget
          rw [hget] at hb
          exact absurd hm hb
        · exact ⟨hrow, hlt, by rw [← hcons hlt]; exact hget, hm⟩

theorem mem_marksFrom {m : Mark} : ∀ (masked : List Bytes) (row : Nat),
    m ∈ marksFrom row masked ↔ row ≤ m.row ∧ ∃ text, masked[m.row - row]? = some text ∧
      text[m.col]? = some m.byte ∧ Bracket.isBracket m.byte = true
  | [], row => by simp [marksFrom]
  | text :: masked, row => by
    have ih : m ∈ marksFrom (row + 1) masked ↔ _ := mem_marksFrom masked (row + 1)
    rw [marksFrom, List.mem_append, mem_rowMarks, ih]
    simp only [Nat.zero_le, Nat.sub_zero, true_and]
    constructor
    · rintro (⟨hrow, hget, hm⟩ | ⟨hrow, text', htext, h⟩)
      · refine ⟨Nat.le_of_eq hrow.symm, text, ?_, hget, hm⟩
        rw [hrow, Nat.sub_self, List.getElem?_cons_zero]
      · refine ⟨by omega, text', ?_, h⟩
        rw [show m.row - row = m.row - (row + 1) + 1 by omega, List.getElem?_cons_succ]
        exact htext
    · rintro ⟨hrow, text', htext, hget, hm⟩
      rcases Nat.eq_or_lt_of_le hrow with heq | hlt
      · left
        rw [← heq, Nat.sub_self, List.getElem?_cons_zero, Option.some.injEq] at htext
        exact ⟨heq.symm, by rw [htext]; exact hget, hm⟩
      · right
        refine ⟨hlt, text', ?_, hget, hm⟩
        rwa [show m.row - row = m.row - (row + 1) + 1 by omega, List.getElem?_cons_succ] at htext

/-- **The marks are the brackets of the rows.** -/
theorem mem_marks {masked : List Bytes} {m : Mark} :
    m ∈ marks masked ↔ ∃ text, masked[m.row]? = some text ∧ text[m.col]? = some m.byte ∧
      Bracket.isBracket m.byte = true := by
  rw [marks, mem_marksFrom]
  simp

theorem marksFrom_append : ∀ (a b : List Bytes) (row : Nat),
    marksFrom row (a ++ b) = marksFrom row a ++ marksFrom (row + a.length) b
  | [], b, row => by simp [marksFrom]
  | text :: a, b, row => by
    rw [List.cons_append, marksFrom, marksFrom, marksFrom_append a b, List.length_cons,
      List.append_assoc, Nat.add_right_comm row 1, Nat.add_assoc row]

/-- The marks of one more row. -/
theorem marks_take_succ {masked : List Bytes} {row : Nat} {text : Bytes}
    (h : masked[row]? = some text) :
    marks (masked.take (row + 1)) = marks (masked.take row) ++ rowMarks row 0 text := by
  have hrow : row < masked.length := (List.getElem?_eq_some_iff.mp h).1
  rw [List.take_add_one, h, Option.toList_some, marks, marksFrom_append, List.length_take,
    Nat.min_eq_left (Nat.le_of_lt hrow), Nat.zero_add]
  simp [marks, marksFrom]

theorem marks_eq_append (masked : List Bytes) (row : Nat) :
    marks masked = marks (masked.take row) ++ marksFrom row (masked.drop row) := by
  rcases Nat.lt_or_ge row masked.length with hrow | hrow
  · conv_lhs => rw [← List.take_append_drop row masked]
    rw [marks, marksFrom_append, List.length_take, Nat.min_eq_left (Nat.le_of_lt hrow),
      Nat.zero_add]
    rfl
  · rw [List.take_of_length_le hrow, List.drop_eq_nil_of_le hrow, marksFrom, List.append_nil]

/-- The first mark comes before the second. -/
def Before (m m' : Mark) : Prop := m.row < m'.row ∨ m.row = m'.row ∧ m.col < m'.col

theorem sorted_rowMarks (row : Nat) : ∀ (s : Bytes) (col : Nat),
    (rowMarks row col s).Pairwise Before
  | [], _ => .nil
  | b :: s, col => by
    have ih := sorted_rowMarks row s (col + 1)
    unfold rowMarks
    split
    · refine .cons (fun m hm => ?_) ih
      obtain ⟨hrow, hcol, -⟩ := (mem_rowMarks s (col + 1)).mp hm
      exact Or.inr ⟨hrow.symm, hcol⟩
    · exact ih

theorem sorted_marksFrom : ∀ (masked : List Bytes) (row : Nat),
    (marksFrom row masked).Pairwise Before
  | [], _ => .nil
  | text :: masked, row => by
    rw [marksFrom, List.pairwise_append]
    refine ⟨sorted_rowMarks row text 0, sorted_marksFrom masked (row + 1), fun m hm m' hm' => ?_⟩
    have h1 := ((mem_rowMarks text 0).mp hm).1
    have h2 := ((mem_marksFrom masked (row + 1)).mp hm').1
    exact Or.inl (by omega)

/-- **The marks come in reading order.** -/
theorem sorted_marks (masked : List Bytes) : (marks masked).Pairwise Before :=
  sorted_marksFrom masked 0

theorem not_before_self (m : Mark) : ¬ Before m m := by
  unfold Before
  omega

theorem nodup_of_sorted {ms : List Mark} (hsorted : ms.Pairwise Before) : ms.Nodup := by
  refine hsorted.imp fun {m m'} h => ?_
  rintro rfl
  exact not_before_self m h

theorem nodup_marks (masked : List Bytes) : (marks masked).Nodup :=
  nodup_of_sorted (sorted_marks masked)

/-! ### Waiting brackets and pairs -/

/-- What waits after one more mark: an opening bracket joins, a closing one takes the first. -/
def step (wait : List Mark) (m : Mark) : List Mark :=
  if Bracket.isOpener m.byte then m :: wait else wait.tail

/-- **The opening brackets that are not yet taken**, the most recent first. -/
def waiting (ms : List Mark) : List Mark := ms.foldl step []

/-- **The closing bracket `c` pairs with `o`**: `o` is the most recent bracket that waits when `c`
comes, and it is of the kind of `c`. -/
def Pairs (ms : List Mark) (o c : Mark) : Prop :=
  ∃ before after, ms = before ++ c :: after ∧ (waiting before).head? = some o ∧
    Bracket.openerOf? c.byte = some o.byte

theorem waiting_concat (ms : List Mark) (m : Mark) :
    waiting (ms ++ [m]) = step (waiting ms) m := by
  rw [waiting, List.foldl_append]
  rfl

theorem waiting_sublist (ms : List Mark) : (waiting ms).Sublist ms.reverse := by
  induction ms using List.reverseRecOn with
  | nil => exact .slnil
  | append_singleton ms m ih =>
    rw [waiting_concat, List.reverse_concat, step]
    split
    · exact ih.cons_cons m
    · exact ((List.tail_sublist _).trans ih).cons m

theorem mem_of_mem_waiting {ms : List Mark} {m : Mark} (h : m ∈ waiting ms) : m ∈ ms :=
  List.mem_reverse.mp ((waiting_sublist ms).subset h)

theorem isOpener_of_mem_waiting {ms : List Mark} {m : Mark} (h : m ∈ waiting ms) :
    Bracket.isOpener m.byte = true := by
  induction ms using List.reverseRecOn with
  | nil => simp [waiting] at h
  | append_singleton ms m' ih =>
    rw [waiting_concat, step] at h
    split at h
    · next hopen =>
      rcases List.mem_cons.mp h with rfl | h
      · exact hopen
      · exact ih h
    · exact ih (List.mem_of_mem_tail h)

/-- **What one more mark adds to the pairs.** -/
theorem pairs_concat {ms : List Mark} {m o c : Mark} :
    Pairs (ms ++ [m]) o c ↔ Pairs ms o c ∨
      c = m ∧ (waiting ms).head? = some o ∧ Bracket.openerOf? m.byte = some o.byte := by
  constructor
  · rintro ⟨before, after, heq, hhead, hkind⟩
    rcases List.eq_nil_or_concat after with rfl | ⟨init, last, rfl⟩
    · right
      obtain ⟨rfl, hm⟩ := List.append_inj' heq rfl
      obtain rfl := List.singleton_inj.mp hm
      exact ⟨rfl, hhead, hkind⟩
    · left
      rw [List.concat_eq_append, ← List.cons_append, ← List.append_assoc] at heq
      exact ⟨before, init, (List.append_inj' heq rfl).1, hhead, hkind⟩
  · rintro (⟨before, after, rfl, hhead, hkind⟩ | ⟨rfl, hhead, hkind⟩)
    · exact ⟨before, after ++ [m], by simp, hhead, hkind⟩
    · exact ⟨ms, [], rfl, hhead, hkind⟩

theorem Pairs.append {ms : List Mark} {o c : Mark} (h : Pairs ms o c) (ms' : List Mark) :
    Pairs (ms ++ ms') o c := by
  obtain ⟨before, after, rfl, hhead, hkind⟩ := h
  exact ⟨before, after ++ ms', by simp, hhead, hkind⟩

theorem Pairs.mem_closer {ms : List Mark} {o c : Mark} (h : Pairs ms o c) : c ∈ ms := by
  obtain ⟨before, after, rfl, -, -⟩ := h
  simp

theorem Pairs.mem_opener {ms : List Mark} {o c : Mark} (h : Pairs ms o c) : o ∈ ms := by
  obtain ⟨before, after, rfl, hhead, -⟩ := h
  have := mem_of_mem_waiting (List.mem_of_mem_head? hhead)
  simp [this]

theorem Pairs.kind {ms : List Mark} {o c : Mark} (h : Pairs ms o c) :
    Bracket.openerOf? c.byte = some o.byte := by
  obtain ⟨before, after, -, -, hkind⟩ := h
  exact hkind

theorem Pairs.isOpener_closer {ms : List Mark} {o c : Mark} (h : Pairs ms o c) :
    Bracket.isOpener c.byte = false :=
  Bracket.isOpener_eq_false_of_openerOf? h.kind

/-- **What is taken never waits again.** -/
theorem Pairs.not_mem_waiting {ms : List Mark} {o c : Mark} (hnodup : ms.Nodup)
    (h : Pairs ms o c) : o ∉ waiting ms := by
  induction ms using List.reverseRecOn with
  | nil => simp [waiting]
  | append_singleton ms m ih =>
    have hms : ms.Nodup := (List.nodup_append.mp hnodup).1
    rw [waiting_concat, step]
    rcases pairs_concat.mp h with hold | ⟨rfl, hhead, hkind⟩
    · have hm : o ≠ m := fun heq =>
        (List.nodup_append.mp hnodup).2.2 o hold.mem_opener m (by simp) heq
      split
      · rw [List.mem_cons, not_or]
        exact ⟨hm, ih hms hold⟩
      · exact fun hmem => ih hms hold (List.mem_of_mem_tail hmem)
    · rw [if_neg (by rw [Bracket.isOpener_eq_false_of_openerOf? hkind]; simp)]
      have hwait : (waiting ms).Nodup := (waiting_sublist ms).nodup (List.nodup_reverse.mpr hms)
      rcases hw : waiting ms with _ | ⟨first, rest⟩
      · simp
      · rw [hw, List.head?_cons, Option.some.injEq] at hhead
        rw [hw, List.nodup_cons] at hwait
        rw [← hhead]
        exact hwait.1

/-- The opening bracket of a pair comes first. -/
theorem Pairs.before {ms : List Mark} {o c : Mark} (hsorted : ms.Pairwise Before)
    (h : Pairs ms o c) : Before o c := by
  obtain ⟨before, after, rfl, hhead, -⟩ := h
  have ho : o ∈ before := mem_of_mem_waiting (List.mem_of_mem_head? hhead)
  exact (List.pairwise_append.mp hsorted).2.2 o ho c (by simp)

/-- A closing bracket pairs as soon as it is read. -/
theorem Pairs.of_append {a b : List Mark} {o c : Mark} (hnodup : (a ++ b).Nodup)
    (h : Pairs (a ++ b) o c) (hc : c ∈ a) : Pairs a o c := by
  induction b using List.reverseRecOn with
  | nil => rwa [List.append_nil] at h
  | append_singleton b m ih =>
    rw [← List.append_assoc] at h hnodup
    rcases pairs_concat.mp h with hold | ⟨rfl, -⟩
    · exact ih (List.nodup_append.mp hnodup).1 hold
    · exact absurd rfl ((List.nodup_append.mp hnodup).2.2 c (by simp [hc]) c (by simp))

/-! ### Brackets that are carried elsewhere -/

section Map

variable {f : Mark → Mark} (hbyte : ∀ m, (f m).byte = m.byte)
include hbyte

theorem step_map (wait : List Mark) (m : Mark) :
    step (wait.map f) (f m) = (step wait m).map f := by
  unfold step
  rw [hbyte]
  split
  · rfl
  · exact List.map_tail.symm

theorem waiting_map (ms : List Mark) : waiting (ms.map f) = (waiting ms).map f := by
  induction ms using List.reverseRecOn with
  | nil => rfl
  | append_singleton ms m ih =>
    rw [List.map_append, List.map_singleton, waiting_concat, waiting_concat, ih, step_map hbyte]

/-- **Pairing looks at bytes only**, not at where they stand. -/
theorem pairs_map_iff {ms : List Mark} {o' c' : Mark} :
    Pairs (ms.map f) o' c' ↔ ∃ o c, Pairs ms o c ∧ f o = o' ∧ f c = c' := by
  constructor
  · rintro ⟨before', after', heq, hhead, hkind⟩
    obtain ⟨before, rest, rfl, rfl, hrest⟩ := List.map_eq_append_iff.mp heq
    obtain ⟨c, after, rfl, rfl, rfl⟩ := List.map_eq_cons_iff.mp hrest
    rw [waiting_map hbyte, List.head?_map, Option.map_eq_some_iff] at hhead
    obtain ⟨o, ho, rfl⟩ := hhead
    rw [hbyte, hbyte] at hkind
    exact ⟨o, c, ⟨before, after, rfl, ho, hkind⟩, rfl, rfl⟩
  · rintro ⟨o, c, ⟨before, after, rfl, hhead, hkind⟩, rfl, rfl⟩
    refine ⟨before.map f, after.map f, ?_, ?_, ?_⟩
    · rw [List.map_append, List.map_cons]
    · rw [waiting_map hbyte, List.head?_map, hhead, Option.map_some]
    · rw [hbyte, hbyte]
      exact hkind

end Map

end Pairing

end Allman
