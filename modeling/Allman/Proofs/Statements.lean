import Allman.Proofs.Moves
import Allman.Proofs.Pairing

/-! # Rows that start a statement

A row of masked text holds code (`HasCode`) unless it is blank or a preprocessor line, and may end a
statement (`Ends`). A row of code starts a statement (`Starts`) if the nearest row of code before
it ended one and no parenthesis or square bracket waits inside the innermost brace. The last such
row before a row controls it (`Controls`).

The pass carries this in its state: `fresh_passAt` and `groupDepth_passAt`. -/

namespace Allman.Layout

open Pairing

/-! ### Rows of code -/

/-- The masked row is not blank, and its first byte that is no white space is no hash. -/
def HasCode (masked : Bytes) : Prop := ∃ b rest, masked.trimSpace = b :: rest ∧ b ≠ Byte.hash

/-- The masked row ends in a semicolon, a brace, or a colon that is not the second of two. -/
def Ends (masked : Bytes) : Prop :=
  ∃ before last, masked.trimTrailing = before ++ [last] ∧
    (last = Byte.semicolon ∨ last = Byte.openBrace ∨ last = Byte.closeBrace ∨
      last = Byte.colon ∧ before.getLast? ≠ some Byte.colon)

theorem exists_bytes_of_mem_decode : ∀ {s : Bytes} {r : Rune}, r ∈ Rune.decode s →
    ∃ b rest, r.bytes = b :: rest := by
  intro s
  fun_induction Rune.decode s with
  | case1 => intro r h; simp at h
  | case2 first rest code more _ ih =>
    intro r h
    rcases List.mem_cons.mp h with rfl | h
    · exact ⟨first, rest.take more, rfl⟩
    · exact ih h
  | case3 first rest _ ih =>
    intro r h
    rcases List.mem_cons.mp h with rfl | h
    · exact ⟨first, [], rfl⟩
    · exact ih h

theorem rdropWhile_cons_of_neg {α : Type} {p : α → Bool} {x : α} (h : p x = false) (xs : List α) :
    List.rdropWhile p (x :: xs) = x :: List.rdropWhile p xs := by
  unfold List.rdropWhile
  rw [List.reverse_cons, List.dropWhile_append]
  split
  · next hempty =>
    rw [List.isEmpty_iff.mp hempty, List.dropWhile_cons_of_neg (by simp [h])]
    rfl
  · rw [List.reverse_append]
    rfl

/-- The first byte of a text without the white space at its ends. -/
theorem head?_trimSpace (s : Bytes) : s.trimSpace.head? = s.firstCode? := by
  have hbytes : ∀ r ∈ (Rune.decode s).dropWhile Rune.isSpace, ∃ b rest, r.bytes = b :: rest :=
    fun r hr => exists_bytes_of_mem_decode ((List.dropWhile_sublist _).subset hr)
  have hhead := List.head?_dropWhile_not Rune.isSpace (Rune.decode s)
  unfold Bytes.firstCode?
  simp only [Bytes.trimSpace]
  generalize (Rune.decode s).dropWhile Rune.isSpace = runes at hbytes hhead
  match runes with
  | [] => rfl
  | r :: rs =>
    -- the first rune is no space, so it is still the first after trimming the end
    have hr : Rune.isSpace r = false := by simpa using hhead
    obtain ⟨b, rest, hb⟩ := hbytes r (by simp)
    have htrim : ((r :: rs).reverse.dropWhile Rune.isSpace).reverse =
        List.rdropWhile Rune.isSpace (r :: rs) := rfl
    rw [htrim, rdropWhile_cons_of_neg hr, List.flatMap_cons, hb, List.head?_cons,
      Option.bind_some, hb]
    rfl

theorem isCode_iff {masked : Bytes} : isCode masked = true ↔ HasCode masked := by
  unfold isCode HasCode
  rw [← head?_trimSpace]
  rcases masked.trimSpace with _ | ⟨b, rest⟩
  · simp
  · simp

theorem endsStatement_iff {masked : Bytes} : endsStatement masked = true ↔ Ends masked := by
  unfold endsStatement Ends
  rcases List.eq_nil_or_concat masked.trimTrailing with hnil | ⟨before, last, h⟩
  · rw [hnil]
    simp
  · rw [h, List.concat_eq_append, List.reverse_concat]
    simp only [List.head?_reverse, Bool.or_eq_true, Bool.and_eq_true, beq_iff_eq, bne_iff_ne]
    constructor
    · rintro (((hl | hl) | hl) | hl)
      · exact ⟨before, last, rfl, Or.inl hl⟩
      · exact ⟨before, last, rfl, Or.inr (Or.inl hl)⟩
      · exact ⟨before, last, rfl, Or.inr (Or.inr (Or.inl hl))⟩
      · exact ⟨before, last, rfl, Or.inr (Or.inr (Or.inr hl))⟩
    · rintro ⟨before', last', heq, hl⟩
      obtain ⟨rfl, hlast⟩ := List.append_inj' heq rfl
      obtain rfl := List.singleton_inj.mp hlast
      rcases hl with hl | hl | hl | hl
      · exact Or.inl (Or.inl (Or.inl hl))
      · exact Or.inl (Or.inl (Or.inr hl))
      · exact Or.inl (Or.inr hl)
      · exact Or.inr hl

/-! ### Rows that start a statement -/

/-- `text` is the nearest row of code before a row. -/
def LastCode (masked : List Bytes) (row : Nat) (text : Bytes) : Prop :=
  ∃ t < row, masked[t]? = some text ∧ HasCode text ∧
    ∀ t' text', t < t' → t' < row → masked[t']? = some text' → ¬ HasCode text'

/-- **The row starts a statement**: it holds code, the innermost bracket that is open at its start
is a brace, if there is one, and the nearest row of code before it, if there is one, ended a
statement. -/
structure Starts (masked : List Bytes) (row : Nat) : Prop where
  hasCode : ∃ text, masked[row]? = some text ∧ HasCode text
  noGroup : ∀ m, (waiting (marks (masked.take row))).head? = some m → m.byte = Byte.openBrace
  ended : ∀ text, LastCode masked row text → Ends text

/-- **Row `s` controls row `r`**: it is the last row before `r` that starts a statement. -/
structure Controls (masked : List Bytes) (s r : Nat) : Prop where
  lt : s < r
  starts : Starts masked s
  last : ∀ t, s < t → t < r → ¬ Starts masked t

variable {masked : List Bytes}

theorem not_lastCode_zero (text : Bytes) : ¬ LastCode masked 0 text := by
  rintro ⟨t, ht, -⟩
  exact absurd ht (Nat.not_lt_zero t)

theorem lastCode_succ_of_hasCode {row : Nat} {code text : Bytes} (h : masked[row]? = some code)
    (hcode : HasCode code) : LastCode masked (row + 1) text ↔ text = code := by
  constructor
  · rintro ⟨t, ht, htext, -, hlast⟩
    rcases Nat.lt_or_ge t row with hlt | hge
    · exact absurd hcode (hlast row code hlt (by omega) h)
    · rw [show t = row by omega, h, Option.some.injEq] at htext
      exact htext.symm
  · rintro rfl
    exact ⟨row, by omega, h, hcode, fun t' _ h1 h2 => by omega⟩

theorem lastCode_succ_of_not_hasCode {row : Nat} {blank text : Bytes}
    (h : masked[row]? = some blank) (hblank : ¬ HasCode blank) :
    LastCode masked (row + 1) text ↔ LastCode masked row text := by
  constructor
  · rintro ⟨t, ht, htext, hcode, hlast⟩
    rcases Nat.lt_or_ge t row with hlt | hge
    · exact ⟨t, hlt, htext, hcode, fun t' text' h1 h2 => hlast t' text' h1 (by omega)⟩
    · rw [show t = row by omega, h, Option.some.injEq] at htext
      exact absurd (htext ▸ hcode) hblank
  · rintro ⟨t, ht, htext, hcode, hlast⟩
    refine ⟨t, by omega, htext, hcode, fun t' text' h1 h2 h3 => ?_⟩
    rcases Nat.lt_or_ge t' row with hlt | hge
    · exact hlast t' text' h1 hlt h3
    · rw [show t' = row by omega, h, Option.some.injEq] at h3
      exact h3 ▸ hblank

/-- A row has at most one row that controls it. -/
theorem Controls.unique {s s' r : Nat} (h : Controls masked s r) (h' : Controls masked s' r) :
    s = s' := by
  rcases Nat.lt_trichotomy s s' with hlt | heq | hgt
  · exact absurd h'.starts (h.last s' hlt h'.lt)
  · exact heq
  · exact absurd h.starts (h'.last s hgt h.lt)

/-- A row has a row that controls it, or no row before it starts a statement. -/
theorem exists_controls (masked : List Bytes) : ∀ r : Nat,
    (∀ s < r, ¬ Starts masked s) ∨ ∃ s, Controls masked s r
  | 0 => Or.inl fun s hs => absurd hs (Nat.not_lt_zero s)
  | r + 1 => by
    by_cases hr : Starts masked r
    · exact Or.inr ⟨r, Nat.lt_succ_self r, hr, fun t h1 h2 => by omega⟩
    · rcases exists_controls masked r with hno | ⟨s, hs⟩
      · left
        intro s hs
        rcases Nat.eq_or_lt_of_le (Nat.le_of_lt_succ hs) with rfl | hlt
        · exact hr
        · exact hno s hlt
      · right
        refine ⟨s, Nat.lt_succ_of_lt hs.lt, hs.starts, fun t h1 h2 => ?_⟩
        rcases Nat.eq_or_lt_of_le (Nat.le_of_lt_succ h2) with rfl | hlt
        · exact hr
        · exact hs.last t h1 hlt

end Allman.Layout
