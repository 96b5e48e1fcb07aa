import Allman.Unicode.Rune
import Mathlib.Tactic.SplitIfs

/-! # Where characters end

Behind its first byte a character has no ASCII byte (`exists_tail_of_sequence?`). So an ASCII byte is
always read on its own (`decode_cons_of_lt`), and a text that goes on with one is read in two parts
(`decode_append`). -/

namespace Allman.Rune

/-! ### The bytes behind the first -/

theorem le_secondRange (first : UInt8) : 0x80 ≤ (secondRange first).1 := by
  unfold secondRange
  repeat' split
  all_goals decide

theorem le_of_isContinuation {b : UInt8} (h : isContinuation b = true) : 0x80 ≤ b := by
  unfold isContinuation at h
  rw [Bool.and_eq_true, decide_eq_true_eq] at h
  exact h.1

theorem le_of_fits {first b : UInt8}
    (h : ((secondRange first).1 ≤ b && b ≤ (secondRange first).2) = true) : 0x80 ≤ b := by
  rw [Bool.and_eq_true, decide_eq_true_eq] at h
  exact UInt8.le_trans (le_secondRange first) h.1

/-- **Behind its first byte a sequence has no ASCII byte.** -/
theorem exists_tail_of_sequence? {first : UInt8} {rest : Bytes} {code more : Nat}
    (h : sequence? first rest = some (code, more)) :
    ∃ tail after, rest = tail ++ after ∧ tail.length = more ∧ ∀ b ∈ tail, 0x80 ≤ b := by
  unfold sequence? at h
  dsimp only at h
  split_ifs at h
  · simp only [Option.some.injEq, Prod.mk.injEq] at h
    exact ⟨[], rest, rfl, h.2, by simp⟩
  -- two, three and four bytes
  · split at h
    · next b after =>
      split_ifs at h with hfits
      simp only [Option.some.injEq, Prod.mk.injEq] at h
      exact ⟨[b], after, rfl, h.2, by simpa using le_of_isContinuation hfits⟩
    · simp at h
  · split at h
    · next b c after =>
      split_ifs at h with hfits
      simp only [Option.some.injEq, Prod.mk.injEq] at h
      rw [Bool.and_eq_true] at hfits
      exact ⟨[b, c], after, rfl, h.2,
        by simpa using ⟨le_of_fits hfits.1, le_of_isContinuation hfits.2⟩⟩
    · simp at h
  · split at h
    · next b c d after =>
      split_ifs at h with hfits
      simp only [Option.some.injEq, Prod.mk.injEq] at h
      rw [Bool.and_eq_true, Bool.and_eq_true] at hfits
      exact ⟨[b, c, d], after, rfl, h.2, by
        simpa using
          ⟨le_of_fits hfits.1.1, le_of_isContinuation hfits.1.2, le_of_isContinuation hfits.2⟩⟩
    · simp at h

theorem le_of_mem_sequence? {first : UInt8} {rest : Bytes} {code more : Nat}
    (h : sequence? first rest = some (code, more)) : ∀ b ∈ rest.take more, 0x80 ≤ b := by
  obtain ⟨tail, after, rfl, rfl, htail⟩ := exists_tail_of_sequence? h
  rwa [List.take_left]

theorem le_length_of_sequence? {first : UInt8} {rest : Bytes} {code more : Nat}
    (h : sequence? first rest = some (code, more)) : more ≤ rest.length := by
  obtain ⟨tail, after, rfl, rfl, -⟩ := exists_tail_of_sequence? h
  simp

/-- **The runes of a text hold its bytes**, in order. -/
theorem flatMap_bytes_decode (s : Bytes) : (decode s).flatMap bytes = s := by
  fun_induction decode s with
  | case1 => rfl
  | case2 first rest code more _ ih =>
    rw [List.flatMap_cons, ih, bytes, List.cons_append, List.take_append_drop]
  | case3 first rest _ ih =>
    rw [List.flatMap_cons, ih, bytes, List.singleton_append]

/-! ### ASCII bytes -/

theorem sequence?_of_lt {first : UInt8} (h : first < 0x80) (rest : Bytes) :
    sequence? first rest = some (first.toNat, 0) := if_pos h

/-- An ASCII byte is read on its own. -/
theorem decode_cons_of_lt {b : UInt8} (h : b < 0x80) (rest : Bytes) :
    decode (b :: rest) = .char b.toNat [b] :: decode rest := by
  rw [decode, sequence?_of_lt h]
  rfl

/-- An ASCII byte ends the sequence before it. -/
theorem sequence?_append (first : UInt8) (rest : Bytes) {tail : Bytes}
    (htail : ∀ b ∈ tail.head?, b < 0x80) :
    sequence? first (rest ++ tail) = sequence? first rest := by
  rcases tail with _ | ⟨b, tail⟩
  · rw [List.append_nil]
  · have hb : b < 0x80 := htail b rfl
    have hcont : isContinuation b = false :=
      Bool.eq_false_iff.mpr fun h => UInt8.not_le.mpr hb (le_of_isContinuation h)
    have hfits : ((secondRange first).1 ≤ b && b ≤ (secondRange first).2) = false :=
      Bool.eq_false_iff.mpr fun h => UInt8.not_le.mpr hb (le_of_fits h)
    unfold sequence?
    -- a sequence that the text cuts short would take `b`, which is part of none
    rcases rest with _ | ⟨x, _ | ⟨y, _ | ⟨z, rest⟩⟩⟩
    · rcases tail with _ | ⟨c, _ | ⟨d, tail⟩⟩ <;> simp [hcont, hfits]
    · rcases tail with _ | ⟨c, tail⟩ <;> simp [hcont]
    · simp [hcont]
    · rfl

/-- **A text that goes on with an ASCII byte is read in two parts.** -/
theorem decode_append (s : Bytes) {tail : Bytes} (htail : ∀ b ∈ tail.head?, b < 0x80) :
    decode (s ++ tail) = decode s ++ decode tail := by
  fun_induction decode s with
  | case1 => rfl
  | case2 first rest code more hseq ih =>
    have hmore := le_length_of_sequence? hseq
    rw [List.cons_append, decode, sequence?_append first rest htail, hseq]
    dsimp only
    rw [List.take_append_of_le_length hmore, List.drop_append_of_le_length hmore, ih,
      List.cons_append]
  | case3 first rest hseq ih =>
    rw [List.cons_append, decode, sequence?_append first rest htail, hseq, ih, List.cons_append]

end Allman.Rune
