import Allman.Preserved
import Allman.Reformat
import Mathlib.Data.List.DropRight

/-! # Lines: their ends, splitting and writing out

What the two ends of a line are made of, and how a text and its lines determine each other.

* `trimTrailing_drop`: dropping bytes at the start of a line and white space at its end commute.
* `blankBefore_iff`: a column has only spaces before it iff it lies within the leading spaces.
* `splitLines_flatMap`: lines that are written out, each with a newline, are found again.
* `rows_eq_splitLines`: the checker finds the same lines as the formatter. -/

namespace Allman

namespace Bytes

/-! ### Trailing white space -/

theorem trimTrailing_eq_rdropWhile (s : Bytes) :
    s.trimTrailing = List.rdropWhile Byte.isTrailing s := rfl

theorem trimTrailing_prefix (s : Bytes) : s.trimTrailing <+: s := List.rdropWhile_prefix _ s

@[simp] theorem trimTrailing_trimTrailing (s : Bytes) :
    s.trimTrailing.trimTrailing = s.trimTrailing :=
  List.rdropWhile_idempotent _ s

theorem mem_of_mem_trimTrailing {s : Bytes} {b : UInt8} (h : b ∈ s.trimTrailing) : b ∈ s :=
  s.trimTrailing_prefix.subset h

/-- A line is what is left of it and the white space that is trimmed. -/
theorem exists_trimTrailing_append (s : Bytes) :
    ∃ tail, s = s.trimTrailing ++ tail ∧ ∀ b ∈ tail, Byte.isTrailing b = true :=
  ⟨List.rtakeWhile Byte.isTrailing s, List.rdropWhile_append_rtakeWhile.symm,
    fun _ hb => List.mem_rtakeWhile_imp hb⟩

theorem trimTrailing_append_of_all {s tail : Bytes} (h : ∀ b ∈ tail, Byte.isTrailing b = true) :
    (s ++ tail).trimTrailing = s.trimTrailing := by
  induction tail using List.reverseRecOn with
  | nil => rw [List.append_nil]
  | append_singleton tail b ih =>
    rw [← List.append_assoc, trimTrailing_eq_rdropWhile,
      List.rdropWhile_concat_pos _ _ _ (h b (by simp)), ← trimTrailing_eq_rdropWhile]
    exact ih fun c hc => h c (by simp [hc])

theorem trimTrailing_eq_nil_iff {s : Bytes} :
    s.trimTrailing = [] ↔ ∀ b ∈ s, Byte.isTrailing b = true := List.rdropWhile_eq_nil_iff

theorem trimTrailing_eq_self_iff {s : Bytes} :
    s.trimTrailing = s ↔ ∀ b, s.getLast? = some b → Byte.isTrailing b = false := by
  rw [trimTrailing_eq_rdropWhile, List.rdropWhile_eq_self_iff]
  constructor
  · intro h b hb
    have hs : s ≠ [] := by rintro rfl; simp at hb
    rw [List.getLast?_eq_some_getLast hs, Option.some.injEq] at hb
    rw [← hb]
    exact Bool.eq_false_iff.mpr (h hs)
  · intro h hs
    rw [h _ (List.getLast?_eq_some_getLast hs)]
    exact Bool.false_ne_true

/-- **Dropping bytes at the start and white space at the end commute.** -/
theorem trimTrailing_drop (s : Bytes) (k : Nat) :
    trimTrailing (s.drop k) = s.trimTrailing.drop k := by
  obtain ⟨tail, hs, htail⟩ := s.exists_trimTrailing_append
  have hidem := s.trimTrailing_trimTrailing
  generalize s.trimTrailing = body at hs hidem
  subst hs
  rw [List.drop_append]
  rw [trimTrailing_append_of_all fun b hb => htail b (List.mem_of_mem_drop hb)]
  rw [trimTrailing_eq_self_iff] at hidem ⊢
  intro b hb
  rw [List.getLast?_drop] at hb
  split at hb
  · simp at hb
  · exact hidem b hb

/-! ### Leading spaces -/

theorem leadingSpaces_le_length (s : Bytes) : s.leadingSpaces ≤ s.length :=
  (List.takeWhile_sublist _).length_le

theorem take_leadingSpaces (s : Bytes) :
    s.take s.leadingSpaces = List.replicate s.leadingSpaces Byte.space := by
  have htake : s.take s.leadingSpaces = s.takeWhile (· == Byte.space) :=
    (List.prefix_iff_eq_take.mp (List.takeWhile_prefix _)).symm
  rw [htake]
  refine List.eq_replicate_iff.mpr ⟨rfl, fun b hb => ?_⟩
  exact beq_iff_eq.mp (List.mem_takeWhile_imp (p := fun c => c == Byte.space) hb)

theorem take_of_le_leadingSpaces {s : Bytes} {k : Nat} (h : k ≤ s.leadingSpaces) :
    s.take k = List.replicate k Byte.space := by
  have := congrArg (List.take k) s.take_leadingSpaces
  rwa [List.take_take, List.take_replicate, Nat.min_eq_left h] at this

theorem le_leadingSpaces_of_take {s : Bytes} {k : Nat}
    (h : s.take k = List.replicate k Byte.space) : k ≤ s.leadingSpaces := by
  have hpre : List.replicate k Byte.space <+: s := h ▸ List.take_prefix k s
  obtain ⟨rest, rfl⟩ := hpre
  unfold leadingSpaces
  rw [List.takeWhile_append_of_pos fun b hb => by rw [List.eq_of_mem_replicate hb]; rfl]
  simp

theorem le_leadingSpaces_of_spaces {s : Bytes} {k : Nat} (h : ∀ b ∈ s.take k, b = Byte.space)
    (hk : k ≤ s.length) : k ≤ s.leadingSpaces :=
  le_leadingSpaces_of_take
    (List.eq_replicate_iff.mpr ⟨by rw [List.length_take, Nat.min_eq_left hk], h⟩)

/-- **A column has only spaces before it iff it lies within the leading spaces.** -/
theorem blankBefore_iff {s : Bytes} {col : Nat} :
    s.blankBefore col = true ↔ col ≤ s.leadingSpaces := by
  unfold blankBefore
  rw [Bool.and_eq_true, decide_eq_true_eq, List.all_eq_true]
  constructor
  · rintro ⟨hlen, hall⟩
    exact le_leadingSpaces_of_spaces (fun b hb => beq_iff_eq.mp (hall b hb)) hlen
  · intro h
    refine ⟨h.trans s.leadingSpaces_le_length, fun b hb => ?_⟩
    rw [take_of_le_leadingSpaces h] at hb
    rw [List.eq_of_mem_replicate hb]
    rfl

/-- The byte after the leading spaces is no space. -/
theorem leadingSpaces_eq_iff {s : Bytes} {k : Nat} {b : UInt8} (hb : s[k]? = some b)
    (hne : b ≠ Byte.space) : s.leadingSpaces = k ↔ k ≤ s.leadingSpaces := by
  refine ⟨fun h => h.ge, fun h => Nat.le_antisymm ?_ h⟩
  by_contra hlt
  have hk : k < s.leadingSpaces := by omega
  have h1 : (s.take s.leadingSpaces)[k]? = some b := by rw [List.getElem?_take, if_pos hk, hb]
  rw [take_leadingSpaces, List.getElem?_replicate, if_pos hk, Option.some.injEq] at h1
  exact hne h1.symm

theorem leadingSpaces_drop {s : Bytes} {k : Nat} (h : k ≤ s.leadingSpaces) :
    leadingSpaces (s.drop k) = s.leadingSpaces - k := by
  have hs : s = List.replicate k Byte.space ++ s.drop k := by
    rw [← take_of_le_leadingSpaces h, List.take_append_drop]
  have hlen : s.leadingSpaces = k + leadingSpaces (s.drop k) := by
    conv_lhs => rw [hs]
    unfold leadingSpaces
    rw [List.takeWhile_append_of_pos fun b hb => by rw [List.eq_of_mem_replicate hb]; rfl]
    simp
  omega

/-! ### Splitting -/

theorem splitOn_ne_nil (sep : UInt8) : ∀ s : Bytes, splitOn sep s ≠ []
  | [] => by simp [splitOn]
  | b :: s => by
    unfold splitOn
    split
    · simp
    · split
      · simp
      · simp

/-- The pieces of a text, each with the separator, are the text with the separator. -/
theorem flatMap_splitOn (sep : UInt8) : ∀ s : Bytes,
    (splitOn sep s).flatMap (· ++ [sep]) = s ++ [sep]
  | [] => rfl
  | b :: s => by
    have ih := flatMap_splitOn sep s
    unfold splitOn
    split
    · next hb =>
      rw [List.flatMap_cons, ih, hb]
      rfl
    · obtain ⟨piece, more, hs⟩ := List.exists_cons_of_ne_nil (splitOn_ne_nil sep s)
      rw [hs, List.flatMap_cons] at ih
      rw [hs]
      dsimp only
      rw [List.flatMap_cons, List.cons_append, List.cons_append, ih, List.cons_append]

theorem not_mem_of_mem_splitOn {sep : UInt8} : ∀ {s piece : Bytes},
    piece ∈ splitOn sep s → sep ∉ piece
  | [], piece, h => by
    simp only [splitOn, List.mem_singleton] at h
    simp [h]
  | b :: rest, piece, h => by
    unfold splitOn at h
    split at h
    · rcases List.mem_cons.mp h with rfl | h
      · simp
      · exact not_mem_of_mem_splitOn h
    · next hb =>
      split at h
      · rw [List.mem_singleton.mp h, List.mem_singleton]
        exact fun hs => hb hs.symm
      · next first more heq =>
        rcases List.mem_cons.mp h with rfl | h
        · have hfirst : sep ∉ first := not_mem_of_mem_splitOn (s := rest) (by rw [heq]; simp)
          simp only [List.mem_cons, not_or]
          exact ⟨fun hs => hb hs.symm, hfirst⟩
        · exact not_mem_of_mem_splitOn (s := rest) (by rw [heq]; simp [h])

/-- The separator ends a piece that does not hold it. -/
theorem splitOn_append_cons {sep : UInt8} : ∀ {piece : Bytes} (_ : sep ∉ piece) (rest : Bytes),
    splitOn sep (piece ++ sep :: rest) = piece :: splitOn sep rest
  | [], _, rest => by simp [splitOn]
  | b :: piece, h, rest => by
    simp only [List.mem_cons, not_or] at h
    rw [List.cons_append, splitOn, if_neg fun hb => h.1 hb.symm, splitOn_append_cons h.2 rest]

theorem splitOn_of_not_mem {sep : UInt8} : ∀ {piece : Bytes}, sep ∉ piece →
    splitOn sep piece = [piece]
  | [], _ => rfl
  | b :: piece, h => by
    simp only [List.mem_cons, not_or] at h
    rw [splitOn, if_neg fun hb => h.1 hb.symm, splitOn_of_not_mem h.2]

theorem cutSuffix?_eq_some_iff {s suffix before : Bytes} :
    s.cutSuffix? suffix = some before ↔ s = before ++ suffix := by
  unfold cutSuffix?
  constructor
  · intro h
    split at h
    · next hsuffix =>
      obtain ⟨pre, rfl⟩ := List.isSuffixOf_iff_suffix.mp hsuffix
      rw [List.length_append, Nat.add_sub_cancel, List.take_left, Option.some.injEq] at h
      rw [h]
    · simp at h
  · rintro rfl
    rw [if_pos (List.isSuffixOf_iff_suffix.mpr (List.suffix_append _ _)), List.length_append,
      Nat.add_sub_cancel, List.take_left]

end Bytes

/-! ### Lines of a text -/

theorem newline_not_mem_of_mem_splitLines {content line : Bytes} (h : line ∈ splitLines content) :
    Byte.newline ∉ line := by
  unfold splitLines at h
  split at h
  · simp at h
  · exact Bytes.not_mem_of_mem_splitOn h

theorem splitLines_append_newline (s : Bytes) :
    splitLines (s ++ [Byte.newline]) = Bytes.splitOn Byte.newline s := by
  unfold splitLines
  rw [List.getLast?_concat]
  simp only [↓reduceIte, List.dropLast_concat]

/-- **Lines that are written out are found again.** -/
theorem splitLines_flatMap : ∀ {rows : List Bytes}, (∀ row ∈ rows, Byte.newline ∉ row) →
    splitLines (rows.flatMap (· ++ [Byte.newline])) = rows
  | [], _ => rfl
  | [row], h => by
    rw [List.flatMap_singleton, splitLines_append_newline,
      Bytes.splitOn_of_not_mem (h row (by simp))]
  | row :: next :: rows, h => by
    have ih : splitLines ((next :: rows).flatMap (· ++ [Byte.newline])) = next :: rows :=
      splitLines_flatMap fun r hr => h r (by simp [hr])
    -- the text of the later rows ends in a newline, so that of all rows does
    obtain ⟨body, hbody⟩ : ∃ body, (next :: rows).flatMap (· ++ [Byte.newline]) =
        body ++ [Byte.newline] := by
      rw [← List.dropLast_concat_getLast (l := next :: rows) (by simp), List.flatMap_append,
        List.flatMap_singleton, ← List.append_assoc]
      exact ⟨_, rfl⟩
    rw [hbody, splitLines_append_newline] at ih
    rw [List.flatMap_cons, hbody, ← List.append_assoc, splitLines_append_newline,
      List.append_assoc, List.singleton_append, Bytes.splitOn_append_cons (h row (by simp)), ih]

theorem render_eq_flatMap (lines : List Bytes) :
    render lines = (lines.map Bytes.trimTrailing).flatMap (· ++ [Byte.newline]) := by
  rw [List.flatMap_map]; rfl

theorem splitLines_render {lines : List Bytes} (h : ∀ line ∈ lines, Byte.newline ∉ line) :
    splitLines (render lines) = lines.map Bytes.trimTrailing := by
  rw [render_eq_flatMap]
  refine splitLines_flatMap fun row hrow => ?_
  obtain ⟨line, hline, rfl⟩ := List.mem_map.mp hrow
  exact fun hmem => h line hline (Bytes.mem_of_mem_trimTrailing hmem)

/-- **The checker finds the same lines as the formatter.** -/
theorem rows_eq_splitLines (s : Bytes) : Preserved.rows s = splitLines s := by
  rcases List.eq_nil_or_concat s with rfl | ⟨body, last, rfl⟩
  · rfl
  · rw [List.concat_eq_append]
    unfold Preserved.rows splitLines
    rw [if_neg (by simp), List.getLast?_concat]
    simp only [List.dropLast_concat]
    congr 1
    by_cases hlast : last = Byte.newline
    · subst hlast
      rw [if_pos rfl, Bytes.cutSuffix?_eq_some_iff.mpr rfl, Option.getD_some]
    · rw [if_neg hlast]
      rcases hcut : Bytes.cutSuffix? (body ++ [last]) [Byte.newline] with _ | pre
      · rfl
      · have := congrArg List.getLast? (Bytes.cutSuffix?_eq_some_iff.mp hcut)
        rw [List.getLast?_concat, List.getLast?_concat, Option.some.injEq] at this
        exact absurd this hlast

end Allman
