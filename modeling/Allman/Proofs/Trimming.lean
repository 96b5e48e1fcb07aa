import Allman.Proofs.Alike
import Allman.Proofs.Runes

/-! # Texts without the white space at the ends of their lines

White space at the end of a line is nearly never seen: it holds no bracket, no code and no end of a
statement, and masking reads the line as if it were not there (`maskLine_append`). The exception
is white space behind a backslash. Without it the backslash is the last byte of the line, and a
literal that is open there continues on the next line. `Conceals` singles out the rows where
this happens; a backslash in code or in a comment does no harm. Masking reads a row as the trimmed
row iff it is none of these (`maskLine_trimTrailing_iff`), and a text without such rows reads alike
without the white space (`alike_trim`). -/

namespace Allman

/-! ### What white space at the end does not hold -/

namespace Byte

theorem isTrailing_cases {b : UInt8} (h : isTrailing b = true) :
    b = space ∨ b = tab ∨ b = carriageReturn ∨ b = verticalTab ∨ b = formFeed := by
  simpa [isTrailing, or_assoc] using h

theorem lt_of_isTrailing {b : UInt8} (h : isTrailing b = true) : b < 0x80 := by
  rcases isTrailing_cases h with rfl | rfl | rfl | rfl | rfl <;> decide

end Byte

namespace Rune

theorem isSpace_of_mem_decode {tail : Bytes} (htail : ∀ b ∈ tail, Byte.isTrailing b = true) :
    ∀ r ∈ decode tail, isSpace r = true := by
  induction tail with
  | nil => intro r h; rw [decode] at h; simp at h
  | cons b tail ih =>
    intro r hr
    rw [decode_cons_of_lt (Byte.lt_of_isTrailing (htail b (by simp))), List.mem_cons] at hr
    rcases hr with rfl | hr
    · rcases Byte.isTrailing_cases (htail b (by simp)) with rfl | rfl | rfl | rfl | rfl <;> rfl
    · exact ih (fun c hc => htail c (by simp [hc])) r hr

end Rune

/-- White space at the end does not change the first byte of code. -/
theorem firstCode?_append (s : Bytes) {tail : Bytes}
    (htail : ∀ b ∈ tail, Byte.isTrailing b = true) :
    Bytes.firstCode? (s ++ tail) = s.firstCode? := by
  have hhead : ∀ b ∈ tail.head?, b < 0x80 := fun b hb =>
    Byte.lt_of_isTrailing (htail b (List.mem_of_mem_head? hb))
  have hnone : (Rune.decode tail).dropWhile Rune.isSpace = [] :=
    List.dropWhile_eq_nil_iff.mpr (Rune.isSpace_of_mem_decode htail)
  unfold Bytes.firstCode?
  rw [Rune.decode_append s hhead, List.dropWhile_append, hnone]
  split
  · next hempty => rw [List.isEmpty_iff.mp hempty]
  · next hne => rw [List.head?_append_of_ne_nil _ fun h => hne (List.isEmpty_iff.mpr h)]

namespace Layout

open Pairing

theorem hasCode_append (s : Bytes) {tail : Bytes} (htail : ∀ b ∈ tail, Byte.isTrailing b = true) :
    HasCode (s ++ tail) ↔ HasCode s := by
  rw [← isCode_iff, ← isCode_iff, isCode, isCode, firstCode?_append s htail]

theorem ends_append (s : Bytes) {tail : Bytes} (htail : ∀ b ∈ tail, Byte.isTrailing b = true) :
    Ends (s ++ tail) ↔ Ends s := by
  unfold Ends
  rw [Bytes.trimTrailing_append_of_all htail]

theorem rowMarks_append (row : Nat) {tail : Bytes}
    (htail : ∀ b ∈ tail, Byte.isTrailing b = true) : ∀ (s : Bytes) (col : Nat),
    rowMarks row col (s ++ tail) = rowMarks row col s
  | [], col => by
    induction tail generalizing col with
    | nil => rfl
    | cons b tail ih =>
      have hb : Bracket.isBracket b = false := by
        rcases Byte.isTrailing_cases (htail b (by simp)) with rfl | rfl | rfl | rfl | rfl <;> rfl
      have hcons : rowMarks row col (b :: tail) = rowMarks row (col + 1) tail :=
        if_neg (by simp [hb])
      rw [List.nil_append, hcons]
      exact ih (fun c hc => htail c (by simp [hc])) (col + 1)
  | b :: s, col => by
    rw [List.cons_append, rowMarks, rowMarks, rowMarks_append row htail s]

end Layout

/-! ### Masking does not see it -/

namespace Mask

/-- The lexeme when more follows it on the line. -/
def Lexeme.append (tail : Bytes) : Lexeme → Lexeme
  | .plain => .plain
  | .comment body after => .comment body (after ++ tail)
  | .openComment => .openComment
  | .lineComment => .lineComment
  | .literal q inside after => .literal q inside (after ++ tail)
  | .openLiteral q => .openLiteral q

theorem isTrailing_of_mem_blank {s : Bytes} {b : UInt8} (hb : b ∈ blank s) :
    Byte.isTrailing b = true := by
  rw [List.eq_of_mem_replicate hb]
  rfl

theorem blank_append (s t : Bytes) : blank (s ++ t) = blank s ++ blank t := by
  unfold blank
  rw [List.length_append, List.replicate_add]

/-- What follows a lexeme is an end of the line. -/
theorem suffix_of_lexeme {first : UInt8} {rest after : Bytes}
    (h : (∃ body, lexeme first rest = .comment body after) ∨
      ∃ q inside, lexeme first rest = .literal q inside after) : after <:+ rest := by
  unfold lexeme at h
  split at h
  · split at h
    · next second body =>
      split at h
      · split at h
        · next inside after' hcut =>
          simp only [Lexeme.comment.injEq, reduceCtorEq, exists_false, or_false] at h
          obtain ⟨-, -, rfl⟩ := h
          obtain ⟨inner, rfl, hclose, -⟩ := cutComment_eq_some_iff.mp hcut
          exact ⟨second :: inner ++ [Byte.star, Byte.slash], by rw [hclose]; simp⟩
        · simp at h
      · split at h
        · simp at h
        · simp at h
    · simp at h
  · split at h
    · simp at h
    · next q hq =>
      split at h
      · next inside after' hcut =>
        split at h
        · simp at h
        · simp only [Lexeme.literal.injEq, reduceCtorEq, exists_false, false_or] at h
          obtain ⟨-, -, -, -, rfl⟩ := h
          obtain ⟨-, rfl⟩ := cutLiteral_eq_some_iff.mp hcut
          exact ⟨inside ++ [q.byte], by simp⟩
      · split at h
        · simp at h
        · simp at h

theorem continues_of_suffix {s after : Bytes} (h : after <:+ s) (hafter : continues after = true) :
    continues s = true := by
  obtain ⟨before, rfl⟩ := h
  obtain ⟨inside, rfl⟩ := exists_concat_of_continues hafter
  rw [← List.append_assoc]
  exact continues_concat (before ++ inside)

theorem continues_of_lexeme {first : UInt8} {rest : Bytes} {q : Quote}
    (h : lexeme first rest = .openLiteral q) : continues rest = true := by
  unfold lexeme at h
  split at h
  · split at h
    · split at h
      · split at h
        · simp at h
        · simp at h
      · split at h
        · simp at h
        · simp at h
    · simp at h
  · split at h
    · simp at h
    · split at h
      · split at h
        · simp at h
        · simp at h
      · split at h
        · assumption
        · simp at h

/-- A literal that opens in a line is left open only if the line ends in a backslash. -/
theorem continues_of_maskCode {q : Quote} : ∀ s : Bytes, (maskCode s).2 = .literal q →
    continues s = true
  | [], h => by simp [maskCode_nil] at h
  | first :: rest, h => by
    have hcons := List.suffix_cons first rest
    rw [maskCode_cons] at h
    rcases hlex : lexeme first rest with _ | ⟨body, after⟩ | _ | _ | ⟨q', inside, after⟩ | q'
    · rw [hlex] at h
      exact continues_of_suffix hcons (continues_of_maskCode rest h)
    · rw [hlex] at h
      have hlt := lexeme_comment_length hlex
      have hafter := suffix_of_lexeme (Or.inl ⟨body, hlex⟩)
      exact continues_of_suffix (hafter.trans hcons) (continues_of_maskCode after h)
    · simp [hlex] at h
    · simp [hlex] at h
    · rw [hlex] at h
      have hlt := lexeme_literal_length hlex
      have hafter := suffix_of_lexeme (Or.inr ⟨q', inside, hlex⟩)
      exact continues_of_suffix (hafter.trans hcons) (continues_of_maskCode after h)
    · exact continues_of_suffix hcons (continues_of_lexeme hlex)
termination_by s => s.length

section Tail

variable {tail : Bytes} (htail : ∀ b ∈ tail, Byte.isTrailing b = true)
include htail

theorem not_mem_trailing {b : UInt8} (hb : Byte.isTrailing b = false) : b ∉ tail := by
  intro h
  rw [htail b h] at hb
  simp at hb

theorem cutComment_cons_trailing (a : UInt8) : cutComment (a :: tail) = none := by
  induction tail generalizing a with
  | nil => rfl
  | cons b tail ih =>
    rw [cutComment, if_neg, ih fun c hc => htail c (by simp [hc])]
    · rfl
    · rintro ⟨-, rfl⟩
      exact not_mem_trailing htail (by decide) List.mem_cons_self

theorem cutComment_append (s : Bytes) :
    cutComment (s ++ tail) = (cutComment s).map fun x => (x.1, x.2 ++ tail) := by
  fun_induction cutComment s with
  | case1 a b rest hab =>
    rw [List.cons_append, List.cons_append, cutComment, if_pos hab]
    rfl
  | case2 a b rest hab ih =>
    rw [List.cons_append, List.cons_append, cutComment, if_neg hab, ← List.cons_append, ih,
      Option.map_map, Option.map_map]
    rfl
  | case3 s hshort =>
    rcases s with _ | ⟨a, _ | ⟨b, rest⟩⟩
    · rcases tail with _ | ⟨b, tail⟩
      · rfl
      · exact cutComment_cons_trailing (fun c hc => htail c (by simp [hc])) b
    · exact cutComment_cons_trailing htail a
    · exact absurd rfl (hshort a b rest)

theorem cutLiteral_append (q : Quote) (s : Bytes) :
    cutLiteral q (s ++ tail) = (cutLiteral q s).map fun x => (x.1, x.2 ++ tail) := by
  have hquote : q.byte ∉ tail := not_mem_trailing htail (by cases q <;> decide)
  have hnone : ∀ t : Bytes, q.byte ∉ t → cutLiteral q t = none := by
    intro t ht
    rw [cutLiteral_eq_none_iff]
    rintro inside after - rfl
    exact ht (by simp)
  fun_induction cutLiteral q s with
  | case1 => exact hnone tail hquote
  | case2 => exact cutLiteral_quote q tail
  | case3 b hb =>
    refine hnone ([b] ++ tail) fun h => ?_
    rcases List.mem_append.mp h with h | h
    · exact hb (List.mem_singleton.mp h).symm
    · exact hquote h
  | case4 b rest ih =>
    rw [List.cons_append, List.cons_append, cutLiteral_escaped, ih, Option.map_map,
      Option.map_map]
    rfl
  | case5 b rest ha => exact cutLiteral_quote q (b :: rest ++ tail)
  | case6 a b rest ha hq ih =>
    rw [List.cons_append, cutLiteral_plain ha hq, ih, Option.map_map, Option.map_map]
    rfl

theorem continues_append {s : Bytes} (hs : continues s = false) :
    continues (s ++ tail) = false := by
  unfold continues at hs ⊢
  rw [beq_eq_false_iff_ne] at hs ⊢
  rw [List.getLast?_append]
  rcases hget : tail.getLast? with _ | b
  · exact hs
  · rw [Option.some_or, Ne, Option.some.injEq]
    rintro rfl
    exact not_mem_trailing htail (by decide) (List.mem_of_getLast? hget)

theorem blankOpen_append {s : Bytes} (hs : continues s = false) :
    blankOpen (s ++ tail) = blankOpen s ++ blank tail := by
  unfold blankOpen
  rw [continues_append htail hs, hs]
  exact blank_append s tail

theorem lexeme_append {first : UInt8} {rest : Bytes}
    (hopen : ∀ q, lexeme first rest ≠ .openLiteral q) :
    lexeme first (rest ++ tail) = (lexeme first rest).append tail := by
  by_cases hslash : first = Byte.slash
  · unfold lexeme
    rw [if_pos hslash, if_pos hslash]
    rcases rest with _ | ⟨second, body⟩
    · rcases tail with _ | ⟨b, tail⟩
      · rfl
      · have hstar : b ≠ Byte.star := by
          rintro rfl
          exact not_mem_trailing htail (by decide) List.mem_cons_self
        have hslash' : b ≠ Byte.slash := by
          rintro rfl
          exact not_mem_trailing htail (by decide) List.mem_cons_self
        simp [hstar, hslash', Lexeme.append]
    · rw [List.cons_append]
      dsimp only
      rw [cutComment_append htail]
      split
      · rcases cutComment body with _ | ⟨inside, after⟩
        · rfl
        · rfl
      · split
        · rfl
        · rfl
  · unfold lexeme at hopen ⊢
    rw [if_neg hslash] at hopen ⊢
    rw [if_neg hslash]
    rcases hquote : Quote.ofByte? first with _ | q
    · rfl
    · rw [hquote] at hopen
      dsimp only at hopen ⊢
      rw [cutLiteral_append htail]
      rcases hcut : cutLiteral q rest with _ | ⟨inside, after⟩
      · rw [hcut] at hopen
        have hrest : continues rest = false := by
          rw [Bool.eq_false_iff]
          exact fun h => hopen q (if_pos h)
        simp [continues_append htail hrest, hrest, Lexeme.append]
      · dsimp only [Option.map_some]
        split
        · rfl
        · rfl

theorem maskCode_trailing : maskCode tail = (tail, .code) := by
  induction tail with
  | nil => exact maskCode_nil
  | cons b tail ih =>
    have hplain : lexeme b tail = .plain := by
      unfold lexeme
      rcases Byte.isTrailing_cases (htail b (by simp)) with rfl | rfl | rfl | rfl | rfl <;> rfl
    rw [maskCode_cons, hplain]
    dsimp only
    rw [ih fun c hc => htail c (by simp [hc])]

/-- **White space at the end of code is masked as some white space**, and leaves the same mode. -/
theorem maskCode_append : ∀ s : Bytes, (∀ q, (maskCode s).2 ≠ .literal q) →
    ∃ tail', (∀ b ∈ tail', Byte.isTrailing b = true) ∧
      maskCode (s ++ tail) = ((maskCode s).1 ++ tail', (maskCode s).2)
  | [], _ => ⟨tail, htail, by rw [List.nil_append, maskCode_trailing htail, maskCode_nil]; rfl⟩
  | first :: rest, hopen => by
    have hlex' : ∀ q, lexeme first rest ≠ .openLiteral q := by
      intro q hlex
      refine hopen q ?_
      rw [maskCode_cons, hlex]
    rw [maskCode_cons] at hopen
    rw [List.cons_append, maskCode_cons, maskCode_cons, lexeme_append htail hlex']
    rcases hlex : lexeme first rest with _ | ⟨body, after⟩ | _ | _ | ⟨q, inside, after⟩ | q
    · rw [hlex] at hopen
      obtain ⟨tail', htail', heq⟩ := maskCode_append rest hopen
      exact ⟨tail', htail', by simp only [Lexeme.append, heq, List.cons_append]⟩
    · rw [hlex] at hopen
      have hlt := lexeme_comment_length hlex
      obtain ⟨tail', htail', heq⟩ := maskCode_append after hopen
      exact ⟨tail', htail', by simp only [Lexeme.append, heq, List.append_assoc]⟩
    · refine ⟨blank tail, fun b hb => isTrailing_of_mem_blank hb, ?_⟩
      simp only [Lexeme.append, ← List.cons_append, blank_append]
    · refine ⟨blank tail, fun b hb => isTrailing_of_mem_blank hb, ?_⟩
      simp only [Lexeme.append, ← List.cons_append, blank_append]
    · rw [hlex] at hopen
      have hlt := lexeme_literal_length hlex
      obtain ⟨tail', htail', heq⟩ := maskCode_append after hopen
      exact ⟨tail', htail', by simp only [Lexeme.append, heq, List.cons_append, List.append_assoc]⟩
    · exact absurd hlex (hlex' q)
termination_by s => s.length

/-- **White space at the end of a line is masked as some white space**, and leaves the same mode,
unless a literal is left open behind a backslash. -/
theorem maskLine_append {mode : Mode} {s : Bytes}
    (hopen : ∀ q, (maskLine mode s).2 = .literal q → continues s = false) :
    ∃ tail', (∀ b ∈ tail', Byte.isTrailing b = true) ∧
      maskLine mode (s ++ tail) = ((maskLine mode s).1 ++ tail', (maskLine mode s).2) := by
  have hblank : ∀ b ∈ blank tail, Byte.isTrailing b = true := fun b hb => isTrailing_of_mem_blank hb
  -- where the line goes on as code, the literal would have opened in it
  have hcode : ∀ after : Bytes, after <:+ s → (maskLine mode s).2 = (maskCode after).2 →
      ∀ q, (maskCode after).2 ≠ .literal q := by
    intro after hafter hmode q hq
    have hcont := continues_of_suffix hafter (continues_of_maskCode after hq)
    rw [hopen q (hmode.trans hq)] at hcont
    simp at hcont
  match mode with
  | .code => exact maskCode_append htail s (hcode s List.suffix_rfl rfl)
  | .comment =>
    simp only [maskLine, cutComment_append htail] at hcode ⊢
    rcases hcut : cutComment s with _ | ⟨inside, after⟩
    · exact ⟨blank tail, hblank, by simp only [Option.map_none, blank_append]⟩
    · rw [hcut] at hcode
      obtain ⟨body, hs, hclose, -⟩ := cutComment_eq_some_iff.mp hcut
      have hafter : after <:+ s := ⟨body ++ [Byte.star, Byte.slash], by rw [hclose]; simp⟩
      obtain ⟨tail', htail', heq⟩ := maskCode_append htail after (hcode after hafter rfl)
      exact ⟨tail', htail', by simp only [Option.map_some, heq, List.append_assoc]⟩
  | .literal q =>
    simp only [maskLine, cutLiteral_append htail] at hcode hopen ⊢
    rcases hcut : cutLiteral q s with _ | ⟨inside, after⟩
    · rw [hcut] at hopen
      exact ⟨blank tail, hblank, by simp only [Option.map_none, blankOpen_append htail (hopen q rfl)]⟩
    · rw [hcut] at hcode
      obtain ⟨-, hs⟩ := cutLiteral_eq_some_iff.mp hcut
      have hafter : after <:+ s := ⟨inside ++ [q.byte], by rw [hs]; simp⟩
      obtain ⟨tail', htail', heq⟩ := maskCode_append htail after (hcode after hafter rfl)
      refine ⟨tail', htail', ?_⟩
      simp only [Option.map_some, heq, List.cons_append, List.append_assoc]

end Tail

end Mask

/-! ### Rows that conceal how a literal goes on -/

open Mask

/-- White space stands behind the last backslash of the line, and nothing else does. -/
def HidesBackslash (line : Bytes) : Prop :=
  line.trimTrailing ≠ line ∧ line.trimTrailing.getLast? = some Byte.backslash

instance (line : Bytes) : Decidable (HidesBackslash line) := inferInstanceAs (Decidable (_ ∧ _))

/-- **White space conceals that a literal goes on**: it stands behind a backslash, and a literal is
open after the line that ends in this backslash. -/
def Conceals (mode : Mode) (line : Bytes) : Prop :=
  HidesBackslash line ∧ ∃ q, (maskLine mode line.trimTrailing).2 = .literal q

instance (mode : Mode) (line : Bytes) : Decidable (Conceals mode line) :=
  have hquote : (∃ q, (maskLine mode line.trimTrailing).2 = .literal q) ↔
      ∃ q ∈ [Quote.double, Quote.single], (maskLine mode line.trimTrailing).2 = .literal q :=
    ⟨fun ⟨q, hq⟩ => ⟨q, by cases q <;> simp, hq⟩, fun ⟨q, _, hq⟩ => ⟨q, hq⟩⟩
  decidable_of_iff (HidesBackslash line ∧
    ∃ q ∈ [Quote.double, Quote.single], (maskLine mode line.trimTrailing).2 = .literal q)
    (and_congr_right fun _ => hquote.symm)

theorem HidesBackslash.continues_trim {line : Bytes} (h : HidesBackslash line) :
    continues line.trimTrailing = true := by
  rw [continues, h.2]
  rfl

theorem HidesBackslash.not_continues {line : Bytes} (h : HidesBackslash line) :
    continues line = false := by
  obtain ⟨tail, hline, htail⟩ := line.exists_trimTrailing_append
  rw [Bool.eq_false_iff]
  intro hcont
  obtain ⟨inside, hinside⟩ := exists_concat_of_continues hcont
  -- a line that ends in a backslash has no white space to trim
  refine h.1 (Bytes.trimTrailing_eq_self_iff.mpr fun b hb => ?_)
  rw [hinside, List.getLast?_concat, Option.some.injEq] at hb
  rw [← hb]
  decide

theorem open_of_not_continues {mode : Mode} {s : Bytes} {q : Quote}
    (h : (maskLine mode s).2 = .literal q) (hs : continues s = false) :
    mode = .literal q ∧ cutLiteral q s = none := by
  have hcode : ∀ after : Bytes, after <:+ s → (maskCode after).2 ≠ .literal q := by
    intro after hafter hq
    rw [continues_of_suffix hafter (continues_of_maskCode after hq)] at hs
    simp at hs
  match mode with
  | .code => exact absurd h (hcode s List.suffix_rfl)
  | .comment =>
    rcases hcut : cutComment s with _ | ⟨inside, after⟩
    · simp [maskLine, hcut] at h
    · obtain ⟨body, hs', hclose, -⟩ := cutComment_eq_some_iff.mp hcut
      simp only [maskLine, hcut] at h
      exact absurd h (hcode after ⟨body ++ [Byte.star, Byte.slash], by rw [hclose]; simp⟩)
  | .literal q' =>
    rcases hcut : cutLiteral q' s with _ | ⟨inside, after⟩
    · simp only [maskLine, hcut, Mode.literal.injEq] at h
      exact ⟨by rw [h], h ▸ hcut⟩
    · obtain ⟨-, hs'⟩ := cutLiteral_eq_some_iff.mp hcut
      simp only [maskLine, hcut] at h
      exact absurd h (hcode after ⟨inside ++ [q'.byte], by rw [hs']; simp⟩)

/-- **Masking reads a line as the trimmed line iff it conceals nothing.** -/
theorem maskLine_trimTrailing_iff {mode : Mode} {line : Bytes} :
    (∃ tail, (∀ b ∈ tail, Byte.isTrailing b = true) ∧
      maskLine mode line = ((maskLine mode line.trimTrailing).1 ++ tail,
        (maskLine mode line.trimTrailing).2)) ↔ ¬ Conceals mode line := by
  obtain ⟨tail, hline, htail⟩ := line.exists_trimTrailing_append
  constructor
  · rintro ⟨tail', -, heq⟩ ⟨hhides, q, hq⟩
    have hmode : (maskLine mode line).2 = .literal q := by rw [heq]; exact hq
    obtain ⟨rfl, hcut⟩ := open_of_not_continues hmode hhides.not_continues
    have hcut' : cutLiteral q line.trimTrailing = none := by
      rw [hline, cutLiteral_append htail, Option.map_eq_none_iff] at hcut
      exact hcut
    -- the literal is open before the line, and only the trimmed line keeps the backslash
    have hmasked : blankOpen line = blankOpen line.trimTrailing ++ tail' := by
      have hfst := congrArg Prod.fst heq
      simpa only [maskLine, hcut, hcut'] using hfst
    obtain ⟨inside, hinside⟩ := exists_concat_of_continues hhides.continues_trim
    have hmem : Byte.backslash ∈ blankOpen line := by
      rw [hmasked, hinside, blankOpen_concat]
      simp
    rw [blankOpen, hhides.not_continues] at hmem
    exact absurd (List.eq_of_mem_replicate hmem) (by decide)
  · intro h
    by_cases heq : line.trimTrailing = line
    · exact ⟨[], by simp, by rw [heq, List.append_nil]⟩
    · have hopen : ∀ q, (maskLine mode line.trimTrailing).2 = .literal q →
          continues line.trimTrailing = false := by
        intro q hq
        rw [Bool.eq_false_iff]
        exact fun hcont => h ⟨⟨heq, beq_iff_eq.mp hcont⟩, q, hq⟩
      obtain ⟨tail', htail', hmask⟩ := maskLine_append htail hopen
      rw [← hline] at hmask
      exact ⟨tail', htail', hmask⟩

/-- **No row of the text conceals that a literal goes on.** -/
def Candid (lines : List Bytes) : Prop :=
  ∀ row line, lines[row]? = some line → ¬ Conceals (modeAt .code lines row) line

instance (lines : List Bytes) : Decidable (Candid lines) :=
  decidable_of_iff (∀ row, (h : row < lines.length) → ¬ Conceals (modeAt .code lines row) lines[row])
    ⟨fun hall row line hline => by
      obtain ⟨hrow, rfl⟩ := List.getElem?_eq_some_iff.mp hline
      exact hall row hrow, fun hall row hrow => hall row _ (List.getElem?_eq_getElem hrow)⟩

theorem candid_of_not_hidesBackslash {lines : List Bytes}
    (h : ∀ line ∈ lines, ¬ HidesBackslash line) : Candid lines :=
  fun _ line hline hconceals => h line (List.mem_of_getElem? hline) hconceals.1

theorem modeAt_trim {lines : List Bytes} (h : Candid lines) : ∀ row,
    modeAt .code (lines.map Bytes.trimTrailing) row = modeAt .code lines row
  | 0 => rfl
  | row + 1 => by
    have ih := modeAt_trim h row
    rcases hline : lines[row]? with _ | line
    · rw [modeAt_succ_of_none hline, modeAt_succ_of_none (by rw [List.getElem?_map, hline]; rfl), ih]
    · obtain ⟨tail, -, hmask⟩ := maskLine_trimTrailing_iff.mpr (h row line hline)
      rw [modeAt_succ hline, modeAt_succ (by rw [List.getElem?_map, hline]; rfl), ih, hmask]

namespace Layout

open Pairing

/-- **A text that conceals nothing reads alike without the white space at the ends of its lines.** -/
theorem alike_trim {lines : List Bytes} (h : Candid lines) :
    Alike id (maskLines lines) (maskLines (lines.map Bytes.trimTrailing)) := by
  have hrow : ∀ (row : Nat) (text text' : Bytes), (maskLines lines)[row]? = some text →
      (maskLines (lines.map Bytes.trimTrailing))[row]? = some text' →
      ∃ tail, (∀ b ∈ tail, Byte.isTrailing b = true) ∧ text = text' ++ tail := by
    intro row text text' htext htext'
    obtain ⟨line, hline, -⟩ := veils_maskLines htext
    have hline' : (lines.map Bytes.trimTrailing)[row]? = some line.trimTrailing := by
      rw [List.getElem?_map, hline]
      rfl
    obtain ⟨tail, htail, hmask⟩ := maskLine_trimTrailing_iff.mpr (h row line hline)
    rw [maskLines_getElem? hline, hmask, Option.some.injEq] at htext
    rw [maskLines_getElem? hline', modeAt_trim h, Option.some.injEq] at htext'
    exact ⟨tail, htail, by rw [← htext, ← htext']⟩
  refine ⟨by simp, fun row text text' htext htext' => ?_, fun row text text' htext htext' => ?_,
    fun row text text' htext htext' => ?_⟩
  · obtain ⟨tail, htail, rfl⟩ := hrow row text text' htext htext'
    exact (hasCode_append text' htail).symm
  · obtain ⟨tail, htail, rfl⟩ := hrow row text text' htext htext'
    exact (ends_append text' htail).symm
  · obtain ⟨tail, htail, rfl⟩ := hrow row text text' htext htext'
    rw [rowMarks_append row htail, List.map_id]

theorem carries_id : Carries id := ⟨fun _ => rfl, fun _ => rfl⟩

/-! ### Columns in such a text -/

/-- The leading spaces of a trimmed line end before its last byte. -/
theorem leadingSpaces_trimTrailing_lt {s : Bytes} (h : s.trimTrailing ≠ []) :
    s.trimTrailing.leadingSpaces < s.trimTrailing.length := by
  have hle := s.trimTrailing.leadingSpaces_le_length
  have hidem := s.trimTrailing_trimTrailing
  rw [Bytes.trimTrailing_eq_self_iff] at hidem
  have hlast := hidem _ (List.getLast?_eq_some_getLast h)
  by_contra hge
  have htake := s.trimTrailing.take_leadingSpaces
  rw [List.take_of_length_le (by omega)] at htake
  have hmem : s.trimTrailing.getLast h ∈ List.replicate s.trimTrailing.leadingSpaces Byte.space :=
    htake ▸ List.getLast_mem h
  rw [List.eq_of_mem_replicate hmem] at hlast
  exact absurd hlast (by decide)

theorem leadingSpaces_trimTrailing {s : Bytes} (h : s.trimTrailing ≠ []) :
    s.trimTrailing.leadingSpaces = s.leadingSpaces := by
  have hlt := leadingSpaces_trimTrailing_lt h
  obtain ⟨tail, hs, -⟩ := s.exists_trimTrailing_append
  generalize s.trimTrailing = body at hlt hs
  subst hs
  unfold Bytes.leadingSpaces at hlt ⊢
  rw [List.takeWhile_append, if_neg (by omega)]

/-- A trimmed line that is not empty begins as the line does. -/
theorem getElem?_leadingSpaces_trimTrailing {s : Bytes} (h : s.trimTrailing ≠ []) :
    s.trimTrailing[s.trimTrailing.leadingSpaces]? = s[s.leadingSpaces]? := by
  have hlt := leadingSpaces_trimTrailing_lt h
  obtain ⟨tail, hs, -⟩ := s.exists_trimTrailing_append
  have hget : (s.trimTrailing ++ tail)[s.trimTrailing.leadingSpaces]? =
      s.trimTrailing[s.trimTrailing.leadingSpaces]? := List.getElem?_append_left hlt
  rw [← hs, leadingSpaces_trimTrailing h] at hget
  rw [leadingSpaces_trimTrailing h, hget]

variable {lines masked : List Bytes}

theorem getD_map_trimTrailing (row : Nat) :
    (lines.map Bytes.trimTrailing).getD row [] = (lines.getD row []).trimTrailing := by
  rw [List.getD_eq_getElem?_getD, List.getD_eq_getElem?_getD, List.getElem?_map]
  rcases lines[row]? with _ | line
  · rfl
  · rfl

theorem trimTrailing_ne_nil_of_getElem? {s : Bytes} {col : Nat} {b : UInt8}
    (h : s[col]? = some b) (hb : Byte.isTrailing b = false) : s.trimTrailing ≠ [] := by
  rw [Ne, Bytes.trimTrailing_eq_nil_iff]
  intro hall
  rw [hall b (List.mem_of_getElem? h)] at hb
  simp at hb

theorem isTrailing_of_isBracket {b : UInt8} (h : Bracket.isBracket b = true) :
    Byte.isTrailing b = false := by
  rw [Bool.eq_false_iff]
  intro hb
  rcases Byte.isTrailing_cases hb with rfl | rfl | rfl | rfl | rfl <;> exact absurd h (by decide)

/-- The same brackets are first in their lines. -/
theorem first_trim (hfit : Fits lines masked) {m : Mark} (hm : m ∈ marks masked) :
    First (lines.map Bytes.trimTrailing) m ↔ First lines m := by
  obtain ⟨line, hline, hbyte, -⟩ := hfit.getElem? hm
  obtain ⟨-, -, -, hbracket⟩ := mem_marks.mp hm
  have hne := trimTrailing_ne_nil_of_getElem? hbyte (isTrailing_of_isBracket hbracket)
  rw [first_iff, first_iff, getD_map_trimTrailing, getD_of_getElem? hline,
    leadingSpaces_trimTrailing hne]

theorem trimTrailing_ne_nil_of_hasCode (hfit : Fits lines masked) {row : Nat} {text : Bytes}
    (htext : masked[row]? = some text) (hcode : HasCode text) :
    (lines.getD row []).trimTrailing ≠ [] := by
  obtain ⟨line, hline, hveils⟩ := hfit.veils row text htext
  rw [getD_of_getElem? hline]
  intro hnil
  -- nothing but white space would stand in the masked row
  have htrail : ∀ b ∈ text, Byte.isTrailing b = true := by
    intro b hb
    obtain ⟨col, hcol⟩ := List.mem_iff_getElem?.mp hb
    by_cases hspace : b = Byte.space
    · rw [hspace]
      rfl
    · exact Bytes.trimTrailing_eq_nil_iff.mp hnil b
        (List.mem_of_getElem? (hveils.getElem? hcol hspace))
  have hempty : HasCode ([] ++ text) ↔ HasCode [] := hasCode_append [] htrail
  obtain ⟨b, rest, hb, -⟩ := hempty.mp hcode
  rw [show Bytes.trimSpace [] = [] by rw [Bytes.trimSpace, Rune.decode]; rfl] at hb
  simp at hb

/-- A row of code keeps its leading spaces. -/
theorem leadingSpaces_trim_of_hasCode (hfit : Fits lines masked) {row : Nat} {text : Bytes}
    (htext : masked[row]? = some text) (hcode : HasCode text) :
    Bytes.leadingSpaces ((lines.map Bytes.trimTrailing).getD row []) =
      (lines.getD row []).leadingSpaces := by
  rw [getD_map_trimTrailing]
  exact leadingSpaces_trimTrailing (trimTrailing_ne_nil_of_hasCode hfit htext hcode)

/-- A row of code begins with the same byte. -/
theorem beginsClosing_trim_of_hasCode (hfit : Fits lines masked) {row : Nat} {text : Bytes}
    (htext : masked[row]? = some text) (hcode : HasCode text) :
    BeginsClosing (lines.map Bytes.trimTrailing) row ↔ BeginsClosing lines row := by
  unfold BeginsClosing
  rw [getD_map_trimTrailing,
    getElem?_leadingSpaces_trimTrailing (trimTrailing_ne_nil_of_hasCode hfit htext hcode)]

end Layout

end Allman
