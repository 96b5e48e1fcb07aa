import Allman.Proofs.Masking

/-! # Masking a masked text

A masked line is masked as it is (`maskLine_maskLine`). Its comments are gone, so that the second
reading is never inside one (`Mode.uncommented`); all else is read as before. The point is a quote
that is ordinary code because nothing ends a literal there. Nothing in the masked text may end it
either, although masking takes backslashes away. This holds since every comment and every other
literal ends with a byte that is no backslash: behind it, whoever looks for the end of a literal
stands at the same place in the text and in the masked text (`Segments.lookout`).

A slash of a masked line is a byte of code where no comment starts, and what follows it is kept or
blank, so that no comment starts there in the masked line either (`not_opensComment_maskLine`).
`maskLines_maskLines` puts the two together. -/

namespace Allman

/-- What is open when a masked text is read: its comments are gone. -/
def Mode.uncommented : Mode → Mode
  | comment => code
  | mode => mode

namespace Mask

/-! ### Looking for the end of a literal -/

/-- Where somebody stands who looks for the end of a literal. -/
inductive Lookout where
  /-- In the literal. -/
  | within
  /-- In the literal, behind a backslash that escapes the next byte. -/
  | escaped
  /-- Behind the quote that ends it. -/
  | ended
  deriving DecidableEq, Repr

namespace Lookout

/-- Passes one byte. -/
def next (q : Quote) : Lookout → UInt8 → Lookout
  | ended, _ => ended
  | escaped, _ => within
  | within, b => if b = Byte.backslash then escaped else if b = q.byte then ended else within

variable {q : Quote}

theorem foldl_ended : ∀ s : Bytes, s.foldl (next q) ended = ended
  | [] => rfl
  | _ :: s => foldl_ended s

theorem next_within (q : Quote) (b : UInt8) : within.next q b =
    if b = Byte.backslash then escaped else if b = q.byte then ended else within := rfl

theorem next_ne_ended {place : Lookout} {b : UInt8} (hplace : place ≠ ended) (hq : b ≠ q.byte) :
    place.next q b ≠ ended := by
  cases place with
  | within =>
    rw [next_within, if_neg hq]
    split_ifs
    · simp
    · simp
  | escaped => simp [next]
  | ended => exact absurd rfl hplace

/-- Behind a byte that is no backslash, one is in the literal unless it has ended. -/
theorem next_eq_within {place : Lookout} {b : UInt8} (hb : b ≠ Byte.backslash)
    (h : place.next q b ≠ ended) : place.next q b = within := by
  cases place with
  | within =>
    rw [next_within, if_neg hb] at h ⊢
    split_ifs at h ⊢
    · exact absurd rfl h
    · rfl
  | escaped => rfl
  | ended => exact absurd rfl h

theorem ne_ended_of_foldl {place : Lookout} {s : Bytes} (h : s.foldl (next q) place ≠ ended) :
    place ≠ ended := by
  rintro rfl
  exact h (foldl_ended s)

/-- What follows a byte that is no backslash is read from inside the literal. -/
theorem foldl_after {place : Lookout} {s after : Bytes} {b : UInt8} (hb : b ≠ Byte.backslash)
    (h : (s ++ b :: after).foldl (next q) place ≠ ended) : after.foldl (next q) within ≠ ended := by
  rw [List.foldl_append, List.foldl_cons] at h
  rwa [next_eq_within hb (ne_ended_of_foldl h)] at h

theorem next_space {place : Lookout} (h : place ≠ ended) : place.next q Byte.space = within :=
  next_eq_within (by decide) (next_ne_ended h (by cases q <;> decide))

theorem foldl_blank_within : ∀ s : Bytes, (blank s).foldl (next q) within = within
  | [] => rfl
  | _ :: s => by
    have hspace : within.next q Byte.space = within := next_space (by simp)
    change (blank s).foldl (next q) (within.next q Byte.space) = within
    rw [hspace, foldl_blank_within s]

theorem foldl_blank_cons {place : Lookout} (h : place ≠ ended) (b : UInt8) (s : Bytes) :
    (blank (b :: s)).foldl (next q) place = within := by
  change (blank s).foldl (next q) (place.next q Byte.space) = within
  rw [next_space h, foldl_blank_within]

end Lookout

open Lookout

/-- **A literal ends where the lookout sees its end.** -/
theorem cutLiteral_eq_none_iff_lookout (q : Quote) (s : Bytes) :
    cutLiteral q s = none ↔ s.foldl (next q) within ≠ ended := by
  have hend : within.next q q.byte = ended := by
    rw [next_within, if_neg (quote_byte_ne_backslash q), if_pos rfl]
  fun_induction cutLiteral q s with
  | case1 => simp
  | case2 => simp [hend]
  | case3 b hb =>
    have hstay : within.next q b ≠ ended := next_ne_ended (by simp) hb
    simp [hstay]
  | case4 b rest ih => exact Option.map_eq_none_iff.trans ih
  | case5 b rest hback =>
    rw [List.foldl_cons, hend, foldl_ended]
    simp
  | case6 a b rest hback hquote ih =>
    have hstay : within.next q a = within := next_eq_within hback (next_ne_ended (by simp) hquote)
    rw [List.foldl_cons, hstay]
    exact Option.map_eq_none_iff.trans ih

theorem unended_iff_lookout {q : Quote} {s : Bytes} :
    Unended q s ↔ s.foldl (next q) within ≠ ended :=
  unended_iff.trans (cutLiteral_eq_none_iff_lookout q s)

theorem inside_blank (q : Quote) : ∀ s : Bytes, Inside q (blank s)
  | [] => .nil
  | _ :: s => .plain (by decide) (by cases q <;> decide) (inside_blank q s)

theorem unended_blank (q : Quote) (s : Bytes) : Unended q (blank s) := by
  rw [unended_iff_lookout, foldl_blank_within]
  simp

theorem unended_blank_backslash (q : Quote) (s : Bytes) :
    Unended q (blank s ++ [Byte.backslash]) := by
  rw [unended_iff_lookout, List.foldl_append, foldl_blank_within]
  simp [next]

/-- A literal of the other kind is passed with its inside blank. -/
theorem foldl_masked_literal {q q' : Quote} {place : Lookout} {body : Bytes}
    (h : place.next q q'.byte ≠ ended) (hne : q'.byte ≠ q.byte) :
    (Piece.literal q' body).masked.foldl (next q) place = within := by
  have hq : q'.byte ≠ Byte.backslash := quote_byte_ne_backslash q'
  have hclose : within.next q q'.byte = within :=
    next_eq_within hq (next_ne_ended (by simp) hne)
  rw [Piece.masked, List.foldl_cons, next_eq_within hq h, List.foldl_append, foldl_blank_within]
  exact hclose

/-- Whoever finds no end of a literal in a text from some place on finds none in the masked text. -/
theorem Segments.lookout {q : Quote} {s : Bytes} {pieces : List Piece} {mode : Mode}
    (h : Segments s pieces mode) : ∀ place : Lookout, s.foldl (next q) place ≠ ended →
      (maskCode s).1.foldl (next q) place ≠ ended := by
  induction h with
  | nil =>
    intro place hs
    rwa [maskCode_nil]
  | plain hnone _ ih =>
    intro place hs
    rw [maskCode_of_not_applies hnone]
    exact ih _ hs
  | @closed _ _ after _ _ _ htake hcode _ ih =>
    intro place hs
    have hplace := ne_ended_of_foldl hs
    rw [maskCode_of_closed htake hcode, List.foldl_append]
    cases htake.1 with
    | @comment _ body _ hclose =>
      rw [hclose.1] at hs
      rw [Piece.masked, foldl_blank_cons hplace]
      -- the slash that ends the comment is no backslash
      have hsplit : Byte.slash :: Byte.star :: (body ++ Byte.star :: Byte.slash :: after) =
          (Byte.slash :: Byte.star :: (body ++ [Byte.star])) ++ Byte.slash :: after := by simp
      rw [hsplit] at hs
      exact ih _ (foldl_after (by decide) hs)
    | openComment s => simp [Piece.leaves] at hcode
    | lineComment s =>
      rw [Piece.masked, foldl_blank_cons hplace]
      exact ih _ (by simp)
    | @literal q' body hin _ _ =>
      rw [List.foldl_cons] at hs
      have hopen := next_eq_within (quote_byte_ne_backslash q') (ne_ended_of_foldl hs)
      have hne : q'.byte ≠ q.byte := by
        -- from the first quote on the literal would be seen to end
        intro heq
        have hend := (cutLiteral_eq_none_iff_lookout q' (body ++ q'.byte :: after)).not.mp
          (by rw [cutLiteral_of_inside hin]; simp)
        have hqq : q' = q := by
          have := congrArg Quote.ofByte? heq
          rwa [quote_ofByte?, quote_ofByte?, Option.some.injEq] at this
        rw [hopen, ← hqq] at hs
        exact hend hs
      rw [foldl_masked_literal (ne_ended_of_foldl hs) hne]
      exact ih _ (foldl_after (quote_byte_ne_backslash q') hs)
    | openLiteral hno => simp [Piece.leaves] at hcode
  | opened htake hopen =>
    intro place hs
    have hplace := ne_ended_of_foldl hs
    rw [maskCode_of_opened htake hopen]
    cases htake.1 with
    | comment _ => exact absurd rfl hopen
    | openComment s =>
      rw [Piece.masked, foldl_blank_cons hplace]
      simp
    | lineComment _ => exact absurd rfl hopen
    | literal _ _ _ => exact absurd rfl hopen
    | @openLiteral q' body _ =>
      rw [List.foldl_cons] at hs
      rw [Piece.masked, List.foldl_cons, List.foldl_append,
        next_eq_within (quote_byte_ne_backslash q') (ne_ended_of_foldl hs), foldl_blank_within]
      simp [next]

/-- **A quote that nothing ends is ended by nothing in the masked text.** -/
theorem Unended.maskCode {q : Quote} {s : Bytes} (h : Unended q s) :
    Unended q (maskCode s).1 := by
  obtain ⟨pieces, hseg, -⟩ := segments_maskCode s
  exact unended_iff_lookout.mpr (hseg.lookout _ (unended_iff_lookout.mp h))

/-! ### Bytes of code stay bytes of code -/

theorem veils_maskCode (s : Bytes) : Veils s (maskCode s).1 := veils_maskLine .code s

/-- The masked text starts with a byte that is no space only if the text does. -/
theorem exists_cons_of_maskCode {s t : Bytes} {b : UInt8} (h : (maskCode s).1 = b :: t)
    (hb : b ≠ Byte.space) : ∃ rest, s = b :: rest := by
  have hhead : s[0]? = some b := (veils_maskCode s).getElem? (by rw [h]; rfl) hb
  cases s with
  | nil => simp at hhead
  | cons c rest =>
    rw [List.getElem?_cons_zero, Option.some.injEq] at hhead
    exact ⟨rest, by rw [hhead]⟩

theorem exists_concat_of_maskCode {s t : Bytes} (h : (maskCode s).1 = t ++ [Byte.backslash]) :
    ∃ body, s = body ++ [Byte.backslash] := by
  have hlen := (veils_maskCode s).length_eq
  rw [h, List.length_append, List.length_singleton] at hlen
  have hlast : s[t.length]? = some Byte.backslash :=
    (veils_maskCode s).getElem? (by rw [h]; simp) (by decide)
  refine List.getLast?_eq_some_iff.mp ?_
  rw [List.getLast?_eq_getElem?, hlen]
  exact hlast

theorem lexeme_quote (q : Quote) (s : Bytes) : lexeme q.byte s =
    match cutLiteral q s with
    | some (inside, after) =>
      if q = .single ∧ inside = [] then .plain else .literal q inside after
    | none => if continues s then .openLiteral q else .plain := by
  have hkind := quote_ofByte? q
  unfold lexeme
  refine (if_neg (quote_byte_ne_slash q)).trans ?_
  generalize Quote.ofByte? q.byte = kind at hkind
  subst hkind
  rfl

/-- A quote at the start of a text is kept. -/
theorem maskCode_quote (q : Quote) (s : Bytes) : ∃ t, (maskCode (q.byte :: s)).1 = q.byte :: t := by
  rw [maskCode_cons, lexeme_quote]
  rcases cutLiteral q s with _ | ⟨inside, after⟩
  · dsimp only
    split_ifs
    · exact ⟨_, rfl⟩
    · exact ⟨_, rfl⟩
  · dsimp only
    split_ifs
    · exact ⟨_, rfl⟩
    · exact ⟨_, rfl⟩

/-- Where no production applies before masking what follows, none applies after it. -/
theorem not_applies_maskCode {b : UInt8} {s : Bytes}
    (h : ∀ p piece after, ¬ Applies p (b :: s) piece after) :
    ∀ p piece after, ¬ Applies p (b :: (maskCode s).1) piece after := by
  -- a quote starts no literal because nothing ends it, or because a second quote follows at once
  have hquote : ∀ q : Quote, b = q.byte →
      Unended q s ∨ q = .single ∧ ∃ t, (maskCode s).1 = q.byte :: t := by
    rintro q rfl
    rcases hcut : cutLiteral q s with _ | ⟨inside, after⟩
    · exact Or.inl (unended_iff.mpr hcut)
    · obtain ⟨hin, rfl⟩ := cutLiteral_eq_some_iff.mp hcut
      have hnone : ¬ (q = .single → inside ≠ []) := fun hne =>
        h _ _ _ (Applies.literal hin hne after)
      rw [Classical.not_imp, not_not] at hnone
      obtain ⟨hq, rfl⟩ := hnone
      exact Or.inr ⟨hq, maskCode_quote q after⟩
  intro p piece after happ
  generalize ht : b :: (maskCode s).1 = t at happ
  cases happ with
  | comment _ =>
    obtain ⟨rfl, hs⟩ := List.cons.inj ht
    obtain ⟨rest, rfl⟩ := exists_cons_of_maskCode hs (by decide)
    exact h _ _ _ (Applies.openComment rest)
  | openComment _ =>
    obtain ⟨rfl, hs⟩ := List.cons.inj ht
    obtain ⟨rest, rfl⟩ := exists_cons_of_maskCode hs (by decide)
    exact h _ _ _ (Applies.openComment rest)
  | lineComment _ =>
    obtain ⟨rfl, hs⟩ := List.cons.inj ht
    obtain ⟨rest, rfl⟩ := exists_cons_of_maskCode hs (by decide)
    exact h _ _ _ (Applies.lineComment rest)
  | @literal q inside hin hne after =>
    obtain ⟨hb, hs⟩ := List.cons.inj ht
    rcases hquote q hb with hno | ⟨hq, t, hfirst⟩
    · exact hno.maskCode _ _ hin hs
    · have hcut := cutLiteral_of_inside hin after
      rw [← hs, hfirst, cutLiteral_quote, Option.some.injEq, Prod.mk.injEq] at hcut
      exact hne hq hcut.1.symm
  | @openLiteral q inside hno =>
    obtain ⟨hb, hs⟩ := List.cons.inj ht
    obtain ⟨body, rfl⟩ := exists_concat_of_maskCode hs
    rcases hquote q hb with hno' | ⟨-, t, hfirst⟩
    · subst hb
      exact h _ _ _ (Applies.openLiteral hno')
    · rw [← hs, hfirst] at hno
      exact hno [] t .nil rfl

/-! ### Masking again -/

@[simp] theorem blank_blank (s : Bytes) : blank (blank s) = blank s := by simp [blank]

theorem maskCode_blank_append (t : Bytes) : ∀ s : Bytes,
    maskCode (blank s ++ t) = (blank s ++ (maskCode t).1, (maskCode t).2)
  | [] => rfl
  | b :: s => by
    have ih := maskCode_blank_append t s
    change maskCode (Byte.space :: (blank s ++ t)) = _
    rw [maskCode_space, ih]
    rfl

theorem maskCode_blank (s : Bytes) : maskCode (blank s) = (blank s, .code) := by
  have h := maskCode_blank_append [] s
  rwa [maskCode_nil, List.append_nil] at h

theorem blankOpen_blank (s : Bytes) : blankOpen (blank s) = blank s := by
  rw [blankOpen_of_getLast?_ne, blank_blank]
  intro h
  have hmem := List.eq_of_mem_replicate (List.mem_of_getLast? h)
  exact absurd hmem (by decide)

/-- A masked piece that is closed is masked as it is, whatever follows. -/
theorem maskCode_masked_append {p : Production} {s after : Bytes} {piece : Piece}
    (h : Applies p s piece after) (hcode : piece.leaves = .code) (t : Bytes) :
    maskCode (piece.masked ++ t) = (piece.masked ++ (maskCode t).1, (maskCode t).2) := by
  cases h with
  | comment _ => exact maskCode_blank_append t _
  | openComment _ => simp [Piece.leaves] at hcode
  | lineComment _ => exact maskCode_blank_append t _
  | @literal q inside hin hne _ =>
    have hsome : ¬ (q = .single ∧ blank inside = []) := by
      rintro ⟨hq, hnil⟩
      have hlen := congrArg List.length hnil
      rw [blank, List.length_replicate] at hlen
      exact hne hq (List.eq_nil_of_length_eq_zero hlen)
    have hassoc : (Piece.literal q inside).masked ++ t =
        q.byte :: (blank inside ++ q.byte :: t) := by simp [Piece.masked]
    rw [hassoc, maskCode_cons, lexeme_quote, cutLiteral_of_inside (inside_blank q inside)]
    simp only [hsome, ↓reduceIte, blank_blank, Piece.masked, List.cons_append, List.append_assoc,
      List.nil_append]
  | openLiteral _ => simp [Piece.leaves] at hcode

/-- A masked piece that is left open is masked as it is. -/
theorem maskCode_masked {p : Production} {s after : Bytes} {piece : Piece}
    (h : Applies p s piece after) (hopen : piece.leaves ≠ .code) :
    maskCode piece.masked = (piece.masked, piece.leaves.uncommented) := by
  cases h with
  | comment _ => exact absurd rfl hopen
  | openComment _ => exact maskCode_blank _
  | lineComment _ => exact absurd rfl hopen
  | literal _ _ _ => exact absurd rfl hopen
  | @openLiteral q inside _ =>
    have hcut := unended_iff.mp (unended_blank_backslash q inside)
    rw [Piece.masked, maskCode_cons, lexeme_quote, hcut]
    simp only [continues_concat, ↓reduceIte, blankOpen_concat, blank_blank]
    rfl

/-- **Masked code is masked as it is.** -/
theorem maskCode_maskCode (s : Bytes) :
    maskCode (maskCode s).1 = ((maskCode s).1, (maskCode s).2.uncommented) := by
  obtain ⟨pieces, hseg, -⟩ := segments_maskCode s
  generalize (maskCode s).2 = mode at hseg
  induction hseg with
  | nil => rw [maskCode_nil, maskCode_nil]; rfl
  | plain hnone _ ih =>
    rw [maskCode_of_not_applies hnone]
    change maskCode (_ :: (maskCode _).1) = _
    rw [maskCode_of_not_applies (not_applies_maskCode hnone), ih]
  | closed htake hcode _ ih =>
    rw [maskCode_of_closed htake hcode, maskCode_masked_append htake.1 hcode, ih]
  | opened htake hopen =>
    rw [maskCode_of_opened htake hopen, maskCode_masked htake.1 hopen]

/-! ### No comment is left -/

/-- A comment starts somewhere in the text. -/
def OpensComment (s : Bytes) : Prop :=
  [Byte.slash, Byte.slash] <:+: s ∨ [Byte.slash, Byte.star] <:+: s

theorem opensComment_cons_iff {b : UInt8} {s : Bytes} : OpensComment (b :: s) ↔
    b = Byte.slash ∧ (s.head? = some Byte.slash ∨ s.head? = some Byte.star) ∨ OpensComment s := by
  have hprefix : ∀ c : UInt8, [Byte.slash, c] <+: b :: s ↔ b = Byte.slash ∧ s.head? = some c := by
    intro c
    rw [List.cons_prefix_cons, eq_comm (a := Byte.slash)]
    cases s with
    | nil => simp
    | cons d s => simp [List.cons_prefix_cons, eq_comm]
  unfold OpensComment
  rw [List.infix_cons_iff, List.infix_cons_iff, hprefix, hprefix]
  tauto

theorem opensComment_append {s t : Bytes} (h : Byte.slash ∉ s) :
    OpensComment (s ++ t) ↔ OpensComment t := by
  induction s with
  | nil => rfl
  | cons b s ih =>
    simp only [List.mem_cons, not_or] at h
    rw [List.cons_append, opensComment_cons_iff, ih h.2]
    exact or_iff_right fun hb => h.1 hb.1.symm

theorem not_opensComment_nil : ¬ OpensComment [] := by simp [OpensComment]

theorem not_opensComment_of_not_mem {s : Bytes} (h : Byte.slash ∉ s) : ¬ OpensComment s := by
  rw [← List.append_nil s, opensComment_append h]
  exact not_opensComment_nil

theorem slash_not_mem_blank (s : Bytes) : Byte.slash ∉ blank s := by
  intro hmem
  exact absurd (List.eq_of_mem_replicate hmem) (by decide)

theorem slash_not_mem_blankOpen (s : Bytes) : Byte.slash ∉ blankOpen s := by
  unfold blankOpen
  split
  · have hback : Byte.slash ≠ Byte.backslash := by decide
    simp [slash_not_mem_blank, hback]
  · exact slash_not_mem_blank s

theorem slash_not_mem_masked {p : Production} {s after : Bytes} {piece : Piece}
    (h : Applies p s piece after) : Byte.slash ∉ piece.masked := by
  cases h with
  | comment _ => exact slash_not_mem_blank _
  | openComment _ => exact slash_not_mem_blank _
  | lineComment _ => exact slash_not_mem_blank _
  | @literal q inside _ _ _ =>
    have hquote := (quote_byte_ne_slash q).symm
    simp [Piece.masked, slash_not_mem_blank, hquote]
  | @openLiteral q inside _ =>
    have hquote := (quote_byte_ne_slash q).symm
    have hback : Byte.slash ≠ Byte.backslash := by decide
    simp [Piece.masked, slash_not_mem_blank, hquote, hback]

theorem not_opensComment_maskCode (s : Bytes) : ¬ OpensComment (maskCode s).1 := by
  obtain ⟨pieces, hseg, -⟩ := segments_maskCode s
  generalize (maskCode s).2 = mode at hseg
  induction hseg with
  | nil =>
    rw [maskCode_nil]
    exact not_opensComment_nil
  | plain hnone _ ih =>
    rw [maskCode_of_not_applies hnone]
    change ¬ OpensComment (_ :: (maskCode _).1)
    rw [opensComment_cons_iff]
    rintro (⟨rfl, hslash | hstar⟩ | hrest)
    · obtain ⟨t, ht⟩ := List.head?_eq_some_iff.mp hslash
      obtain ⟨rest, rfl⟩ := exists_cons_of_maskCode ht (by decide)
      exact hnone _ _ _ (Applies.lineComment rest)
    · obtain ⟨t, ht⟩ := List.head?_eq_some_iff.mp hstar
      obtain ⟨rest, rfl⟩ := exists_cons_of_maskCode ht (by decide)
      exact hnone _ _ _ (Applies.openComment rest)
    · exact ih hrest
  | closed htake hcode _ ih =>
    rw [maskCode_of_closed htake hcode, opensComment_append (slash_not_mem_masked htake.1)]
    exact ih
  | opened htake hopen =>
    rw [maskCode_of_opened htake hopen]
    exact not_opensComment_of_not_mem (slash_not_mem_masked htake.1)

end Mask

open Mask

/-! ### Lines -/

/-- **A masked line is masked as it is.** It leaves the same open, but for comments. -/
theorem maskLine_maskLine (mode : Mode) (line : Bytes) :
    maskLine mode.uncommented (maskLine mode line).1 =
      ((maskLine mode line).1, (maskLine mode line).2.uncommented) := by
  match mode with
  | .code => exact maskCode_maskCode line
  | .comment =>
    change maskCode (maskLine .comment line).1 = _
    rcases hcut : cutComment line with _ | ⟨inside, after⟩
    · simp only [maskLine, hcut]
      exact maskCode_blank line
    · simp only [maskLine, hcut]
      rw [maskCode_blank_append, maskCode_maskCode]
  | .literal q =>
    change maskLine (.literal q) (maskLine (.literal q) line).1 = _
    rcases hcut : cutLiteral q line with _ | ⟨inside, after⟩
    · by_cases hlast : line.getLast? = some Byte.backslash
      · obtain ⟨body, rfl⟩ := List.getLast?_eq_some_iff.mp hlast
        have hcut' := unended_iff.mp (unended_blank_backslash q body)
        simp only [maskLine, hcut, blankOpen_concat, hcut', blank_blank]
        rfl
      · have hcut' := unended_iff.mp (unended_blank q line)
        simp only [maskLine, hcut, blankOpen_of_getLast?_ne hlast, hcut', blankOpen_blank]
        rfl
    · simp only [maskLine, hcut, cutLiteral_of_inside (inside_blank q inside), blank_blank,
        maskCode_maskCode]

theorem not_opensComment_maskLine (mode : Mode) (line : Bytes) :
    ¬ OpensComment (maskLine mode line).1 := by
  match mode with
  | .code => exact not_opensComment_maskCode line
  | .comment =>
    rcases hcut : cutComment line with _ | ⟨inside, after⟩
    · simp only [maskLine, hcut]
      exact not_opensComment_of_not_mem (slash_not_mem_blank line)
    · simp only [maskLine, hcut]
      rw [opensComment_append (slash_not_mem_blank inside)]
      exact not_opensComment_maskCode after
  | .literal q =>
    rcases hcut : cutLiteral q line with _ | ⟨inside, after⟩
    · simp only [maskLine, hcut]
      exact not_opensComment_of_not_mem (slash_not_mem_blankOpen line)
    · simp only [maskLine, hcut]
      have hquote := quote_byte_ne_slash q
      rw [opensComment_append (slash_not_mem_blank inside), opensComment_cons_iff]
      rintro (⟨hslash, -⟩ | hrest)
      · exact hquote hslash
      · exact not_opensComment_maskCode after hrest

/-- The lines of a masked text, read again, are masked as they are, and no line is in a comment. -/
theorem maskSteps_maskSteps : ∀ (mode : Mode) (lines : List Bytes),
    maskSteps mode.uncommented ((maskSteps mode lines).map (·.1)) =
      (maskSteps mode lines).map fun step => (step.1, step.2.uncommented)
  | _, [] => rfl
  | mode, line :: lines => by
    have ih := maskSteps_maskSteps (maskLine mode line).2 lines
    rw [maskSteps, List.map_cons, List.map_cons, maskSteps, maskLine_maskLine, ih]

/-- **Masking is done once and for all.** The masked lines of a text are masked as they are, and no
comment starts in any of them. -/
theorem maskLines_maskLines (lines : List Bytes) :
    maskLines (maskLines lines) = maskLines lines ∧
      ∀ masked ∈ maskLines lines, ¬ [Byte.slash, Byte.slash] <:+: masked ∧
        ¬ [Byte.slash, Byte.star] <:+: masked := by
  refine ⟨?_, fun masked hmem => ?_⟩
  · have h := maskSteps_maskSteps .code lines
    change maskSteps .code (maskLines lines) = _ at h
    rw [maskLines, h, List.map_map]
    rfl
  · obtain ⟨row, hrow⟩ := List.getElem?_of_mem hmem
    obtain ⟨line, hline, -⟩ := veils_maskLines hrow
    rw [maskLines_getElem? hline, Option.some.injEq] at hrow
    have hopens := not_opensComment_maskLine (modeAt .code lines row) line
    rw [hrow] at hopens
    exact not_or.mp hopens

end Allman
