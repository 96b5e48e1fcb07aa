import Allman.Mask
import Mathlib.Data.List.Basic
import Mathlib.Data.Nat.Find

/-! # The segments of a line

The lexical grammar that masking follows, said without the scanner. A comment ends at the first
`*/` (`FirstClose`), a literal at the first quote behind an inside (`Inside`). At a byte of code the
first `Production` that applies gives the next `Piece` of the line (`Takes`), and a byte where none
applies is a piece of its own. `Segments` cuts a line that starts as code into its pieces,
`LineSegments` one that starts in any mode.

* `segments_maskCode`, `lineSegments_maskLine`: what masking gives is read off such a segmentation.
* `Segments.unique`, `LineSegments.unique`: a line has no other.
* `maskLine_iff_lineSegments` puts the two together. -/

namespace Allman

namespace Mask

/-! ### Ends of comments -/

/-- The first `*/` of `s` stands between `body` and `after`. -/
def FirstClose (s body after : Bytes) : Prop :=
  s = body ++ Byte.star :: Byte.slash :: after ∧
    ∀ body' after', s = body' ++ Byte.star :: Byte.slash :: after' → body.length ≤ body'.length

theorem FirstClose.unique {s body after body' after' : Bytes} (h : FirstClose s body after)
    (h' : FirstClose s body' after') : body = body' ∧ after = after' := by
  have hlen : body.length = body'.length :=
    Nat.le_antisymm (h.2 _ _ h'.1) (h'.2 _ _ h.1)
  obtain ⟨hbody, hrest⟩ := List.append_inj (h.1.symm.trans h'.1) hlen
  simp only [List.cons.injEq, true_and] at hrest
  exact ⟨hbody, hrest⟩

theorem cutComment_close (s : Bytes) :
    cutComment (Byte.star :: Byte.slash :: s) = some ([Byte.star, Byte.slash], s) := by
  rw [cutComment, if_pos ⟨rfl, rfl⟩]

theorem cutComment_cons {a : UInt8} {s : Bytes} (h : ∀ t, a :: s ≠ Byte.star :: Byte.slash :: t) :
    cutComment (a :: s) = (cutComment s).map fun x => (a :: x.1, x.2) := by
  match s with
  | [] => rfl
  | b :: t =>
    rw [cutComment, if_neg]
    rintro ⟨rfl, rfl⟩
    exact h t rfl

theorem firstClose_nil (after : Bytes) :
    FirstClose (Byte.star :: Byte.slash :: after) [] after :=
  ⟨rfl, fun _ _ _ => Nat.zero_le _⟩

theorem firstClose_cons_iff {a : UInt8} {s body after : Bytes}
    (h : ∀ t, a :: s ≠ Byte.star :: Byte.slash :: t) :
    FirstClose (a :: s) body after ↔ ∃ rest, body = a :: rest ∧ FirstClose s rest after := by
  constructor
  · rintro ⟨heq, hfirst⟩
    match body with
    | [] => exact absurd heq (h after)
    | b :: rest =>
      rw [List.cons_append, List.cons.injEq] at heq
      obtain ⟨rfl, hs⟩ := heq
      refine ⟨rest, rfl, hs, fun body' after' h' => ?_⟩
      have := hfirst (a :: body') after' (by rw [h', List.cons_append])
      simpa using this
  · rintro ⟨rest, rfl, hs, hfirst⟩
    refine ⟨by rw [hs, List.cons_append], fun body' after' h' => ?_⟩
    match body' with
    | [] => exact absurd h' (h after')
    | b :: rest' =>
      rw [List.cons_append, List.cons.injEq] at h'
      have := hfirst rest' after' h'.2
      simpa using this

/-- **A comment is cut after the first `*/`.** -/
theorem cutComment_eq_some_iff : ∀ {s inside after : Bytes},
    cutComment s = some (inside, after) ↔
      ∃ body, inside = body ++ [Byte.star, Byte.slash] ∧ FirstClose s body after
  | [], inside, after => by
    refine ⟨fun h => by simp [cutComment] at h, ?_⟩
    rintro ⟨body, -, h, -⟩
    simp at h
  | a :: s, inside, after => by
    by_cases hclose : ∃ t, a :: s = Byte.star :: Byte.slash :: t
    · obtain ⟨t, ht⟩ := hclose
      rw [ht, cutComment_close]
      constructor
      · intro h
        simp only [Option.some.injEq, Prod.mk.injEq] at h
        obtain ⟨rfl, rfl⟩ := h
        exact ⟨[], rfl, firstClose_nil t⟩
      · rintro ⟨body, rfl, hfirst⟩
        obtain ⟨rfl, rfl⟩ := (firstClose_nil t).unique hfirst
        rfl
    · have hne : ∀ t, a :: s ≠ Byte.star :: Byte.slash :: t := fun t ht => hclose ⟨t, ht⟩
      rw [cutComment_cons hne, Option.map_eq_some_iff]
      constructor
      · rintro ⟨⟨inside', after'⟩, hcut, heq⟩
        simp only [Prod.mk.injEq] at heq
        obtain ⟨rfl, rfl⟩ := heq
        obtain ⟨body, rfl, hfirst⟩ := cutComment_eq_some_iff.mp hcut
        exact ⟨a :: body, rfl, (firstClose_cons_iff hne).mpr ⟨body, rfl, hfirst⟩⟩
      · rintro ⟨body, rfl, hfirst⟩
        obtain ⟨rest, rfl, hrest⟩ := (firstClose_cons_iff hne).mp hfirst
        exact ⟨(rest ++ [Byte.star, Byte.slash], after),
          cutComment_eq_some_iff.mpr ⟨rest, rfl, hrest⟩, rfl⟩

/-- A text without `*/` is cut nowhere. -/
theorem cutComment_eq_none_iff : ∀ {s : Bytes},
    cutComment s = none ↔ ∀ body after, s ≠ body ++ Byte.star :: Byte.slash :: after
  | [] => by simp [cutComment]
  | a :: s => by
    by_cases hclose : ∃ t, a :: s = Byte.star :: Byte.slash :: t
    · obtain ⟨t, ht⟩ := hclose
      rw [ht, cutComment_close]
      exact ⟨fun h => by simp at h, fun h => absurd rfl (h [] t)⟩
    · have hne : ∀ t, a :: s ≠ Byte.star :: Byte.slash :: t := fun t ht => hclose ⟨t, ht⟩
      rw [cutComment_cons hne, Option.map_eq_none_iff, cutComment_eq_none_iff]
      constructor
      · intro h body after heq
        match body with
        | [] => exact hne after heq
        | b :: body => exact h body after (List.cons.inj heq).2
      · intro h body after heq
        exact h (a :: body) after (by rw [heq, List.cons_append])

/-! ### Ends of literals -/

/-- The inside of a literal: its quote stands only behind a backslash, and so does a backslash that
escapes nothing. -/
inductive Inside (q : Quote) : Bytes → Prop
  | nil : Inside q []
  | plain {b : UInt8} {rest : Bytes} (hb : b ≠ Byte.backslash) (hq : b ≠ q.byte)
      (h : Inside q rest) : Inside q (b :: rest)
  | escaped (b : UInt8) {rest : Bytes} (h : Inside q rest) : Inside q (Byte.backslash :: b :: rest)

theorem quote_byte_ne_backslash (q : Quote) : q.byte ≠ Byte.backslash := by cases q <;> decide

theorem cutLiteral_quote (q : Quote) (s : Bytes) : cutLiteral q (q.byte :: s) = some ([], s) := by
  match s with
  | [] => rw [cutLiteral, if_pos rfl]
  | b :: s => rw [cutLiteral, if_neg (quote_byte_ne_backslash q), if_pos rfl]

theorem cutLiteral_plain {q : Quote} {b : UInt8} (hb : b ≠ Byte.backslash) (hq : b ≠ q.byte)
    (s : Bytes) : cutLiteral q (b :: s) = (cutLiteral q s).map fun x => (b :: x.1, x.2) := by
  match s with
  | [] => simp [cutLiteral, hq]
  | c :: s => rw [cutLiteral, if_neg hb, if_neg hq]

theorem cutLiteral_escaped (q : Quote) (b : UInt8) (s : Bytes) :
    cutLiteral q (Byte.backslash :: b :: s) =
      (cutLiteral q s).map fun x => (Byte.backslash :: b :: x.1, x.2) := by
  rw [cutLiteral, if_pos rfl]

theorem cutLiteral_of_inside {q : Quote} {inside : Bytes} (h : Inside q inside) (after : Bytes) :
    cutLiteral q (inside ++ q.byte :: after) = some (inside, after) := by
  induction h with
  | nil => exact cutLiteral_quote q after
  | plain hb hq _ ih => rw [List.cons_append, cutLiteral_plain hb hq, ih]; rfl
  | escaped b _ ih => rw [List.cons_append, List.cons_append, cutLiteral_escaped, ih]; rfl

theorem inside_of_cutLiteral {q : Quote} : ∀ {s inside after : Bytes},
    cutLiteral q s = some (inside, after) → Inside q inside ∧ s = inside ++ q.byte :: after
  | [], inside, after, h => by simp [cutLiteral] at h
  | b :: s, inside, after, h => by
    by_cases hq : b = q.byte
    · subst hq
      rw [cutLiteral_quote, Option.some.injEq, Prod.mk.injEq] at h
      obtain ⟨rfl, rfl⟩ := h
      exact ⟨.nil, rfl⟩
    · by_cases hb : b = Byte.backslash
      · subst hb
        match s with
        | [] =>
          rw [cutLiteral, if_neg hq] at h
          simp at h
        | c :: s =>
          rw [cutLiteral_escaped, Option.map_eq_some_iff] at h
          obtain ⟨⟨inside', after'⟩, hcut, heq⟩ := h
          simp only [Prod.mk.injEq] at heq
          obtain ⟨rfl, rfl⟩ := heq
          obtain ⟨hin, rfl⟩ := inside_of_cutLiteral hcut
          exact ⟨.escaped c hin, rfl⟩
      · rw [cutLiteral_plain hb hq, Option.map_eq_some_iff] at h
        obtain ⟨⟨inside', after'⟩, hcut, heq⟩ := h
        simp only [Prod.mk.injEq] at heq
        obtain ⟨rfl, rfl⟩ := heq
        obtain ⟨hin, rfl⟩ := inside_of_cutLiteral hcut
        exact ⟨.plain hb hq hin, rfl⟩

/-- **A literal is cut at the first quote behind an inside.** -/
theorem cutLiteral_eq_some_iff {q : Quote} {s inside after : Bytes} :
    cutLiteral q s = some (inside, after) ↔ Inside q inside ∧ s = inside ++ q.byte :: after := by
  refine ⟨inside_of_cutLiteral, ?_⟩
  rintro ⟨hin, rfl⟩
  exact cutLiteral_of_inside hin after

theorem cutLiteral_eq_none_iff {q : Quote} {s : Bytes} :
    cutLiteral q s = none ↔ ∀ inside after, Inside q inside → s ≠ inside ++ q.byte :: after := by
  rw [Option.eq_none_iff_forall_ne_some]
  constructor
  · rintro h inside after hin rfl
    exact h (inside, after) (cutLiteral_of_inside hin after)
  · rintro h ⟨inside, after⟩ hcut
    obtain ⟨hin, hs⟩ := inside_of_cutLiteral hcut
    exact h inside after hin hs

/-! ### Pieces -/

/-- A piece of a line. -/
inductive Piece where
  /-- A byte of code. -/
  | plain (b : UInt8)
  /-- A block comment, or what is left of one at the start of a line, up to and with its `*/`. -/
  | comment (s : Bytes)
  /-- A comment to the end of the line. -/
  | lineComment (s : Bytes)
  /-- A block comment that is open at the end of the line. -/
  | openComment (s : Bytes)
  /-- A literal with its two quotes. -/
  | literal (q : Quote) (inside : Bytes)
  /-- What is left of a literal at the start of a line, with its quote. -/
  | literalEnd (q : Quote) (inside : Bytes)
  /-- A literal with its first quote and the backslash at the end of the line that continues it. -/
  | openLiteral (q : Quote) (inside : Bytes)
  /-- A line inside a literal, with its final backslash if there is one. -/
  | literalLine (inside final : Bytes)
  deriving DecidableEq, Repr

namespace Piece

/-- The bytes of a piece. -/
def bytes : Piece → Bytes
  | plain b => [b]
  | comment s => s
  | lineComment s => s
  | openComment s => s
  | literal q inside => q.byte :: (inside ++ [q.byte])
  | literalEnd q inside => inside ++ [q.byte]
  | openLiteral q inside => q.byte :: (inside ++ [Byte.backslash])
  | literalLine inside final => inside ++ final

/-- A piece with a space for every byte of a comment and of the inside of a literal. -/
def masked : Piece → Bytes
  | plain b => [b]
  | comment s => blank s
  | lineComment s => blank s
  | openComment s => blank s
  | literal q inside => q.byte :: (blank inside ++ [q.byte])
  | literalEnd q inside => blank inside ++ [q.byte]
  | openLiteral q inside => q.byte :: (blank inside ++ [Byte.backslash])
  | literalLine inside final => blank inside ++ final

/-- What is open after the piece. -/
def leaves : Piece → Mode
  | openComment _ => .comment
  | openLiteral q _ => .literal q
  | _ => .code

end Piece

/-! ### Productions -/

/-- What may start at a byte of code. -/
inductive Production where
  /-- A block comment that ends on the line. -/
  | comment
  /-- A block comment to the end of the line. -/
  | openComment
  /-- A line comment. -/
  | lineComment
  /-- A literal that ends on the line. -/
  | literal (q : Quote)
  /-- A literal that the next line continues. -/
  | openLiteral (q : Quote)
  deriving DecidableEq, Repr

/-- The order in which productions are tried. -/
def Production.rank : Production → Nat
  | comment => 0
  | openComment => 1
  | lineComment => 2
  | literal .double => 3
  | openLiteral .double => 4
  | literal .single => 5
  | openLiteral .single => 6

/-- No quote ends a literal in the text. -/
def Unended (q : Quote) (s : Bytes) : Prop :=
  ∀ inside after, Inside q inside → s ≠ inside ++ q.byte :: after

/-- The production applies at the start of a text; the piece it gives, and what follows. -/
inductive Applies : Production → Bytes → Piece → Bytes → Prop
  | comment {s body after : Bytes} (h : FirstClose s body after) :
      Applies .comment (Byte.slash :: Byte.star :: s)
        (.comment (Byte.slash :: Byte.star :: (body ++ [Byte.star, Byte.slash]))) after
  | openComment (s : Bytes) :
      Applies .openComment (Byte.slash :: Byte.star :: s)
        (.openComment (Byte.slash :: Byte.star :: s)) []
  | lineComment (s : Bytes) :
      Applies .lineComment (Byte.slash :: Byte.slash :: s)
        (.lineComment (Byte.slash :: Byte.slash :: s)) []
  | literal {q : Quote} {inside : Bytes} (h : Inside q inside)
      (hne : q = .single → inside ≠ []) (after : Bytes) :
      Applies (.literal q) (q.byte :: (inside ++ q.byte :: after)) (.literal q inside) after
  | openLiteral {q : Quote} {inside : Bytes} (h : Unended q (inside ++ [Byte.backslash])) :
      Applies (.openLiteral q) (q.byte :: (inside ++ [Byte.backslash])) (.openLiteral q inside) []

/-- **The production that is taken** is the first that applies. -/
def Takes (p : Production) (s : Bytes) (piece : Piece) (after : Bytes) : Prop :=
  Applies p s piece after ∧
    ∀ p' piece' after', Applies p' s piece' after' → p.rank ≤ p'.rank

/-- **The segmentation of a line from a point where it is code**, and the mode it leaves. -/
inductive Segments : Bytes → List Piece → Mode → Prop
  | nil : Segments [] [] .code
  | plain {b : UInt8} {rest : Bytes} {pieces : List Piece} {mode : Mode}
      (hnone : ∀ p piece after, ¬ Applies p (b :: rest) piece after)
      (h : Segments rest pieces mode) : Segments (b :: rest) (.plain b :: pieces) mode
  | closed {p : Production} {s after : Bytes} {piece : Piece} {pieces : List Piece} {mode : Mode}
      (htake : Takes p s piece after) (hcode : piece.leaves = .code)
      (h : Segments after pieces mode) : Segments s (piece :: pieces) mode
  | opened {p : Production} {s after : Bytes} {piece : Piece}
      (htake : Takes p s piece after) (hopen : piece.leaves ≠ .code) :
      Segments s [piece] piece.leaves

/-- **The segmentation of a line** that starts in a mode, and the mode it leaves. -/
inductive LineSegments : Mode → Bytes → List Piece → Mode → Prop
  | code {s : Bytes} {pieces : List Piece} {mode : Mode} (h : Segments s pieces mode) :
      LineSegments .code s pieces mode
  | commentEnd {s body after : Bytes} {pieces : List Piece} {mode : Mode}
      (hclose : FirstClose s body after) (h : Segments after pieces mode) :
      LineSegments .comment s (.comment (body ++ [Byte.star, Byte.slash]) :: pieces) mode
  | commentLine {s : Bytes} (hno : ∀ body after, s ≠ body ++ Byte.star :: Byte.slash :: after) :
      LineSegments .comment s [.openComment s] .comment
  | literalEnd {q : Quote} {inside after : Bytes} {pieces : List Piece} {mode : Mode}
      (hin : Inside q inside) (h : Segments after pieces mode) :
      LineSegments (.literal q) (inside ++ q.byte :: after) (.literalEnd q inside :: pieces) mode
  | literalContinued {q : Quote} {inside : Bytes} (hno : Unended q (inside ++ [Byte.backslash])) :
      LineSegments (.literal q) (inside ++ [Byte.backslash])
        [.literalLine inside [Byte.backslash]] (.literal q)
  | literalLine {q : Quote} {s : Bytes} (hno : Unended q s)
      (hlast : s.getLast? ≠ some Byte.backslash) :
      LineSegments (.literal q) s [.literalLine s []] (.literal q)

/-! ### A line has one segmentation -/

theorem Production.rank_injective {p p' : Production} (h : p.rank = p'.rank) : p = p' := by
  rcases p with _ | _ | _ | (_ | _) | (_ | _) <;> rcases p' with _ | _ | _ | (_ | _) | (_ | _) <;>
    first | rfl | simp [Production.rank] at h

theorem Applies.unique {p : Production} {s s' after after' : Bytes} {piece piece' : Piece}
    (h : Applies p s piece after) (h' : Applies p s' piece' after') (hs : s = s') :
    piece = piece' ∧ after = after' := by
  cases h with
  | comment hclose =>
    cases h' with
    | comment hclose' =>
      simp only [List.cons.injEq, true_and] at hs
      subst hs
      obtain ⟨rfl, rfl⟩ := hclose.unique hclose'
      exact ⟨rfl, rfl⟩
  | openComment s =>
    cases h' with
    | openComment s' => exact ⟨by rw [hs], rfl⟩
  | lineComment s =>
    cases h' with
    | lineComment s' => exact ⟨by rw [hs], rfl⟩
  | literal hin _ after =>
    cases h' with
    | literal hin' _ after' =>
      have hcut := cutLiteral_of_inside hin after
      rw [(List.cons.inj hs).2, cutLiteral_of_inside hin' after', Option.some.injEq,
        Prod.mk.injEq] at hcut
      exact ⟨by rw [hcut.1], hcut.2.symm⟩
  | openLiteral _ =>
    cases h' with
    | openLiteral _ =>
      have hconcat := (List.cons.inj hs).2
      rw [List.append_left_inj] at hconcat
      exact ⟨by rw [hconcat], rfl⟩

theorem Takes.unique {p p' : Production} {s after after' : Bytes} {piece piece' : Piece}
    (h : Takes p s piece after) (h' : Takes p' s piece' after') :
    piece = piece' ∧ after = after' := by
  have hp : p = p' :=
    Production.rank_injective (Nat.le_antisymm (h.2 _ _ _ h'.1) (h'.2 _ _ _ h.1))
  subst hp
  exact h.1.unique h'.1 rfl

theorem Applies.ne_nil {p : Production} {s after : Bytes} {piece : Piece}
    (h : Applies p s piece after) : s ≠ [] := by
  cases h <;> simp

/-- **A line that starts as code has one segmentation.** -/
theorem Segments.unique {s : Bytes} {pieces pieces' : List Piece} {mode mode' : Mode}
    (h : Segments s pieces mode) (h' : Segments s pieces' mode') :
    pieces = pieces' ∧ mode = mode' := by
  induction h generalizing pieces' mode' with
  | nil =>
    cases h' with
    | nil => exact ⟨rfl, rfl⟩
    | closed htake _ _ => exact absurd rfl htake.1.ne_nil
    | opened htake _ => exact absurd rfl htake.1.ne_nil
  | plain hnone _ ih =>
    cases h' with
    | plain _ hrest =>
      obtain ⟨rfl, rfl⟩ := ih hrest
      exact ⟨rfl, rfl⟩
    | closed htake _ _ => exact absurd htake.1 (hnone _ _ _)
    | opened htake _ => exact absurd htake.1 (hnone _ _ _)
  | closed htake hcode _ ih =>
    cases h' with
    | nil => exact absurd rfl htake.1.ne_nil
    | plain hnone _ => exact absurd htake.1 (hnone _ _ _)
    | closed htake' _ hrest =>
      obtain ⟨rfl, rfl⟩ := htake.unique htake'
      obtain ⟨rfl, rfl⟩ := ih hrest
      exact ⟨rfl, rfl⟩
    | opened htake' hopen =>
      obtain ⟨rfl, -⟩ := htake.unique htake'
      exact absurd hcode hopen
  | opened htake hopen =>
    cases h' with
    | nil => exact absurd rfl htake.1.ne_nil
    | plain hnone _ => exact absurd htake.1 (hnone _ _ _)
    | closed htake' hcode _ =>
      obtain ⟨rfl, -⟩ := htake.unique htake'
      exact absurd hcode hopen
    | opened htake' _ =>
      obtain ⟨rfl, -⟩ := htake.unique htake'
      exact ⟨rfl, rfl⟩

/-- **A line has one segmentation.** -/
theorem LineSegments.unique {start mode mode' : Mode} {s s' : Bytes} {pieces pieces' : List Piece}
    (h : LineSegments start s pieces mode) (h' : LineSegments start s' pieces' mode')
    (hs : s = s') : pieces = pieces' ∧ mode = mode' := by
  cases h with
  | code h =>
    cases h' with
    | code h' => exact h.unique (hs ▸ h')
  | commentEnd hclose h =>
    cases h' with
    | commentEnd hclose' h' =>
      obtain ⟨rfl, rfl⟩ := hclose.unique (hs ▸ hclose')
      obtain ⟨rfl, rfl⟩ := h.unique h'
      exact ⟨rfl, rfl⟩
    | commentLine hno => exact absurd (hs ▸ hclose.1) (hno _ _)
  | commentLine hno =>
    cases h' with
    | commentEnd hclose' _ => exact absurd (hs.trans hclose'.1) (hno _ _)
    | commentLine _ => exact ⟨by rw [hs], rfl⟩
  | @literalEnd q inside after _ _ hin h =>
    cases h' with
    | literalEnd hin' h' =>
      have hcut := cutLiteral_of_inside hin after
      rw [hs, cutLiteral_of_inside hin', Option.some.injEq, Prod.mk.injEq] at hcut
      obtain ⟨rfl, rfl⟩ := hcut
      obtain ⟨rfl, rfl⟩ := h.unique h'
      exact ⟨rfl, rfl⟩
    | literalContinued hno => exact absurd hs.symm (hno _ _ hin)
    | literalLine hno _ => exact absurd hs.symm (hno _ _ hin)
  | literalContinued hno =>
    cases h' with
    | literalEnd hin' _ => exact absurd hs (hno _ _ hin')
    | literalContinued _ =>
      rw [List.append_left_inj] at hs
      exact ⟨by rw [hs], rfl⟩
    | literalLine _ hlast =>
      rw [← hs, List.getLast?_concat] at hlast
      exact absurd rfl hlast
  | literalLine hno hlast =>
    cases h' with
    | literalEnd hin' _ => exact absurd hs (hno _ _ hin')
    | literalContinued _ =>
      rw [hs, List.getLast?_concat] at hlast
      exact absurd rfl hlast
    | literalLine _ _ => exact ⟨by rw [hs], rfl⟩

/-! ### Masking follows the segmentation -/

theorem exists_takes {p : Production} {s after : Bytes} {piece : Piece}
    (h : Applies p s piece after) : ∃ p' piece' after', Takes p' s piece' after' := by
  -- the least rank among the productions that apply
  have hex : ∃ n p' piece' after', Production.rank p' = n ∧ Applies p' s piece' after' :=
    ⟨_, p, piece, after, rfl, h⟩
  classical
  obtain ⟨p', piece', after', hrank, happ⟩ := Nat.find_spec hex
  refine ⟨p', piece', after', happ, fun p'' piece'' after'' h'' => ?_⟩
  rw [hrank]
  exact Nat.find_min' hex ⟨p'', piece'', after'', rfl, h''⟩

theorem quote_ofByte? (q : Quote) : Quote.ofByte? q.byte = some q := by cases q <;> rfl

theorem quote_byte_ne_slash (q : Quote) : q.byte ≠ Byte.slash := by cases q <;> decide

theorem eq_byte_of_ofByte? {b : UInt8} {q : Quote} (h : Quote.ofByte? b = some q) : b = q.byte := by
  unfold Quote.ofByte? at h
  split at h
  · next hb => rw [← Option.some.inj h]; exact hb
  · split at h
    · next hb => rw [← Option.some.inj h]; exact hb
    · simp at h

theorem continues_concat (s : Bytes) : continues (s ++ [Byte.backslash]) = true := by
  unfold continues
  rw [List.getLast?_concat]
  rfl

theorem exists_concat_of_continues {s : Bytes} (h : continues s = true) :
    ∃ inside, s = inside ++ [Byte.backslash] := by
  rw [continues, beq_iff_eq, List.getLast?_eq_some_iff] at h
  exact h

theorem unended_iff {q : Quote} {s : Bytes} : Unended q s ↔ cutLiteral q s = none :=
  cutLiteral_eq_none_iff.symm

/-- A production gives its lexeme. -/
def Piece.lexeme (after : Bytes) : Piece → Lexeme
  | comment s => .comment s after
  | lineComment _ => .lineComment
  | openComment _ => .openComment
  | literal q inside => .literal q inside after
  | openLiteral q _ => .openLiteral q
  | _ => .plain

theorem lexeme_of_takes {p : Production} {b : UInt8} {rest after : Bytes} {piece : Piece}
    (h : Takes p (b :: rest) piece after) : lexeme b rest = piece.lexeme after := by
  obtain ⟨happ, hfirst⟩ := h
  generalize hs : b :: rest = s at happ hfirst
  cases happ with
  | comment hclose =>
    obtain ⟨rfl, rfl⟩ := List.cons.inj hs
    simp only [lexeme, ↓reduceIte, cutComment_eq_some_iff.mpr ⟨_, rfl, hclose⟩, Piece.lexeme]
  | openComment t =>
    obtain ⟨rfl, rfl⟩ := List.cons.inj hs
    rcases hcut : cutComment t with _ | ⟨inside, after⟩
    · simp only [lexeme, ↓reduceIte, hcut, Piece.lexeme]
    · -- a comment that ends would come first
      obtain ⟨body, rfl, hclose⟩ := cutComment_eq_some_iff.mp hcut
      have := hfirst _ _ _ (Applies.comment hclose)
      simp [Production.rank] at this
  | lineComment t =>
    obtain ⟨rfl, rfl⟩ := List.cons.inj hs
    have hne : Byte.slash ≠ Byte.star := by decide
    simp only [lexeme, ↓reduceIte, if_neg hne, Piece.lexeme]
  | @literal q inside hin hne after =>
    obtain ⟨rfl, rfl⟩ := List.cons.inj hs
    have hsome : ¬ (q = .single ∧ inside = []) := fun h => hne h.1 h.2
    simp only [lexeme, if_neg (quote_byte_ne_slash q), quote_ofByte?,
      cutLiteral_of_inside hin after, if_neg hsome, Piece.lexeme]
  | @openLiteral q inside hno =>
    obtain ⟨rfl, rfl⟩ := List.cons.inj hs
    simp only [lexeme, if_neg (quote_byte_ne_slash q), quote_ofByte?, unended_iff.mp hno,
      continues_concat, ↓reduceIte, Piece.lexeme]

theorem lexeme_of_not_applies {b : UInt8} {rest : Bytes}
    (h : ∀ p piece after, ¬ Applies p (b :: rest) piece after) : lexeme b rest = .plain := by
  unfold lexeme
  split
  · next hb =>
    subst hb
    split
    · next second body =>
      split
      · next hsecond =>
        subst hsecond
        exact absurd (Applies.openComment body) (h _ _ _)
      · split
        · next hsecond =>
          subst hsecond
          exact absurd (Applies.lineComment body) (h _ _ _)
        · rfl
    · rfl
  · split
    · rfl
    · next q hq =>
      obtain rfl := eq_byte_of_ofByte? hq
      split
      · next inside after hcut =>
        split
        · rfl
        · next hne =>
          obtain ⟨hin, rfl⟩ := cutLiteral_eq_some_iff.mp hcut
          exact absurd (Applies.literal hin (fun hq hnil => hne ⟨hq, hnil⟩) after) (h _ _ _)
      · next hcut =>
        split
        · next hcont =>
          obtain ⟨inside, rfl⟩ := exists_concat_of_continues hcont
          exact absurd (Applies.openLiteral (unended_iff.mpr hcut)) (h _ _ _)
        · rfl

theorem maskCode_cons (b : UInt8) (rest : Bytes) : maskCode (b :: rest) =
    match lexeme b rest with
    | .plain => (b :: (maskCode rest).1, (maskCode rest).2)
    | .comment body after => (blank body ++ (maskCode after).1, (maskCode after).2)
    | .openComment => (blank (b :: rest), .comment)
    | .lineComment => (blank (b :: rest), .code)
    | .literal q inside after =>
      (b :: (blank inside ++ q.byte :: (maskCode after).1), (maskCode after).2)
    | .openLiteral q => (b :: blankOpen rest, .literal q) := by
  rw [maskCode]
  split <;> simp_all

theorem blankOpen_concat (inside : Bytes) :
    blankOpen (inside ++ [Byte.backslash]) = blank inside ++ [Byte.backslash] := by
  unfold blankOpen
  rw [if_pos (continues_concat inside), List.dropLast_concat]

theorem blankOpen_of_getLast?_ne {s : Bytes} (h : s.getLast? ≠ some Byte.backslash) :
    blankOpen s = blank s := by
  unfold blankOpen continues
  rw [if_neg]
  rwa [beq_iff_eq]

theorem maskCode_nil : maskCode [] = ([], .code) := by rw [maskCode]

theorem maskCode_of_not_applies {b : UInt8} {rest : Bytes}
    (h : ∀ p piece after, ¬ Applies p (b :: rest) piece after) :
    maskCode (b :: rest) = ((Piece.plain b).masked ++ (maskCode rest).1, (maskCode rest).2) := by
  rw [maskCode_cons, lexeme_of_not_applies h]
  rfl

theorem maskCode_of_closed {p : Production} {s after : Bytes} {piece : Piece}
    (htake : Takes p s piece after) (hcode : piece.leaves = .code) :
    maskCode s = (piece.masked ++ (maskCode after).1, (maskCode after).2) := by
  obtain ⟨b, rest, rfl⟩ := List.exists_cons_of_ne_nil htake.1.ne_nil
  rw [maskCode_cons, lexeme_of_takes htake]
  have happ := htake.1
  generalize hs : b :: rest = s at happ
  cases happ with
  | comment _ => rfl
  | openComment _ => simp [Piece.leaves] at hcode
  | lineComment t => simp only [Piece.lexeme, Piece.masked, maskCode_nil, List.append_nil]
  | literal _ _ _ =>
    rw [(List.cons.inj hs).1]
    simp only [Piece.lexeme, Piece.masked, List.cons_append, List.append_assoc, List.nil_append]
  | openLiteral _ => simp [Piece.leaves] at hcode

theorem maskCode_of_opened {p : Production} {s after : Bytes} {piece : Piece}
    (htake : Takes p s piece after) (hopen : piece.leaves ≠ .code) :
    maskCode s = (piece.masked, piece.leaves) := by
  obtain ⟨b, rest, rfl⟩ := List.exists_cons_of_ne_nil htake.1.ne_nil
  rw [maskCode_cons, lexeme_of_takes htake]
  have happ := htake.1
  generalize hs : b :: rest = s at happ
  cases happ with
  | comment _ => exact absurd rfl hopen
  | openComment _ => rfl
  | lineComment _ => exact absurd rfl hopen
  | literal _ _ _ => exact absurd rfl hopen
  | openLiteral _ =>
    obtain ⟨rfl, rfl⟩ := List.cons.inj hs
    simp only [Piece.lexeme, Piece.masked, Piece.leaves, blankOpen_concat]

/-- A piece and what follows it are the text. -/
theorem Applies.bytes_append {p : Production} {s after : Bytes} {piece : Piece}
    (h : Applies p s piece after) : piece.bytes ++ after = s := by
  cases h with
  | comment hclose =>
    rw [hclose.1]
    simp [Piece.bytes]
  | openComment s => exact List.append_nil _
  | lineComment s => exact List.append_nil _
  | literal _ _ after => simp [Piece.bytes]
  | openLiteral _ => exact List.append_nil _

theorem Applies.length_lt {p : Production} {s after : Bytes} {piece : Piece}
    (h : Applies p s piece after) : after.length < s.length := by
  have hlen := congrArg List.length h.bytes_append
  rw [List.length_append] at hlen
  have hpos : 0 < piece.bytes.length := by cases h <;> simp [Piece.bytes]
  omega

theorem Applies.after_eq_nil {p : Production} {s after : Bytes} {piece : Piece}
    (h : Applies p s piece after) (hopen : piece.leaves ≠ .code) : after = [] := by
  cases h with
  | comment _ => exact absurd rfl hopen
  | openComment _ => rfl
  | lineComment _ => rfl
  | literal _ _ _ => exact absurd rfl hopen
  | openLiteral _ => rfl

/-- The pieces put together are the line, and masked they are the masked line. -/
structure Shows (pieces : List Piece) (line masked : Bytes) : Prop where
  bytes : pieces.flatMap Piece.bytes = line
  masked : pieces.flatMap Piece.masked = masked

theorem Shows.cons {pieces : List Piece} {line masked : Bytes} (h : Shows pieces line masked)
    (piece : Piece) : Shows (piece :: pieces) (piece.bytes ++ line) (piece.masked ++ masked) :=
  ⟨by rw [List.flatMap_cons, h.bytes], by rw [List.flatMap_cons, h.masked]⟩

theorem Shows.single (piece : Piece) : Shows [piece] piece.bytes piece.masked :=
  ⟨List.flatMap_singleton .., List.flatMap_singleton ..⟩

/-- **Masking code follows the segmentation.** -/
theorem segments_maskCode (s : Bytes) :
    ∃ pieces, Segments s pieces (maskCode s).2 ∧ Shows pieces s (maskCode s).1 := by
  induction hn : s.length using Nat.strong_induction_on generalizing s with
  | _ n ih =>
    subst hn
    by_cases hnil : s = []
    · subst hnil
      rw [maskCode_nil]
      exact ⟨[], .nil, rfl, rfl⟩
    · by_cases happ : ∃ p piece after, Applies p s piece after
      · obtain ⟨p, piece, after, happ⟩ := happ
        obtain ⟨p, piece, after, htake⟩ := exists_takes happ
        by_cases hcode : piece.leaves = .code
        · obtain ⟨pieces, hseg, hshow⟩ := ih after.length htake.1.length_lt after rfl
          have hs := hshow.cons piece
          rw [htake.1.bytes_append] at hs
          rw [maskCode_of_closed htake hcode]
          exact ⟨piece :: pieces, .closed htake hcode hseg, hs⟩
        · have hs := htake.1.bytes_append
          rw [htake.1.after_eq_nil hcode, List.append_nil] at hs
          rw [maskCode_of_opened htake hcode]
          exact ⟨[piece], .opened htake hcode, hs ▸ .single piece⟩
      · obtain ⟨b, rest, rfl⟩ := List.exists_cons_of_ne_nil hnil
        have hnone : ∀ p piece after, ¬ Applies p (b :: rest) piece after :=
          fun p piece after h => happ ⟨p, piece, after, h⟩
        obtain ⟨pieces, hseg, hshow⟩ := ih rest.length (by simp) rest rfl
        rw [maskCode_of_not_applies hnone]
        exact ⟨.plain b :: pieces, .plain hnone hseg, hshow.cons (.plain b)⟩

/-- **Masking a line follows its segmentation.** -/
theorem lineSegments_maskLine (mode : Mode) (line : Bytes) :
    ∃ pieces, LineSegments mode line pieces (maskLine mode line).2 ∧
      Shows pieces line (maskLine mode line).1 := by
  match mode with
  | .code =>
    obtain ⟨pieces, hseg, hshow⟩ := segments_maskCode line
    exact ⟨pieces, .code hseg, hshow⟩
  | .comment =>
    rcases hcut : cutComment line with _ | ⟨inside, after⟩
    · simp only [maskLine, hcut]
      exact ⟨_, .commentLine (cutComment_eq_none_iff.mp hcut), .single _⟩
    · obtain ⟨body, rfl, hclose⟩ := cutComment_eq_some_iff.mp hcut
      obtain ⟨pieces, hseg, hshow⟩ := segments_maskCode after
      simp only [maskLine, hcut]
      refine ⟨_, .commentEnd hclose hseg, ?_⟩
      have hs := hshow.cons (.comment (body ++ [Byte.star, Byte.slash]))
      rwa [Piece.bytes, List.append_assoc, List.cons_append, List.cons_append, List.nil_append,
        ← hclose.1] at hs
  | .literal q =>
    rcases hcut : cutLiteral q line with _ | ⟨inside, after⟩
    · simp only [maskLine, hcut]
      have hno := unended_iff.mpr hcut
      by_cases hlast : line.getLast? = some Byte.backslash
      · obtain ⟨inside, rfl⟩ := List.getLast?_eq_some_iff.mp hlast
        rw [blankOpen_concat]
        exact ⟨_, .literalContinued hno, .single _⟩
      · rw [blankOpen_of_getLast?_ne hlast]
        refine ⟨_, .literalLine hno hlast, ?_⟩
        have hs := Shows.single (.literalLine line [])
        rwa [Piece.bytes, Piece.masked, List.append_nil, List.append_nil] at hs
    · obtain ⟨hin, rfl⟩ := cutLiteral_eq_some_iff.mp hcut
      obtain ⟨pieces, hseg, hshow⟩ := segments_maskCode after
      simp only [maskLine, hcut]
      refine ⟨_, .literalEnd hin hseg, ?_⟩
      have hs := hshow.cons (.literalEnd q inside)
      rwa [Piece.bytes, Piece.masked, List.append_assoc, List.append_assoc] at hs

/-- **Masking implements the lexical grammar.** A line that starts in a mode has exactly one
segmentation; the mode it leaves is that of the masked line, its pieces put together are the line,
and with the bytes of comments and of the insides of literals replaced by spaces they are the
masked line. -/
theorem maskLine_iff_lineSegments (mode : Mode) (line : Bytes) :
    ∃ pieces, (∀ pieces' mode', LineSegments mode line pieces' mode' ↔
        pieces' = pieces ∧ mode' = (maskLine mode line).2) ∧
      pieces.flatMap Piece.bytes = line ∧
      pieces.flatMap Piece.masked = (maskLine mode line).1 := by
  obtain ⟨pieces, hseg, hshow⟩ := lineSegments_maskLine mode line
  refine ⟨pieces, fun pieces' mode' => ⟨fun h => h.unique hseg rfl, ?_⟩, hshow.bytes, hshow.masked⟩
  rintro ⟨rfl, rfl⟩
  exact hseg

end Mask

end Allman
