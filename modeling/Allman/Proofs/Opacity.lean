import Allman.Proofs.Masking
import Allman.Proofs.Moves

/-! # What stands inside comments and literals does not matter

Five bytes decide where comments and literals start and end: the slash, the star, the two quotes and
the backslash. The `outline` of a text keeps these and forgets all others. Texts with one outline are
cut into pieces alike (`LineSegments.outline`), so they have the same hidden positions: those inside
a comment or a literal (`Piece.hides`). If two such lines agree off the hidden positions, they are
masked alike (`maskLine_eq_of_agree`).

A run reads the masked lines, and of the lines themselves only how many spaces each starts with
(`finalPass_congr`). So a text may be changed inside its comments and literals without any effect on
the layout (`layout_opaque`). -/

namespace Allman

/-! ### Outlines -/

/-- The byte starts or ends a comment or a literal, or escapes a byte of one. -/
def Byte.isDelimiter (b : UInt8) : Bool :=
  b == slash || b == star || b == doubleQuote || b == singleQuote || b == backslash

namespace Mask

/-- A byte of an outline. -/
def sketch (b : UInt8) : UInt8 := if Byte.isDelimiter b then b else Byte.space

/-- The delimiters of a text, where they stand. -/
def outline (s : Bytes) : Bytes := s.map sketch

theorem eq_of_sketch {b c : UInt8} (hb : Byte.isDelimiter b = true) (h : sketch b = sketch c) :
    b = c := by
  unfold sketch at h
  rw [if_pos hb] at h
  split at h
  · exact h
  · rw [h] at hb
    exact absurd hb (by decide)

theorem isDelimiter_quote (q : Quote) : Byte.isDelimiter q.byte = true := by cases q <;> rfl

theorem length_eq_of_outline {s t : Bytes} (h : outline s = outline t) : s.length = t.length := by
  have hlen := congrArg List.length h
  unfold outline at hlen
  rwa [List.length_map, List.length_map] at hlen

theorem outline_append_left {x y t : Bytes} (h : outline (x ++ y) = outline t) :
    ∃ x' y', t = x' ++ y' ∧ outline x = outline x' ∧ outline y = outline y' := by
  unfold outline at h ⊢
  rw [List.map_append] at h
  obtain ⟨x', y', rfl, hx, hy⟩ := List.map_eq_append_iff.mp h.symm
  exact ⟨x', y', rfl, hx.symm, hy.symm⟩

theorem outline_cons_left {b : UInt8} {s t : Bytes} (h : outline (b :: s) = outline t) :
    ∃ c t', t = c :: t' ∧ sketch b = sketch c ∧ outline s = outline t' := by
  unfold outline at h ⊢
  rw [List.map_cons] at h
  obtain ⟨c, t', rfl, hc, ht⟩ := List.map_eq_cons_iff.mp h.symm
  exact ⟨c, t', rfl, hc.symm, ht.symm⟩

/-- A delimiter stands in every text with the same outline. -/
theorem outline_delimiter_left {b : UInt8} {s t : Bytes} (hb : Byte.isDelimiter b = true)
    (h : outline (b :: s) = outline t) : ∃ t', t = b :: t' ∧ outline s = outline t' := by
  obtain ⟨c, t', rfl, hc, ht⟩ := outline_cons_left h
  rw [eq_of_sketch hb hc]
  exact ⟨t', rfl, ht⟩

theorem outline_getLast? {s t : Bytes} (h : outline s = outline t)
    (hs : s.getLast? = some Byte.backslash) : t.getLast? = some Byte.backslash := by
  obtain ⟨init, rfl⟩ := List.getLast?_eq_some_iff.mp hs
  obtain ⟨init', last, rfl, -, hlast⟩ := outline_append_left h
  obtain ⟨rest, rfl, hrest⟩ := outline_delimiter_left rfl hlast
  rw [List.eq_nil_of_length_eq_zero (length_eq_of_outline hrest).symm, List.getLast?_concat]

/-! ### Ends of comments and literals -/

theorem outline_close {body after t : Bytes}
    (h : outline (body ++ Byte.star :: Byte.slash :: after) = outline t) :
    ∃ body' after', t = body' ++ Byte.star :: Byte.slash :: after' ∧
      outline body = outline body' ∧ outline after = outline after' := by
  obtain ⟨body', rest, rfl, hbody, hrest⟩ := outline_append_left h
  obtain ⟨rest', rfl, hrest'⟩ := outline_delimiter_left rfl hrest
  obtain ⟨after', rfl, hafter⟩ := outline_delimiter_left rfl hrest'
  exact ⟨body', after', rfl, hbody, hafter⟩

theorem FirstClose.outline {s t body after : Bytes} (h : FirstClose s body after)
    (hst : outline s = outline t) : ∃ body' after', FirstClose t body' after' ∧
      Mask.outline body = Mask.outline body' ∧ Mask.outline after = Mask.outline after' := by
  obtain ⟨rfl, hfirst⟩ := h
  obtain ⟨body', after', rfl, hbody, hafter⟩ := outline_close hst
  refine ⟨body', after', ⟨rfl, fun body₂ after₂ heq => ?_⟩, hbody, hafter⟩
  -- an earlier end in the second text would be one in the first
  rw [heq] at hst
  obtain ⟨body₁, after₁, heq₁, hbody₁, -⟩ := outline_close hst.symm
  have hle := hfirst body₁ after₁ heq₁
  rw [length_eq_of_outline hbody] at hle
  rwa [length_eq_of_outline hbody₁]

theorem ne_close_of_outline {s t : Bytes} (hst : outline s = outline t)
    (h : ∀ body after, s ≠ body ++ Byte.star :: Byte.slash :: after) (body after : Bytes) :
    t ≠ body ++ Byte.star :: Byte.slash :: after := by
  rintro rfl
  obtain ⟨body', after', heq, -⟩ := outline_close hst.symm
  exact h body' after' heq

theorem Inside.outline {q : Quote} {s t : Bytes} (h : Inside q s) (hst : outline s = outline t) :
    Inside q t := by
  induction h generalizing t with
  | nil =>
    rw [List.eq_nil_of_length_eq_zero (length_eq_of_outline hst).symm]
    exact .nil
  | plain hb hq _ ih =>
    obtain ⟨c, t', rfl, hc, ht⟩ := outline_cons_left hst
    refine .plain (fun heq => hb ?_) (fun heq => hq ?_) (ih ht)
    · exact heq ▸ (eq_of_sketch (by rw [heq]; rfl) hc.symm).symm
    · exact heq ▸ (eq_of_sketch (by rw [heq]; exact isDelimiter_quote q) hc.symm).symm
  | escaped b _ ih =>
    obtain ⟨t', rfl, ht⟩ := outline_delimiter_left rfl hst
    obtain ⟨c, t', rfl, -, ht⟩ := outline_cons_left ht
    exact .escaped c (ih ht)

theorem outline_quote {q : Quote} {inside after t : Bytes}
    (h : outline (inside ++ q.byte :: after) = outline t) :
    ∃ inside' after', t = inside' ++ q.byte :: after' ∧
      outline inside = outline inside' ∧ outline after = outline after' := by
  obtain ⟨inside', rest, rfl, hinside, hrest⟩ := outline_append_left h
  obtain ⟨after', rfl, hafter⟩ := outline_delimiter_left (isDelimiter_quote q) hrest
  exact ⟨inside', after', rfl, hinside, hafter⟩

theorem Unended.outline {q : Quote} {s t : Bytes} (h : Unended q s)
    (hst : outline s = outline t) : Unended q t := by
  rintro inside after hin rfl
  obtain ⟨inside', after', heq, hinside, -⟩ := outline_quote hst.symm
  exact h inside' after' (hin.outline hinside) heq

theorem outline_concat_backslash {inside t : Bytes}
    (h : outline (inside ++ [Byte.backslash]) = outline t) :
    ∃ inside', t = inside' ++ [Byte.backslash] ∧ outline inside = outline inside' := by
  obtain ⟨inside', rest, rfl, hinside, hrest⟩ := outline_append_left h
  obtain ⟨rest', rfl, hrest'⟩ := outline_delimiter_left rfl hrest
  rw [List.eq_nil_of_length_eq_zero (length_eq_of_outline hrest').symm]
  exact ⟨inside', rfl, hinside⟩

/-! ### Hidden positions -/

/-- Which bytes of a piece are hidden: those of comments and of the insides of literals. -/
def Piece.hides : Piece → List Bool
  | plain _ => [false]
  | comment s => List.replicate s.length true
  | lineComment s => List.replicate s.length true
  | openComment s => List.replicate s.length true
  | literal _ inside => false :: (List.replicate inside.length true ++ [false])
  | literalEnd _ inside => List.replicate inside.length true ++ [false]
  | openLiteral _ inside => false :: (List.replicate inside.length true ++ [false])
  | literalLine inside final =>
    List.replicate inside.length true ++ List.replicate final.length false

/-- A text with a space for every hidden byte. -/
def veil (hidden : List Bool) (s : Bytes) : Bytes :=
  List.zipWith (fun h b => if h then Byte.space else b) hidden s

theorem veil_replicate_true (s : Bytes) : veil (List.replicate s.length true) s = blank s := by
  induction s with
  | nil => rfl
  | cons b s ih => exact congrArg (Byte.space :: ·) ih

theorem veil_replicate_false (s : Bytes) : veil (List.replicate s.length false) s = s := by
  induction s with
  | nil => rfl
  | cons b s ih => exact congrArg (b :: ·) ih

theorem veil_append {h h' : List Bool} {s s' : Bytes} (hlen : h.length = s.length) :
    veil (h ++ h') (s ++ s') = veil h s ++ veil h' s' := List.zipWith_append hlen

theorem Piece.length_hides (piece : Piece) : piece.hides.length = piece.bytes.length := by
  cases piece <;> simp [Piece.hides, Piece.bytes]

/-- **A masked piece is the piece with its hidden bytes veiled.** -/
theorem Piece.masked_eq_veil (piece : Piece) : piece.masked = veil piece.hides piece.bytes := by
  have hclosed : ∀ (inside final : Bytes), blank inside ++ final =
      veil (List.replicate inside.length true ++ List.replicate final.length false)
        (inside ++ final) := by
    intro inside final
    rw [veil_append List.length_replicate, veil_replicate_true, veil_replicate_false]
  cases piece with
  | plain b => rfl
  | comment s => exact (veil_replicate_true s).symm
  | lineComment s => exact (veil_replicate_true s).symm
  | openComment s => exact (veil_replicate_true s).symm
  | literal q inside => exact congrArg (q.byte :: ·) (hclosed inside [q.byte])
  | literalEnd q inside => exact hclosed inside [q.byte]
  | openLiteral q inside => exact congrArg (q.byte :: ·) (hclosed inside [Byte.backslash])
  | literalLine inside final => exact hclosed inside final

theorem Shows.masked_eq_veil {pieces : List Piece} {line masked : Bytes}
    (h : Shows pieces line masked) : masked = veil (pieces.flatMap Piece.hides) line := by
  obtain ⟨rfl, rfl⟩ := h
  induction pieces with
  | nil => rfl
  | cons piece pieces ih =>
    simp only [List.flatMap_cons]
    rw [veil_append piece.length_hides, ← ih, piece.masked_eq_veil]

theorem Shows.length_hides {pieces : List Piece} {line masked : Bytes}
    (h : Shows pieces line masked) : (pieces.flatMap Piece.hides).length = line.length := by
  rw [← h.bytes, List.length_flatMap, List.length_flatMap]
  simp only [Piece.length_hides]

/-- **The position is hidden**: it lies inside a comment or a literal of a line that starts in the
given mode. -/
def HiddenIn (mode : Mode) (line : Bytes) (col : Nat) : Prop :=
  ∃ pieces mode', LineSegments mode line pieces mode' ∧
    (pieces.flatMap Piece.hides)[col]? = some true

/-- What masking changes is hidden. -/
theorem hiddenIn_of_ne {mode : Mode} {s : Bytes} {col : Nat}
    (hne : (maskLine mode s).1[col]? ≠ s[col]?) : HiddenIn mode s col := by
  obtain ⟨pieces, hseg, hshow⟩ := lineSegments_maskLine mode s
  refine ⟨pieces, _, hseg, ?_⟩
  rw [hshow.masked_eq_veil, veil, List.getElem?_zipWith] at hne
  rcases hcol : (pieces.flatMap Piece.hides)[col]? with _ | hidden
  · have hlen := hshow.length_hides
    rw [List.getElem?_eq_none_iff] at hcol
    rw [List.getElem?_eq_none_iff.mpr hcol, List.getElem?_eq_none_iff.mpr (by omega)] at hne
    exact absurd rfl hne
  · rw [hcol] at hne
    cases hidden with
    | true => rfl
    | false =>
      rcases hb : s[col]? with _ | b
      · rw [hb] at hne
        exact absurd rfl hne
      · rw [hb] at hne
        exact absurd rfl hne

/-! ### Texts with one outline are cut alike -/

/-- A production applies to every text with the outline, and hides the same bytes. -/
theorem Applies.outline {p : Production} {s t after : Bytes} {piece : Piece}
    (h : Applies p s piece after) (hst : outline s = outline t) :
    ∃ piece' after', Applies p t piece' after' ∧ Mask.outline after = Mask.outline after' ∧
      piece'.hides = piece.hides ∧ piece'.leaves = piece.leaves := by
  cases h with
  | comment hclose =>
    obtain ⟨t₁, rfl, hst₁⟩ := outline_delimiter_left rfl hst
    obtain ⟨t₂, rfl, hst₂⟩ := outline_delimiter_left rfl hst₁
    obtain ⟨body', after', hclose', hbody, hafter⟩ := hclose.outline hst₂
    refine ⟨_, after', .comment hclose', hafter, ?_, rfl⟩
    simp only [Piece.hides, List.length_cons, List.length_append, length_eq_of_outline hbody]
  | openComment s =>
    obtain ⟨t₁, rfl, hst₁⟩ := outline_delimiter_left rfl hst
    obtain ⟨t₂, rfl, hst₂⟩ := outline_delimiter_left rfl hst₁
    refine ⟨_, [], .openComment t₂, rfl, ?_, rfl⟩
    simp only [Piece.hides, List.length_cons, length_eq_of_outline hst₂]
  | lineComment s =>
    obtain ⟨t₁, rfl, hst₁⟩ := outline_delimiter_left rfl hst
    obtain ⟨t₂, rfl, hst₂⟩ := outline_delimiter_left rfl hst₁
    refine ⟨_, [], .lineComment t₂, rfl, ?_, rfl⟩
    simp only [Piece.hides, List.length_cons, length_eq_of_outline hst₂]
  | @literal q inside hin hne _ =>
    obtain ⟨t₁, rfl, hst₁⟩ := outline_delimiter_left (isDelimiter_quote q) hst
    obtain ⟨inside', after', rfl, hinside, hafter⟩ := outline_quote hst₁
    have hlen := length_eq_of_outline hinside
    refine ⟨_, after', .literal (hin.outline hinside) (fun hq hnil => hne hq ?_) after', hafter, ?_,
      rfl⟩
    · rw [hnil] at hlen
      exact List.eq_nil_of_length_eq_zero hlen
    · simp only [Piece.hides, hlen]
  | @openLiteral q inside hno =>
    obtain ⟨t₁, rfl, hst₁⟩ := outline_delimiter_left (isDelimiter_quote q) hst
    have hno' := hno.outline hst₁
    obtain ⟨inside', rfl, hinside⟩ := outline_concat_backslash hst₁
    refine ⟨_, [], .openLiteral hno', rfl, ?_, rfl⟩
    simp only [Piece.hides, length_eq_of_outline hinside]

theorem not_applies_of_outline {s t : Bytes} (hst : outline s = outline t)
    (h : ∀ p piece after, ¬ Applies p s piece after) (p : Production) (piece : Piece)
    (after : Bytes) : ¬ Applies p t piece after := by
  intro happ
  obtain ⟨piece', after', happ', -⟩ := happ.outline hst.symm
  exact h p piece' after' happ'

theorem Takes.outline {p : Production} {s t after : Bytes} {piece : Piece}
    (h : Takes p s piece after) (hst : outline s = outline t) :
    ∃ piece' after', Takes p t piece' after' ∧ Mask.outline after = Mask.outline after' ∧
      piece'.hides = piece.hides ∧ piece'.leaves = piece.leaves := by
  obtain ⟨happ, hfirst⟩ := h
  obtain ⟨piece', after', happ', hafter, hhides, hleaves⟩ := happ.outline hst
  refine ⟨piece', after', ⟨happ', fun p₂ piece₂ after₂ happ₂ => ?_⟩, hafter, hhides, hleaves⟩
  obtain ⟨piece₁, after₁, happ₁, -⟩ := happ₂.outline hst.symm
  exact hfirst p₂ piece₁ after₁ happ₁

theorem Segments.outline {s t : Bytes} {pieces : List Piece} {mode : Mode}
    (h : Segments s pieces mode) (hst : outline s = outline t) :
    ∃ pieces', Segments t pieces' mode ∧
      pieces'.flatMap Piece.hides = pieces.flatMap Piece.hides := by
  induction h generalizing t with
  | nil =>
    rw [List.eq_nil_of_length_eq_zero (length_eq_of_outline hst).symm]
    exact ⟨[], .nil, rfl⟩
  | plain hnone _ ih =>
    have hnone' := not_applies_of_outline hst hnone
    obtain ⟨c, t', rfl, -, ht⟩ := outline_cons_left hst
    obtain ⟨pieces', hseg, hhides⟩ := ih ht
    exact ⟨.plain c :: pieces', .plain hnone' hseg, congrArg (false :: ·) hhides⟩
  | closed htake hcode _ ih =>
    obtain ⟨piece', after', htake', hafter, hpiece, hleaves⟩ := htake.outline hst
    obtain ⟨pieces', hseg, hhides⟩ := ih hafter
    refine ⟨piece' :: pieces', .closed htake' (hleaves.trans hcode) hseg, ?_⟩
    rw [List.flatMap_cons, List.flatMap_cons, hpiece, hhides]
  | opened htake hopen =>
    obtain ⟨piece', after', htake', -, hpiece, hleaves⟩ := htake.outline hst
    rw [← hleaves] at hopen ⊢
    refine ⟨[piece'], .opened htake' hopen, ?_⟩
    rw [List.flatMap_singleton, List.flatMap_singleton, hpiece]

/-- **Lines with one outline are cut alike**: they hide the same positions and leave the same
mode. -/
theorem LineSegments.outline {start mode : Mode} {s t : Bytes} {pieces : List Piece}
    (h : LineSegments start s pieces mode) (hst : outline s = outline t) :
    ∃ pieces', LineSegments start t pieces' mode ∧
      pieces'.flatMap Piece.hides = pieces.flatMap Piece.hides := by
  have hlen := length_eq_of_outline hst
  cases h with
  | code h =>
    obtain ⟨pieces', hseg, hhides⟩ := h.outline hst
    exact ⟨pieces', .code hseg, hhides⟩
  | commentEnd hclose h =>
    obtain ⟨body', after', hclose', hbody, hafter⟩ := hclose.outline hst
    obtain ⟨pieces', hseg, hhides⟩ := h.outline hafter
    refine ⟨_, .commentEnd hclose' hseg, ?_⟩
    simp only [List.flatMap_cons, Piece.hides, List.length_append, length_eq_of_outline hbody,
      hhides]
  | commentLine hno =>
    refine ⟨_, .commentLine (ne_close_of_outline hst hno), ?_⟩
    simp only [List.flatMap_singleton, Piece.hides, hlen]
  | literalEnd hin h =>
    obtain ⟨inside', after', rfl, hinside, hafter⟩ := outline_quote hst
    obtain ⟨pieces', hseg, hhides⟩ := h.outline hafter
    refine ⟨_, .literalEnd (hin.outline hinside) hseg, ?_⟩
    simp only [List.flatMap_cons, Piece.hides, length_eq_of_outline hinside, hhides]
  | literalContinued hno =>
    have hno' := hno.outline hst
    obtain ⟨inside', rfl, hinside⟩ := outline_concat_backslash hst
    refine ⟨_, .literalContinued hno', ?_⟩
    simp only [List.flatMap_singleton, Piece.hides, length_eq_of_outline hinside]
  | literalLine hno hlast =>
    refine ⟨_, .literalLine (hno.outline hst) fun h => hlast (outline_getLast? hst.symm h), ?_⟩
    simp only [List.flatMap_singleton, Piece.hides, hlen]

/-! ### Lines that agree off the hidden positions -/

/-- The lines have the same bytes, but for hidden positions of the first at which both have bytes
that are no delimiters. -/
structure Agree (mode : Mode) (s t : Bytes) : Prop where
  length : t.length = s.length
  bytes : ∀ (col : Nat) (b b' : UInt8), s[col]? = some b → t[col]? = some b' →
    b = b' ∨ HiddenIn mode s col ∧ Byte.isDelimiter b = false ∧ Byte.isDelimiter b' = false

theorem Agree.outline {mode : Mode} {line line' : Bytes} (h : Agree mode line line') :
    outline line = outline line' := by
  refine List.ext_getElem? fun col => ?_
  unfold Mask.outline
  rw [List.getElem?_map, List.getElem?_map]
  rcases Nat.lt_or_ge col line.length with hcol | hcol
  · have hcol' : col < line'.length := by rw [h.length]; exact hcol
    rw [List.getElem?_eq_getElem hcol, List.getElem?_eq_getElem hcol', Option.map_some,
      Option.map_some]
    rcases h.bytes col _ _ (List.getElem?_eq_getElem hcol) (List.getElem?_eq_getElem hcol') with
      heq | ⟨-, hb, hb'⟩
    · rw [heq]
    · rw [sketch, sketch, hb, hb']
      rfl
  · rw [List.getElem?_eq_none hcol, List.getElem?_eq_none (by rw [h.length]; exact hcol)]

/-- **Lines that agree off the hidden positions are masked alike.** -/
theorem maskLine_eq_of_agree {mode : Mode} {line line' : Bytes} (h : Agree mode line line') :
    maskLine mode line' = maskLine mode line := by
  obtain ⟨pieces, hseg, hshow⟩ := lineSegments_maskLine mode line
  obtain ⟨pieces', hseg', hshow'⟩ := lineSegments_maskLine mode line'
  obtain ⟨pieces₂, hseg₂, hhides⟩ := hseg.outline h.outline
  obtain ⟨rfl, hmode⟩ := hseg'.unique hseg₂ rfl
  refine Prod.ext ?_ hmode
  rw [hshow.masked_eq_veil, hshow'.masked_eq_veil, hhides]
  refine List.ext_getElem? fun col => ?_
  unfold veil
  rw [List.getElem?_zipWith, List.getElem?_zipWith]
  rcases hcol : (pieces.flatMap Piece.hides)[col]? with _ | hidden
  · rfl
  -- a byte that is shown is the same in both lines
  · have hlt := (List.getElem?_eq_some_iff.mp hcol).1
    rw [hshow.length_hides] at hlt
    have hlt' : col < line'.length := by rw [h.length]; exact hlt
    have hline := List.getElem?_eq_getElem hlt
    have hline' := List.getElem?_eq_getElem hlt'
    rw [hline, hline']
    cases hidden with
    | true => rfl
    | false =>
      rcases h.bytes col _ _ hline hline' with heq | ⟨⟨pieces₁, mode₁, hseg₁, hhidden⟩, -⟩
      · rw [heq]
      · obtain ⟨rfl, -⟩ := hseg₁.unique hseg rfl
        rw [hcol] at hhidden
        simp at hhidden

end Mask

open Mask

theorem maskSteps_eq_of_agree : ∀ (mode : Mode) (lines lines' : List Bytes),
    lines'.length = lines.length → (∀ (row : Nat) (line line' : Bytes), lines[row]? = some line →
      lines'[row]? = some line' → Agree (modeAt mode lines row) line line') →
    maskSteps mode lines' = maskSteps mode lines
  | _, [], lines', hlen, _ => by rw [List.eq_nil_of_length_eq_zero hlen]
  | mode, line :: lines, [], hlen, _ => by simp at hlen
  | mode, line :: lines, line' :: lines', hlen, h => by
    have hline : maskLine mode line' = maskLine mode line :=
      maskLine_eq_of_agree (h 0 line line' rfl rfl)
    have ih := maskSteps_eq_of_agree (maskLine mode line).2 lines lines' (Nat.succ.inj hlen)
      fun row l l' hl hl' => h (row + 1) l l' hl hl'
    simp only [maskSteps]
    rw [hline, ih]

namespace Layout

/-! ### A run looks at leading spaces only -/

section Congr

variable {lines lines' : List Bytes}
  (hlead : lines'.map Bytes.leadingSpaces = lines.map Bytes.leadingSpaces)
include hlead

theorem leadingSpaces_getD (row : Nat) :
    (lines'.getD row []).leadingSpaces = (lines.getD row []).leadingSpaces := by
  have hrow := congrArg (fun l => l.getD row 0) hlead
  have hnil : (0 : Nat) = Bytes.leadingSpaces [] := rfl
  rwa [hnil, List.getD_map, List.getD_map] at hrow

theorem hangs_congr (e : Entry Nat) (row col : Nat) :
    hangs lines' e row col = hangs lines e row col := by
  have hblank : ∀ r c, Bytes.blankBefore (lines'.getD r []) c =
      Bytes.blankBefore (lines.getD r []) c := by
    intro r c
    rw [Bool.eq_iff_iff, Bytes.blankBefore_iff, Bytes.blankBefore_iff, leadingSpaces_getD hlead]
  unfold hangs
  rw [hblank, hblank]

theorem Pass.byte_congr (row col : Nat) (b : UInt8) (p : Pass) :
    p.byte lines' row col b = p.byte lines row col b := by
  unfold Pass.byte Pass.close
  simp only [hangs_congr hlead]

theorem Pass.bytes_congr (row : Nat) : ∀ (s : Bytes) (col : Nat) (p : Pass),
    Pass.bytes lines' row col s p = Pass.bytes lines row col s p
  | [], _, _ => rfl
  | b :: s, col, p => by
    rw [Pass.bytes, Pass.bytes, Pass.byte_congr hlead, Pass.bytes_congr row s]

theorem Pass.row_congr (row : Nat) (masked : Bytes) (p : Pass) :
    p.row lines' row masked = p.row lines row masked := by
  unfold Pass.row
  rw [Pass.bytes_congr hlead, leadingSpaces_getD hlead]

theorem Pass.rows_congr : ∀ (masked : List Bytes) (row : Nat) (p : Pass),
    Pass.rows lines' row masked p = Pass.rows lines row masked p
  | [], _, _ => rfl
  | m :: masked, row, p => by
    rw [Pass.rows, Pass.rows, Pass.row_congr hlead, Pass.rows_congr masked]

/-- **A run reads of the lines only how many spaces each starts with.** -/
theorem finalPass_congr (masked : List Bytes) :
    finalPass lines' masked = finalPass lines masked := by
  have hlen := congrArg List.length hlead
  rw [List.length_map, List.length_map] at hlen
  unfold finalPass
  rw [hlen, Pass.rows_congr hlead]

theorem strips_congr (dedent : List Nat) : strips lines' dedent = strips lines dedent := by
  have hstrips : ∀ l : List Bytes, strips l dedent =
      List.zipWith (fun lead n => min n lead) (l.map Bytes.leadingSpaces) dedent := by
    intro l
    rw [List.zipWith_map_left]
    rfl
  rw [hstrips, hstrips, hlead]

theorem lost_congr (masked : List Bytes) (row : Nat) :
    (run lines' masked).lost lines' row = (run lines masked).lost lines row := by
  have hlen := congrArg List.length hlead
  rw [List.length_map, List.length_map] at hlen
  rcases Nat.lt_or_ge row lines.length with hrow | hrow
  · have hlost := leadingSpaces_getD hlead row
    have hrow' : row < lines'.length := by rw [hlen]; exact hrow
    rw [List.getD_eq_getElem _ _ hrow, List.getD_eq_getElem _ _ hrow'] at hlost
    rw [lost_run (List.getElem?_eq_getElem hrow), lost_run (List.getElem?_eq_getElem hrow'),
      finalPass_congr hlead, hlost]
  · rw [lost_eq_zero_of_le hrow, lost_eq_zero_of_le (by rw [hlen]; exact hrow)]

end Congr

end Layout

/-! ### Texts that differ inside comments and literals -/

/-- **The second text differs from the first only inside comments and literals.** Rows keep their
lengths and the number of spaces they start with. A byte that differs stands inside a comment or a
literal of the first text, and neither it nor its replacement is a delimiter. -/
structure Obscures (lines lines' : List Bytes) : Prop where
  length : lines'.length = lines.length
  rows : ∀ (row : Nat) (line line' : Bytes), lines[row]? = some line → lines'[row]? = some line' →
    Agree (modeAt .code lines row) line line' ∧ line'.leadingSpaces = line.leadingSpaces

theorem Obscures.map_leadingSpaces {lines lines' : List Bytes} (h : Obscures lines lines') :
    lines'.map Bytes.leadingSpaces = lines.map Bytes.leadingSpaces := by
  refine List.ext_getElem (by rw [List.length_map, List.length_map, h.length]) fun row h1 h2 => ?_
  rw [List.length_map] at h1 h2
  rw [List.getElem_map, List.getElem_map]
  exact (h.rows row _ _ (List.getElem?_eq_getElem h2) (List.getElem?_eq_getElem h1)).2

/-- **What stands inside comments and literals does not matter**: two texts that differ only there
have the same masked lines, and laying them out moves the same rows by the same distances, leaves
the same brackets open and finds the same wrong. -/
theorem layout_opaque {lines lines' : List Bytes} (h : Obscures lines lines') :
    maskLines lines' = maskLines lines ∧
      (layout lines').adjusted = (layout lines).adjusted ∧
      (∀ row, (layout lines').lost lines' row = (layout lines).lost lines row) ∧
      (layout lines').leftover = (layout lines).leftover ∧
      (layout lines').diagnostics = (layout lines).diagnostics := by
  have hmask : maskLines lines' = maskLines lines := by
    unfold maskLines
    rw [maskSteps_eq_of_agree .code lines lines' h.length fun row l l' hl hl' =>
      (h.rows row l l' hl hl').1]
  have hlead := h.map_leadingSpaces
  have hpass : Layout.finalPass lines' (maskLines lines') =
      Layout.finalPass lines (maskLines lines) := by
    rw [hmask, Layout.finalPass_congr hlead]
  refine ⟨hmask, ?_, fun row => ?_, ?_, ?_⟩
  · unfold layout
    rw [Layout.adjusted_eq, Layout.adjusted_eq, hpass, Layout.strips_congr hlead]
  · unfold layout
    rw [hmask, Layout.lost_congr hlead]
  · exact congrArg (fun p => p.stack.toList) hpass
  · exact congrArg (fun p => p.found.reverse ++ p.stack.toList.map Layout.unclosed) hpass

/-- A bracket of a comment is changed to one of another kind; the block below it is moved all the
same, and nothing is found wrong. -/
theorem layout_opaque_bracket :
    Obscures (["if (x) // (", "  \x7b", "  \x7d"].map Bytes.ofString)
        (["if (x) // ]", "  \x7b", "  \x7d"].map Bytes.ofString) ∧
      (layout (["if (x) // ]", "  \x7b", "  \x7d"].map Bytes.ofString)).adjusted = [1, 2] ∧
      (layout (["if (x) // ]", "  \x7b", "  \x7d"].map Bytes.ofString)).diagnostics = [] := by
  have hbytes : ∀ col < 11,
      (Bytes.ofString "if (x) // (")[col]? = (Bytes.ofString "if (x) // ]")[col]? ∨
        (maskLine .code (Bytes.ofString "if (x) // (")).1[col]? ≠
          (Bytes.ofString "if (x) // (")[col]? ∧
        (Bytes.ofString "if (x) // (")[col]?.all (!Byte.isDelimiter ·) = true ∧
        (Bytes.ofString "if (x) // ]")[col]?.all (!Byte.isDelimiter ·) = true := by
    decide +kernel
  have hobscures : Obscures (["if (x) // (", "  \x7b", "  \x7d"].map Bytes.ofString)
      (["if (x) // ]", "  \x7b", "  \x7d"].map Bytes.ofString) := by
    refine ⟨rfl, fun row line line' hline hline' => ?_⟩
    rcases row with _ | row
    · obtain rfl := Option.some.inj hline
      obtain rfl := Option.some.inj hline'
      refine ⟨⟨by decide +kernel, fun col b b' hb hb' => ?_⟩, by decide +kernel⟩
      have hcol : col < 11 := (List.getElem?_eq_some_iff.mp hb).1
      rcases hbytes col hcol with heq | ⟨hne, hall, hall'⟩
      · rw [hb, hb'] at heq
        exact Or.inl (Option.some.inj heq)
      · rw [hb] at hall
        rw [hb'] at hall'
        exact Or.inr ⟨hiddenIn_of_ne hne, by simpa using hall, by simpa using hall'⟩
    · obtain rfl : line = line' := Option.some.inj (hline.symm.trans hline')
      refine ⟨⟨rfl, fun col b b' hb hb' => Or.inl ?_⟩, rfl⟩
      exact Option.some.inj (hb.symm.trans hb')
  obtain ⟨-, hadjusted, -, -, hdiagnostics⟩ := layout_opaque hobscures
  rw [hadjusted, hdiagnostics]
  exact ⟨hobscures, by decide +kernel, by decide +kernel⟩

end Allman
