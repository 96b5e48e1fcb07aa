import Allman.Diagnostic.Listing
import Allman.Proofs.Accounting
import Allman.Proofs.Balance
import Allman.Proofs.Masking
import Allman.Proofs.Runes
import Mathlib.Order.Bounds.Defs

/-! # The caret stands under its column

A screen shows a text rune by rune, each from the column where the one before it ends
(`Screen.columnAfter`). A tab leads to the next tab stop, any other rune takes as many columns as
its code point is wide, and a byte that is part of no character is shown as the replacement
character. The widths and the distance of the tab stops are those of the screen.

* `columnAfter_caretPad`: the white space before a caret has other bytes than the part of the line
  that it stands for, but it leads to the same column, from whichever column both are shown.
* `columnOf_of_lt`: an ASCII byte of a line is shown behind all that stands before it, so that this
  is the column of the byte in the whole line.
* `excerpt_points`: hence the excerpt for a finding or a remark has its caret under the bracket that
  the finding or the remark is about. -/

namespace Allman

/-- **A screen**: how many columns a code point takes, and how far apart the tab stops are. -/
structure Screen where
  /-- The number of columns of a code point other than a tab. -/
  width : Nat → Nat
  /-- A space takes one column. -/
  width_space : width Byte.space.toNat = 1
  /-- The distance of the tab stops. -/
  tabWidth : Nat
  /-- No two of them are in one column. -/
  tabWidth_pos : 0 < tabWidth

namespace Screen

/-- The first tab stop to the right of a column. -/
def nextStop (screen : Screen) (x : Nat) : Nat := (x / screen.tabWidth + 1) * screen.tabWidth

/-- The column behind a rune that is shown at a column. -/
def advance (screen : Screen) (x : Nat) (r : Rune) : Nat :=
  if r.code = Byte.tab.toNat then screen.nextStop x else x + screen.width r.code

/-- **The column behind a text** that is shown from a column on. -/
def columnAfter (screen : Screen) (x : Nat) (s : Bytes) : Nat :=
  (Rune.decode s).foldl screen.advance x

/-- The screen with the library's widths and the given distance of tab stops. -/
def ofTabWidth (tabWidth : Nat) (h : 0 < tabWidth) : Screen :=
  ⟨Rune.widthOf, Rune.widthOf_space, tabWidth, h⟩

/-- **The next tab stop is the least multiple of the tab width to the right.** -/
theorem isLeast_nextStop (screen : Screen) (x : Nat) :
    IsLeast {y | x < y ∧ screen.tabWidth ∣ y} (screen.nextStop x) := by
  refine ⟨⟨?_, Nat.dvd_mul_left _ _⟩, ?_⟩
  · rw [nextStop, Nat.mul_comm]
    exact Nat.lt_mul_div_succ x screen.tabWidth_pos
  · rintro y ⟨hlt, n, rfl⟩
    rw [nextStop, Nat.mul_comm]
    exact Nat.mul_le_mul_left _ (Nat.div_lt_of_lt_mul hlt)

/-! ### ASCII texts -/

/-- The column behind an ASCII byte that is shown at a column. -/
def advanceByte (screen : Screen) (x : Nat) (b : UInt8) : Nat :=
  screen.advance x (.char b.toNat [b])

theorem columnAfter_cons_of_lt (screen : Screen) {b : UInt8} (hb : b < 0x80) (x : Nat) (s : Bytes) :
    screen.columnAfter x (b :: s) = screen.columnAfter (screen.advanceByte x b) s := by
  rw [columnAfter, Rune.decode_cons_of_lt hb]
  rfl

theorem columnAfter_of_lt (screen : Screen) {s : Bytes} (h : ∀ b ∈ s, b < 0x80) (x : Nat) :
    screen.columnAfter x s = s.foldl screen.advanceByte x := by
  induction s generalizing x with
  | nil => rw [columnAfter, Rune.decode]; rfl
  | cons b s ih =>
    rw [screen.columnAfter_cons_of_lt (h b (by simp)), List.foldl_cons]
    exact ih (fun c hc => h c (by simp [hc])) _

theorem advanceByte_space (screen : Screen) (x : Nat) :
    screen.advanceByte x Byte.space = x + 1 := by
  have hadvance : screen.advanceByte x Byte.space = x + screen.width Byte.space.toNat := rfl
  rw [hadvance, screen.width_space]

theorem foldl_advanceByte_spaces (screen : Screen) (n x : Nat) :
    (List.replicate n Byte.space).foldl screen.advanceByte x = x + n := by
  induction n generalizing x with
  | zero => rfl
  | succ n ih =>
    rw [List.replicate_succ, List.foldl_cons, advanceByte_space, ih]
    omega

/-! ### The white space before a caret -/

open Listing

theorem mem_padRune {width : Nat → Nat} {r : Rune} {b : UInt8} (h : b ∈ padRune width r) :
    b = Byte.space ∨ b = Byte.tab := by
  unfold padRune at h
  split at h
  · exact Or.inr (List.mem_singleton.mp h)
  · exact Or.inl (List.eq_of_mem_replicate h)

theorem mem_caretPad {width : Nat → Nat} {line : Bytes} {col : Nat} {b : UInt8}
    (h : b ∈ caretPad width line col) : b = Byte.space ∨ b = Byte.tab := by
  obtain ⟨r, -, hr⟩ := List.mem_flatMap.mp h
  exact mem_padRune hr

/-- **The white space for a rune leads where the rune leads.** -/
theorem foldl_advanceByte_padRune (screen : Screen) (x : Nat) (r : Rune) :
    (padRune screen.width r).foldl screen.advanceByte x = screen.advance x r := by
  unfold padRune advance
  split
  · rfl
  · exact foldl_advanceByte_spaces screen _ x

theorem columnAfter_flatMap_padRune (screen : Screen) (rs : List Rune) (x : Nat) :
    screen.columnAfter x (rs.flatMap (padRune screen.width)) = rs.foldl screen.advance x := by
  have hascii : ∀ b ∈ rs.flatMap (padRune screen.width), b < 0x80 := by
    intro b hb
    obtain ⟨r, -, hr⟩ := List.mem_flatMap.mp hb
    rcases mem_padRune hr with rfl | rfl <;> decide
  rw [columnAfter_of_lt screen hascii, List.foldl_flatMap]
  simp only [foldl_advanceByte_padRune]

/-- **The caret stands under its column**, whatever the widths of tabs and characters: the white
space before it leads to the column behind the first `col` bytes of the line, from whichever column
both are shown. It is made of spaces and tabs. -/
theorem columnAfter_caretPad (screen : Screen) (line : Bytes) (col x : Nat) :
    screen.columnAfter x (caretPad screen.width line col) =
      screen.columnAfter x (line.take (min col line.length)) ∧
    ∀ b ∈ caretPad screen.width line col, b = Byte.space ∨ b = Byte.tab := by
  refine ⟨?_, fun b => mem_caretPad⟩
  rw [← List.take_eq_take_min]
  exact screen.columnAfter_flatMap_padRune _ x

/-- A tab, a wide character, a stray byte and another tab, with tab stops four columns apart and
behind a margin of two: the caret under the brace stands in column eight. -/
theorem columnAfter_caretPad_wide :
    let line := Byte.tab :: Bytes.ofString "日" ++ [0xFF, Byte.tab, Byte.openBrace]
    caretPad Rune.widthOf line 6 = [Byte.tab, Byte.space, Byte.space, Byte.space, Byte.tab] ∧
      (ofTabWidth 4 (by decide)).columnAfter 2 (caretPad Rune.widthOf line 6) = 8 := by
  intro line
  have htake : (ofTabWidth 4 (by decide)).columnAfter 2 (line.take (min 6 line.length)) = 8 := by
    decide +kernel
  exact ⟨by decide +kernel,
    ((ofTabWidth 4 (by decide)).columnAfter_caretPad line 6 2).1.trans htake⟩

/-! ### Where a byte is shown -/

/-- The column where the rune that holds byte `col` is shown, when runes are shown from a column
on. -/
def columnOf (screen : Screen) : Nat → List Rune → Nat → Nat
  | x, [], _ => x
  | x, r :: rest, col =>
    if col < r.bytes.length then x
    else columnOf screen (screen.advance x r) rest (col - r.bytes.length)

theorem columnOf_append (screen : Screen) : ∀ (rs rest : List Rune) (x col : Nat),
    screen.columnOf x (rs ++ rest) ((rs.flatMap Rune.bytes).length + col) =
      screen.columnOf (rs.foldl screen.advance x) rest col
  | [], rest, x, col => by rw [List.flatMap_nil, List.length_nil, Nat.zero_add]; rfl
  | r :: rs, rest, x, col => by
    rw [List.cons_append, columnOf, List.flatMap_cons, List.length_append, if_neg (by omega),
      List.foldl_cons, ← columnOf_append screen rs rest]
    congr 1
    omega

/-- **An ASCII byte is shown behind all that stands before it.** -/
theorem columnOf_of_lt (screen : Screen) {s : Bytes} {col : Nat} {b : UInt8}
    (hcol : s[col]? = some b) (hb : b < 0x80) (x : Nat) :
    screen.columnOf x (Rune.decode s) col = screen.columnAfter x (s.take col) := by
  obtain ⟨hlt, hget⟩ := List.getElem?_eq_some_iff.mp hcol
  have hsplit : s = s.take col ++ b :: s.drop (col + 1) := by
    rw [← hget, ← List.drop_eq_getElem_cons hlt, List.take_append_drop]
  have hdecode : Rune.decode s = Rune.decode (s.take col) ++
      .char b.toNat [b] :: Rune.decode (s.drop (col + 1)) := by
    conv_lhs => rw [hsplit]
    rw [Rune.decode_append _ (by simpa using hb), Rune.decode_cons_of_lt hb]
  have hlength : ((Rune.decode (s.take col)).flatMap Rune.bytes).length + 0 = col := by
    rw [Rune.flatMap_bytes_decode, List.length_take]
    omega
  have happend := screen.columnOf_append (Rune.decode (s.take col))
    (.char b.toNat [b] :: Rune.decode (s.drop (col + 1))) x 0
  rwa [hlength, ← hdecode] at happend

end Screen

/-! ### Excerpts -/

namespace Listing

theorem withoutReturns_isPrefix (s : Bytes) : withoutReturns s <+: s :=
  List.rdropWhile_prefix _ s

theorem withoutReturns_getElem? {s : Bytes} {col : Nat} {b : UInt8} (hcol : s[col]? = some b)
    (hb : b ≠ Byte.carriageReturn) : (withoutReturns s)[col]? = some b := by
  have hsplit : withoutReturns s ++ List.rtakeWhile (· == Byte.carriageReturn) s = s :=
    List.rdropWhile_append_rtakeWhile
  rcases Nat.lt_or_ge col (withoutReturns s).length with hlt | hle
  · rwa [← hsplit, List.getElem?_append_left hlt] at hcol
  · rw [← hsplit, List.getElem?_append_right hle] at hcol
    have hreturn := List.mem_rtakeWhile_imp (List.mem_of_getElem? hcol)
    exact absurd (beq_iff_eq.mp hreturn) hb

/-- The row of an excerpt: a text behind a margin of two columns. -/
def margined (s : Bytes) : Bytes := Byte.space :: Byte.space :: s

theorem newline_not_mem_margined {s : Bytes} (h : Byte.newline ∉ s) :
    Byte.newline ∉ margined s := by
  simp only [margined, List.mem_cons, not_or]
  exact ⟨by decide, by decide, h⟩

theorem columnAfter_margined (screen : Screen) (s : Bytes) :
    screen.columnAfter 0 (margined s) = screen.columnAfter 2 s := by
  have hspace : Byte.space < 0x80 := by decide
  rw [margined, screen.columnAfter_cons_of_lt hspace, screen.columnAfter_cons_of_lt hspace,
    screen.advanceByte_space, screen.advanceByte_space]

/-- **A row points at a byte of the row above it**: on every screen with the library's widths it
leads to the column where the byte is shown. -/
structure PointsAt (below above : Bytes) (col : Nat) (b : UInt8) : Prop where
  above_row : Byte.newline ∉ above
  below_row : Byte.newline ∉ below
  shown : above[col]? = some b
  aligned : ∀ (tabWidth : Nat) (h : 0 < tabWidth),
    (Screen.ofTabWidth tabWidth h).columnAfter 0 below =
      (Screen.ofTabWidth tabWidth h).columnOf 0 (Rune.decode above) col

theorem pointsAt_caretPad {s : Bytes} {col : Nat} {b : UInt8} (hs : Byte.newline ∉ s)
    (hcol : s[col]? = some b) (hb : b < 0x80) :
    PointsAt (margined (caretPad Rune.widthOf s col)) (margined s) (col + 2) b := by
  refine ⟨newline_not_mem_margined hs, newline_not_mem_margined fun hmem => ?_, hcol,
    fun tabWidth h => ?_⟩
  · rcases Screen.mem_caretPad hmem with heq | heq <;> exact absurd heq (by decide)
  · have hshown : (margined s)[col + 2]? = some b := hcol
    have htake : (margined s).take (col + 2) = margined (s.take col) := rfl
    rw [Screen.columnOf_of_lt _ hshown hb, htake, columnAfter_margined, columnAfter_margined]
    exact (Screen.ofTabWidth tabWidth h).columnAfter_flatMap_padRune _ 2

theorem excerpt_eq {text : SourceText} {p : Position} {line : Bytes}
    (hline : text.lines[p.row]? = some line) (color : Bool) (style : Style) :
    excerpt (some text) p color style =
      [margined (withoutReturns line) ++ Byte.newline ::
        (margined (caretPad Rune.widthOf (withoutReturns line) p.col) ++
          style.paint color (Bytes.ofString "^") ++ [Byte.newline])] := by
  have hmargin : Bytes.ofString "  " = [Byte.space, Byte.space] := rfl
  have hbreak : Bytes.ofString "\n  " = [Byte.newline, Byte.space, Byte.space] := rfl
  simp only [excerpt, Option.bind_some, hline, hmargin, hbreak, margined]
  simp

end Listing

/-! ### Findings -/

namespace Layout

open Pairing

/-- **Findings and their remarks are about brackets** of the text. -/
theorem exists_bracket_of_mem_diagnostics {lines : List Bytes} {d : Diagnostic} {p : Position}
    (hd : d ∈ (layout lines).diagnostics) (hp : p ∈ d.position :: d.notes.map Note.position) :
    ∃ s b, lines[p.row]? = some s ∧ s[p.col]? = some b ∧ Bracket.isBracket b = true := by
  -- the position is that of a bracket of the masked text
  obtain ⟨m, hm, rfl⟩ : ∃ m ∈ marks (maskLines lines), p = m.position := by
    rw [layout_diagnostics] at hd
    rcases mem_findings.mp hd with ⟨⟨c, t⟩, hx, -, rfl⟩ | ⟨o, ho, rfl⟩
    · rw [notes_blame, position_blame, List.mem_cons] at hp
      rcases hp with rfl | hp
      · exact ⟨c, (mem_of_mem_takings hx).1, rfl⟩
      · obtain ⟨o, rfl, rfl⟩ := Option.map_eq_some_iff.mp (Option.mem_toList.mp hp)
        exact ⟨o, (mem_of_taken hx).resolve_left (by simp), rfl⟩
    · rw [position_unclosedMark] at hp
      exact ⟨o, mem_of_mem_waiting ho, List.mem_singleton.mp hp⟩
  obtain ⟨text, htext, hcol, hbracket⟩ := mem_marks.mp hm
  obtain ⟨s, hs, hveils⟩ := veils_maskLines htext
  exact ⟨s, m.byte, hs, hveils.getElem? hcol (Bracket.ne_space_of_isBracket hbracket), hbracket⟩

end Layout

open Layout Listing in
/-- **The caret stands under the bracket.** The excerpt for a finding, or for a remark, is a row that
shows the bracket it is about and a row with a caret under it. -/
theorem excerpt_points (text : SourceText) {d : Diagnostic} {p : Position}
    (hd : d ∈ (layout text.lines).diagnostics) (hp : p ∈ d.position :: d.notes.map Note.position)
    (color : Bool) (style : Style) :
    ∃ above below b, Bracket.isBracket b = true ∧ PointsAt below above (p.col + 2) b ∧
      excerpt (some text) p color style =
        [above ++ Byte.newline :: (below ++ style.paint color (Bytes.ofString "^") ++
          [Byte.newline])] := by
  obtain ⟨s, b, hs, hcol, hbracket⟩ := exists_bracket_of_mem_diagnostics hd hp
  have hb : b < 0x80 := Bracket.lt_of_isBracket hbracket
  have hreturn : b ≠ Byte.carriageReturn := by
    rintro rfl
    exact absurd hbracket (by decide)
  have hrow : Byte.newline ∉ withoutReturns s := fun hmem =>
    newline_not_mem_of_mem_splitLines (List.mem_of_getElem? hs)
      ((withoutReturns_isPrefix s).subset hmem)
  exact ⟨_, _, b, hbracket, pointsAt_caretPad hrow (withoutReturns_getElem? hcol hreturn) hb,
    excerpt_eq hs color style⟩

end Allman
