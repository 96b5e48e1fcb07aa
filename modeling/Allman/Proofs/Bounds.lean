import Allman.Proofs.Scan

/-! # A run that checks every step

`Layout.run` reads texts by column and lists by row, and what is not there counts as nothing. A
column belongs to a masked text and is also used on a line, which may be shorter or have nothing to
do with the text. `Checked.run` is the same run with indices and distances that may be negative, in
which every access is checked: it ends with a `Fault` as soon as one is out of range.

It never does. A pass that stays `InRange` takes every byte and every row without a fault
(`Checked.byte_ofPass`, `Checked.row_ofPass`), to the state that the unchecked one comes to, and
stays in range. So the two runs are one, as long as rows and columns fit a position
(`checked_run`). -/

namespace Allman.Layout

namespace Checked

variable {α : Type}

/-! ### Accesses -/

/-- What can go wrong in a checked run. -/
inductive Fault where
  /-- A list has nothing at the index. -/
  | index (i : Int) (length : Nat)
  /-- A text cannot be cut at the index. -/
  | cut (i : Int) (length : Nat)
  /-- A row or a column does not fit a position. -/
  | position (e : PositionError)
  /-- An indentation is negative. -/
  | indentation (n : Int)
  deriving DecidableEq, Repr

/-- The element at an index. -/
def get (xs : List α) (i : Int) : Except Fault α :=
  match if i < 0 then none else xs[i.toNat]? with
  | some x => pure x
  | none => throw (.index i xs.length)

/-- The list with another element at an index. -/
def set (xs : List α) (i : Int) (x : α) : Except Fault (List α) :=
  if 0 ≤ i ∧ i < xs.length then pure (xs.set i.toNat x) else throw (.index i xs.length)

/-- The text from an index on. -/
def cut (s : Bytes) (i : Int) : Except Fault Bytes :=
  if 0 ≤ i ∧ i ≤ s.length then pure (s.drop i.toNat) else throw (.cut i s.length)

/-- The position with the given row and column. -/
def place (row col : Int) : Except Fault Position := (Position.ofInts row col).mapError .position

/-- A number as an indentation. -/
def indentation (n : Int) : Except Fault Int := if n < 0 then throw (.indentation n) else pure n

theorem get_eq {xs : List α} {n : Nat} {x : α} (h : xs[n]? = some x) : get xs n = pure x := by
  unfold get
  rw [if_neg (by omega), Int.toNat_natCast, h]

theorem set_eq {xs : List α} {n : Nat} (h : n < xs.length) (x : α) :
    set xs n x = pure (xs.set n x) := by
  unfold set
  rw [if_pos (by omega), Int.toNat_natCast]

theorem cut_eq {s : Bytes} {n : Nat} (h : n ≤ s.length) : cut s n = pure (s.drop n) := by
  unfold cut
  rw [if_pos (by omega), Int.toNat_natCast]

theorem get_map_ofNat {ns : List Nat} {i : Nat} (h : i < ns.length) :
    get (ns.map Int.ofNat) i = pure (ns[i] : Int) := get_eq (by simp [h])

theorem place_eq {row col : Nat} (h : row < Position.bound ∧ col < Position.bound) :
    place row col = pure ⟨row, col⟩ := by
  unfold place Position.ofInts
  rw [if_neg (by omega), if_neg (by omega)]
  rfl

theorem indentation_eq (n : Nat) : indentation n = pure (n : Int) := by
  unfold indentation
  rw [if_neg (by omega)]

/-! ### Lines -/

/-- The number of spaces a line starts with: its length without that of what follows them. -/
def leadingSpaces (line : Bytes) : Int :=
  line.length - (line.dropWhile (· == Byte.space)).length

/-- There are only spaces in `count` columns from column `i` on. -/
def blankFrom (line : Bytes) : Nat → Int → Except Fault Bool
  | 0, _ => pure true
  | count + 1, i => do
    let b ← get line i
    if b = Byte.space then blankFrom line count (i + 1) else pure false

/-- The line has at least `col` bytes, and the first `col` of them are spaces. -/
def blankBefore (line : Bytes) (col : Int) : Except Fault Bool :=
  if line.length < col then pure false else blankFrom line col.toNat 0

/-- The masked row holds code. -/
def isCode (text : Bytes) : Except Fault Bool :=
  let code := text.trimSpace
  if code = [] then pure false
  else do
    let first ← get code 0
    pure (first != Byte.hash)

/-- The masked row ends a statement. -/
def endsStatement (text : Bytes) : Except Fault Bool :=
  let code := text.trimTrailing
  if code = [] then pure false
  else do
    let last ← get code (code.length - 1)
    if last = Byte.semicolon ∨ last = Byte.openBrace ∨ last = Byte.closeBrace then pure true
    else pure (last = Byte.colon ∧ ¬ [Byte.colon, Byte.colon] <:+ code)

theorem leadingSpaces_eq (line : Bytes) : leadingSpaces line = line.leadingSpaces := by
  have hsplit : (line.takeWhile (· == Byte.space)).length +
      (line.dropWhile (· == Byte.space)).length = line.length := by
    rw [← List.length_append, List.takeWhile_append_dropWhile]
  unfold leadingSpaces Bytes.leadingSpaces
  omega

theorem blankFrom_eq {s : Bytes} : ∀ {count i : Nat}, i + count ≤ s.length →
    blankFrom s count i = pure (((s.drop i).take count).all (· == Byte.space))
  | 0, _, _ => by
    rw [List.take_zero]
    rfl
  | count + 1, i, h => by
    have hi : i < s.length := by omega
    have ih := @blankFrom_eq s count (i + 1) (by omega)
    rw [blankFrom, get_eq (List.getElem?_eq_getElem hi), pure_bind, List.drop_eq_getElem_cons hi,
      List.take_succ_cons, List.all_cons]
    by_cases hb : s[i] = Byte.space
    · rw [if_pos hb, hb, beq_self_eq_true, Bool.true_and]
      exact ih
    · rw [if_neg hb, beq_eq_false_iff_ne.mpr hb, Bool.false_and]

theorem blankBefore_eq (line : Bytes) (col : Nat) :
    blankBefore line col = pure (line.blankBefore col) := by
  unfold blankBefore Bytes.blankBefore
  by_cases hcol : col ≤ line.length
  · have hblank := @blankFrom_eq line col 0 (by omega)
    rw [if_neg (by omega), Int.toNat_natCast, decide_eq_true hcol, Bool.true_and]
    exact hblank
  · rw [if_pos (by omega), decide_eq_false hcol, Bool.false_and]

theorem isCode_eq (text : Bytes) : isCode text = pure (Layout.isCode text) := by
  unfold isCode Layout.isCode
  rw [← head?_trimSpace]
  rcases text.trimSpace with _ | ⟨first, rest⟩
  · rfl
  · rfl

theorem endsStatement_eq (text : Bytes) :
    endsStatement text = pure (Layout.endsStatement text) := by
  unfold endsStatement Layout.endsStatement
  rcases List.eq_nil_or_concat text.trimTrailing with hnil | ⟨before, last, h⟩
  · rw [hnil]
    rfl
  · have hlast : get (before ++ [last]) ((before ++ [last]).length - 1) = pure last := by
      have hlength : (((before ++ [last]).length : Int) - 1) = before.length := by simp
      rw [hlength]
      exact get_eq (by simp)
    have hcolons : [Byte.colon, Byte.colon] <:+ before ++ [last] ↔
        last = Byte.colon ∧ before.getLast? = some Byte.colon := by
      rw [← List.reverse_prefix, List.reverse_concat, ← List.head?_reverse]
      rcases before.reverse with _ | ⟨b, rest⟩
      · simp
      · simp [List.cons_prefix_cons, eq_comm]
    rw [h, List.concat_eq_append, List.reverse_concat]
    dsimp only
    rw [if_neg (by simp), hlast, pure_bind, List.head?_reverse]
    split
    · next hends =>
      rcases hends with rfl | rfl | rfl
      · rfl
      · rfl
      · rfl
    · next hends =>
      rw [not_or, not_or] at hends
      refine congrArg pure (Bool.eq_iff_iff.mpr ?_)
      simp only [hcolons, hends, decide_eq_true_eq, Bool.or_eq_true, Bool.and_eq_true, beq_iff_eq,
        bne_iff_ne, false_or, not_and]
      exact and_congr_right fun hlast => forall_prop_of_true hlast

/-! ### The run -/

/-- What a checked pass knows between two bytes: a pass whose numbers may be negative. -/
structure State where
  /-- The open brackets. -/
  stack : Stack Int
  /-- The indentation of the current statement. -/
  indent : Int
  /-- The next row of code starts a statement. -/
  fresh : Bool
  /-- How far each row is to be moved. -/
  dedent : List Int
  /-- What was found wrong, the latest first. -/
  found : List Diagnostic

/-- Moves a row, unless it is moved already. -/
def State.move (s : State) (row distance : Int) : Except Fault State := do
  let n ← get s.dedent row
  if n = 0 then
    let dedent ← set s.dedent row distance
    pure { s with dedent }
  else pure s

/-- The entry with a position for its row and column. -/
def placed (e : Entry Int) : Except Fault (Entry Nat) := do
  let p ← place e.row e.col
  pure ⟨e.opener, p.row, p.col, e.indent.toNat⟩

/-- The column of a row is reached over spaces alone. -/
def blankAt (lines : List Bytes) (row col : Int) : Except Fault Bool := do
  let line ← get lines row
  blankBefore line col

/-- The pair of braces hangs and is to be moved. -/
def hangs (lines : List Bytes) (e : Entry Int) (row col : Int) : Except Fault Bool :=
  if e.opener ≠ Byte.openBrace ∨ e.col - e.indent < unit then pure false
  else do
    if ← blankAt lines row col then blankAt lines e.row e.col else pure false

/-- A closing bracket takes the innermost open one. -/
def State.close (lines : List Bytes) (row col : Int) (closer opener : UInt8) (s : State) :
    Except Fault State :=
  match s.stack.pop with
  | (none, _) => do
    let p ← place row col
    pure { s with found := mismatched p.row p.col closer none :: s.found }
  | (some e, rest) =>
    let q : State := { s with stack := rest }
    if e.opener ≠ opener then do
      let p ← place row col
      let taken ← placed e
      pure { q with found := mismatched p.row p.col closer (some taken) :: q.found }
    else do
      if ← hangs lines e row col then
        let moved ← q.move e.row (e.col - e.indent)
        moved.move row (e.col - e.indent)
      else pure q

/-- Reads one byte of a masked row. -/
def State.byte (lines : List Bytes) (row col : Int) (b : UInt8) (s : State) : Except Fault State :=
  if Bracket.isOpener b then do
    let indent ← indentation s.indent
    pure { s with stack := s.stack.push ⟨b, row, col, indent⟩ }
  else
    match Bracket.openerOf? b with
    | some opener => s.close lines row col b opener
    | none => pure s

/-- Reads `count` bytes of a masked row from column `col` on. -/
def State.bytes (lines : List Bytes) (row : Int) (text : Bytes) :
    Nat → Int → State → Except Fault State
  | 0, _, s => pure s
  | count + 1, col, s => do
    let b ← get text col
    let next ← s.byte lines row col b
    State.bytes lines row text count (col + 1) next

/-- The indentation of a row after its move. -/
def indentationAt (lines : List Bytes) (dedent : List Int) (row : Int) : Except Fault Int := do
  let line ← get lines row
  let distance ← get dedent row
  indentation (leadingSpaces line - min distance (leadingSpaces line))

/-- Reads a masked row. -/
def State.row (lines : List Bytes) (row : Int) (text : Bytes) (s : State) :
    Except Fault State := do
  let q ← State.bytes lines row text text.length 0 s
  if ← isCode text then
    let fresh ← endsStatement text
    if q.fresh && s.stack.groupDepth == 0 then
      let indent ← indentationAt lines q.dedent row
      pure { q with indent, fresh }
    else pure { q with fresh }
  else pure q

/-- Reads masked rows from row `row` on, as far as there are lines. -/
def State.rows (lines : List Bytes) : Int → List Bytes → State → Except Fault State
  | _, [], s => pure s
  | row, text :: rest, s =>
    if lines.length ≤ row then pure s
    else do
      let next ← s.row lines row text
      State.rows lines (row + 1) rest next

/-- The lines after the moves, from row `row` on, and the rows of those that are moved. -/
def shift (dedent : List Int) : Nat → List Bytes → Except Fault (List Bytes × List Nat)
  | _, [] => pure ([], [])
  | row, line :: rest => do
    let distance ← get dedent row
    let n := min distance (leadingSpaces line)
    if n = 0 then
      let (lines, adjusted) ← shift dedent (row + 1) rest
      pure (line :: lines, adjusted)
    else
      let stripped ← cut line n
      let (lines, adjusted) ← shift dedent (row + 1) rest
      pure (stripped :: lines, row :: adjusted)

/-- **Moves hanging braces**, and ends with a fault at the first access out of range, place that is
no position, or negative indentation. -/
def run (lines masked : List Bytes) : Except Fault Result := do
  let s ← State.rows lines 0 masked ⟨.empty, 0, true, List.replicate lines.length 0, []⟩
  let leftover ← s.stack.toList.mapM placed
  let (shifted, adjusted) ← shift s.dedent 0 lines
  pure
    { lines := shifted
      adjusted
      leftover
      diagnostics := s.found.reverse ++ leftover.map unclosed }

/-! ### Passes in range -/

/-- An entry whose numbers may be negative, by their type. -/
def ofEntry (e : Entry Nat) : Entry Int := ⟨e.opener, e.row, e.col, e.indent⟩

/-- The state of a checked pass that stands where a pass stands. -/
def ofPass (p : Pass) : State :=
  ⟨⟨p.stack.entries.map ofEntry⟩, p.indent, p.fresh, p.dedent.map Int.ofNat, p.found⟩

/-- There is a distance for every line, and the open brackets are in rows of the lines and at
positions. -/
structure InRange (lines : List Bytes) (p : Pass) : Prop where
  length_dedent : p.dedent.length = lines.length
  row_lt : ∀ e ∈ p.stack.entries, e.row < lines.length
  fits : ∀ e ∈ p.stack.entries, e.row < Position.bound ∧ e.col < Position.bound

variable {lines : List Bytes} {p : Pass}

theorem inRange_start : InRange lines (.start lines.length) where
  length_dedent := List.length_replicate
  row_lt := by simp [Pass.start, Stack.empty]
  fits := by simp [Pass.start, Stack.empty]

theorem InRange.of_eq {q : Pass} (h : InRange lines q) (hstack : p.stack = q.stack)
    (hdedent : p.dedent.length = q.dedent.length) : InRange lines p where
  length_dedent := hdedent.trans h.length_dedent
  row_lt := by rw [hstack]; exact h.row_lt
  fits := by rw [hstack]; exact h.fits

theorem InRange.lt_dedent (h : InRange lines p) {row : Nat} (hrow : row < lines.length) :
    row < p.dedent.length := hrow.trans_eq h.length_dedent.symm

theorem InRange.move (h : InRange lines p) (row distance : Nat) :
    InRange lines (p.move row distance) := h.of_eq rfl (List.length_modify ..)

theorem InRange.push (h : InRange lines p) {e : Entry Nat} (hline : e.row < lines.length)
    (hfits : e.row < Position.bound ∧ e.col < Position.bound) :
    InRange lines { p with stack := p.stack.push e } where
  length_dedent := h.length_dedent
  row_lt := List.forall_mem_cons.mpr ⟨hline, h.row_lt⟩
  fits := List.forall_mem_cons.mpr ⟨hfits, h.fits⟩

theorem InRange.pop (h : InRange lines p) {e : Entry Nat} {rest : List (Entry Nat)}
    (hstack : p.stack.entries = e :: rest) : InRange lines { p with stack := ⟨rest⟩ } where
  length_dedent := h.length_dedent
  row_lt := (List.forall_mem_cons.mp (hstack ▸ h.row_lt)).2
  fits := (List.forall_mem_cons.mp (hstack ▸ h.fits)).2

/-- A pass stays in range when a bracket is closed. -/
theorem InRange.close (h : InRange lines p) (row col : Nat) (closer opener : UInt8) :
    InRange lines (p.close lines row col closer opener) := by
  rcases hstack : p.stack.entries with _ | ⟨e, rest⟩
  · rw [Pass.close_empty hstack]
    exact h.of_eq rfl rfl
  · rw [Pass.close_cons hstack]
    split
    · exact (h.pop hstack).of_eq rfl rfl
    · split
      · exact ((h.pop hstack).move _ _).move _ _
      · exact h.pop hstack

/-! ### Steps of a checked pass -/

theorem ofPass_start :
    ofPass (.start lines.length) = ⟨.empty, 0, true, List.replicate lines.length 0, []⟩ := by
  simp [ofPass, Pass.start, Stack.empty]

theorem groupDepth_ofPass (p : Pass) : (ofPass p).stack.groupDepth = p.stack.groupDepth := by
  have hopen : (fun e : Entry Int => e.opener != Byte.openBrace) ∘ ofEntry =
      fun e => e.opener != Byte.openBrace := rfl
  unfold Stack.groupDepth ofPass
  rw [List.takeWhile_map, List.length_map, hopen]

theorem move_ofPass (h : InRange lines p) {row : Nat} (hline : row < lines.length)
    (distance : Nat) :
    (ofPass p).move row distance = pure (ofPass (p.move row distance)) := by
  have hrow := h.lt_dedent hline
  have hset : row < (p.dedent.map Int.ofNat).length := by rwa [List.length_map]
  have hmodify : p.dedent.modify row (fun n => if n = 0 then distance else n) =
      p.dedent.set row (if p.dedent[row] = 0 then distance else p.dedent[row]) := by
    rw [List.modify_eq_set_getElem?, List.getElem?_eq_getElem hrow]
    rfl
  have hget : get (ofPass p).dedent row = pure (p.dedent[row] : Int) := get_map_ofNat hrow
  unfold State.move Pass.move
  rw [hmodify, hget, pure_bind]
  by_cases hzero : p.dedent[row] = 0
  · rw [if_pos (by omega), if_pos hzero]
    change set (p.dedent.map Int.ofNat) row distance >>= _ = _
    rw [set_eq hset, pure_bind]
    simp [ofPass]
  · rw [if_neg (by omega), if_neg hzero, List.set_getElem_self]

theorem placed_ofEntry {e : Entry Nat} (h : e.row < Position.bound ∧ e.col < Position.bound) :
    placed (ofEntry e) = pure e := by
  have hplace : place (ofEntry e).row (ofEntry e).col = pure ⟨e.row, e.col⟩ := place_eq h
  unfold placed
  rw [hplace, pure_bind]
  rfl

theorem blankAt_eq {row : Nat} (h : row < lines.length) (col : Nat) :
    blankAt lines row col = pure ((lines.getD row []).blankBefore col) := by
  unfold blankAt
  rw [get_eq (List.getElem?_eq_getElem h), pure_bind, blankBefore_eq, List.getD_eq_getElem _ _ h]

theorem hangs_eq (e : Entry Nat) (row col : Nat) : Layout.hangs lines e row col =
    (decide (e.opener = Byte.openBrace ∧ unit ≤ e.col - e.indent) &&
      ((lines.getD row []).blankBefore col && (lines.getD e.row []).blankBefore e.col)) := by
  unfold Layout.hangs
  rw [Bool.decide_and, Bool.and_assoc]
  rfl

theorem unit_le_of_hangs {e : Entry Nat} {row col : Nat}
    (h : Layout.hangs lines e row col = true) : unit ≤ e.col - e.indent := by
  rw [hangs_eq, Bool.and_eq_true, decide_eq_true_eq] at h
  exact h.1.2

theorem hangs_ofEntry {e : Entry Nat} {row : Nat} (he : e.row < lines.length)
    (hrow : row < lines.length) (col : Nat) :
    hangs lines (ofEntry e) row col = pure (Layout.hangs lines e row col) := by
  have hshallow : ((ofEntry e).opener ≠ Byte.openBrace ∨
      (ofEntry e).col - (ofEntry e).indent < unit) ↔
      ¬ (e.opener = Byte.openBrace ∧ unit ≤ e.col - e.indent) := by
    have hunit : unit = 2 := rfl
    rw [not_and_or]
    simp only [ofEntry]
    exact or_congr_right (by omega)
  unfold hangs
  rw [hangs_eq]
  by_cases hdeep : e.opener = Byte.openBrace ∧ unit ≤ e.col - e.indent
  · rw [if_neg (hshallow.not.mpr (not_not.mpr hdeep)), decide_eq_true hdeep, Bool.true_and,
      blankAt_eq hrow, pure_bind]
    by_cases hblank : (lines.getD row []).blankBefore col = true
    · rw [if_pos hblank, hblank, Bool.true_and]
      exact blankAt_eq he e.col
    · rw [if_neg hblank, Bool.eq_false_iff.mpr hblank, Bool.false_and]
  · rw [if_pos (hshallow.mpr hdeep), decide_eq_false hdeep, Bool.false_and]

theorem State.close_of_empty {s : State} (h : s.stack.entries = []) (row col : Int)
    (closer opener : UInt8) : s.close lines row col closer opener = (do
      let p ← place row col
      pure { s with found := mismatched p.row p.col closer none :: s.found }) := by
  unfold State.close Stack.pop
  rw [h]

theorem State.close_of_cons {s : State} {e : Entry Int} {rest : List (Entry Int)}
    (h : s.stack.entries = e :: rest) (row col : Int) (closer opener : UInt8) :
    s.close lines row col closer opener =
      (let q : State := { s with stack := ⟨rest⟩ }
      if e.opener ≠ opener then do
        let p ← place row col
        let taken ← placed e
        pure { q with found := mismatched p.row p.col closer (some taken) :: q.found }
      else do
        if ← hangs lines e row col then
          let moved ← q.move e.row (e.col - e.indent)
          moved.move row (e.col - e.indent)
        else pure q) := by
  unfold State.close Stack.pop
  rw [h]

/-- The two moves of a pair of braces that hangs. -/
theorem move_move_ofPass (h : InRange lines p) {e : Entry Nat} {row col : Nat}
    (he : e.row < lines.length) (hline : row < lines.length)
    (hhangs : Layout.hangs lines e row col = true) :
    ((ofPass p).move e.row (e.col - e.indent) >>= fun moved => moved.move row (e.col - e.indent)) =
      pure (ofPass ((p.move e.row (e.col - e.indent)).move row (e.col - e.indent))) := by
  -- the distance is positive, so that it is the same for both runs
  have hdistance : (e.col : Int) - e.indent = ((e.col - e.indent : Nat) : Int) := by
    have hle := unit_le_of_hangs hhangs
    have hunit : unit = 2 := rfl
    omega
  rw [hdistance, move_ofPass h he, pure_bind, move_ofPass (h.move _ _) hline]

theorem close_ofPass (h : InRange lines p) {row col : Nat} (closer opener : UInt8)
    (hline : row < lines.length) (hfits : row < Position.bound ∧ col < Position.bound) :
    (ofPass p).close lines row col closer opener =
      pure (ofPass (p.close lines row col closer opener)) := by
  rcases hstack : p.stack.entries with _ | ⟨e, rest⟩
  · have hempty : (ofPass p).stack.entries = [] := by simp [ofPass, hstack]
    rw [Pass.close_empty hstack, State.close_of_empty hempty, place_eq hfits, pure_bind]
    rfl
  · have hcons : (ofPass p).stack.entries = ofEntry e :: rest.map ofEntry := by
      simp [ofPass, hstack]
    have he : e ∈ p.stack.entries := by simp [hstack]
    have hopen : (ofEntry e).opener = e.opener := rfl
    rw [Pass.close_cons hstack, State.close_of_cons hcons, hopen]
    by_cases hopener : e.opener = opener
    · rw [if_neg (not_not.mpr hopener), if_neg (not_not.mpr hopener),
        hangs_ofEntry (h.row_lt e he) hline, pure_bind]
      by_cases hhangs : Layout.hangs lines e row col = true
      · rw [if_pos hhangs, if_pos hhangs]
        exact move_move_ofPass (h.pop hstack) (h.row_lt e he) hline hhangs
      · rw [if_neg hhangs, if_neg hhangs]
        rfl
    · rw [if_pos hopener, if_pos hopener, place_eq hfits, pure_bind,
        placed_ofEntry (h.fits e he), pure_bind]
      rfl

/-- **A pass in range takes a byte without a fault**, and stays in range. -/
theorem byte_ofPass (h : InRange lines p) {row col : Nat} (b : UInt8)
    (hline : row < lines.length) (hfits : row < Position.bound ∧ col < Position.bound) :
    (ofPass p).byte lines row col b = pure (ofPass (p.byte lines row col b)) ∧
      InRange lines (p.byte lines row col b) := by
  rcases Pass.byte_cases lines row col b p with
    ⟨hb, hbyte⟩ | ⟨opener, hb, ho, hbyte⟩ | ⟨hb, ho, hbyte⟩
  · rw [hbyte]
    refine ⟨?_, h.push hline hfits⟩
    have hindent : indentation (ofPass p).indent = pure (p.indent : Int) := indentation_eq p.indent
    unfold State.byte
    rw [if_pos hb, hindent, pure_bind]
    rfl
  · rw [hbyte]
    refine ⟨?_, h.close row col b opener⟩
    unfold State.byte
    rw [if_neg (Bool.eq_false_iff.mp hb), ho]
    exact close_ofPass h b opener hline hfits
  · rw [hbyte]
    refine ⟨?_, h⟩
    unfold State.byte
    rw [if_neg (Bool.eq_false_iff.mp hb), ho]

/-- The bytes of a row, by induction on how many of them are left. -/
theorem bytes_ofPass {row : Nat} {text : Bytes} (hline : row < lines.length)
    (hfits : ∀ col < text.length, row < Position.bound ∧ col < Position.bound) {count : Nat} :
    ∀ {col : Nat} {p : Pass}, InRange lines p → col + count = text.length →
      State.bytes lines row text count col (ofPass p) =
          pure (ofPass (Pass.bytes lines row col (text.drop col) p)) ∧
        InRange lines (Pass.bytes lines row col (text.drop col) p) := by
  induction count with
  | zero =>
    intro col p h hcount
    rw [List.drop_eq_nil_of_le (by omega)]
    exact ⟨rfl, h⟩
  | succ count ih =>
    intro col p h hcount
    have hcol : col < text.length := by omega
    obtain ⟨hbyte, hnext⟩ := byte_ofPass h text[col] hline (hfits col hcol)
    obtain ⟨hrest, hlast⟩ := @ih (col + 1) _ hnext (by omega)
    rw [List.drop_eq_getElem_cons hcol, Pass.bytes]
    refine ⟨?_, hlast⟩
    rw [State.bytes, get_eq (List.getElem?_eq_getElem hcol), pure_bind, hbyte, pure_bind]
    exact hrest

theorem indentationAt_ofPass (h : InRange lines p) {row : Nat} (hline : row < lines.length) :
    indentationAt lines (ofPass p).dedent row =
      pure (((lines.getD row []).leadingSpaces - p.dedent.getD row 0 : Nat) : Int) := by
  have hrow := h.lt_dedent hline
  have hget : get (ofPass p).dedent row = pure (p.dedent[row] : Int) := get_map_ofNat hrow
  have hdistance : ((lines[row].leadingSpaces : Int) -
      min (p.dedent[row] : Int) (lines[row].leadingSpaces : Int)) =
        ((lines[row].leadingSpaces - p.dedent[row] : Nat) : Int) := by omega
  unfold indentationAt
  rw [get_eq (List.getElem?_eq_getElem hline), pure_bind, hget, pure_bind, leadingSpaces_eq,
    hdistance, indentation_eq, List.getD_eq_getElem _ _ hline, List.getD_eq_getElem _ _ hrow]

/-- **A pass in range takes a row without a fault**, and stays in range. -/
theorem row_ofPass (h : InRange lines p) {row : Nat} {text : Bytes} (hline : row < lines.length)
    (hfits : ∀ col < text.length, row < Position.bound ∧ col < Position.bound) :
    (ofPass p).row lines row text = pure (ofPass (p.row lines row text)) ∧
      InRange lines (p.row lines row text) := by
  obtain ⟨hbytes, hrange⟩ := bytes_ofPass hline hfits h (Nat.zero_add _)
  have hfresh := (Pass.indent_fresh_bytes lines row text 0 p).2
  rw [List.drop_zero] at hrange
  rw [List.drop_zero, Int.natCast_zero] at hbytes
  unfold State.row Pass.row
  dsimp only
  rw [hbytes, pure_bind, isCode_eq, pure_bind, endsStatement_eq, groupDepth_ofPass]
  generalize Pass.bytes lines row 0 text p = q at hrange hfresh
  by_cases hcode : Layout.isCode text = true
  · rw [if_pos hcode, if_pos hcode, pure_bind]
    refine ⟨?_, hrange.of_eq rfl rfl⟩
    have hstarts : (ofPass q).fresh = p.fresh := hfresh
    rw [hstarts]
    by_cases hfirst : (p.fresh && p.stack.groupDepth == 0) = true
    · rw [if_pos hfirst, if_pos hfirst, indentationAt_ofPass hrange hline, pure_bind]
      rfl
    · rw [if_neg hfirst, if_neg hfirst]
      rfl
  · rw [if_neg hcode, if_neg hcode]
    exact ⟨rfl, hrange⟩

/-- The rows of a run, by induction on those that are left. -/
theorem rows_ofPass : ∀ {masked : List Bytes} {row : Nat} {p : Pass}, InRange lines p →
    (∀ i, row + i < lines.length → ∀ col < (masked.getD i []).length,
      row + i < Position.bound ∧ col < Position.bound) →
    State.rows lines row masked (ofPass p) =
        pure (ofPass (Pass.rows lines row (masked.take (lines.length - row)) p)) ∧
      InRange lines (Pass.rows lines row (masked.take (lines.length - row)) p)
  | [], row, p, h, _ => by
    rw [List.take_nil]
    exact ⟨rfl, h⟩
  | text :: masked, row, p, h, hfits => by
    rw [State.rows]
    rcases Nat.lt_or_ge row lines.length with hline | hpast
    · obtain ⟨hrow, hnext⟩ : _ ∧ InRange lines (p.row lines row text) :=
        row_ofPass h hline (hfits 0 hline)
      obtain ⟨hrest, hlast⟩ := @rows_ofPass masked (row + 1) _ hnext fun i hi col hcol => by
        have hindex : row + 1 + i = row + (i + 1) := by omega
        rw [hindex] at hi ⊢
        exact hfits (i + 1) hi col hcol
      have htake : (text :: masked).take (lines.length - row) =
          text :: masked.take (lines.length - (row + 1)) := by
        rw [show lines.length - row = lines.length - (row + 1) + 1 by omega, List.take_succ_cons]
      rw [htake, Pass.rows, if_neg (by omega), hrow, pure_bind]
      exact ⟨hrest, hlast⟩
    · rw [if_pos (by omega), Nat.sub_eq_zero_of_le hpast, List.take_zero]
      exact ⟨rfl, h⟩

/-! ### The outcome -/

theorem mapM_placed : ∀ {es : List (Entry Nat)},
    (∀ e ∈ es, e.row < Position.bound ∧ e.col < Position.bound) →
    (es.map ofEntry).mapM placed = pure es
  | [], _ => rfl
  | e :: es, h => by
    rw [List.map_cons, List.mapM_cons, placed_ofEntry (h e List.mem_cons_self), pure_bind,
      mapM_placed fun e he => h e (List.mem_cons_of_mem _ he), pure_bind]

/-- The rows that are moved, among those from row `row` on. -/
theorem shift_eq : ∀ {lines : List Bytes} {row : Nat} {dedent : List Nat},
    dedent.length = row + lines.length →
    shift (dedent.map Int.ofNat) row lines =
      pure (List.zipWith (fun line n => line.drop n) lines (strips lines (dedent.drop row)),
        ((strips lines (dedent.drop row)).zipIdx row).filterMap
          fun (n, row) => if n = 0 then none else some row)
  | [], row, dedent, _ => rfl
  | line :: lines, row, dedent, h => by
    rw [List.length_cons] at h
    have hrow : row < dedent.length := by omega
    have ih := @shift_eq lines (row + 1) dedent (by omega)
    have hmin : min (dedent[row] : Int) line.leadingSpaces =
        ((min dedent[row] line.leadingSpaces : Nat) : Int) := by omega
    have hle : min dedent[row] line.leadingSpaces ≤ line.length :=
      (min_le_right _ _).trans line.leadingSpaces_le_length
    have hstrips : strips (line :: lines) (dedent.drop row) =
        min dedent[row] line.leadingSpaces :: strips lines (dedent.drop (row + 1)) := by
      rw [List.drop_eq_getElem_cons hrow]
      rfl
    rw [shift, get_map_ofNat hrow, pure_bind, leadingSpaces_eq, hstrips, ih, hmin]
    dsimp only
    generalize min dedent[row] line.leadingSpaces = n at hle
    by_cases hn : n = 0
    · subst hn
      rw [if_pos Int.natCast_zero, pure_bind]
      rfl
    · rw [if_neg (by omega), cut_eq hle, pure_bind, pure_bind]
      refine congrArg pure (Prod.ext rfl ?_)
      rw [List.zipIdx_cons, List.filterMap_cons]
      dsimp only
      rw [if_neg hn]

end Checked

/-- Every byte of the masked text that is read has a row and a column that fit a position. -/
def Addressable (lines masked : List Bytes) : Prop :=
  ∀ row < lines.length, ∀ col < (masked.getD row []).length,
    row < Position.bound ∧ col < Position.bound

variable {lines masked : List Bytes}

/-- **A checked run ends without a fault**, with the outcome of the unchecked one. -/
theorem Checked.run_eq (h : Addressable lines masked) :
    Checked.run lines masked = pure (Layout.run lines masked) := by
  have hfits : ∀ i, 0 + i < lines.length → ∀ col < (masked.getD i []).length,
      0 + i < Position.bound ∧ col < Position.bound := by
    intro i hi
    rw [Nat.zero_add] at hi ⊢
    exact h i hi
  obtain ⟨hrows, hrange⟩ := rows_ofPass inRange_start hfits
  rw [Nat.sub_zero, ← finalPass] at hrows hrange
  rw [ofPass_start, Int.natCast_zero] at hrows
  have hleftover : (ofPass (finalPass lines masked)).stack.toList.mapM placed =
      pure (finalPass lines masked).stack.toList := by
    unfold Stack.toList ofPass
    rw [← List.map_reverse]
    exact mapM_placed fun e he => hrange.fits e (List.mem_reverse.mp he)
  have hshift : shift (ofPass (finalPass lines masked)).dedent 0 lines = _ :=
    shift_eq (by rw [length_dedent_finalPass, Nat.zero_add])
  unfold Checked.run
  rw [hrows, pure_bind, hleftover, pure_bind, hshift, pure_bind, List.drop_zero]
  rfl

/-- The rows listed as moved are those whose line is another one. -/
theorem mem_adjusted_iff_ne {row : Nat} {line : Bytes} (h : lines[row]? = some line) :
    row ∈ (run lines masked).adjusted ↔ (run lines masked).lines[row]? ≠ some line := by
  have hlost : (run lines masked).lost lines row ≤ line.leadingSpaces := lost_le_leadingSpaces h
  have hspaces := line.leadingSpaces_le_length
  rw [mem_adjusted_iff, run_getElem? h, ne_eq, Option.some.injEq]
  constructor
  · intro hpos heq
    have hlength := congrArg List.length heq
    rw [List.length_drop] at hlength
    omega
  · intro hne
    refine Nat.pos_of_ne_zero fun hzero => hne ?_
    rw [hzero, List.drop_zero]

/-- **A run is safe for a text that does not fit the lines.** Whatever the masked text is, every
access of the run is in range and no indentation is negative. There is a line for every line, of
which only spaces at its start are taken, and the rows that lost some are listed in order. -/
theorem checked_run (h : Addressable lines masked) :
    Checked.run lines masked = .ok (run lines masked) ∧
      (run lines masked).lines.length = lines.length ∧
      (∀ (row : Nat) (line : Bytes), lines[row]? = some line → ∃ n rest,
        line = List.replicate n Byte.space ++ rest ∧ (run lines masked).lines[row]? = some rest) ∧
      (run lines masked).adjusted.Pairwise (· < ·) ∧
      ∀ row, row ∈ (run lines masked).adjusted ↔
        row < lines.length ∧ (run lines masked).lines[row]? ≠ lines[row]? := by
  refine ⟨Checked.run_eq h, length_run_lines, ?_, pairwise_adjusted, ?_⟩
  · intro row line hline
    let n := (run lines masked).lost lines row
    have htaken : line.take n = List.replicate n Byte.space :=
      Bytes.take_of_le_leadingSpaces (lost_le_leadingSpaces hline)
    refine ⟨n, line.drop n, ?_, run_getElem? hline⟩
    rw [← htaken, List.take_append_drop]
  · intro row
    constructor
    · intro hrow
      have hlt := lt_of_mem_adjusted hrow
      have hline := List.getElem?_eq_getElem hlt
      rw [hline]
      exact ⟨hlt, (mem_adjusted_iff_ne hline).mp hrow⟩
    · rintro ⟨hlt, hne⟩
      have hline := List.getElem?_eq_getElem hlt
      rw [hline] at hne
      exact (mem_adjusted_iff_ne hline).mpr hne

/-- Four lines without a brace, the last one empty. -/
def braceless : List Bytes := ["f(x)", "        g", "     h", ""]

/-- A text with braces that has a row more, and rows that are longer than those lines. -/
def straying : List Bytes := ["f()", "    \x7b", "   \x7d  \x7b", "[[", "\x7d"]

/-- The braces of the text move two of the lines, as far as these have spaces. -/
theorem checked_run_straying : Addressable braceless straying ∧
    (∃ r, Checked.run braceless straying = .ok r ∧
      r.lines = ["f(x)", "    g", " h", ""] ∧ r.adjusted = [1, 2] ∧
      r.leftover.map (fun e => (e.row, e.col)) = [(2, 6), (3, 0), (3, 1)]) := by
  have haddressable : Addressable braceless straying := by
    unfold Addressable
    decide +kernel
  refine ⟨haddressable, run braceless straying, (checked_run haddressable).1, ?_⟩
  decide +kernel

end Allman.Layout
