import Allman.Bytes

/-! # Masking comments and literals

Brackets count only where they are code. Masking replaces every byte of a comment and every byte
inside a string or character literal by a space, and keeps all other bytes where they are, so that
columns of the masked line are columns of the line.

A line is read in a `Mode`: what was left open by the lines before it. `maskLine` gives the masked
line and the mode it leaves behind.

* A block comment runs to the first `*/`, on this line or on a later one. A line comment runs to
  the end of its line.
* A literal runs to the first quote of its kind that no backslash escapes. Its quotes are kept. If
  there is none, the line continues the literal only when its last byte is a backslash, which is
  kept too; otherwise the quote is an ordinary byte.
* Two single quotes with nothing between them are no literal: the first is an ordinary byte and
  reading goes on at the second. -/

namespace Allman

/-- The quote of a literal. -/
inductive Quote where
  /-- A string literal. -/
  | double
  /-- A character literal. -/
  | single
  deriving DecidableEq, Repr

namespace Quote

/-- The byte that starts and ends the literal. -/
def byte : Quote → UInt8
  | double => Byte.doubleQuote
  | single => Byte.singleQuote

/-- The kind of literal a byte starts. -/
def ofByte? (b : UInt8) : Option Quote :=
  if b = Byte.doubleQuote then some double
  else if b = Byte.singleQuote then some single
  else none

end Quote

/-- What is open at the start of a line. -/
inductive Mode where
  /-- Nothing: the line starts as code. -/
  | code
  /-- A block comment. -/
  | comment
  /-- A literal that the line before continued. -/
  | literal (q : Quote)
  deriving DecidableEq, Repr

namespace Mode

/-- The name of a mode. -/
def name : Mode → String
  | code => "none"
  | comment => "block-comment"
  | literal .double => "string"
  | literal .single => "char"

/-- The modes in the order of their numbers. -/
def all : List Mode := [code, comment, literal .double, literal .single]

/-- The name of the mode with a number. -/
def nameOf (n : Nat) : String := (all[n]?.map name).getD "unknown"

end Mode

namespace Mask

/-- As many spaces as the text has bytes. -/
def blank (s : Bytes) : Bytes := List.replicate s.length Byte.space

/-! ### Ends of comments and literals -/

/-- Cuts a text after its first `*/`. -/
def cutComment : Bytes → Option (Bytes × Bytes)
  | a :: b :: rest =>
    if a = Byte.star ∧ b = Byte.slash then some ([a, b], rest)
    else (cutComment (b :: rest)).map fun (inside, after) => (a :: inside, after)
  | _ => none

/-- Cuts a text at its first quote `q` that is not escaped: what stands before it, and what follows
it. A backslash escapes the byte after it. -/
def cutLiteral (q : Quote) : Bytes → Option (Bytes × Bytes)
  | [] => none
  | [b] => if b = q.byte then some ([], []) else none
  | a :: b :: rest =>
    if a = Byte.backslash then
      (cutLiteral q rest).map fun (inside, after) => (a :: b :: inside, after)
    else if a = q.byte then some ([], b :: rest)
    else (cutLiteral q (b :: rest)).map fun (inside, after) => (a :: inside, after)

/-- The literal that is open at the end of the text continues on the next line. -/
def continues (s : Bytes) : Bool := s.getLast? == some Byte.backslash

/-- Blanks the inside of a literal that runs to the end of the line: all but a final backslash. -/
def blankOpen (s : Bytes) : Bytes :=
  if continues s then blank s.dropLast ++ [Byte.backslash] else blank s

theorem cutComment_length {s inside after : Bytes} (h : cutComment s = some (inside, after)) :
    after.length < s.length := by
  fun_induction cutComment s generalizing inside with
  | case1 a b rest hab =>
    simp only [Option.some.injEq, Prod.mk.injEq] at h
    rw [← h.2, List.length_cons, List.length_cons]
    omega
  | case2 a b rest hab ih =>
    obtain ⟨⟨i, r⟩, hr, heq⟩ := Option.map_eq_some_iff.1 h
    simp only [Prod.mk.injEq] at heq
    have := ih (heq.2 ▸ hr)
    simp only [List.length_cons] at this ⊢
    omega
  | case3 => simp at h

theorem cutLiteral_length {q : Quote} {s inside after : Bytes}
    (h : cutLiteral q s = some (inside, after)) : after.length < s.length := by
  fun_induction cutLiteral q s generalizing inside with
  | case1 => simp at h
  | case2 =>
    simp only [Option.some.injEq, Prod.mk.injEq] at h
    simp [← h.2]
  | case3 => simp at h
  | case4 b rest ih =>
    obtain ⟨⟨i, r⟩, hr, heq⟩ := Option.map_eq_some_iff.1 h
    simp only [Prod.mk.injEq] at heq
    have := ih (heq.2 ▸ hr)
    simp only [List.length_cons]
    omega
  | case5 b rest ha =>
    simp only [Option.some.injEq, Prod.mk.injEq] at h
    simp [← h.2]
  | case6 a b rest ha hq ih =>
    obtain ⟨⟨i, r⟩, hr, heq⟩ := Option.map_eq_some_iff.1 h
    simp only [Prod.mk.injEq] at heq
    have := ih (heq.2 ▸ hr)
    simp only [List.length_cons] at this ⊢
    omega

/-! ### Code -/

/-- What starts at a byte of code. -/
inductive Lexeme where
  /-- The byte is ordinary code. -/
  | plain
  /-- A comment of the given bytes, the opening ones included, and what follows it. -/
  | comment (body after : Bytes)
  /-- A block comment to the end of the line and beyond. -/
  | openComment
  /-- A comment to the end of the line. -/
  | lineComment
  /-- A literal with the given inside, and what follows its closing quote. -/
  | literal (q : Quote) (inside after : Bytes)
  /-- A literal that continues on the next line. -/
  | openLiteral (q : Quote)

/-- The lexeme that starts at `first`, where `rest` is the remainder of the line. Comments are tried
before literals, complete ones before open ones. -/
def lexeme (first : UInt8) (rest : Bytes) : Lexeme :=
  if first = Byte.slash then
    match rest with
    | second :: body =>
      if second = Byte.star then
        match cutComment body with
        | some (inside, after) => .comment (first :: second :: inside) after
        | none => .openComment
      else if second = Byte.slash then .lineComment
      else .plain
    | [] => .plain
  else
    match Quote.ofByte? first with
    | none => .plain
    | some q =>
      match cutLiteral q rest with
      | some (inside, after) =>
        if q = .single ∧ inside = [] then .plain else .literal q inside after
      | none => if continues rest then .openLiteral q else .plain

theorem lexeme_comment_length {first : UInt8} {rest body after : Bytes}
    (h : lexeme first rest = .comment body after) : after.length < rest.length := by
  unfold lexeme at h
  split at h
  · split at h
    · split at h
      · split at h
        · next hc =>
          simp only [Lexeme.comment.injEq] at h
          have := cutComment_length (h.2 ▸ hc)
          simp only [List.length_cons]
          omega
        · simp at h
      · split at h <;> simp at h
    · simp at h
  · split at h
    · simp at h
    · split at h
      · split at h <;> simp at h
      · split at h <;> simp at h

theorem lexeme_literal_length {first : UInt8} {rest inside after : Bytes} {q : Quote}
    (h : lexeme first rest = .literal q inside after) : after.length < rest.length := by
  unfold lexeme at h
  split at h
  · split at h
    · split at h
      · split at h <;> simp at h
      · split at h <;> simp at h
    · simp at h
  · split at h
    · simp at h
    · split at h
      · next hc =>
        split at h
        · simp at h
        · simp only [Lexeme.literal.injEq] at h
          exact cutLiteral_length (h.2.2 ▸ hc)
      · split at h <;> simp at h

/-- **Masks a line from a point where it is code.** -/
def maskCode : Bytes → Bytes × Mode
  | [] => ([], .code)
  | first :: rest =>
    match _h : lexeme first rest with
    | .plain => let (out, mode) := maskCode rest; (first :: out, mode)
    | .comment body after => let (out, mode) := maskCode after; (blank body ++ out, mode)
    | .openComment => (blank (first :: rest), .comment)
    | .lineComment => (blank (first :: rest), .code)
    | .literal q inside after =>
      let (out, mode) := maskCode after
      (first :: (blank inside ++ q.byte :: out), mode)
    | .openLiteral q => (first :: blankOpen rest, .literal q)
termination_by s => s.length
decreasing_by
  · simp
  · have := lexeme_comment_length _h; simp only [List.length_cons]; omega
  · have := lexeme_literal_length _h; simp only [List.length_cons]; omega

end Mask

open Mask in
/-- **Masks a line** that starts in the given mode, and tells the mode of the next line. A line that
ends no open comment or literal lies inside it as a whole, and the mode stays. -/
def maskLine : Mode → Bytes → Bytes × Mode
  | .code, s => maskCode s
  | .comment, s =>
    match cutComment s with
    | some (inside, after) => let (out, mode) := maskCode after; (blank inside ++ out, mode)
    | none => (blank s, .comment)
  | .literal q, s =>
    match cutLiteral q s with
    | some (inside, after) =>
      let (out, mode) := maskCode after
      (blank inside ++ q.byte :: out, mode)
    | none => (blankOpen s, .literal q)

/-- Masks lines in order, and tells the mode after each of them. -/
def maskSteps : Mode → List Bytes → List (Bytes × Mode)
  | _, [] => []
  | mode, line :: lines =>
    let step := maskLine mode line
    step :: maskSteps step.2 lines

/-- **Masks the lines of a file.** -/
def maskLines (lines : List Bytes) : List Bytes := (maskSteps .code lines).map (·.1)

end Allman
