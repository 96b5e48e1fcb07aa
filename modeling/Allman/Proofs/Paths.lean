import Allman.Cache.Store
import Allman.Proofs.Lines

/-! # Names at the ends of paths

Cleaning a path keeps the name at its end (`base_clean`), unless this is empty or stands for a
directory. So two paths that a file system takes for one end in the same name
(`FileSystem.base_key`), and files of the cache can be told apart by their names: the file for a key
has its own (`fileFor_injective`), and no file that waits to be moved into place has such a name
(`key_unusedPath_ne`). -/

namespace Allman

/-! ### Cutting and joining -/

namespace Bytes

theorem splitOn_append_sep (sep : UInt8) (t : Bytes) : ∀ s : Bytes,
    splitOn sep (s ++ sep :: t) = splitOn sep s ++ splitOn sep t
  | [] => by simp [splitOn]
  | b :: s => by
    have ih := splitOn_append_sep sep t s
    by_cases hb : b = sep
    · rw [List.cons_append, splitOn, splitOn, if_pos hb, if_pos hb, ih]
      rfl
    · obtain ⟨piece, more, hs⟩ := List.exists_cons_of_ne_nil (splitOn_ne_nil sep s)
      rw [hs] at ih
      rw [List.cons_append, splitOn, splitOn, if_neg hb, if_neg hb, ih, hs]
      rfl

theorem joinWith_concat (sep last : Bytes) : ∀ {pieces : List Bytes}, pieces ≠ [] →
    joinWith sep (pieces ++ [last]) = joinWith sep pieces ++ (sep ++ last)
  | [], h => absurd rfl h
  | [piece], _ => by simp [joinWith]
  | piece :: next :: pieces, _ => by
    have ih := joinWith_concat sep last (List.cons_ne_nil next pieces)
    have hcons : ∀ rest : List Bytes, joinWith sep (piece :: next :: rest) =
        piece ++ (sep ++ joinWith sep (next :: rest)) := fun rest => by simp [joinWith]
    rw [List.cons_append] at ih
    rw [List.cons_append, List.cons_append, hcons, hcons, ih, List.append_assoc, List.append_assoc]

/-! ### Digits -/

theorem hexValue?_hexDigit {n : Nat} (h : n < 16) : Byte.hexValue? (Byte.hexDigit n) = some n := by
  revert n
  decide

theorem hexDigit_ne {n : Nat} {b : UInt8} (h : n < 16) (hb : Byte.hexValue? b = none) :
    Byte.hexDigit n ≠ b := by
  rintro rfl
  rw [hexValue?_hexDigit h] at hb
  simp at hb

theorem hexDigit_injective {m n : Nat} (hm : m < 16) (hn : n < 16)
    (h : Byte.hexDigit m = Byte.hexDigit n) : m = n := by
  have hvalue := congrArg Byte.hexValue? h
  rwa [hexValue?_hexDigit hm, hexValue?_hexDigit hn, Option.some.injEq] at hvalue

theorem toHex_cons (b : UInt8) (s : Bytes) : toHex (b :: s) =
    Byte.hexDigit (b.toNat / 16) :: Byte.hexDigit (b.toNat % 16) :: toHex s := rfl

theorem toHex_injective : Function.Injective toHex
  | [], [], _ => rfl
  | [], _ :: _, h => by simp [toHex] at h
  | _ :: _, [], h => by simp [toHex] at h
  | a :: s, b :: t, h => by
    rw [toHex_cons, toHex_cons, List.cons.injEq, List.cons.injEq] at h
    obtain ⟨hhigh, hlow, hrest⟩ := h
    have ha := a.toNat_lt
    have hb := b.toNat_lt
    have hdiv := hexDigit_injective (by omega) (by omega) hhigh
    have hmod := hexDigit_injective (by omega) (by omega) hlow
    have hbyte : a = b := UInt8.toNat_inj.mp (by omega)
    rw [hbyte, toHex_injective hrest]

/-- The hexadecimal form has no byte that is no digit. -/
theorem not_mem_toHex {b : UInt8} (hb : Byte.hexValue? b = none) (s : Bytes) : b ∉ toHex s := by
  intro hmem
  obtain ⟨a, -, ha⟩ := List.mem_flatMap.mp hmem
  have hlt := a.toNat_lt
  simp only [List.mem_cons, List.not_mem_nil, or_false] at ha
  rcases ha with rfl | rfl
  · exact hexDigit_ne (by omega) hb rfl
  · exact hexDigit_ne (by omega) hb rfl

/-- The decimal form of a number consists of digits. -/
theorem isDigit_of_mem_ofNat {n : Nat} {b : UInt8} (h : b ∈ ofNat n) : Byte.isDigit b = true := by
  have hbytes : ofNat n = (Nat.toDigits 10 n).flatMap String.utf8EncodeChar := by
    change (Nat.toDigits 10 n).utf8Encode.data.toList = _
    simp [List.utf8Encode]
  rw [hbytes] at h
  obtain ⟨c, hc, hb⟩ := List.mem_flatMap.mp h
  have hdigit := Nat.isDigit_of_mem_toDigits (by omega) (by omega) hc
  simp only [Char.isDigit, Bool.and_eq_true, decide_eq_true_eq, ge_iff_le, UInt32.le_iff_toNat_le]
    at hdigit
  have hlow : 48 ≤ c.val.toNat := hdigit.1
  have hhigh : c.val.toNat ≤ 57 := hdigit.2
  -- a digit is encoded as itself
  have hencode : String.utf8EncodeChar c = [c.val.toUInt8] := by
    unfold String.utf8EncodeChar
    rw [if_pos (by omega)]
    rfl
  rw [hencode, List.mem_singleton] at hb
  have hnat : b.toNat = c.val.toNat := by
    rw [hb, UInt32.toNat_toUInt8]
    omega
  simp only [Byte.isDigit, Bool.and_eq_true, decide_eq_true_eq, UInt8.le_iff_toNat_le, hnat]
  exact ⟨hlow, hhigh⟩

end Bytes

/-! ### Names -/

namespace Path

/-- A name that cleaning keeps. -/
structure IsName (s : Bytes) : Prop where
  ne_nil : s ≠ []
  ne_here : s ≠ here
  ne_above : s ≠ above
  slash : Byte.slash ∉ s

theorem isName_of_length {s : Bytes} (hlen : 3 ≤ s.length) (h : Byte.slash ∉ s) : IsName s := by
  refine ⟨?_, ?_, ?_, h⟩
  · rintro rfl
    simp at hlen
  · rintro rfl
    simp [here] at hlen
  · rintro rfl
    simp [above] at hlen

theorem base_of_not_mem {s : Bytes} (h : Byte.slash ∉ s) : base s = s := by
  unfold base
  rw [List.takeWhile_eq_self_iff.mpr, List.reverse_reverse]
  intro b hb
  rw [bne_iff_ne]
  rintro rfl
  exact h (List.mem_reverse.mp hb)

theorem base_append {s : Bytes} (dir : Bytes) (h : Byte.slash ∉ s) :
    base (dir ++ Byte.slash :: s) = s := by
  have hs := base_of_not_mem h
  unfold base at hs ⊢
  rw [List.reverse_append, List.reverse_cons, List.append_assoc, List.takeWhile_append_of_pos]
  · rw [List.singleton_append, List.takeWhile_cons_of_neg (by simp), List.append_nil,
      List.reverse_reverse]
  · intro b hb
    rw [bne_iff_ne]
    rintro rfl
    exact h (List.mem_reverse.mp hb)

/-- A path is its name, or ends in a slash and its name. -/
theorem eq_base (p : Bytes) : p = base p ∨ ∃ dir, p = dir ++ Byte.slash :: base p := by
  by_cases h : Byte.slash ∈ p
  · right
    obtain ⟨before, after, heq, hno⟩ := List.eq_append_cons_of_mem (List.mem_reverse.mpr h)
    have hp : p = after.reverse ++ Byte.slash :: before.reverse := by
      rw [← List.reverse_reverse p, heq]
      simp
    have hbase : base p = before.reverse := by
      rw [hp]
      exact base_append after.reverse fun hmem => hno (List.mem_reverse.mp hmem)
    exact ⟨after.reverse, by rw [hbase]; exact hp⟩
  · exact Or.inl (base_of_not_mem h).symm

/-- The last component of a path is its name. -/
theorem components_eq {p : Bytes} (h : IsName (base p)) :
    ∃ before, components p = before ++ [base p] := by
  have hstep : ∀ cleaned, step (isAbsolute p) cleaned (base p) = base p :: cleaned := by
    intro cleaned
    unfold step
    rw [if_neg (not_or.mpr ⟨h.ne_nil, h.ne_here⟩), if_neg h.ne_above]
  have hlast : ∃ before, Bytes.splitOn Byte.slash p = before ++ [base p] := by
    rcases eq_base p with hp | ⟨dir, hp⟩
    · refine ⟨[], ?_⟩
      conv_lhs => rw [hp]
      exact Bytes.splitOn_of_not_mem h.slash
    · refine ⟨Bytes.splitOn Byte.slash dir, ?_⟩
      conv_lhs => rw [hp]
      rw [Bytes.splitOn_append_sep, Bytes.splitOn_of_not_mem h.slash]
  obtain ⟨before, hbefore⟩ := hlast
  unfold components
  rw [hbefore, List.foldl_append, List.foldl_cons, List.foldl_nil, hstep, List.reverse_cons]
  exact ⟨_, rfl⟩

theorem base_joinWith {name : Bytes} (h : IsName name) (before : List Bytes) :
    base (Bytes.joinWith [Byte.slash] (before ++ [name])) = name := by
  by_cases hnil : before = []
  · subst hnil
    simpa [Bytes.joinWith] using base_of_not_mem h.slash
  · rw [Bytes.joinWith_concat _ _ hnil]
    exact base_append _ h.slash

/-- **Cleaning keeps the name of a path.** -/
theorem base_clean {p : Bytes} (h : IsName (base p)) : base (clean p) = base p := by
  obtain ⟨before, hcomponents⟩ := components_eq h
  have hinner := base_joinWith h before
  unfold clean
  rw [hcomponents]
  dsimp only
  split
  · rcases eq_base (Bytes.joinWith [Byte.slash] (before ++ [base p])) with heq | ⟨dir, heq⟩
    · rw [heq, hinner]
      exact base_append [] h.slash
    · rw [heq, hinner]
      exact base_append (Byte.slash :: dir) h.slash
  · split
    · next hnil =>
      rw [hnil] at hinner
      exact absurd hinner.symm h.ne_nil
    · exact hinner

theorem base_join {name : Bytes} (h : IsName name) (parts : List Bytes) :
    base (join (parts ++ [name])) = name := by
  have hkept : (parts ++ [name]).filter (· ≠ []) = parts.filter (· ≠ []) ++ [name] := by
    rw [List.filter_append]
    simp [h.ne_nil]
  have hjoin : join (parts ++ [name]) =
      clean (Bytes.joinWith [Byte.slash] (parts.filter (· ≠ []) ++ [name])) := by
    unfold join
    rw [hkept]
    rcases hcons : parts.filter (· ≠ []) ++ [name] with _ | ⟨first, rest⟩
    · simp at hcons
    · rfl
  have hbase := base_joinWith h (parts.filter (· ≠ []))
  rw [hjoin, base_clean (by rw [hbase]; exact h), hbase]

end Path

open Allman.Path

/-- **A file system keeps a node under a path with the same name.** -/
theorem FileSystem.base_key {p : Bytes} (h : IsName (base p)) : base (key p) = base p := by
  have hclean := base_clean h
  unfold key
  dsimp only
  rw [if_neg, hclean]
  rintro (heq | heq)
  · rw [heq] at hclean
    exact h.ne_here hclean.symm
  · rw [heq] at hclean
    exact h.ne_above hclean.symm

/-! ### Files of the cache -/

namespace Cache

/-- The name of the file for a key. -/
def entryName (key : Bytes) : Bytes := key.toHex ++ Bytes.ofString ".mp"

theorem ofString_suffix : Bytes.ofString ".mp" = [46, 109, 112] := by decide +kernel

theorem ofString_temporary : Bytes.ofString "tmp-" = [116, 109, 112, 45] := by decide +kernel

theorem isName_entryName (key : Bytes) : IsName (entryName key) := by
  unfold entryName
  rw [ofString_suffix]
  refine isName_of_length (by simp) fun hmem => ?_
  rcases List.mem_append.mp hmem with h | h
  · exact Bytes.not_mem_toHex (by decide) key h
  · exact absurd h (by decide)

theorem entryName_injective : Function.Injective entryName := fun _ _ h =>
  Bytes.toHex_injective (List.append_cancel_right h)

theorem base_key_fileFor (c : Cache) (key : Bytes) :
    base (FileSystem.key (c.fileFor key)) = entryName key := by
  have hbase : base (c.fileFor key) = entryName key :=
    base_join (isName_entryName key) [c.dir, key.toHex.take 2]
  rw [FileSystem.base_key (by rw [hbase]; exact isName_entryName key), hbase]

/-- **Every key has a file of its own.** -/
theorem fileFor_injective (c : Cache) {key key' : Bytes}
    (h : FileSystem.key (c.fileFor key) = FileSystem.key (c.fileFor key')) : key = key' := by
  have hbase := congrArg base h
  rw [base_key_fileFor, base_key_fileFor] at hbase
  exact entryName_injective hbase

theorem isName_temporaryName (n : Nat) : IsName (temporaryName n) := by
  unfold temporaryName
  rw [ofString_temporary]
  refine isName_of_length (by simp) fun hmem => ?_
  rcases List.mem_append.mp hmem with h | h
  · exact absurd h (by decide)
  · exact absurd (Bytes.isDigit_of_mem_ofNat h) (by decide)

theorem temporaryName_ne_entryName (n : Nat) (key : Bytes) : temporaryName n ≠ entryName key := by
  unfold temporaryName entryName
  rw [ofString_temporary, ofString_suffix]
  intro h
  -- the name of an entry begins with a hexadecimal digit or a dot
  rcases key with _ | ⟨b, key⟩
  · simp [Bytes.toHex] at h
  · rw [Bytes.toHex_cons] at h
    have hlt := b.toNat_lt
    have hfirst : Byte.hexDigit (b.toNat / 16) = 116 := (List.cons.inj h).1.symm
    exact Bytes.hexDigit_ne (by omega) (by decide) hfirst

theorem base_unusedPath (fs : FileSystem) (dir : Bytes) :
    ∃ n, base (unusedPath fs dir) = temporaryName n := by
  have hjoin : ∀ n, base (join [dir, temporaryName n]) = temporaryName n := fun n =>
    base_join (isName_temporaryName n) [dir]
  unfold unusedPath
  dsimp only
  rcases hfind : List.find? _ _ with _ | p
  · exact ⟨0, hjoin 0⟩
  · obtain ⟨n, -, rfl⟩ := List.mem_map.mp (List.mem_of_find?_eq_some hfind)
    exact ⟨n, hjoin n⟩

/-- **No file that waits to be moved into place is the file for a key.** -/
theorem key_unusedPath_ne (c : Cache) (fs : FileSystem) (dir key : Bytes) :
    FileSystem.key (unusedPath fs dir) ≠ FileSystem.key (c.fileFor key) := by
  obtain ⟨n, hbase⟩ := base_unusedPath fs dir
  intro h
  have hname := congrArg base h
  rw [base_key_fileFor, FileSystem.base_key (by rw [hbase]; exact isName_temporaryName n), hbase]
    at hname
  exact temporaryName_ne_entryName n key hname

end Cache

end Allman
