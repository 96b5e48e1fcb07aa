import Allman.Proofs.Cleaning
import Allman.Proofs.Files

/-! # Directories on the way to a file

A new path is listed in the directory above it, and this one, if it is new, in the one above. These
directories (`Above`) have shorter paths (`Above.eq_root_or_lt`), so that a file which is not shorter
than the new path is none of them. An operation that makes directories leaves the bytes of such a
file alone (`dataAt_enlist`). -/

namespace Allman

namespace FileSystem

open Allman.Path

/-! ### Keys of paths -/

theorem key_of_isName {p : Bytes} (h : IsName (base p)) : key p = clean p := by
  have hclean := base_clean h
  unfold key
  dsimp only
  rw [if_neg]
  rintro (heq | heq)
  · rw [heq] at hclean
    exact h.ne_here hclean.symm
  · rw [heq] at hclean
    exact h.ne_above hclean.symm

theorem key_stem_append {s : Bytes} (hs : IsName s) (dir : Bytes) :
    key (stem dir ++ s) = stem dir ++ s := by
  rw [key_of_isName (by rw [base_stem_append hs]; exact hs), clean_stem_append hs]

theorem key_stem_names {a s : Bytes} (ha : IsName a) (hs : IsName s) (dir : Bytes) :
    key (stem dir ++ a ++ Byte.slash :: s) = stem dir ++ a ++ Byte.slash :: s := by
  have hstem := stem_stem_append ha dir
  have hkey := key_stem_append hs (stem dir ++ a)
  rw [hstem] at hkey
  simpa using hkey

theorem listerOf_stem_names {a s : Bytes} (ha : IsName a) (hs : IsName s) (dir : Bytes) :
    listerOf (stem dir ++ a ++ Byte.slash :: s) = stem dir ++ a := by
  unfold listerOf
  rw [parent_stem ha hs.slash, key_stem_append ha]

/-! ### The directories above a path -/

/-- The second path is that of a directory which is gone through when the first is listed. -/
inductive Above : Bytes → Bytes → Prop
  | lister (k : Bytes) : Above k (listerOf k)
  | further {k q : Bytes} (h : Above (listerOf k) q) : Above k q

theorem key_eq_root_or_length_le (p : Bytes) : key p = root ∨ (key p).length ≤ max 1 p.length := by
  have hlen := length_clean_le p
  unfold key
  dsimp only
  split
  · exact Or.inl rfl
  · exact Or.inr hlen

theorem listerOf_eq_root_or_lt (k : Bytes) : listerOf k = root ∨ (listerOf k).length < k.length := by
  have hbase : Byte.slash ∉ base k := by
    intro hmem
    have htake := List.mem_takeWhile_imp (List.mem_reverse.mp hmem)
    simp at htake
  unfold listerOf
  rw [parent_eq]
  rcases eq_base k with hk | ⟨dir, hk⟩
  · left
    rw [hk, front_of_not_mem hbase]
    decide
  · have hlen : k.length = dir.length + 1 + (base k).length := by
      conv_lhs => rw [hk]
      simp [Nat.add_assoc, Nat.add_comm]
    rw [hk, front_append _ hbase]
    by_cases hdir : dir = []
    · left
      rw [hdir]
      decide
    · have hpos := List.length_pos_iff.mpr hdir
      rw [clean_append_slash hdir]
      have hclean := length_clean_le dir
      rcases key_eq_root_or_length_le (clean dir) with hroot | hle
      · exact Or.inl hroot
      · right
        rw [← hk]
        omega

theorem listerOf_root : listerOf root = root := by decide

theorem Above.eq_root {k q : Bytes} (h : Above k q) (hk : k = root) : q = root := by
  induction h with
  | lister k => rw [hk, listerOf_root]
  | further h ih => exact ih (by rw [hk, listerOf_root])

/-- **The directories above a path are shorter**, down to the root. -/
theorem Above.eq_root_or_lt {k q : Bytes} (h : Above k q) : q = root ∨ q.length < k.length := by
  induction h with
  | lister k => exact listerOf_eq_root_or_lt k
  | @further k q h ih =>
    rcases listerOf_eq_root_or_lt k with hroot | hlt
    · exact Or.inl (h.eq_root hroot)
    · exact ih.imp id fun hq => hq.trans hlt

theorem not_above_of_length_le {k q : Bytes} (hroot : q ≠ root) (h : k.length ≤ q.length) :
    ¬ Above k q := by
  intro habove
  rcases habove.eq_root_or_lt with hq | hlt
  · exact hroot hq
  · omega

/-- In a directory, a file that is not shorter than this directory is not above another file. -/
theorem not_above_of_lister {k q : Bytes} (hne : q ≠ listerOf k) (h : ¬ Above (listerOf k) q) :
    ¬ Above k q := by
  intro habove
  cases habove with
  | lister => exact hne rfl
  | further h' => exact h h'

/-! ### Operations that make directories -/

/-- **To list a path changes no bytes but in the directories above it.** -/
theorem dataAt_enlist {q : Bytes} (mode : Nat) : ∀ (fuel : Nat) (fs : FileSystem) {k : Bytes},
    ¬ Above k q → (enlist mode fuel fs k).dataAt q = fs.dataAt q
  | 0, _, _, _ => rfl
  | fuel + 1, fs, k, h => by
    have hne : q ≠ listerOf k := by
      rintro rfl
      exact h (.lister k)
    unfold enlist
    dsimp only
    split
    · rw [dataAt_setKey, if_neg hne]
    · rw [dataAt_enlist mode fuel _ fun habove => h (.further habove), dataAt_addKey, if_neg hne]

theorem dataAt_makeDirectory_of_not_above {fs : FileSystem} {p q : Bytes} (hq : q ≠ key p)
    (h : ¬ Above (key p) q) : (fs.makeDirectory p).dataAt q = fs.dataAt q := by
  unfold makeDirectory
  dsimp only
  split
  · rfl
  · rw [dataAt_enlist _ _ _ h, dataAt_addKey, if_neg hq]

theorem dataAt_create_of_not_above {fs : FileSystem} {p q : Bytes} {mode : Nat} (hq : q ≠ key p)
    (h : ¬ Above (key p) q) : (fs.create p mode).dataAt q = fs.dataAt q := by
  unfold create
  dsimp only
  rw [dataAt_enlist _ _ _ h, dataAt_addKey, if_neg hq]

theorem dataAt_move_of_not_above {fs : FileSystem} {source target q : Bytes} (hs : q ≠ key source)
    (ht : q ≠ key target) (h : ¬ Above (key target) q) :
    (fs.move source target).dataAt q = fs.dataAt q := by
  unfold move
  split
  · rfl
  · dsimp only
    rw [dataAt_enlist _ _ _ h, dataAt_setKey, if_neg ht, dataAt_remove, if_neg hs]

end FileSystem

end Allman
