import Allman.Proofs.Directories

/-! # Where the cache keeps its files

All files of a cache stand in directories which are named by two hexadecimal digits and stand in the
directory of the cache (`key_fileFor`, `exists_unusedPath`). So no file of a cache is a directory
on the way to another one (`not_above_place`), and all of them lie in the directory of the cache
(`isWithin_place`). -/

namespace Allman

open Allman.Path

namespace Cache

/-- A key of the cache. -/
abbrev Key := {key : Bytes // key.length = 32}

theorem Key.exists_cons (key : Key) : ∃ b s, key.1 = b :: s := by
  rcases hkey : key.1 with _ | ⟨b, s⟩
  · simpa [hkey] using key.2
  · exact ⟨b, s, rfl⟩

/-- The name of the directory of all files whose keys begin with a byte. -/
def folderName (b : UInt8) : Bytes := Bytes.toHex [b]

/-- The path of a name in such a directory. -/
def place (c : Cache) (b : UInt8) (name : Bytes) : Bytes :=
  stem c.dir ++ folderName b ++ Byte.slash :: name

/-! ### Names -/

@[simp] theorem length_folderName (b : UInt8) : (folderName b).length = 2 := rfl

theorem isName_folderName (b : UInt8) : IsName (folderName b) := by
  have hlt := b.toNat_lt
  refine ⟨?_, ?_, ?_, Bytes.not_mem_toHex (by decide) _⟩
  · intro h
    simpa using congrArg List.length h
  · intro h
    simpa [here] using congrArg List.length h
  · intro h
    have hfirst : Byte.hexDigit (b.toNat / 16) = Byte.dot := (List.cons.inj h).1
    exact Bytes.hexDigit_ne (by omega) (by decide) hfirst

theorem join_place (c : Cache) (b : UInt8) {name : Bytes} (h : IsName name) :
    join [c.dir, folderName b, name] = c.place b name := join_names (isName_folderName b) h c.dir

theorem fileFor_cons (c : Cache) (b : UInt8) (s : Bytes) :
    c.fileFor (b :: s) = c.place b (entryName (b :: s)) :=
  c.join_place b (isName_entryName (b :: s))

theorem key_place (c : Cache) (b : UInt8) {name : Bytes} (h : IsName name) :
    FileSystem.key (c.place b name) = c.place b name :=
  FileSystem.key_stem_names (isName_folderName b) h c.dir

theorem listerOf_place (c : Cache) (b : UInt8) {name : Bytes} (h : IsName name) :
    FileSystem.listerOf (c.place b name) = stem c.dir ++ folderName b :=
  FileSystem.listerOf_stem_names (isName_folderName b) h c.dir

theorem key_fileFor (c : Cache) (b : UInt8) (s : Bytes) :
    FileSystem.key (c.fileFor (b :: s)) = c.place b (entryName (b :: s)) := by
  rw [fileFor_cons, key_place _ _ (isName_entryName _)]

theorem parent_fileFor (c : Cache) (b : UInt8) (s : Bytes) :
    parent (c.fileFor (b :: s)) = stem c.dir ++ folderName b := by
  rw [fileFor_cons]
  exact parent_stem (isName_folderName b) (isName_entryName _).slash c.dir

/-- **A file that waits to be moved into place** stands beside the place. -/
theorem exists_unusedPath (c : Cache) (fs : FileSystem) (b : UInt8) (s : Bytes) :
    ∃ n, unusedPath fs (parent (c.fileFor (b :: s))) = c.place b (temporaryName n) := by
  have hjoin : ∀ n, join [parent (c.fileFor (b :: s)), temporaryName n] =
      c.place b (temporaryName n) := by
    intro n
    rw [parent_fileFor, join_name (isName_temporaryName n), stem_stem_append (isName_folderName b)]
    simp [place]
  unfold unusedPath
  dsimp only
  rcases hfind : List.find? _ _ with _ | p
  · exact ⟨0, hjoin 0⟩
  · obtain ⟨n, -, rfl⟩ := List.mem_map.mp (List.mem_of_find?_eq_some hfind)
    exact ⟨n, hjoin n⟩

/-! ### Directories -/

variable {c : Cache} {a b : UInt8} {name other : Bytes}

theorem length_place : (c.place b name).length = (stem c.dir).length + name.length + 3 := by
  simp only [place, List.length_append, List.length_cons, length_folderName]
  omega

theorem place_ne_root : c.place b name ≠ root := by
  intro h
  have hlen := congrArg List.length h
  rw [length_place] at hlen
  simp [root] at hlen

theorem place_ne_folder : c.place b name ≠ stem c.dir ++ folderName a := by
  intro h
  have hlen := congrArg List.length h
  rw [length_place, List.length_append, length_folderName] at hlen
  omega

theorem not_above_folder : ¬ FileSystem.Above (stem c.dir ++ folderName a) (c.place b name) := by
  refine FileSystem.not_above_of_length_le place_ne_root ?_
  rw [length_place, List.length_append, length_folderName]
  omega

/-- **No file of a cache is on the way to another one.** -/
theorem not_above_place (h : IsName other) :
    ¬ FileSystem.Above (c.place a other) (c.place b name) := by
  refine FileSystem.not_above_of_lister ?_ ?_
  · rw [listerOf_place _ _ h]
    exact place_ne_folder
  · rw [listerOf_place _ _ h]
    exact not_above_folder

/-! ### Everything in the directory of the cache -/

theorem stem_of_key_ne_root {dir : Bytes} (h : FileSystem.key dir ≠ root) :
    stem dir = FileSystem.key dir ++ [Byte.slash] := by
  have hkey : FileSystem.key dir = clean dir := by
    unfold FileSystem.key at h ⊢
    dsimp only at h ⊢
    split at h
    · exact absurd rfl h
    · next hstep => rw [if_neg hstep]
  have hcomponents : components dir ≠ [] := by
    intro hnil
    refine h ?_
    unfold FileSystem.key clean
    rw [hnil]
    cases isAbsolute dir
    · rfl
    · rfl
  unfold stem
  rw [if_neg hcomponents, hkey]

/-- The directory of a cache has a shorter path than its files. -/
theorem length_dir_lt_place : (FileSystem.key c.dir).length < (c.place b name).length := by
  rw [length_place]
  by_cases hroot : FileSystem.key c.dir = root
  · rw [hroot]
    simp [root]
  · rw [stem_of_key_ne_root hroot, List.length_append]
    omega

/-- **The files of a cache lie in its directory.** -/
theorem isWithin_place : isWithin (FileSystem.key c.dir) (c.place b name) = true := by
  by_cases hroot : FileSystem.key c.dir = root
  · simp [isWithin, hroot]
  · have hbelow : FileSystem.key c.dir ++ [Byte.slash] <+: c.place b name := by
      unfold place
      rw [stem_of_key_ne_root hroot, List.append_assoc]
      exact List.prefix_append _ _
    simp [isWithin, Bytes.startsWith, hbelow]

end Cache

end Allman
