import Allman.FileSystem
import Mathlib.Data.List.Basic

/-! # What the operations on files do to the bytes

Each operation is described by the bytes it leaves at every path (`dataAt`). An operation that makes
directories on the way may put nodes without bytes where there was nothing, and changes no bytes
that are there (`Grows`). -/

namespace Allman

namespace FileSystem

/-- The bytes kept under a path. -/
def dataAt (fs : FileSystem) (k : Bytes) : Option Bytes := (fs.getKey? k).map (·.data)

theorem data?_eq (fs : FileSystem) (p : Bytes) : fs.data? p = fs.dataAt (key p) := rfl

/-! ### Single nodes -/

theorem lookup_replace (k : Bytes) (node : Node) (q : Bytes) : ∀ nodes : List (Bytes × Node),
    (nodes.map fun (p, old) => if p = k then (p, node) else (p, old)).lookup q =
      if q = k then (nodes.lookup q).map fun _ => node else nodes.lookup q
  | [] => by simp
  | (p, old) :: nodes => by
    have ih := lookup_replace k node q nodes
    rw [List.map_cons, List.lookup_cons]
    by_cases hp : p = k
    · by_cases hq : q = p
      · simp [hp, hq]
      · have hne : (q == p) = false := by simpa using hq
        simp only [hp] at hne ⊢
        simp only [↓reduceIte, List.lookup_cons, hne, ih]
    · by_cases hq : q = p
      · have hne : ¬ q = k := fun h => hp (hq ▸ h)
        simp [hp, hq]
      · have hne : (q == p) = false := by simpa using hq
        simp only [hp, ↓reduceIte, List.lookup_cons, hne, ih]

theorem lookup_filter_fst (keep : Bytes → Bool) (q : Bytes) : ∀ nodes : List (Bytes × Node),
    (nodes.filter fun (p, _) => keep p).lookup q = if keep q then nodes.lookup q else none
  | [] => by simp
  | (p, node) :: nodes => by
    have ih := lookup_filter_fst keep q nodes
    by_cases hp : keep p
    · rw [List.filter_cons_of_pos (by simpa using hp), List.lookup_cons, List.lookup_cons, ih]
      by_cases hq : q = p
      · subst hq
        simp [hp]
      · have hne : (q == p) = false := by simpa using hq
        simp [hne]
    · rw [List.filter_cons_of_neg (by simpa using hp), ih, List.lookup_cons]
      by_cases hq : q = p
      · subst hq
        simp [hp]
      · have hne : (q == p) = false := by simpa using hq
        simp [hne]

theorem getKey?_setKey (fs : FileSystem) (k : Bytes) (node : Node) (q : Bytes) :
    (fs.setKey k node).getKey? q = if q = k then some node else fs.getKey? q := by
  unfold setKey
  by_cases hsome : (fs.getKey? k).isSome
  · rw [if_pos hsome]
    unfold getKey? at hsome ⊢
    rw [lookup_replace]
    by_cases hq : q = k
    · obtain ⟨old, hold⟩ := Option.isSome_iff_exists.mp hsome
      rw [if_pos hq, if_pos hq, hq, hold]
      rfl
    · rw [if_neg hq, if_neg hq]
  · rw [if_neg hsome]
    unfold getKey? at hsome ⊢
    rw [List.lookup_append]
    by_cases hq : q = k
    · rw [hq, Option.not_isSome_iff_eq_none.mp hsome]
      simp
    · have hne : (q == k) = false := by simpa using hq
      rw [if_neg hq, List.lookup_cons, hne]
      simp

theorem getKey?_updateKey (fs : FileSystem) (k : Bytes) (f : Node → Node) (q : Bytes) :
    (fs.updateKey k f).getKey? q = if q = k then (fs.getKey? q).map f else fs.getKey? q := by
  unfold updateKey
  split
  · next node hnode =>
    rw [getKey?_setKey]
    by_cases hq : q = k
    · rw [if_pos hq, if_pos hq, hq, hnode]
      rfl
    · rw [if_neg hq, if_neg hq]
  · next hnone =>
    by_cases hq : q = k
    · rw [if_pos hq, hq, hnone]
      rfl
    · rw [if_neg hq]

variable (fs : FileSystem) (k q : Bytes)

theorem dataAt_setKey (node : Node) :
    (fs.setKey k node).dataAt q = if q = k then some node.data else fs.dataAt q := by
  unfold dataAt
  rw [getKey?_setKey]
  split
  · rfl
  · rfl

theorem dataAt_addKey (mode : Nat) (listed : Option (List Bytes)) :
    (fs.addKey k mode listed).dataAt q = if q = k then some [] else fs.dataAt q :=
  dataAt_setKey fs k q ⟨fs.made, [], mode, listed⟩

theorem dataAt_eraseKey : (fs.eraseKey k).dataAt q = if q = k then none else fs.dataAt q := by
  have hlookup : (fs.eraseKey k).getKey? q = if q != k then fs.getKey? q else none :=
    lookup_filter_fst (· != k) q fs.nodes
  unfold dataAt
  rw [hlookup]
  by_cases hq : q = k
  · simp [hq]
  · simp [hq]

theorem dataAt_updateKey_of_data {f : Node → Node} (hf : ∀ node, (f node).data = node.data) :
    (fs.updateKey k f).dataAt q = fs.dataAt q := by
  unfold dataAt
  rw [getKey?_updateKey]
  split
  · rw [Option.map_map]
    exact Option.map_congr fun node _ => hf node
  · rfl

theorem dataAt_delist : (fs.delist k).dataAt q = fs.dataAt q := by
  unfold delist
  split
  · exact dataAt_updateKey_of_data fs (listerOf k) q fun _ => rfl
  · rfl

/-! ### Directories on the way -/

/-- **Nothing but empty nodes appeared**, and no bytes changed. -/
def Grows (fs fs' : FileSystem) : Prop :=
  ∀ q, fs'.dataAt q = fs.dataAt q ∨ fs.dataAt q = none ∧ fs'.dataAt q = some []

variable {fs} {fs' fs'' : FileSystem}

theorem Grows.refl : Grows fs fs := fun _ => Or.inl rfl

theorem Grows.trans (h : Grows fs fs') (h' : Grows fs' fs'') : Grows fs fs'' := by
  intro q
  rcases h q with heq | ⟨hnone, hempty⟩
  · rw [← heq]
    exact h' q
  · rcases h' q with heq' | ⟨hnone', -⟩
    · exact Or.inr ⟨hnone, heq'.trans hempty⟩
    · rw [hempty] at hnone'
      simp at hnone'

theorem Grows.dataAt_eq {k data : Bytes} (h : Grows fs fs') (hk : fs.dataAt k = some data) :
    fs'.dataAt k = some data := by
  rcases h k with heq | ⟨hnone, -⟩
  · rw [heq, hk]
  · rw [hk] at hnone
    simp at hnone

theorem grows_addKey {k : Bytes} {mode : Nat} {listed : Option (List Bytes)}
    (hk : fs.getKey? k = none) : Grows fs (fs.addKey k mode listed) := by
  intro q
  rw [dataAt_addKey]
  by_cases hq : q = k
  · refine Or.inr ⟨?_, if_pos hq⟩
    rw [hq, dataAt, hk]
    rfl
  · exact Or.inl (if_neg hq)

theorem grows_enlist (mode : Nat) : ∀ (fuel : Nat) (fs : FileSystem) (k : Bytes),
    Grows fs (enlist mode fuel fs k)
  | 0, _, _ => .refl
  | fuel + 1, fs, k => by
    unfold enlist
    dsimp only
    split
    · next node hnode =>
      intro q
      left
      rw [dataAt_setKey]
      split
      · next hq =>
        rw [hq, dataAt, hnode]
        rfl
      · rfl
    · next hnone => exact (grows_addKey hnone).trans (grows_enlist mode fuel _ _)

theorem grows_makeDirectory (fs : FileSystem) (p : Bytes) : Grows fs (fs.makeDirectory p) := by
  unfold makeDirectory
  dsimp only
  split
  · exact .refl
  · next hnone => exact (grows_addKey hnone).trans (grows_enlist _ _ _ _)

/-! ### Files -/

/-- **A new file** has no bytes, and nothing else changes. -/
theorem dataAt_create (fs : FileSystem) (p : Bytes) (mode : Nat) :
    (fs.create p mode).dataAt (key p) = some [] ∧
      ∀ q, q ≠ key p → (fs.create p mode).dataAt q = fs.dataAt q ∨
        fs.dataAt q = none ∧ (fs.create p mode).dataAt q = some [] := by
  have hgrows := grows_enlist 0 ((key p).length + 1) (fs.addKey (key p) mode none) (key p)
  refine ⟨hgrows.dataAt_eq (by rw [dataAt_addKey, if_pos rfl]), fun q hq => ?_⟩
  have hadd := dataAt_addKey fs (key p) q mode none
  rw [if_neg hq] at hadd
  rw [← hadd]
  exact hgrows q

theorem dataAt_setData (fs : FileSystem) (p data q : Bytes) :
    (fs.setData p data).dataAt q =
      if q = key p then (fs.dataAt q).map fun _ => data else fs.dataAt q := by
  unfold setData dataAt
  rw [getKey?_updateKey]
  split
  · rw [Option.map_map, Option.map_map]
    rfl
  · rfl

theorem dataAt_remove (fs : FileSystem) (p q : Bytes) :
    (fs.remove p).dataAt q = if q = key p then none else fs.dataAt q := by
  unfold remove
  rw [dataAt_eraseKey, dataAt_delist]

theorem dataAt_removeTree (fs : FileSystem) (p q : Bytes) :
    (fs.removeTree p).dataAt q = if Path.isWithin (key p) q then none else fs.dataAt q := by
  have hlookup : (fs.removeTree p).getKey? q =
      if !Path.isWithin (key p) q then (fs.delist (key p)).getKey? q else none :=
    lookup_filter_fst (fun q => !Path.isWithin (key p) q) q (fs.delist (key p)).nodes
  have hdelist := dataAt_delist fs (key p) q
  unfold dataAt at hdelist ⊢
  rw [hlookup]
  by_cases hwithin : Path.isWithin (key p) q
  · simp [hwithin]
  · simpa [hwithin] using hdelist

/-- However the tree at a path is removed, nothing changes that does not lie in it. -/
theorem dataAt_takeTree (fs : FileSystem) (removal : Removal) (p q : Bytes) :
    (fs.takeTree removal p).dataAt q = fs.dataAt q ∨
      Path.isWithin (key p) q = true ∧ (fs.takeTree removal p).dataAt q = none := by
  unfold takeTree
  split
  · rw [dataAt_remove]
    split
    · next hq =>
      rw [hq]
      exact Or.inr ⟨by simp [Path.isWithin], rfl⟩
    · exact Or.inl rfl
  · rw [dataAt_removeTree]
    split
    · next hwithin => exact Or.inr ⟨hwithin, rfl⟩
    · exact Or.inl rfl

/-- **To remove the tree at a path takes everything that is at or below it.** -/
def TakesTree (removal : Removal) (p : Bytes) : Prop :=
  ∀ fs q, Path.isWithin (key p) q = true → (takeTree fs removal p).getKey? q = none

/-- All trees are taken but those at the root of a file system in which it goes alone. -/
theorem takesTree_iff {removal : Removal} {p : Bytes} :
    TakesTree removal p ↔ ¬ (removal = .rootAlone ∧ key p = Path.root) := by
  constructor
  · rintro htakes ⟨hremoval, hroot⟩
    -- a file in the root stays
    have hgone := htakes ⟨[("/a", ⟨0, [], 0, none⟩)], 1⟩ "/a" (by rw [hroot]; decide)
    rw [takeTree, if_pos ⟨hremoval, hroot⟩, remove, hroot] at hgone
    exact absurd hgone (by decide)
  · intro h fs q hq
    have hnone : (fs.takeTree removal p).dataAt q = none := by
      rw [takeTree, if_neg h, dataAt_removeTree, if_pos hq]
    exact Option.map_eq_none_iff.mp hnone

/-- **A file that is moved** takes its bytes along; at its old path nothing, or a new directory, is
left, and nothing else changes. -/
theorem dataAt_move {fs : FileSystem} {source data : Bytes}
    (h : fs.dataAt (key source) = some data) (target : Bytes) :
    (fs.move source target).dataAt (key target) = some data ∧
      ∀ q, q ≠ key source → q ≠ key target → (fs.move source target).dataAt q = fs.dataAt q ∨
        fs.dataAt q = none ∧ (fs.move source target).dataAt q = some [] := by
  obtain ⟨node, hnode, rfl⟩ := Option.map_eq_some_iff.mp h
  have hget : fs.get? source = some node := hnode
  have hgrows := grows_enlist 0 ((key target).length + 1)
    ((fs.remove source).setKey (key target) node) (key target)
  unfold move
  rw [hget]
  refine ⟨hgrows.dataAt_eq (by rw [dataAt_setKey, if_pos rfl]), fun q hsource htarget => ?_⟩
  have hset := dataAt_setKey (fs.remove source) (key target) q node
  rw [if_neg htarget, dataAt_remove, if_neg hsource] at hset
  rw [← hset]
  exact hgrows q

end FileSystem

end Allman
