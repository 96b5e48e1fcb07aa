import Allman.Proofs.Acts
import Allman.Proofs.Cleaning
import Allman.Settings
import Mathlib.Logic.Function.Iterate
import Mathlib.Tactic.IntervalCases

/-! # The nearest settings file

The directory of an absolute cleaned path has one component less (`Rooted.components_parent`), so
that the way up ends at the root, after as many steps as the path has components
(`Rooted.up_eq_root_iff`), and the directories that are searched are those on this way, all of them
(`ancestors_eq`).

A search looks one place up after the other. As long as there is nothing, it goes on to the next
(`run_firstPresent_skip`), and the first place where it is told anything else decides. So the
nearest settings file is found, or the reason why it cannot be told whether it is there
(`find_nearest`). -/

namespace Allman

namespace Path

/-! ### Absolute cleaned paths -/

/-- The path starts at the root, and it is cleaned. -/
structure Rooted (p : Bytes) : Prop where
  absolute : isAbsolute p = true
  clean_eq : clean p = p

/-- The number of components of a path. -/
def depth (p : Bytes) : Nat := (components p).length

variable {p : Bytes}

theorem rooted_clean (h : isAbsolute p = true) : Rooted (clean p) :=
  ⟨by rw [isAbsolute_clean, h], clean_clean p⟩

theorem Rooted.eq_join (h : Rooted p) :
    p = Byte.slash :: Bytes.joinWith [Byte.slash] (components p) := by
  have hclean := h.clean_eq
  unfold clean at hclean
  rw [h.absolute] at hclean
  exact hclean.symm

theorem Rooted.eq_root_iff (h : Rooted p) : p = root ↔ depth p = 0 := by
  constructor
  · rintro rfl
    rfl
  · intro hdepth
    rw [h.eq_join, List.eq_nil_of_length_eq_zero hdepth]
    rfl

/-- The components of an absolute path that is put together from them. -/
theorem components_slash_join {cs : List Bytes} (h : IsClean true cs.reverse) :
    components (Byte.slash :: Bytes.joinWith [Byte.slash] cs) = cs := by
  have hfold := foldl_splitOn_joinWith h
  -- the slash at the start cuts off an empty piece, which is passed over
  change ((Bytes.splitOn Byte.slash (Byte.slash :: _)).foldl (step true) []).reverse = cs
  simp only [Bytes.splitOn, ↓reduceIte, List.foldl_cons]
  change (List.foldl (step true) [] _).reverse = cs
  rw [hfold, List.reverse_reverse]

/-- **The directory of an absolute path has one component less.** -/
theorem Rooted.components_parent (h : Rooted p) :
    components (parent p) = (components p).dropLast := by
  have hclean := isClean_components p
  have hp := h.eq_join
  rw [h.absolute] at hclean
  rcases List.eq_nil_or_concat (components p) with hnil | ⟨before, name, hcs⟩
  · rw [hnil] at hp ⊢
    rw [hp]
    rfl
  · rw [List.concat_eq_append] at hcs
    rw [hcs, List.reverse_append] at hclean
    have hname : Byte.slash ∉ name := hclean.slash name (by simp)
    rw [hcs] at hp ⊢
    rw [List.dropLast_concat]
    by_cases hbefore : before = []
    · subst hbefore
      have hfront : front p = [Byte.slash] := by
        rw [hp]
        simpa [Bytes.joinWith] using front_append [] hname
      rw [parent_eq, hfront]
      rfl
    · have hfront :
          front p = (Byte.slash :: Bytes.joinWith [Byte.slash] before) ++ [Byte.slash] := by
        rw [hp, Bytes.joinWith_concat _ _ hbefore]
        exact front_append (Byte.slash :: Bytes.joinWith [Byte.slash] before) hname
      rw [parent_eq, hfront, components_clean, components_append_slash (by simp)]
      exact components_slash_join hclean.tail

theorem Rooted.isAbsolute_parent (h : Rooted p) : isAbsolute (parent p) = true := by
  have hp := h.eq_join
  rw [parent_eq, isAbsolute_clean]
  generalize Bytes.joinWith [Byte.slash] (components p) = inner at hp
  subst hp
  -- the slash at the start is the last one at the latest
  unfold front
  rw [List.reverse_cons, List.dropWhile_append]
  split
  · rfl
  · rw [List.reverse_append]
    rfl

/-- The directory of an absolute cleaned path is absolute and cleaned. -/
theorem Rooted.parent (h : Rooted p) : Rooted (parent p) :=
  ⟨h.isAbsolute_parent, clean_clean (front p)⟩

theorem Rooted.parent_eq_self_iff (h : Rooted p) : Path.parent p = p ↔ p = root := by
  rw [h.eq_root_iff]
  constructor
  · intro heq
    have hcs := congrArg List.length h.components_parent
    rw [heq, List.length_dropLast] at hcs
    unfold depth
    omega
  · intro hdepth
    rw [h.eq_root_iff.mpr hdepth]
    rfl

theorem length_le_weight (cs : List Bytes) : cs.length ≤ weight cs := by
  induction cs with
  | nil => exact le_rfl
  | cons c cs ih =>
    rw [List.length_cons, weight_cons]
    omega

/-- A path has no more components than bytes. -/
theorem Rooted.depth_le_length (h : Rooted p) : depth p ≤ p.length := by
  by_cases hnil : components p = []
  · unfold depth
    rw [hnil]
    exact Nat.zero_le _
  · have hjoin := length_joinWith hnil
    have hweight := length_le_weight (components p)
    have hlength := congrArg List.length h.eq_join
    rw [List.length_cons] at hlength
    unfold depth
    omega

/-- An absolute start is made a cleaned one, and a relative one starts at the working directory. -/
theorem rooted_absolute {directory : Bytes} (h : isAbsolute directory = true) (dir : Bytes) :
    Rooted (absolute directory dir) := by
  have hdirectory : directory ≠ [] := by
    rintro rfl
    exact absurd h (by decide)
  unfold absolute
  split
  · next hdir => exact rooted_clean hdir
  · by_cases hdir : dir = []
    · have hjoin : join [directory, dir] = clean directory := by
        simp [join, hdirectory, hdir, Bytes.joinWith]
      rw [hjoin]
      exact rooted_clean h
    · have hjoin : join [directory, dir] = clean (directory ++ Byte.slash :: dir) := by
        simp [join, hdirectory, hdir, Bytes.joinWith]
      rw [hjoin]
      exact rooted_clean (by rw [isAbsolute_append hdirectory, h])

/-! ### The way up -/

/-- The directory that is `n` steps above another one. -/
def up (dir : Bytes) (n : Nat) : Bytes := parent^[n] dir

@[simp] theorem up_zero (dir : Bytes) : up dir 0 = dir := rfl

theorem up_succ (dir : Bytes) (n : Nat) : up dir (n + 1) = up (parent dir) n := rfl

theorem Rooted.up (h : Rooted p) (n : Nat) : Rooted (up p n) := by
  induction n generalizing p with
  | zero => exact h
  | succ n ih => exact ih h.parent

/-- Each step up takes one component away. -/
theorem Rooted.depth_up (h : Rooted p) (n : Nat) : depth (Path.up p n) = depth p - n := by
  induction n generalizing p with
  | zero => rfl
  | succ n ih =>
    have hparent : depth (Path.parent p) = depth p - 1 := by
      unfold depth
      rw [h.components_parent, List.length_dropLast]
    rw [up_succ, ih h.parent, hparent]
    omega

/-- The way up comes to the root when all components are gone, and not before. -/
theorem Rooted.up_eq_root_iff (h : Rooted p) (n : Nat) : Path.up p n = root ↔ depth p ≤ n := by
  rw [(h.up n).eq_root_iff, h.depth_up]
  omega

/-- **The directories that are searched are those on the way up**, as long as there is fuel for the
components of the first one. -/
theorem ancestors_eq {fuel : Nat} (h : Rooted p) (hfuel : depth p ≤ fuel) :
    ancestors fuel p = (List.range (depth p + 1)).map (up p) := by
  induction fuel generalizing p with
  | zero =>
    rw [Nat.le_zero.mp hfuel]
    rfl
  | succ fuel ih =>
    unfold ancestors
    by_cases hroot : p = root
    · rw [if_pos (h.parent_eq_self_iff.mpr hroot), h.eq_root_iff.mp hroot]
      rfl
    · have hdepth : depth p ≠ 0 := fun h0 => hroot (h.eq_root_iff.mpr h0)
      have hparent : depth (parent p) + 1 = depth p := by
        have hup := h.depth_up 1
        rw [up_succ, up_zero] at hup
        omega
      rw [if_neg (h.parent_eq_self_iff.not.mpr hroot), ih h.parent (by omega), hparent,
        List.range_succ_eq_map, List.map_cons, List.map_map]
      rfl

end Path

namespace Settings

variable {w : World} {place : Nat → Bytes}

/-! ### Looking places up -/

/-- The world after the first `n` places were looked up. -/
def lookedUp (w : World) (place : Nat → Bytes) : Nat → World
  | 0 => w
  | n + 1 => ((lookedUp w place n).run (Act.stat .tree (place n))).2

/-- What looking the place up gives, after those before it were looked up. -/
def found (w : World) (place : Nat → Bytes) (n : Nat) : Except FileError Node :=
  ((lookedUp w place n).run (Act.stat .tree (place n))).1

/-- It is said that there is nothing at the place. -/
def Missing (w : World) (place : Nat → Bytes) (n : Nat) : Prop :=
  ∃ e, found w place n = .error e ∧ e.isNotFound = true

/-- What the search makes of the first place that is left. -/
theorem run_firstPresent_cons (n : Nat) (others : List Bytes) :
    (lookedUp w place n).run (firstPresent (place n :: others)) =
      match found w place n with
      | .ok _ => (.ok (some (place n)), lookedUp w place (n + 1))
      | .error e =>
        if e.isNotFound then (lookedUp w place (n + 1)).run (firstPresent others)
        else (.error (.unknown (place n) e), lookedUp w place (n + 1)) := by
  have hattempt :
      (lookedUp w place n).run (Act.attempt (Act.stat .tree (place n)) : Act SettingsError _) =
        (.ok (found w place n), lookedUp w place (n + 1)) := World.run_attempt ..
  rw [firstPresent, World.run_bind_ok _ hattempt]
  rcases found w place n with e | node
  · dsimp only
    split
    · rfl
    · rfl
  · rfl

/-- **The search goes on as long as there is nothing.** -/
theorem run_firstPresent_skip {k : Nat} (h : ∀ i < k, Missing w place i) (m : Nat) :
    w.run (firstPresent ((List.range (k + m)).map place)) =
      (lookedUp w place k).run (firstPresent ((List.range' k m).map place)) := by
  induction k generalizing m with
  | zero =>
    rw [Nat.zero_add, List.range_eq_range']
    rfl
  | succ k ih =>
    obtain ⟨e, hfound, hnone⟩ := h k k.lt_succ_self
    have hbefore := ih (fun i hi => h i (by omega)) (m + 1)
    rw [Nat.add_right_comm, Nat.add_assoc, hbefore, List.range'_succ, List.map_cons,
      run_firstPresent_cons, hfound]
    dsimp only
    rw [if_pos hnone]

/-! ### The nearest settings file -/

/-- The path of the settings file `n` directories above the one where the search starts. -/
def placeAt (directory dir : Bytes) (n : Nat) : Bytes :=
  Path.join [Path.up (Path.absolute directory dir) n, fileName]

theorem run_find (w : World) (dir : Bytes) :
    w.run (find dir) = w.run (firstPresent (candidates w.directory dir)) := rfl

/-- The places that are searched are those on the way up to the root. -/
theorem candidates_eq {directory : Bytes} (h : Path.isAbsolute directory = true) (dir : Bytes) :
    candidates directory dir =
      (List.range (Path.depth (Path.absolute directory dir) + 1)).map (placeAt directory dir) := by
  have hstart := Path.rooted_absolute h dir
  unfold candidates
  dsimp only
  rw [Path.ancestors_eq hstart hstart.depth_le_length, List.map_map]
  rfl

/-- **The nearest settings file is found, and the search ends at the root.** Of the places on the
way from the start up to the root, the first one that is not told to be empty decides: the settings
file there is the one that is found, and where it cannot be told whether there is one, the search
fails. If all are empty, there is no settings file, and that is no failure. -/
theorem find_nearest (h : Path.isAbsolute w.directory = true) (dir : Bytes) :
    let start := Path.absolute w.directory dir
    let place := placeAt w.directory dir
    ∃ top, (∀ n, Path.up start n = Path.root ↔ top ≤ n) ∧ top ≤ start.length ∧
      (∀ k ≤ top, (∀ i < k, Missing w place i) →
        (∀ node, found w place k = .ok node →
          w.run (find dir) = (.ok (some (place k)), lookedUp w place (k + 1))) ∧
        ∀ e, found w place k = .error e → e.isNotFound = false →
          w.run (find dir) = (.error (.unknown (place k) e), lookedUp w place (k + 1))) ∧
      ((∀ k ≤ top, Missing w place k) →
        w.run (find dir) = (.ok none, lookedUp w place (top + 1))) := by
  intro start place
  have hstart : Path.Rooted start := Path.rooted_absolute h dir
  have hplaces : candidates w.directory dir = (List.range (Path.depth start + 1)).map place :=
    candidates_eq h dir
  refine ⟨Path.depth start, hstart.up_eq_root_iff, hstart.depth_le_length, ?_, ?_⟩
  · intro k hk hbefore
    obtain ⟨m, hm⟩ : ∃ m, Path.depth start + 1 = k + (m + 1) := ⟨Path.depth start - k, by omega⟩
    have hrun : w.run (find dir) =
        (lookedUp w place k).run (firstPresent (place k :: (List.range' (k + 1) m).map place)) := by
      rw [run_find, hplaces, hm, run_firstPresent_skip hbefore]
      rfl
    constructor
    · intro node hfound
      rw [hrun, run_firstPresent_cons, hfound]
    · intro e hfound hother
      rw [hrun, run_firstPresent_cons, hfound]
      dsimp only
      rw [hother]
      rfl
  · intro hnone
    have hbefore : ∀ i < Path.depth start + 1, Missing w place i :=
      fun i hi => hnone i (Nat.lt_succ_iff.mp hi)
    rw [run_find, hplaces]
    exact run_firstPresent_skip hbefore 0

/-- A world with a settings file in `/a`, where the working directory lies below. At the root,
nothing can be looked up. -/
def settledWorld : World :=
  { World.ofFiles (FileSystem.empty.write "/a/.reindent.toml" [] 0o644) with
    trouble := fun _ _ call path =>
      if call = .stat ∧ path = Bytes.ofString "/.reindent.toml" then some (.injected call) else none
    directory := "/a/x" }

/-- From a directory below the working directory, the settings file is found two directories further
up. From a directory whose only one above is the root, the search fails there. -/
theorem find_nearest_below : Path.isAbsolute settledWorld.directory = true ∧
    (settledWorld.run (find "b//../c/.")).1 = .ok (some "/a/.reindent.toml") ∧
    (settledWorld.run (find "/b/")).1 =
      .error (.unknown "/.reindent.toml" (.injected .stat)) := by
  have hdirectory : Path.isAbsolute settledWorld.directory = true := by decide +kernel
  refine ⟨hdirectory, ?_, ?_⟩
  · obtain ⟨top, htop, -, hdecides, -⟩ := find_nearest hdirectory "b//../c/."
    have hlow : Path.up (Path.absolute settledWorld.directory "b//../c/.") 2 ≠ Path.root := by
      decide +kernel
    have hk : 2 ≤ top := (not_le.mp fun hle => hlow ((htop 2).mpr hle)).le
    let place := placeAt settledWorld.directory "b//../c/."
    have hnone : ∀ i < 2, Missing settledWorld place i := by
      intro i hi
      interval_cases i
      · exact ⟨.notFound "/a/x/c/.reindent.toml", by decide +kernel, rfl⟩
      · exact ⟨.notFound "/a/x/.reindent.toml", by decide +kernel, rfl⟩
    obtain ⟨node, hfound⟩ : ∃ node, found settledWorld place 2 = .ok node :=
      ⟨⟨1, [], 0o644, none⟩, by decide +kernel⟩
    rw [(hdecides 2 hk hnone).1 node hfound]
    decide +kernel
  · obtain ⟨top, htop, -, hdecides, -⟩ := find_nearest hdirectory "/b/"
    have hlow : Path.up (Path.absolute settledWorld.directory "/b/") 0 ≠ Path.root := by
      decide +kernel
    have hk : 1 ≤ top := not_le.mp fun hle => hlow ((htop 0).mpr hle)
    let place := placeAt settledWorld.directory "/b/"
    have hnone : ∀ i < 1, Missing settledWorld place i := by
      intro i hi
      interval_cases i
      exact ⟨.notFound "/b/.reindent.toml", by decide +kernel, rfl⟩
    have hfound : found settledWorld place 1 = .error (.injected .stat) := by decide +kernel
    rw [(hdecides 1 hk hnone).2 _ hfound rfl]
    decide +kernel

end Settings

end Allman
