import Allman.Proofs.Paths
import Mathlib.Data.List.Basic

/-! # Cleaned paths

The components of a cleaned path are those of the path (`components_clean`), so that cleaning twice
is cleaning once (`clean_clean`), and a cleaned path is never longer (`length_clean_le`). A name that
is put behind a path stands behind its `stem`: the cleaned path with a slash, or nothing at all where
the path is the working directory. So the path of a file in a directory can be written down
(`join_name`, `join_names`), and so can the directory of such a file (`parent_stem`). -/

namespace Allman

theorem Bytes.splitOn_joinWith {sep : UInt8} : ∀ {pieces : List Bytes}, pieces ≠ [] →
    (∀ piece ∈ pieces, sep ∉ piece) → splitOn sep (joinWith [sep] pieces) = pieces
  | [], h, _ => absurd rfl h
  | [piece], _, h => by simpa [joinWith] using splitOn_of_not_mem (h piece (by simp))
  | piece :: next :: pieces, _, h => by
    have ih := splitOn_joinWith (List.cons_ne_nil next pieces)
      fun p hp => h p (List.mem_cons_of_mem _ hp)
    have hcons : joinWith [sep] (piece :: next :: pieces) =
        piece ++ sep :: joinWith [sep] (next :: pieces) := by simp [joinWith]
    rw [hcons, splitOn_append_cons (h piece List.mem_cons_self), ih]

namespace Path

/-! ### Lists of components -/

/-- Cleaning leaves the components alone, which are given the last first: they are names, or the
steps up at the start of a relative path. -/
def IsClean (absolute : Bool) : List Bytes → Prop
  | [] => True
  | c :: before =>
    IsName c ∧ IsClean absolute before ∨ c = above ∧ absolute = false ∧ ∀ b ∈ before, b = above

variable {absolute : Bool}

theorem isClean_of_forall_above : ∀ {before : List Bytes}, absolute = false →
    (∀ b ∈ before, b = above) → IsClean absolute before
  | [], _, _ => trivial
  | _ :: _, habs, h =>
    Or.inr ⟨h _ List.mem_cons_self, habs, fun b hb => h b (List.mem_cons_of_mem _ hb)⟩

theorem IsClean.tail {c : Bytes} {before : List Bytes} (h : IsClean absolute (c :: before)) :
    IsClean absolute before := by
  rcases h with ⟨-, hbefore⟩ | ⟨-, habs, hall⟩
  · exact hbefore
  · exact isClean_of_forall_above habs hall

theorem IsClean.ne_nil : ∀ {cs : List Bytes}, IsClean absolute cs → ∀ c ∈ cs, c ≠ []
  | _ :: _, h, c, hc => by
    rcases List.mem_cons.mp hc with rfl | hc
    · rcases h with ⟨hname, -⟩ | ⟨rfl, -⟩
      · exact hname.ne_nil
      · decide
    · exact h.tail.ne_nil c hc

theorem IsClean.slash : ∀ {cs : List Bytes}, IsClean absolute cs → ∀ c ∈ cs, Byte.slash ∉ c
  | _ :: _, h, c, hc => by
    rcases List.mem_cons.mp hc with rfl | hc
    · rcases h with ⟨hname, -⟩ | ⟨rfl, -⟩
      · exact hname.slash
      · decide
    · exact h.tail.slash c hc

theorem isClean_step {cleaned : List Bytes} {c : Bytes} (h : IsClean absolute cleaned)
    (hc : Byte.slash ∉ c) : IsClean absolute (step absolute cleaned c) := by
  unfold step
  split
  · exact h
  · next hskip =>
    split
    · next habove =>
      cases cleaned with
      | nil =>
        cases absolute
        · exact Or.inr ⟨rfl, rfl, by simp⟩
        · trivial
      | cons last before =>
        dsimp only
        split
        · next hlast =>
          rcases h with ⟨hname, -⟩ | ⟨-, habs, hall⟩
          · exact absurd hlast hname.ne_above
          · refine Or.inr ⟨rfl, habs, fun b hb => ?_⟩
            rcases List.mem_cons.mp hb with rfl | hb
            · exact hlast
            · exact hall b hb
        · exact h.tail
    · next habove =>
      rw [not_or] at hskip
      exact Or.inl ⟨⟨hskip.1, hskip.2, habove, hc⟩, h⟩

theorem isClean_foldl : ∀ {cs cleaned : List Bytes}, IsClean absolute cleaned →
    (∀ c ∈ cs, Byte.slash ∉ c) → IsClean absolute (cs.foldl (step absolute) cleaned)
  | [], _, h, _ => h
  | c :: cs, cleaned, h, hcs => by
    have hstep := isClean_step h (hcs c List.mem_cons_self)
    rw [List.foldl_cons]
    exact isClean_foldl hstep fun c' hc' => hcs c' (List.mem_cons_of_mem _ hc')

theorem step_of_isName {cleaned : List Bytes} {c : Bytes} (h : IsName c) :
    step absolute cleaned c = c :: cleaned := by
  unfold step
  rw [if_neg (not_or.mpr ⟨h.ne_nil, h.ne_here⟩), if_neg h.ne_above]

theorem step_of_isClean {c : Bytes} {before : List Bytes} (h : IsClean absolute (c :: before)) :
    step absolute before c = c :: before := by
  rcases h with ⟨hname, -⟩ | ⟨rfl, rfl, hall⟩
  · exact step_of_isName hname
  · unfold step
    rw [if_neg (by decide), if_pos rfl]
    cases before with
    | nil => rfl
    | cons last before =>
      dsimp only
      rw [if_pos (hall last List.mem_cons_self)]

theorem foldl_of_isClean : ∀ {cs : List Bytes}, IsClean absolute cs →
    cs.reverse.foldl (step absolute) [] = cs
  | [], _ => rfl
  | _ :: _, h => by
    rw [List.reverse_cons, List.foldl_append, foldl_of_isClean h.tail]
    exact step_of_isClean h

theorem isClean_components (p : Bytes) : IsClean (isAbsolute p) (components p).reverse := by
  unfold components
  rw [List.reverse_reverse]
  exact isClean_foldl trivial fun c hc => Bytes.not_mem_of_mem_splitOn hc

/-! ### Cleaning twice -/

theorem joinWith_eq_nil_iff {cs : List Bytes} (h : ∀ c ∈ cs, c ≠ []) :
    Bytes.joinWith [Byte.slash] cs = [] ↔ cs = [] := by
  refine ⟨fun hjoin => ?_, by rintro rfl; rfl⟩
  by_contra hcs
  obtain ⟨before, last, rfl⟩ : ∃ before last, cs = before ++ [last] :=
    ⟨_, _, (List.dropLast_append_getLast hcs).symm⟩
  by_cases hbefore : before = []
  · subst hbefore
    exact h last (by simp) (by simpa [Bytes.joinWith] using hjoin)
  · rw [Bytes.joinWith_concat _ _ hbefore] at hjoin
    simp at hjoin

theorem components_ne_nil {p c : Bytes} (hc : c ∈ components p) : c ≠ [] :=
  (isClean_components p).ne_nil c (List.mem_reverse.mpr hc)

theorem slash_of_mem_components {p c : Bytes} (hc : c ∈ components p) : Byte.slash ∉ c :=
  (isClean_components p).slash c (List.mem_reverse.mpr hc)

theorem isAbsolute_joinWith {cs : List Bytes} (hne : ∀ c ∈ cs, c ≠ [])
    (hslash : ∀ c ∈ cs, Byte.slash ∉ c) :
    isAbsolute (Bytes.joinWith [Byte.slash] cs) = false := by
  rcases cs with _ | ⟨first, rest⟩
  · rfl
  · obtain ⟨b, first, rfl⟩ := List.exists_cons_of_ne_nil (hne first List.mem_cons_self)
    have hb : b ≠ Byte.slash := by
      rintro rfl
      exact hslash _ List.mem_cons_self List.mem_cons_self
    have hhead : ∃ tail, Bytes.joinWith [Byte.slash] ((b :: first) :: rest) = b :: tail := by
      cases rest with
      | nil => exact ⟨first, by simp [Bytes.joinWith]⟩
      | cons next rest => exact ⟨_, by simp [Bytes.joinWith]; rfl⟩
    obtain ⟨tail, htail⟩ := hhead
    simpa [isAbsolute, htail] using hb

theorem isAbsolute_clean (p : Bytes) : isAbsolute (clean p) = isAbsolute p := by
  have hinner := @isAbsolute_joinWith (components p) (fun _ => components_ne_nil)
    fun _ => slash_of_mem_components
  unfold clean
  dsimp only
  cases habs : isAbsolute p
  · simp only [Bool.false_eq_true, ↓reduceIte]
    split
    · rfl
    · exact hinner
  · rfl

theorem foldl_splitOn_joinWith {cs : List Bytes} (h : IsClean absolute cs.reverse) :
    (Bytes.splitOn Byte.slash (Bytes.joinWith [Byte.slash] cs)).foldl (step absolute) [] =
      cs.reverse := by
  by_cases hnil : cs = []
  · subst hnil
    rfl
  · rw [Bytes.splitOn_joinWith hnil fun c hc => h.slash c (List.mem_reverse.mpr hc)]
    have hfold := foldl_of_isClean h
    rwa [List.reverse_reverse] at hfold

/-- **Cleaning keeps the components.** -/
theorem components_clean (p : Bytes) : components (clean p) = components p := by
  have hclean := isClean_components p
  have hfold := foldl_splitOn_joinWith hclean
  have habs := isAbsolute_clean p
  rw [components, habs]
  unfold clean
  dsimp only
  cases hp : isAbsolute p
  · rw [hp] at hfold
    simp only [Bool.false_eq_true, ↓reduceIte]
    split
    · next hnil =>
      rw [joinWith_eq_nil_iff fun _ => components_ne_nil] at hnil
      rw [hnil]
      rfl
    · rw [hfold, List.reverse_reverse]
  · -- the slash at the start cuts off an empty piece, which is passed over
    rw [hp] at hfold
    simp only [↓reduceIte, Bytes.splitOn, List.foldl_cons]
    change (List.foldl (step true) [] _).reverse = _
    rw [hfold, List.reverse_reverse]

theorem clean_eq_of_components {p q : Bytes} (hc : components p = components q)
    (habs : isAbsolute p = isAbsolute q) : clean p = clean q := by
  unfold clean
  rw [hc, habs]

/-- **Cleaning twice is cleaning once.** -/
@[simp] theorem clean_clean (p : Bytes) : clean (clean p) = clean p :=
  clean_eq_of_components (components_clean p) (isAbsolute_clean p)

/-! ### Names behind a path -/

/-- What stands before a name in the cleaned path of something in the directory `p`. -/
def stem (p : Bytes) : Bytes :=
  if components p = [] then if isAbsolute p then root else [] else clean p ++ [Byte.slash]

theorem isAbsolute_append {p : Bytes} (h : p ≠ []) (s : Bytes) :
    isAbsolute (p ++ s) = isAbsolute p := by
  obtain ⟨b, p, rfl⟩ := List.exists_cons_of_ne_nil h
  rfl

theorem components_append_name {p s : Bytes} (hp : p ≠ []) (hs : IsName s) :
    components (p ++ Byte.slash :: s) = components p ++ [s] := by
  unfold components
  rw [isAbsolute_append hp, Bytes.splitOn_append_sep, Bytes.splitOn_of_not_mem hs.slash,
    List.foldl_append, List.foldl_cons, List.foldl_nil, step_of_isName hs, List.reverse_cons]

theorem components_of_isName {s : Bytes} (hs : IsName s) : components s = [s] := by
  unfold components
  rw [Bytes.splitOn_of_not_mem hs.slash, List.foldl_cons, List.foldl_nil, step_of_isName hs]
  rfl

theorem isAbsolute_of_isName {s : Bytes} (hs : IsName s) : isAbsolute s = false := by
  obtain ⟨b, s, rfl⟩ := List.exists_cons_of_ne_nil hs.ne_nil
  have hb : b ≠ Byte.slash := fun h => hs.slash (by simp [h])
  simpa [isAbsolute] using hb

/-- The cleaned path of a name in a directory. -/
theorem clean_of_components {p q s : Bytes} (hs : IsName s) (hc : components q = components p ++ [s])
    (habs : isAbsolute q = isAbsolute p) : clean q = stem p ++ s := by
  unfold clean stem
  rw [hc, habs]
  dsimp only
  by_cases hnil : components p = []
  · rw [if_pos hnil, hnil]
    have hinner : Bytes.joinWith [Byte.slash] ([] ++ [s]) = s := by simp [Bytes.joinWith]
    rw [hinner, if_neg hs.ne_nil]
    cases isAbsolute p
    · rfl
    · rfl
  · have hinner : Bytes.joinWith [Byte.slash] (components p) ≠ [] := fun h =>
      hnil ((joinWith_eq_nil_iff fun _ => components_ne_nil).mp h)
    rw [if_neg hnil, Bytes.joinWith_concat _ _ hnil]
    unfold clean
    cases isAbsolute p
    · simp [hinner]
    · simp

theorem stem_of_components {p q s : Bytes} (hs : IsName s) (hc : components q = components p ++ [s])
    (habs : isAbsolute q = isAbsolute p) : stem q = stem p ++ s ++ [Byte.slash] := by
  have hne : components q ≠ [] := by simp [hc]
  rw [← clean_of_components hs hc habs]
  unfold stem
  rw [if_neg hne]

/-- **The path of a name in a directory.** -/
theorem join_name {s : Bytes} (hs : IsName s) (dir : Bytes) : join [dir, s] = stem dir ++ s := by
  by_cases hdir : dir = []
  · subst hdir
    have hjoin : join [[], s] = clean s := by simp [join, hs.ne_nil, Bytes.joinWith]
    rw [hjoin]
    exact clean_of_components (p := []) hs (components_of_isName hs) (isAbsolute_of_isName hs)
  · have hjoin : join [dir, s] = clean (dir ++ Byte.slash :: s) := by
      simp [join, hdir, hs.ne_nil, Bytes.joinWith]
    rw [hjoin]
    exact clean_of_components hs (components_append_name hdir hs) (isAbsolute_append hdir _)

/-- **The path of a name in a directory in a directory.** -/
theorem join_names {a s : Bytes} (ha : IsName a) (hs : IsName s) (dir : Bytes) :
    join [dir, a, s] = stem dir ++ a ++ Byte.slash :: s := by
  have hfinish : ∀ q, components q = components dir ++ [a] → isAbsolute q = isAbsolute dir →
      q ≠ [] → clean (q ++ Byte.slash :: s) = stem dir ++ a ++ Byte.slash :: s := by
    intro q hc habs hq
    rw [clean_of_components hs (components_append_name hq hs) (isAbsolute_append hq _),
      stem_of_components ha hc habs]
    simp
  by_cases hdir : dir = []
  · subst hdir
    have hjoin : join [[], a, s] = clean (a ++ Byte.slash :: s) := by
      simp [join, ha.ne_nil, hs.ne_nil, Bytes.joinWith]
    rw [hjoin]
    exact hfinish a (components_of_isName ha) (isAbsolute_of_isName ha) ha.ne_nil
  · have hjoin : join [dir, a, s] = clean (dir ++ Byte.slash :: a ++ Byte.slash :: s) := by
      simp [join, hdir, ha.ne_nil, hs.ne_nil, Bytes.joinWith]
    rw [hjoin]
    exact hfinish _ (components_append_name hdir ha) (isAbsolute_append hdir _) (by simp)

theorem isAbsolute_stem (p : Bytes) : isAbsolute (stem p) = isAbsolute p := by
  unfold stem
  split
  · cases isAbsolute p
    · rfl
    · rfl
  · next hne =>
    have hclean : clean p ≠ [] := by
      intro h
      have hc := components_clean p
      rw [h] at hc
      exact hne hc.symm
    rw [isAbsolute_append hclean, isAbsolute_clean]

theorem components_stem_append {s : Bytes} (hs : IsName s) (p : Bytes) :
    components (stem p ++ s) = components p ++ [s] := by
  by_cases hp : p = []
  · subst hp
    exact components_of_isName hs
  · have hclean := clean_of_components hs (components_append_name hp hs)
      (isAbsolute_append hp (Byte.slash :: s))
    rw [← hclean, components_clean, components_append_name hp hs]

theorem isAbsolute_stem_append {s : Bytes} (hs : IsName s) (p : Bytes) :
    isAbsolute (stem p ++ s) = isAbsolute p := by
  by_cases hstem : stem p = []
  · have habs := isAbsolute_stem p
    rw [hstem] at habs ⊢
    rw [← habs]
    exact isAbsolute_of_isName hs
  · rw [isAbsolute_append hstem, isAbsolute_stem]

theorem clean_stem_append {s : Bytes} (hs : IsName s) (p : Bytes) :
    clean (stem p ++ s) = stem p ++ s :=
  clean_of_components hs (components_stem_append hs p) (isAbsolute_stem_append hs p)

theorem stem_stem_append {s : Bytes} (hs : IsName s) (p : Bytes) :
    stem (stem p ++ s) = stem p ++ s ++ [Byte.slash] :=
  stem_of_components hs (components_stem_append hs p) (isAbsolute_stem_append hs p)

theorem base_stem_append {s : Bytes} (hs : IsName s) (p : Bytes) : base (stem p ++ s) = s := by
  unfold stem
  split
  · split
    · exact base_append [] hs.slash
    · exact base_of_not_mem hs.slash
  · rw [List.append_assoc]
    exact base_append _ hs.slash

/-! ### Directories -/

/-- The text of a path up to its last slash. -/
def front (p : Bytes) : Bytes := (p.reverse.dropWhile (· != Byte.slash)).reverse

theorem parent_eq (p : Bytes) : parent p = clean (front p) := rfl

theorem front_append {s : Bytes} (dir : Bytes) (h : Byte.slash ∉ s) :
    front (dir ++ Byte.slash :: s) = dir ++ [Byte.slash] := by
  have hs : ∀ b ∈ s.reverse, (b != Byte.slash) = true := by
    intro b hb
    rw [bne_iff_ne]
    rintro rfl
    exact h (List.mem_reverse.mp hb)
  unfold front
  rw [List.reverse_append, List.reverse_cons, List.append_assoc, List.singleton_append,
    List.dropWhile_append_of_pos hs, List.dropWhile_cons_of_neg (by simp), List.reverse_cons,
    List.reverse_reverse]

theorem front_of_not_mem {s : Bytes} (h : Byte.slash ∉ s) : front s = [] := by
  unfold front
  rw [List.dropWhile_eq_nil_iff.mpr, List.reverse_nil]
  intro b hb
  rw [bne_iff_ne]
  rintro rfl
  exact h (List.mem_reverse.mp hb)

theorem components_append_slash {p : Bytes} (hp : p ≠ []) :
    components (p ++ [Byte.slash]) = components p := by
  unfold components
  rw [isAbsolute_append hp, Bytes.splitOn_append_sep, List.foldl_append]
  rfl

theorem clean_append_slash {p : Bytes} (hp : p ≠ []) : clean (p ++ [Byte.slash]) = clean p :=
  clean_eq_of_components (components_append_slash hp) (isAbsolute_append hp _)

/-- **The directory of a file.** -/
theorem parent_stem {a s : Bytes} (ha : IsName a) (hs : Byte.slash ∉ s) (dir : Bytes) :
    parent (stem dir ++ a ++ Byte.slash :: s) = stem dir ++ a := by
  have hne : stem dir ++ a ≠ [] := by simp [ha.ne_nil]
  rw [parent_eq, front_append _ hs, clean_append_slash hne, clean_stem_append ha]

/-! ### Lengths -/

/-- The bytes that components take up, each with a slash. -/
def weight : List Bytes → Nat
  | [] => 0
  | c :: cs => c.length + 1 + weight cs

@[simp] theorem weight_nil : weight [] = 0 := rfl

@[simp] theorem weight_cons (c : Bytes) (cs : List Bytes) :
    weight (c :: cs) = c.length + 1 + weight cs := rfl

theorem weight_append (ds : List Bytes) : ∀ cs : List Bytes,
    weight (cs ++ ds) = weight cs + weight ds
  | [] => by simp
  | c :: cs => by
    have ih := weight_append ds cs
    rw [List.cons_append, weight_cons, weight_cons, ih]
    omega

theorem weight_reverse : ∀ cs : List Bytes, weight cs.reverse = weight cs
  | [] => rfl
  | c :: cs => by
    have ih := weight_reverse cs
    rw [List.reverse_cons, weight_append, ih, weight_cons, weight_cons, weight_nil]
    omega

theorem weight_eq_length : ∀ cs : List Bytes,
    weight cs = (cs.flatMap (· ++ [Byte.slash])).length
  | [] => rfl
  | c :: cs => by
    rw [weight_cons, weight_eq_length cs, List.flatMap_cons, List.length_append, List.length_append,
      List.length_singleton]

theorem weight_splitOn (s : Bytes) : weight (Bytes.splitOn Byte.slash s) = s.length + 1 := by
  rw [weight_eq_length, Bytes.flatMap_splitOn, List.length_append, List.length_singleton]

theorem length_joinWith : ∀ {cs : List Bytes}, cs ≠ [] →
    (Bytes.joinWith [Byte.slash] cs).length + 1 = weight cs
  | [], h => absurd rfl h
  | [c], _ => by simp [Bytes.joinWith]
  | c :: next :: cs, _ => by
    have ih := length_joinWith (List.cons_ne_nil next cs)
    have hcons : Bytes.joinWith [Byte.slash] (c :: next :: cs) =
        c ++ Byte.slash :: Bytes.joinWith [Byte.slash] (next :: cs) := by simp [Bytes.joinWith]
    rw [hcons, weight_cons, List.length_append, List.length_cons]
    omega

theorem weight_step (cleaned : List Bytes) (c : Bytes) :
    weight (step absolute cleaned c) ≤ weight cleaned + (c.length + 1) := by
  unfold step
  split
  · omega
  · split
    · next habove =>
      subst habove
      cases cleaned with
      | nil =>
        dsimp only
        split
        · simp
        · simp
      | cons last before =>
        dsimp only
        split
        · simp only [weight_cons]
          omega
        · simp only [weight_cons]
          omega
    · simp only [weight_cons]
      omega

theorem weight_foldl : ∀ (cs cleaned : List Bytes),
    weight (cs.foldl (step absolute) cleaned) ≤ weight cleaned + weight cs
  | [], cleaned => by simp
  | c :: cs, cleaned => by
    have hstep := @weight_step absolute cleaned c
    have hrest := weight_foldl cs (step absolute cleaned c)
    rw [List.foldl_cons, weight_cons]
    omega

/-- **A cleaned path is not longer**, unless the path is empty. -/
theorem length_clean_le (p : Bytes) : (clean p).length ≤ max 1 p.length := by
  have hweight : weight (components p) ≤ weight (Bytes.splitOn Byte.slash p) := by
    unfold components
    rw [weight_reverse]
    simpa using @weight_foldl (isAbsolute p) (Bytes.splitOn Byte.slash p) []
  unfold clean
  dsimp only
  by_cases hnil : components p = []
  · rw [hnil]
    cases isAbsolute p
    · exact le_max_left _ _
    · exact le_max_left _ _
  · have hjoin := length_joinWith hnil
    cases habs : isAbsolute p
    · rw [weight_splitOn] at hweight
      simp only [Bool.false_eq_true, ↓reduceIte]
      split
      · exact le_max_left _ _
      · omega
    · -- the piece before the first slash is empty and passed over
      obtain ⟨b, rest, rfl⟩ : ∃ b rest, p = b :: rest := by
        cases p with
        | nil => simp [isAbsolute] at habs
        | cons b rest => exact ⟨b, rest, rfl⟩
      have hb : b = Byte.slash := by simpa [isAbsolute] using habs
      subst hb
      have hrest : weight (components (Byte.slash :: rest)) ≤ rest.length + 1 := by
        unfold components
        rw [weight_reverse, ← weight_splitOn]
        simpa [Bytes.splitOn, step] using
          @weight_foldl (isAbsolute (Byte.slash :: rest)) (Bytes.splitOn Byte.slash rest) []
      simp only [↓reduceIte, List.length_cons]
      omega

end Path

end Allman
