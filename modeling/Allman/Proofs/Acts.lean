import Allman.Proofs.Files
import Allman.World

/-! # What actions ensure

`World.run` is computed step by step (`run_bind` and its like). On top of it, `Act.Ensures P act Q`
says that an action which starts with files that satisfy `P` leaves its outcome and the files in
`Q`, whatever calls fail. A call on files by itself changes none, so that every rule below holds
for every choice of failing calls. -/

namespace Allman

variable {ε δ α β : Type}

/-! ### Running actions -/

namespace World

variable (w : World)

theorem run_bind (act : Act ε α) (f : α → Act ε β) : w.run (act >>= f) =
    match w.run act with
    | (.ok a, w') => w'.run (f a)
    | (.error e, w') => (.error e, w') := by
  change (ExceptT.bindCont f ((ExceptT.run act).run w).1).run ((ExceptT.run act).run w).2 = _
  unfold run
  rcases (ExceptT.run act).run w with ⟨_ | _, w'⟩
  · rfl
  · rfl

theorem run_bind_ok {act : Act ε α} {a : α} {w' : World} (h : w.run act = (.ok a, w'))
    (f : α → Act ε β) : w.run (act >>= f) = w'.run (f a) := by rw [run_bind, h]

theorem run_attempt (act : Act ε α) :
    w.run (Act.attempt act : Act δ _) = (.ok (w.run act).1, (w.run act).2) := rfl

theorem run_mapError (f : ε → δ) (act : Act ε α) :
    w.run (act.mapError f) = ((w.run act).1.mapError f, (w.run act).2) := by
  rcases hrun : w.run act with ⟨_ | _, w'⟩
  · have hact : (ExceptT.run act).run w = (.error _, w') := hrun
    simp only [run, Act.mapError, ExceptT.run_mk, StateT.run_bind, hact]
    rfl
  · have hact : (ExceptT.run act).run w = (.ok _, w') := hrun
    simp only [run, Act.mapError, ExceptT.run_mk, StateT.run_bind, hact]
    rfl

theorem run_call (side : Side) (kind : FileCall) (path : Bytes) :
    w.run (Act.call side kind path) =
      ((match w.trouble side w.calls.length kind path with
        | some e => .error e
        | none => .ok ()), { w with calls := (kind, path) :: w.calls }) := by
  change (match w.trouble side w.calls.length kind path with
    | some e => (throw e : Act FileError Unit)
    | none => pure ()).run.run { w with calls := (kind, path) :: w.calls } = _
  split
  · rfl
  · rfl

theorem run_node (path : Bytes) : w.run (Act.node path) =
    ((match w.files.get? path with
      | some node => .ok node
      | none => .error (FileError.notFound (FileSystem.key path))), w) := by
  change (match w.files.get? path with
    | some node => (pure node : Act FileError Node)
    | none => throw (FileError.notFound (FileSystem.key path))).run.run w = _
  split
  · rfl
  · rfl

theorem run_removeTree (side : Side) (path : Bytes) : w.run (Act.removeTree side path) =
    match w.trouble side w.calls.length .removeTree path with
    | some e => (.error e, { w with calls := (.removeTree, path) :: w.calls })
    | none => (.ok (), { w with
        calls := (.removeTree, path) :: w.calls
        files := w.files.takeTree w.removal path }) := by
  unfold Act.removeTree
  rw [run_bind, run_call]
  rcases w.trouble side w.calls.length .removeTree path with _ | e
  · rfl
  · rfl

end World

/-! ### Conditions on files -/

namespace Act

/-- **What an action ensures**: from files that satisfy `P` it comes to an outcome and files in
`Q`. -/
def Ensures (P : FileSystem → Prop) (act : Act ε α) (Q : Except ε α → FileSystem → Prop) : Prop :=
  ∀ w : World, P w.files → Q (w.run act).1 (w.run act).2.files

variable {P : FileSystem → Prop} {act : Act ε α} {Q R : Except ε α → FileSystem → Prop}

theorem Ensures.mono (h : Ensures P act R) (hQ : ∀ r fs, R r fs → Q r fs) : Ensures P act Q :=
  fun w hw => hQ _ _ (h w hw)

theorem Ensures.of_le {P' : FileSystem → Prop} (h : Ensures P act Q) (hP : ∀ fs, P' fs → P fs) :
    Ensures P' act Q := fun w hw => h w (hP _ hw)

theorem ensures_pure {a : α} (h : ∀ fs, P fs → Q (.ok a) fs) :
    Ensures P (pure a : Act ε α) Q := fun w hw => h w.files hw

theorem ensures_throw {e : ε} (h : ∀ fs, P fs → Q (.error e) fs) :
    Ensures P (throw e : Act ε α) Q := fun w hw => h w.files hw

/-- An action after another one: the first may also fail. -/
theorem Ensures.bind {f : α → Act ε β} {Q : Except ε β → FileSystem → Prop} (h : Ensures P act R)
    (herror : ∀ e fs, R (.error e) fs → Q (.error e) fs)
    (hok : ∀ a, Ensures (R (.ok a)) (f a) Q) : Ensures P (act >>= f) Q := by
  intro w hw
  have hfirst := h w hw
  rw [World.run_bind]
  rcases hrun : w.run act with ⟨e | a, w'⟩
  · rw [hrun] at hfirst
    exact herror e w'.files hfirst
  · rw [hrun] at hfirst
    exact hok a w' hfirst

/-- An action after the outcome of another one. -/
theorem Ensures.attempt_bind {f : Except ε α → Act δ β} {Q : Except δ β → FileSystem → Prop}
    (h : Ensures P act R) (hnext : ∀ outcome, Ensures (R outcome) (f outcome) Q) :
    Ensures P (Act.attempt act >>= f) Q := by
  intro w hw
  rw [World.run_bind_ok w (World.run_attempt w act)]
  exact hnext _ _ (h w hw)

theorem Ensures.ignore {Q : FileSystem → Prop} (h : Ensures P act fun _ fs => Q fs) :
    Ensures P (Act.ignore act : Act δ _) fun _ fs => Q fs := fun w hw => h w hw

theorem Ensures.mapError {f : ε → δ} {Q : Except δ α → FileSystem → Prop} (h : Ensures P act R)
    (herror : ∀ e fs, R (.error e) fs → Q (.error (f e)) fs)
    (hok : ∀ a fs, R (.ok a) fs → Q (.ok a) fs) : Ensures P (act.mapError f) Q := by
  intro w hw
  have hact := h w hw
  rw [World.run_mapError]
  rcases hrun : w.run act with ⟨e | a, w'⟩
  · rw [hrun] at hact
    exact herror e _ hact
  · rw [hrun] at hact
    exact hok a _ hact

/-- A fact that the files imply may be used. -/
theorem Ensures.of_fact {φ : Prop} (hφ : ∀ fs, P fs → φ) (h : φ → Ensures P act Q) :
    Ensures P act Q := fun w hw => h (hφ _ hw) w hw

/-! ### Calls on files -/

theorem ensures_call (side : Side) (kind : FileCall) (path : Bytes) :
    Ensures P (call side kind path) fun _ fs => P fs := by
  intro w hw
  rw [World.run_call]
  exact hw

theorem ensures_modifyFiles {f : FileSystem → FileSystem} {Q : FileSystem → Prop}
    (h : ∀ fs, P fs → Q (f fs)) : Ensures P (modifyFiles f) fun _ fs => Q fs :=
  fun w hw => h w.files hw

/-- A change of files does not fail. -/
theorem ensures_modify {f : FileSystem → FileSystem} {Q : Except FileError Unit → FileSystem → Prop}
    (h : ∀ fs, P fs → Q (.ok ()) (f fs)) : Ensures P (modifyFiles f) Q :=
  fun w hw => h w.files hw

theorem ensures_get : Ensures P (get : Act ε World) fun _ fs => P fs := fun _ hw => hw

/-- A call that changes files in one way if it is made. -/
theorem ensures_call_modifyFiles {side : Side} {kind : FileCall} {path : Bytes}
    {f : FileSystem → FileSystem} (h : ∀ fs, P fs → P (f fs)) :
    Ensures P (do call side kind path; modifyFiles f) fun _ fs => P fs :=
  (ensures_call side kind path).bind (fun _ _ hP => hP) fun _ => ensures_modifyFiles h

/-- However trees are removed, what each way to remove one keeps is kept. -/
theorem ensures_removeTree {side : Side} {path : Bytes}
    (h : ∀ fs removal, P fs → P (fs.takeTree removal path)) :
    Ensures P (removeTree side path) fun _ fs => P fs := by
  refine (ensures_call side .removeTree path).bind (fun _ _ hP => hP) fun _ => ?_
  exact ensures_get.bind (fun _ _ hP => hP) fun w => ensures_modifyFiles fun fs => h fs w.removal

theorem ensures_node (path : Bytes) : Ensures P (node path) fun r fs =>
    match r with
    | .ok n => P fs ∧ fs.data? path = some n.data
    | .error _ => P fs := by
  intro w hw
  rw [World.run_node]
  rcases hget : w.files.get? path with _ | n
  · exact hw
  · exact ⟨hw, by rw [FileSystem.data?, hget]; rfl⟩

/-- **A file that is opened gives the bytes at its path.** -/
theorem ensures_openFile (side : Side) (path : Bytes) : Ensures P (openFile side path) fun r fs =>
    match r with
    | .ok data => P fs ∧ fs.data? path = some data
    | .error _ => P fs := by
  refine (ensures_call side .openRead path).bind (fun _ _ h => h) fun _ => ?_
  exact (ensures_node path).bind (fun _ _ h => h) fun n => ensures_pure fun _ h => h

theorem ensures_readFile (side : Side) (path : Bytes) : Ensures P (readFile side path) fun r fs =>
    match r with
    | .ok data => P fs ∧ fs.data? path = some data
    | .error _ => P fs := by
  refine (ensures_openFile side path).bind (fun _ _ h => h) fun data => ?_
  refine (ensures_call side .read path).bind (fun _ _ h => h.1) fun _ => ?_
  exact ensures_pure fun _ h => h

end Act

end Allman
