import Allman.CommandLine.Program
import Allman.Proofs.Acts

/-! # What the program ensures

`Act.Under t P act Q` is `Act.Ensures` for the worlds in which calls fail as `t` says. No action
changes that, so a call that fails can be traced back to `t` (`under_call`), and a call that `t`
lets through succeeds (`returns_call`). Three cases have rules of their own:

* `Keeps`: a condition on the files holds before and after, whether or not the action fails;
* `Gives`: moreover the result, if there is one, has a property;
* `Returns`: from given files there is a result, and the files afterwards are known.

`Shell.Under`, `Shell.Keeps` and `Shell.Gives` say the same of the actions of the program. What
these do to the console is kept apart: `Silent` and `FailsSilently` are about results, and `Tells`
about messages. -/

namespace Allman

variable {ε δ α β : Type}

/-! ### Actions in a world -/

namespace Act

/-- **What an action ensures where calls fail as `t` says**, which the action does not change. -/
def Under (t : Trouble) (P : FileSystem → Prop) (act : Act ε α)
    (Q : Except ε α → FileSystem → Prop) : Prop :=
  ∀ w : World, w.trouble = t → P w.files →
    (w.run act).2.trouble = t ∧ Q (w.run act).1 (w.run act).2.files

/-- The action keeps a condition on the files, also when it fails. -/
def Keeps (t : Trouble) (P : FileSystem → Prop) (act : Act ε α) : Prop :=
  Under t P act fun _ fs => P fs

variable {t : Trouble} {P : FileSystem → Prop} {act : Act ε α} {Q R : Except ε α → FileSystem → Prop}

theorem Under.mono (h : Under t P act R) (hQ : ∀ r fs, R r fs → Q r fs) : Under t P act Q := by
  intro w hw hP
  obtain ⟨htrouble, hR⟩ := h w hw hP
  exact ⟨htrouble, hQ _ _ hR⟩

theorem under_pure {a : α} (h : ∀ fs, P fs → Q (.ok a) fs) : Under t P (pure a : Act ε α) Q :=
  fun w hw hP => ⟨hw, h w.files hP⟩

theorem under_throw {e : ε} (h : ∀ fs, P fs → Q (.error e) fs) :
    Under t P (throw e : Act ε α) Q := fun w hw hP => ⟨hw, h w.files hP⟩

theorem Under.bind {f : α → Act ε β} {Q : Except ε β → FileSystem → Prop} (h : Under t P act R)
    (herror : ∀ e fs, R (.error e) fs → Q (.error e) fs)
    (hok : ∀ a, Under t (R (.ok a)) (f a) Q) : Under t P (act >>= f) Q := by
  intro w hw hP
  have hfirst := h w hw hP
  rw [World.run_bind]
  rcases hrun : w.run act with ⟨e | a, w'⟩
  · rw [hrun] at hfirst
    exact ⟨hfirst.1, herror e w'.files hfirst.2⟩
  · rw [hrun] at hfirst
    exact hok a w' hfirst.1 hfirst.2

theorem Under.mapError {f : ε → δ} {Q : Except δ α → FileSystem → Prop} (h : Under t P act R)
    (herror : ∀ e fs, R (.error e) fs → Q (.error (f e)) fs)
    (hok : ∀ a fs, R (.ok a) fs → Q (.ok a) fs) : Under t P (act.mapError f) Q := by
  intro w hw hP
  have hact := h w hw hP
  rw [World.run_mapError]
  rcases hrun : w.run act with ⟨e | a, w'⟩
  · rw [hrun] at hact
    exact ⟨hact.1, herror e _ hact.2⟩
  · rw [hrun] at hact
    exact ⟨hact.1, hok a _ hact.2⟩

/-- **A call fails only if `t` says so.** -/
theorem under_call (side : Side) (kind : FileCall) (path : Bytes) :
    Under t P (call side kind path) fun r fs =>
      P fs ∧ ∀ e, r = .error e → ∃ n, t side n kind path = some e := by
  intro w hw hP
  rw [World.run_call]
  refine ⟨hw, hP, fun e he => ⟨w.calls.length, ?_⟩⟩
  rw [← hw]
  rcases hfault : w.trouble side w.calls.length kind path with _ | fault
  · simp [hfault] at he
  · simpa [hfault] using he

theorem under_modifyFiles {f : FileSystem → FileSystem}
    {Q : Except FileError Unit → FileSystem → Prop} (h : ∀ fs, P fs → Q (.ok ()) (f fs)) :
    Under t P (modifyFiles f) Q := fun w hw hP => ⟨hw, h w.files hP⟩

/-- A change of files does not fail, so that the next action is reached. -/
theorem under_modifyFiles_bind {f : FileSystem → FileSystem} {S : FileSystem → Prop}
    {next : Unit → Act FileError β} {Q : Except FileError β → FileSystem → Prop}
    (h : ∀ fs, P fs → S (f fs)) (hnext : Under t S (next ()) Q) :
    Under t P (modifyFiles f >>= next) Q :=
  fun w hw hP => hnext { w with files := f w.files } hw (h w.files hP)

theorem under_node (path : Bytes) : Under t P (node path) fun r fs =>
    P fs ∧ match r with
      | .ok n => fs.get? path = some n
      | .error _ => fs.get? path = none := by
  intro w hw hP
  rw [World.run_node]
  refine ⟨hw, hP, ?_⟩
  rcases w.files.get? path with _ | n
  · rfl
  · rfl

/-! ### One condition -/

theorem keeps_pure (a : α) : Keeps t P (pure a : Act ε α) := under_pure fun _ h => h

theorem keeps_throw (e : ε) : Keeps t P (throw e : Act ε α) := under_throw fun _ h => h

theorem Keeps.bind {f : α → Act ε β} (h : Keeps t P act) (hf : ∀ a, Keeps t P (f a)) :
    Keeps t P (act >>= f) := Under.bind h (fun _ _ hP => hP) hf

/-- An action that is called off on a condition. -/
theorem Keeps.unless (h : Keeps t P act) (b : Bool) (e : ε) :
    Keeps t P (do
      if b then throw e
      act) := by
  cases b
  · exact h
  · exact (keeps_throw e).bind fun _ => h

theorem Keeps.attempt (h : Keeps t P act) : Keeps t P (Act.attempt act : Act δ _) :=
  fun w hw hP => h w hw hP

theorem Keeps.ignore (h : Keeps t P act) : Keeps t P (Act.ignore act : Act δ _) :=
  fun w hw hP => h w hw hP

theorem Keeps.mapError (h : Keeps t P act) (f : ε → δ) : Keeps t P (act.mapError f) :=
  Under.mapError h (fun _ _ hP => hP) fun _ _ hP => hP

theorem keeps_get : Keeps t P (get : Act ε World) := fun _ hw hP => ⟨hw, hP⟩

theorem keeps_call (side : Side) (kind : FileCall) (path : Bytes) :
    Keeps t P (call side kind path) := (under_call side kind path).mono fun _ _ h => h.1

theorem keeps_modifyFiles {f : FileSystem → FileSystem} (h : ∀ fs, P fs → P (f fs)) :
    Keeps t P (modifyFiles f) := under_modifyFiles h

theorem keeps_node (path : Bytes) : Keeps t P (node path) :=
  (under_node path).mono fun _ _ h => h.1

theorem keeps_call_modifyFiles {side : Side} {kind : FileCall} {path : Bytes}
    {f : FileSystem → FileSystem} (h : ∀ fs, P fs → P (f fs)) :
    Keeps t P (do call side kind path; modifyFiles f) :=
  (keeps_call side kind path).bind fun _ => keeps_modifyFiles h

theorem keeps_removeTree {side : Side} {path : Bytes}
    (h : ∀ fs removal, P fs → P (fs.takeTree removal path)) : Keeps t P (removeTree side path) :=
  (keeps_call side .removeTree path).bind fun _ =>
    keeps_get.bind fun w => keeps_modifyFiles fun fs => h fs w.removal

theorem keeps_openFile (side : Side) (path : Bytes) : Keeps t P (openFile side path) :=
  (keeps_call side .openRead path).bind fun _ => (keeps_node path).bind fun _ => keeps_pure _

theorem keeps_readFile (side : Side) (path : Bytes) : Keeps t P (readFile side path) :=
  (keeps_openFile side path).bind fun _ => (keeps_call side .read path).bind fun _ => keeps_pure _

theorem keeps_stat (side : Side) (path : Bytes) : Keeps t P (stat side path) :=
  (keeps_call side .stat path).bind fun _ => keeps_node path

/-! ### Results -/

/-- The action keeps a condition on the files, and its result has a property. -/
def Gives (t : Trouble) (P : FileSystem → Prop) (act : Act ε α) (φ : α → Prop) : Prop :=
  Under t P act fun r fs => P fs ∧ ∀ a, r = .ok a → φ a

variable {φ : α → Prop} {ψ : β → Prop}

theorem gives_pure {a : α} (h : φ a) : Gives t P (pure a : Act ε α) φ :=
  under_pure fun _ hP => ⟨hP, fun b hb => by rwa [← Except.ok.inj hb]⟩

theorem gives_throw (e : ε) : Gives t P (throw e : Act ε α) φ :=
  under_throw fun _ hP => ⟨hP, fun b hb => by simp at hb⟩

theorem Gives.bind {f : α → Act ε β} (h : Gives t P act φ) (hf : ∀ a, φ a → Gives t P (f a) ψ) :
    Gives t P (act >>= f) ψ := by
  refine Under.bind h (fun e fs hP => ⟨hP.1, fun b hb => by simp at hb⟩) fun a w hw hP => ?_
  exact hf a (hP.2 a rfl) w hw hP.1

theorem Keeps.gives (h : Keeps t P act) : Gives t P act fun _ => True :=
  Under.mono h fun _ _ hP => ⟨hP, fun _ _ => trivial⟩

theorem Gives.keeps (h : Gives t P act φ) : Keeps t P act := Under.mono h fun _ _ hP => hP.1

theorem Gives.mapError (h : Gives t P act φ) (f : ε → δ) : Gives t P (act.mapError f) φ :=
  Under.mapError h (fun _ _ hP => ⟨hP.1, fun b hb => by simp at hb⟩)
    fun a _ hP => ⟨hP.1, fun b hb => by rw [← Except.ok.inj hb]; exact hP.2 a rfl⟩

theorem Gives.attempt (h : Gives t P act φ) :
    Gives t P (Act.attempt act : Act δ _) fun outcome => ∀ a, outcome = .ok a → φ a := by
  intro w hw hP
  obtain ⟨htrouble, hkept, hφ⟩ := h w hw hP
  exact ⟨htrouble, hkept, fun outcome ho => by rw [← Except.ok.inj ho]; exact hφ⟩

theorem Gives.keeps_bind {f : α → Act ε β} (h : Gives t P act φ)
    (hf : ∀ a, φ a → Keeps t P (f a)) : Keeps t P (act >>= f) :=
  (h.bind fun a ha => (hf a ha).gives).keeps

/-- **The action gives a result** and changes files in one way. -/
def Returns (t : Trouble) (fs : FileSystem) (act : Act ε α) (a : α) (fs' : FileSystem) : Prop :=
  Under t (· = fs) act fun r after => r = .ok a ∧ after = fs'

section Returns

variable {fs fs' : FileSystem} {a : α}

theorem returns_pure : Returns t fs (pure a : Act ε α) a fs := under_pure fun _ h => ⟨rfl, h⟩

theorem Returns.bind {f : α → Act ε β} {Q : Except ε β → FileSystem → Prop}
    (h : Returns t fs act a fs') (hf : Under t (· = fs') (f a) Q) :
    Under t (· = fs) (act >>= f) Q := by
  intro w hw hfs
  obtain ⟨htrouble, hresult, hafter⟩ := h w hw hfs
  rw [World.run_bind_ok w (Prod.ext hresult rfl)]
  exact hf _ htrouble hafter

theorem Returns.mapError (h : Returns t fs act a fs') (f : ε → δ) :
    Returns t fs (act.mapError f) a fs' :=
  Under.mapError h (fun _ _ hr => by simp at hr)
    fun b _ hr => ⟨by rw [Except.ok.inj hr.1], hr.2⟩

theorem Returns.attempt (h : Returns t fs act a fs') :
    Returns t fs (Act.attempt act : Act δ _) (.ok a) fs' := by
  intro w hw hfs
  obtain ⟨htrouble, hresult, hafter⟩ := h w hw hfs
  exact ⟨htrouble, congrArg Except.ok hresult, hafter⟩

/-- A call that never fails. -/
theorem returns_call {side : Side} {kind : FileCall} {path : Bytes}
    (hcalm : ∀ n, t side n kind path = none) : Returns t fs (call side kind path) () fs := by
  refine (under_call side kind path).mono fun r after h => ⟨?_, h.1⟩
  rcases r with e | _
  · obtain ⟨n, hn⟩ := h.2 e rfl
    rw [hcalm n] at hn
    simp at hn
  · rfl

theorem returns_node {path : Bytes} {found : Node} (h : fs.get? path = some found) :
    Returns t fs (node path) found fs := by
  rintro w hw rfl
  rw [World.run_node, h]
  exact ⟨hw, rfl, rfl⟩

theorem returns_modifyFiles (f : FileSystem → FileSystem) :
    Returns t fs (modifyFiles f) () (f fs) := by
  rintro w hw rfl
  exact ⟨hw, rfl, rfl⟩

end Returns

/-- The action does not fail. -/
def Total (act : Act ε α) : Prop := ∀ w : World, ∃ a, (w.run act).1 = .ok a

theorem total_pure (a : α) : Total (pure a : Act ε α) := fun _ => ⟨a, rfl⟩

theorem total_attempt (act : Act ε α) : Total (Act.attempt act : Act δ _) := fun _ => ⟨_, rfl⟩

theorem Total.bind {f : α → Act ε β} (h : Total act) (hf : ∀ a, Total (f a)) :
    Total (act >>= f) := by
  intro w
  obtain ⟨a, ha⟩ := h w
  rw [World.run_bind_ok w (Prod.ext ha rfl)]
  exact hf a _

end Act

/-! ### Actions of the program -/

namespace Program.Shell

/-- Runs an action of the program. -/
def run (sh : Shell α) (console : Console) (w : World) : Except Failure α × Console × World :=
  let ((outcome, console), w) := ((ExceptT.run sh).run console).run w
  (outcome, console, w)

section Run

variable (console : Console) (w : World)

theorem run_bind (sh : Shell α) (f : α → Shell β) : run (sh >>= f) console w =
    match run sh console w with
    | (.ok a, console', w') => run (f a) console' w'
    | (.error e, console', w') => (.error e, console', w') := by
  unfold run
  rcases hrun : ((ExceptT.run sh).run console).run w with ⟨⟨_ | a, console'⟩, w'⟩
  · simp only [ExceptT.run_bind, StateT.run_bind, hrun]
    rfl
  · simp only [ExceptT.run_bind, StateT.run_bind, hrun]
    rfl

theorem run_pure (a : α) : run (pure a : Shell α) console w = (.ok a, console, w) := rfl

theorem run_lift (explain : ε → Failure) (act : Act ε α) :
    run (lift explain act) console w =
      ((w.run act).1.mapError explain, console, (w.run act).2) := by
  unfold run lift
  rcases hrun : w.run act with ⟨e | a, w'⟩
  · have hact : (ExceptT.run act).run w = (.error e, w') := hrun
    simp only [ExceptT.run_mk, StateT.run_bind, StateT.run_lift, hact]
    rfl
  · have hact : (ExceptT.run act).run w = (.ok a, w') := hrun
    simp only [ExceptT.run_mk, StateT.run_bind, StateT.run_lift, hact]
    rfl

theorem run_print (text : Bytes) : run (print text) console w =
    ((if (console.out.write text).1 then .ok () else .error .output),
      { console with out := (console.out.write text).2 }, w) := by
  change run (if (console.out.write text).1 then pure () else throw .output)
    { console with out := (console.out.write text).2 } w = _
  split
  · rfl
  · rfl

theorem run_complain (texts : List Bytes) : run (complain texts) console w =
    ((if (console.err.writeAll texts).1 then .ok () else .error .output),
      { console with err := (console.err.writeAll texts).2 }, w) := by
  change run (if (console.err.writeAll texts).1 then pure () else throw .output)
    { console with err := (console.err.writeAll texts).2 } w = _
  split
  · rfl
  · rfl

theorem run_tryComplain (text : Bytes) : run (tryComplain text) console w =
    (.ok (), { console with err := console.err.tryWrite text }, w) := rfl

end Run

/-- **What an action of the program ensures for the files** where calls fail as `t` says, whatever
the console is. -/
def Under (t : Trouble) (P : FileSystem → Prop) (sh : Shell α)
    (Q : Except Failure α → FileSystem → Prop) : Prop :=
  ∀ (console : Console) (w : World), w.trouble = t → P w.files →
    (run sh console w).2.2.trouble = t ∧ Q (run sh console w).1 (run sh console w).2.2.files

/-- The action keeps a condition on the files, also when it fails. -/
def Keeps (t : Trouble) (P : FileSystem → Prop) (sh : Shell α) : Prop :=
  Under t P sh fun _ fs => P fs

/-- The action keeps a condition on the files, and its result has a property. -/
def Gives (t : Trouble) (P : FileSystem → Prop) (sh : Shell α) (φ : α → Prop) : Prop :=
  Under t P sh fun r fs => P fs ∧ ∀ a, r = .ok a → φ a

variable {t : Trouble} {P : FileSystem → Prop} {sh : Shell α} {act : Act ε α}
  {Q R : Except Failure α → FileSystem → Prop} {φ : α → Prop} {ψ : β → Prop}

theorem under_pure {a : α} (h : ∀ fs, P fs → Q (.ok a) fs) : Under t P (pure a : Shell α) Q :=
  fun _ w hw hP => ⟨hw, h w.files hP⟩

theorem Under.bind {f : α → Shell β} {Q : Except Failure β → FileSystem → Prop}
    (h : Under t P sh R) (herror : ∀ e fs, R (.error e) fs → Q (.error e) fs)
    (hok : ∀ a, Under t (R (.ok a)) (f a) Q) : Under t P (sh >>= f) Q := by
  intro console w hw hP
  have hfirst := h console w hw hP
  rw [run_bind]
  rcases hrun : run sh console w with ⟨e | a, console', w'⟩
  · rw [hrun] at hfirst
    exact ⟨hfirst.1, herror e w'.files hfirst.2⟩
  · rw [hrun] at hfirst
    exact hok a console' w' hfirst.1 hfirst.2

theorem under_lift {explain : ε → Failure} {S : Except ε α → FileSystem → Prop}
    (h : Act.Under t P act S) (herror : ∀ e fs, S (.error e) fs → Q (.error (explain e)) fs)
    (hok : ∀ a fs, S (.ok a) fs → Q (.ok a) fs) : Under t P (lift explain act) Q := by
  intro console w hw hP
  have hact := h w hw hP
  rw [run_lift]
  rcases hrun : w.run act with ⟨e | a, w'⟩
  · rw [hrun] at hact
    exact ⟨hact.1, herror e _ hact.2⟩
  · rw [hrun] at hact
    exact ⟨hact.1, hok a _ hact.2⟩

theorem keeps_pure (a : α) : Keeps t P (pure a : Shell α) := fun _ _ hw hP => ⟨hw, hP⟩

theorem Keeps.bind {f : α → Shell β} (h : Keeps t P sh) (hf : ∀ a, Keeps t P (f a)) :
    Keeps t P (sh >>= f) := Under.bind h (fun _ _ hP => hP) hf

theorem keeps_lift (explain : ε → Failure) (h : Act.Keeps t P act) :
    Keeps t P (lift explain act) := under_lift h (fun _ _ hP => hP) fun _ _ hP => hP

theorem gives_pure {a : α} (h : φ a) : Gives t P (pure a : Shell α) φ :=
  under_pure fun _ hP => ⟨hP, fun b hb => by rwa [← Except.ok.inj hb]⟩

theorem Gives.bind {f : α → Shell β} (h : Gives t P sh φ) (hf : ∀ a, φ a → Gives t P (f a) ψ) :
    Gives t P (sh >>= f) ψ := by
  refine Under.bind h (fun e _ hP => ⟨hP.1, fun b hb => by simp at hb⟩) fun a => ?_
  intro console w hw hP
  exact hf a (hP.2 a rfl) console w hw hP.1

theorem Gives.keeps_bind {f : α → Shell β} (h : Gives t P sh φ)
    (hf : ∀ a, φ a → Keeps t P (f a)) : Keeps t P (sh >>= f) := by
  refine Under.bind h (fun e _ hP => hP.1) fun a => ?_
  intro console w hw hP
  exact hf a (hP.2 a rfl) console w hw hP.1

theorem gives_attempt (h : Act.Gives t P act φ) :
    Gives t P (attempt act) fun outcome => ∀ a, outcome = .ok a → φ a := by
  intro console w hw hP
  obtain ⟨htrouble, hkept, hφ⟩ := h w hw hP
  exact ⟨htrouble, hkept, fun outcome ho => by rw [← Except.ok.inj ho]; exact hφ⟩

/-! ### Results that are printed -/

/-- The action prints no result. -/
def Silent (sh : Shell α) : Prop := ∀ console w, (run sh console w).2.1.out = console.out

/-- The action prints no result if it fails, where every result can be printed. -/
def FailsSilently (sh : Shell α) : Prop :=
  ∀ console w, console.out.room = none → ∀ e, (run sh console w).1 = .error e →
    (run sh console w).2.1.out = console.out

theorem silent_pure (a : α) : Silent (pure a : Shell α) := fun _ _ => rfl

theorem silent_lift (explain : ε → Failure) (act : Act ε α) : Silent (lift explain act) := by
  intro console w
  rw [run_lift]

theorem silent_attempt (act : Act ε α) : Silent (attempt act) := fun _ _ => rfl

theorem Silent.bind {f : α → Shell β} (h : Silent sh) (hf : ∀ a, Silent (f a)) :
    Silent (sh >>= f) := by
  intro console w
  have hfirst := h console w
  rw [run_bind]
  rcases hrun : run sh console w with ⟨e | a, console', w'⟩
  · rw [hrun] at hfirst
    exact hfirst
  · rw [hrun] at hfirst
    exact (hf a console' w').trans hfirst

theorem Silent.failsSilently (h : Silent sh) : FailsSilently sh := fun console w _ _ _ => h console w

theorem Silent.failsSilently_bind {f : α → Shell β} (h : Silent sh)
    (hf : ∀ a, FailsSilently (f a)) : FailsSilently (sh >>= f) := by
  intro console w hroom
  have hfirst := h console w
  rw [run_bind]
  rcases hrun : run sh console w with ⟨e | a, console', w'⟩
  · rw [hrun] at hfirst
    exact fun _ _ => hfirst
  · rw [hrun] at hfirst
    dsimp only at hfirst ⊢
    rw [← hfirst] at hroom ⊢
    exact hf a console' w' hroom

/-! ### Messages -/

theorem write_of_room {s : Sink} (h : s.room = none) (text : Bytes) :
    s.write text = (true, { s with written := s.written ++ text }) := by
  unfold Sink.write
  rw [h]

theorem writeAll_of_room : ∀ (texts : List Bytes) {s : Sink}, s.room = none →
    (s.writeAll texts).1 = true ∧ (s.writeAll texts).2.room = none
  | [], _, h => ⟨rfl, h⟩
  | text :: texts, s, h => by
    rw [Sink.writeAll, write_of_room h]
    exact writeAll_of_room texts h

/-- The action only prints messages, and fails only if there is no room for them. -/
def Tells (sh : Shell Unit) : Prop :=
  ∀ console w, ∃ outcome err, run sh console w = (outcome, { console with err := err }, w) ∧
    (console.err.room = none → outcome = .ok () ∧ err.room = none)

theorem tells_pure : Tells (pure ()) := fun console _ => ⟨_, console.err, rfl, fun h => ⟨rfl, h⟩⟩

theorem tells_complain (texts : List Bytes) : Tells (complain texts) := by
  intro console w
  refine ⟨_, _, run_complain console w texts, fun h => ?_⟩
  obtain ⟨hgood, hroom⟩ := writeAll_of_room texts h
  exact ⟨by rw [if_pos hgood], hroom⟩

theorem tells_tryComplain (text : Bytes) : Tells (tryComplain text) := by
  intro console w
  refine ⟨_, _, run_tryComplain console w text, fun h => ⟨rfl, ?_⟩⟩
  rw [Sink.tryWrite, write_of_room h]
  exact h

theorem Tells.bind {sh next : Shell Unit} (h : Tells sh) (hnext : Tells next) :
    Tells (sh >>= fun _ => next) := by
  intro console w
  obtain ⟨outcome, err, hrun, hroom⟩ := h console w
  rw [run_bind, hrun]
  rcases outcome with e | _
  · refine ⟨_, err, rfl, fun herr => ?_⟩
    have herror := (hroom herr).1
    simp at herror
  · obtain ⟨outcome', err', hrun', hroom'⟩ := hnext { console with err := err } w
    exact ⟨outcome', err', hrun', fun herr => hroom' (hroom herr).2⟩

theorem Tells.keeps {sh : Shell Unit} (h : Tells sh) : Keeps t P sh := by
  intro console w hw hP
  obtain ⟨outcome, err, hrun, -⟩ := h console w
  rw [hrun]
  exact ⟨hw, hP⟩

theorem Tells.silent {sh : Shell Unit} (h : Tells sh) : Silent sh := by
  intro console w
  obtain ⟨outcome, err, hrun, -⟩ := h console w
  rw [hrun]

/-- A result is printed where there is room for it. -/
theorem run_print_room {console : Console} (h : console.out.room = none) (w : World)
    (text : Bytes) : run (print text) console w =
      (.ok (), { console with
        out := { console.out with written := console.out.written ++ text } }, w) := by
  rw [run_print, write_of_room h]
  rfl

theorem failsSilently_print (text : Bytes) : FailsSilently (print text) := by
  intro console w hroom e he
  rw [run_print_room hroom] at he
  simp at he

end Program.Shell

end Allman
