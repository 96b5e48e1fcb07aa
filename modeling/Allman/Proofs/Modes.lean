import Allman.Proofs.Stages

/-! # The three ways to deliver a result agree

A run prints its result, writes it in place or only checks whether it differs from the source. A
command line that is read without the flags that choose the way can be read with one of them in
front (`CommandLine.exists_adds`). The flags are looked at when the result is there and not before
(`settled_congr`), so that all three ways have the same one, the reformatted source
(`Plain.run_until_delivery`). What is printed in the first way is then what the second leaves in the
file, and what the third compares (`modes_agree`). Any path will do, but for the words that are left
out of the program (`Program.dispatch`). -/

namespace Allman

namespace CommandLine

/-- The second command line is the first with one more flag, which is true. -/
structure Adds (c : CommandLine) (f : Flag) (c' : CommandLine) : Prop where
  arguments : c'.arguments = c.arguments
  isSet : c'.isSet f = true
  others : ∀ g, g ≠ f → c'.given.lookup g = c.given.lookup g

variable {c c' : CommandLine} {f g : Flag}

theorem Adds.has (h : c.Adds f c') (hg : g ≠ f) : c'.has g = c.has g := by
  unfold CommandLine.has
  rw [h.others g hg]

theorem Adds.text? (h : c.Adds f c') (hg : g ≠ f) : c'.text? g = c.text? g := by
  unfold CommandLine.text?
  rw [h.others g hg]

theorem Adds.truth? (h : c.Adds f c') (hg : g ≠ f) : c'.truth? g = c.truth? g := by
  unfold CommandLine.truth?
  rw [h.others g hg]

theorem Adds.number? (h : c.Adds f c') (hg : g ≠ f) : c'.number? g = c.number? g := by
  unfold CommandLine.number?
  rw [h.others g hg]

theorem Adds.isSet_eq (h : c.Adds f c') (hg : g ≠ f) : c'.isSet g = c.isSet g := by
  unfold CommandLine.isSet
  rw [h.truth? hg]

theorem isSet_of_has (h : c.has f = false) : c.isSet f = false := by
  unfold CommandLine.has at h
  unfold CommandLine.isSet CommandLine.truth?
  rw [Option.isSome_eq_false_iff, Option.isNone_iff_eq_none] at h
  rw [h]
  rfl

/-! ### A flag put first -/

/-- The command line with flags that were given before its own. -/
def after (before : List (Flag × FlagValue)) (c : CommandLine) : CommandLine :=
  { c with given := c.given ++ before }

section After

variable {before : List (Flag × FlagValue)}

theorem bind_after {r r' : Except FlagError CommandLine}
    {next : CommandLine → Except FlagError CommandLine} (hr : r' = r.map (after before))
    (hnext : ∀ c : CommandLine, next (c.after before) = (next c).map (after before)) :
    (r' >>= next) = (r >>= next).map (after before) := by
  rw [hr]
  rcases r with e | c
  · rfl
  · exact hnext c

theorem give_after (c : CommandLine) (f : Flag) (value : Bytes) :
    (c.after before).give f value = (c.give f value).map (after before) := by
  unfold give
  rcases FlagValue.ofText f.kind value with fault | v
  · rfl
  · rfl

theorem readLetters_after (c : CommandLine) (letters : Bytes) :
    (c.after before).readLetters letters = (c.readLetters letters).map (after before) := by
  fun_induction readLetters c letters with
  | case1 c => rfl
  | case2 c letter rest htest =>
    rw [readLetters.eq_def]
    simp only [htest, ↓reduceIte]
    rfl
  | case3 c letter rest htest hunknown =>
    rw [readLetters.eq_def]
    simp only [htest, hunknown, Bool.false_eq_true, ↓reduceIte]
    rfl
  | case4 c letter f first value htest hknown =>
    rw [readLetters.eq_def]
    simp only [htest, hknown, Bool.false_eq_true, ↓reduceIte]
    exact give_after c _ _
  | case5 c letter rest htest f hknown hvalue ih =>
    rw [readLetters.eq_def]
    simp only [htest, hknown, Bool.false_eq_true, ↓reduceIte]
    exact bind_after (give_after c _ _) ih

/-- **What was given before stays behind all that is read.** -/
theorem read_after (c : CommandLine) (arguments : List Bytes) :
    (c.after before).read arguments = (c.read arguments).map (after before) := by
  fun_induction read c arguments with
  | case1 c => rfl
  | case2 c argument others hplain ih =>
    simp only [read, hplain]
    exact ih
  | case3 c argument others hending =>
    simp only [read, hending]
    rfl
  | case4 c argument others letters hletters ih =>
    simp only [read, hletters]
    exact bind_after (readLetters_after c letters) ih
  | case5 c argument others hnameless =>
    simp only [read, hnameless]
    rfl
  | case6 c argument others name value hnamed hunknown =>
    simp only [read, hnamed, hunknown]
    rfl
  | case7 c argument others name f value hknown hnamed ih =>
    simp only [read, hnamed, hknown]
    exact bind_after (give_after c f value) ih
  | case8 c argument others name f hknown hkind hnamed ih =>
    simp only [read, hnamed, hknown, hkind, ↓reduceIte]
    exact bind_after (give_after c f plainTruth) ih
  | case9 c argument name f hknown hkind hnamed =>
    simp only [read, hnamed, hknown, hkind, ↓reduceIte]
    rfl
  | case10 c argument name f hknown hkind value rest hnamed ih =>
    simp only [read, hnamed, hknown, hkind, ↓reduceIte]
    exact bind_after (give_after c f value) ih

end After

theorem classify_name (f : Flag) :
    classify (Bytes.ofString "--" ++ Bytes.ofString f.name) =
      .named (Bytes.ofString f.name) none := by
  cases f
  all_goals decide +kernel

theorem ofName?_name (f : Flag) : Flag.ofName? (Bytes.ofString f.name) = some f := by
  cases f
  all_goals decide +kernel

/-- **A flag that is true or false can be put first**, before arguments that do not have it. -/
theorem exists_adds (hkind : f.kind = .truth) (hf : c.has f = false) {arguments : List Bytes}
    (hread : ofArguments arguments = .ok c) : ∃ c',
      ofArguments ((Bytes.ofString "--" ++ Bytes.ofString f.name) :: arguments) = .ok c' ∧
        c.Adds f c' := by
  have hgive : empty.give f plainTruth = .ok (empty.after [(f, .truth true)]) := by
    unfold give
    rw [hkind]
    rfl
  have hnone : c.given.lookup f = none := by
    unfold has at hf
    rwa [Option.isSome_eq_false_iff, Option.isNone_iff_eq_none] at hf
  refine ⟨c.after [(f, .truth true)], ?_, rfl, ?_, fun g hg => ?_⟩
  · unfold ofArguments at hread ⊢
    simp only [read, classify_name, ofName?_name, hkind, ↓reduceIte, hgive]
    exact (read_after empty arguments).trans (by rw [hread]; rfl)
  · simp [isSet, truth?, after, List.lookup_append, hnone]
  · have hne : (g == f) = false := by simpa using hg
    simp [after, List.lookup_append, List.lookup_cons, hne]

end CommandLine

namespace Program

/-! ### Flags that choose the way -/

/-- The flag says how the result is delivered. -/
def IsMode (f : Flag) : Prop := f = .write ∨ f = .check

section Adds

variable {c c' : CommandLine} {f : Flag}

theorem IsMode.ne (hf : IsMode f) {g : Flag} (hg : g ≠ .write ∧ g ≠ .check) : g ≠ f := by
  rcases hf with rfl | rfl
  · exact hg.1
  · exact hg.2

/-- **The settings do not depend on how the result is delivered.** -/
theorem settled_congr (hf : IsMode f) (h : c.Adds f c') (path : Bytes) :
    settled c' path = settled c path := by
  have hmerge : ∀ s, mergeFlags s c' = mergeFlags s c := by
    intro s
    unfold mergeFlags
    rw [h.text? (hf.ne (by decide)), h.text? (hf.ne (by decide)), h.text? (hf.ne (by decide)),
      h.number? (hf.ne (by decide)), h.truth? (hf.ne (by decide)), h.truth? (hf.ne (by decide)),
      h.has (hf.ne (by decide)), h.isSet_eq (hf.ne (by decide))]
  have hchosen : chosen c' path = chosen c path := by
    unfold chosen
    rw [h.text? (hf.ne (by decide))]
  unfold settled
  rw [hchosen]
  simp only [hmerge]

theorem profilePaths_congr (hf : IsMode f) (h : c.Adds f c') :
    profilePaths c' = profilePaths c := by
  unfold profilePaths
  rw [h.text? (hf.ne (by decide)), h.text? (hf.ne (by decide)), h.text? (hf.ne (by decide))]

end Adds

/-! ### The result -/

/-- No call on sources, settings and profiles fails. -/
def Calm (t : Trouble) : Prop := ∀ n call p, t .tree n call p = none

section Calm

variable {t : Trouble} {fs : FileSystem} {node : Node} {path : Bytes}

theorem returns_readFile (hcalm : Calm t) (hnode : fs.get? path = some node) :
    Act.Returns t fs (Act.readFile .tree path) node.data fs := by
  have hopen : Act.Returns t fs (Act.openFile .tree path) node.data fs :=
    (Act.returns_call fun n => hcalm n .openRead path).bind
      ((Act.returns_node hnode).bind Act.returns_pure)
  exact hopen.bind ((Act.returns_call fun n => hcalm n .read path).bind Act.returns_pure)

/-- **Without a cache, the result is made of the source as it is now.** -/
theorem returns_perform {q : RunRequest} {patience : Patience} (hcalm : Calm t)
    (hnode : fs.get? q.path = some node) (hcache : q.cache = none)
    (hpatience : patience.endsBy 1 = false) :
    Act.Returns t fs (Run.perform q patience) (Run.resultOf q ⟨q.path, node.data, false⟩
      (CacheRecord.ofContent node.data) false none) fs := by
  have hbefore : patience.endsBy 0 = false := by
    rcases patience with _ | n
    · rfl
    · simp only [Patience.endsBy, decide_eq_false_iff_not] at hpatience ⊢
      omega
  have hload : Act.Returns t fs (Run.load q.path) ⟨q.path, node.data, false⟩ fs :=
    ((returns_readFile hcalm hnode).mapError _).bind Act.returns_pure
  have hlookup : Act.Returns t fs (Run.lookup q.cache node.data) (none, none) fs := by
    rw [hcache]
    exact Act.returns_pure
  have hkeep : ∀ source record, Act.Returns t fs (Run.keep q.cache source record) none fs := by
    intro source record
    rw [hcache]
    exact Act.returns_pure
  unfold Run.perform
  rw [hbefore, hpatience]
  exact hload.bind (hlookup.bind ((hkeep _ _).bind Act.returns_pure))

/-- **A source is written in place**, where no call fails. -/
theorem returns_writeInPlace (hcalm : Calm t) (hnode : fs.get? path = some node) (output : Bytes) :
    Act.Returns t fs (writeInPlace path output) () (fs.write path output node.mode) := by
  have hstat : Act.Returns t fs (Act.stat .tree path) node fs :=
    (Act.returns_call fun n => hcalm n .stat path).bind (Act.returns_node hnode)
  have hwrite : Act.Returns t fs (Act.writeFile .tree path output node.mode) ()
      (fs.write path output node.mode) := by
    refine (Act.returns_call fun n => hcalm n .openWrite path).bind ?_
    refine (Act.returns_modifyFiles _).bind ?_
    refine (Act.returns_call fun n => hcalm n .write path).bind ?_
    refine (Act.returns_modifyFiles _).bind ?_
    exact Act.returns_call fun n => hcalm n .close path
  exact hstat.attempt.bind hwrite

theorem getKey?_write (hnode : fs.get? path = some node) (output : Bytes) (mode : Nat) (k : Bytes) :
    (fs.write path output mode).getKey? k =
      if k = FileSystem.key path then some { node with data := output } else fs.getKey? k := by
  unfold FileSystem.write FileSystem.setData FileSystem.truncate
  rw [hnode, FileSystem.getKey?_updateKey, FileSystem.getKey?_setKey]
  split
  · rfl
  · rfl

end Calm

/-- **The result is the reformatted source**, if there is no cache and no call fails. Nothing was
printed as a result yet, and no file has changed. -/
theorem run_prepare {inv : Invocation} (c : CommandLine) {path : Bytes} {s : Settings}
    (hcache : s.cacheEnabled = false) (hpatience : inv.patience.endsBy 1 = false)
    {console : Console} (herr : console.err.room = none) {w : World} (hcalm : Calm w.trouble)
    {node : Node} (hnode : w.files.get? path = some node) :
    ∃ r console' w', (prepare inv c path s).run console w = (.ok r, console', w') ∧
      console'.out = console.out ∧ w'.files = w.files ∧ Calm w'.trouble ∧
      r.output = (reformat node.data).output ∧
      r.changed = ((reformat node.data).output != node.data) := by
  have hcacheFor : cacheFor inv.environment s (c.isSet .clearCache) = pure (none, none) := by
    unfold cacheFor
    rw [hcache]
    rfl
  obtain ⟨htrouble, hresult, hfiles⟩ := @returns_perform w.trouble w.files node
    (requestFor inv c path s none) inv.patience hcalm hnode rfl hpatience w rfl rfl
  rcases hperform : w.run (Run.perform (requestFor inv c path s none) inv.patience) with
    ⟨outcome, w'⟩
  rw [hperform] at htrouble hresult hfiles
  dsimp only at htrouble hresult hfiles
  obtain ⟨r, hr⟩ : ∃ r, r = Run.resultOf (requestFor inv c path s none)
    ⟨path, node.data, false⟩ (CacheRecord.ofContent node.data) false none := ⟨_, rfl⟩
  obtain ⟨told, err, htold, hroom⟩ := tells_announce inv c s r console w'
  refine ⟨r, { console with err := err }, w', ?_, rfl, hfiles, by rwa [htrouble], by rw [hr]; rfl,
    by rw [hr]; rfl⟩
  have houtcome : outcome = .ok r := by
    rw [hr]
    exact hresult
  rw [prepare, hcacheFor, pure_bind, Shell.run_bind, Shell.run_lift, hperform, houtcome]
  dsimp only [Except.mapError, warned]
  rw [Shell.run_bind, htold, (hroom herr).1]
  rfl

/-- **A plain run**: a file is laid out without a cache and without profiles, and nothing fails or
is called off. -/
structure Plain (inv : Invocation) (c : CommandLine) (path : Bytes) (console : Console) (w : World)
    (node : Node) : Prop where
  selects : Selects inv c path
  profiles : profilePaths c = ⟨[], [], []⟩
  patience : inv.patience.endsBy 1 = false
  out : console.out.room = none
  err : console.err.room = none
  calm : Calm w.trouble
  settings : ∃ s, (w.run (settled c path)).1 = .ok s ∧ s.cacheEnabled = false
  node : w.files.get? path = some node

/-- **How a run ends**: with a status, a text that it printed as its result, and the nodes it leaves
under every path. -/
structure Ends (inv : Invocation) (console : Console) (w : World) (status : Nat) (printed : Bytes)
    (nodes : Bytes → Option Node) : Prop where
  status : (execute inv console w).1 = status
  printed : (execute inv console w).2.1.out.written = console.out.written ++ printed
  nodes : ∀ k, (execute inv console w).2.2.files.getKey? k = nodes k

section Plain

variable {inv : Invocation} {c : CommandLine} {path : Bytes} {console : Console} {w : World}
  {node : Node}

/-- **All plain runs come to the same result**, whatever is done with it. -/
theorem Plain.run_until_delivery (h : Plain inv c path console w node) :
    ∃ r console₁ w₁ err, console₁.out = console.out ∧ w₁.files = w.files ∧ Calm w₁.trouble ∧
      r.output = (reformat node.data).output ∧
      r.changed = ((reformat node.data).output != node.data) ∧
      (dispatch inv).run console w = (((deliver c path r).run console₁ w₁).1,
        { ((deliver c path r).run console₁ w₁).2.1 with err := err },
        ((deliver c path r).run console₁ w₁).2.2) := by
  obtain ⟨s, hsettled, hcache⟩ := h.settings
  have hstart : w.run (ProfileSession.start (profilePaths c)) = (.ok ⟨none, none, none⟩, w) := by
    rw [h.profiles]
    rfl
  obtain ⟨err, hprofiled⟩ := @run_layOutProfiled_ok inv c path console w w _ hstart
  obtain ⟨htrouble, hfiles⟩ := @keeps_settled w.trouble (· = w.files) c path w rfl rfl
  rcases hrun : w.run (settled c path) with ⟨outcome, w₁⟩
  rw [hrun] at hsettled htrouble hfiles
  dsimp only at hsettled htrouble hfiles
  obtain ⟨r, console₂, w₂, hprepared, hout, hfiles₂, hcalm₂, houtput, hchanged⟩ :=
    @run_prepare inv c path s hcache h.patience console h.err w₁ (by rw [htrouble]; exact h.calm)
      node (by rw [hfiles]; exact h.node)
  have hlayOut : (layOut inv c path).run console w = (deliver c path r).run console₂ w₂ := by
    rw [layOut_eq, Shell.run_bind, run_settingsFor, hrun, hsettled]
    dsimp only
    rw [Shell.run_bind, hprepared]
  refine ⟨r, console₂, w₂, err, hout, hfiles₂.trans hfiles, hcalm₂, houtput, hchanged, ?_⟩
  rw [dispatch_of_selects h.selects, hprofiled, hlayOut]
  rfl

/-! ### Three ways -/

theorem Plain.ends_print (h : Plain inv c path console w node) (hcheck : c.isSet .check = false)
    (hwrite : c.isSet .write = false) :
    Ends inv console w 0 (reformat node.data).output w.files.getKey? := by
  obtain ⟨r, console₁, w₁, err, hsame, hfiles, -, houtput, -, hrun⟩ := h.run_until_delivery
  have hroom : console₁.out.room = none := by
    rw [hsame]
    exact h.out
  rw [deliver_print path r hcheck hwrite, Shell.run_print_room hroom, houtput] at hrun
  refine ⟨?_, ?_, fun k => ?_⟩
  · rw [status_execute, hrun]
  · rw [out_execute, hrun, ← hsame]
  · rw [world_execute, hrun]
    exact congrArg (FileSystem.getKey? · k) hfiles

theorem Plain.ends_check (h : Plain inv c path console w node) (hcheck : c.isSet .check = true) :
    Ends inv console w (if (reformat node.data).output = node.data then 0 else 1) []
      w.files.getKey? := by
  obtain ⟨r, console₁, w₁, err, hsame, hfiles, -, -, hchanged, hrun⟩ := h.run_until_delivery
  obtain ⟨err', hdeliver⟩ := run_deliver_check path r hcheck console₁ w₁
  rw [hdeliver, hchanged] at hrun
  refine ⟨?_, ?_, fun k => ?_⟩
  · rw [status_execute, hrun]
    by_cases heq : (reformat node.data).output = node.data
    · simp [heq]
    · simp [heq]
  · rw [out_execute, hrun, List.append_nil]
    exact congrArg Sink.written hsame
  · rw [world_execute, hrun]
    exact congrArg (FileSystem.getKey? · k) hfiles

theorem Plain.ends_write (h : Plain inv c path console w node) (hcheck : c.isSet .check = false)
    (hwrite : c.isSet .write = true) :
    Ends inv console w 0 [] fun k => if k = FileSystem.key path then
      some { node with data := (reformat node.data).output } else w.files.getKey? k := by
  obtain ⟨r, console₁, w₁, err, hsame, hfiles, hcalm, houtput, hchanged, hrun⟩ :=
    h.run_until_delivery
  have hnode : w₁.files.get? path = some node := by
    rw [hfiles]
    exact h.node
  rw [deliver_write path r hcheck hwrite, hchanged, houtput] at hrun
  rw [← hfiles]
  by_cases heq : (reformat node.data).output = node.data
  · -- the file is not written, and has the bytes it would get
    simp only [heq, bne_self_eq_false, Bool.false_eq_true, ↓reduceIte, Shell.run_pure] at hrun
    refine ⟨?_, ?_, fun k => ?_⟩
    · rw [status_execute, hrun]
    · rw [out_execute, hrun, List.append_nil]
      exact congrArg Sink.written hsame
    · rw [world_execute, hrun]
      split
      · next hk =>
        rw [hk, heq]
        exact hnode
      · rfl
  · have hne : ((reformat node.data).output != node.data) = true := by simpa using heq
    obtain ⟨-, hok, hwritten⟩ :=
      returns_writeInPlace hcalm hnode (reformat node.data).output w₁ rfl rfl
    rw [if_pos hne, Shell.run_lift, hok] at hrun
    refine ⟨?_, ?_, fun k => ?_⟩
    · rw [status_execute, hrun]
      rfl
    · rw [out_execute, hrun, List.append_nil]
      exact congrArg Sink.written hsame
    · rw [world_execute, hrun]
      dsimp only
      rw [hwritten, getKey?_write hnode]

/-- A plain run stays one with a flag that only says how the result is delivered. -/
theorem Plain.adds (h : Plain inv c path console w node) {c' : CommandLine} {f : Flag}
    (hf : IsMode f) (hadds : c.Adds f c') {arguments : List Bytes}
    (hread : CommandLine.ofArguments arguments = .ok c')
    (hmodes : (c'.has .write && c'.has .check) = false) :
    Plain { inv with arguments := arguments } c' path console w node where
  selects := {
    read := hread
    help := (hadds.isSet_eq (hf.ne (by decide))).trans h.selects.help
    version := (hadds.isSet_eq (hf.ne (by decide))).trans h.selects.version
    arguments := hadds.arguments.trans h.selects.arguments
    modes := hmodes }
  profiles := (profilePaths_congr hf hadds).trans h.profiles
  patience := h.patience
  out := h.out
  err := h.err
  calm := h.calm
  settings := by
    rw [settled_congr hf hadds]
    exact h.settings
  node := h.node

/-- **The three ways to deliver a result agree.** A plain run prints the reformatted source and
changes no file. With the flag to write, wherever it stands (it can stand first,
`CommandLine.exists_adds`), the file has these bytes instead of its own, and keeps all else; no
other file changes, and nothing is printed. With the flag to check nothing is printed and no file
changes, and the status is zero exactly if the file has these bytes already. -/
theorem modes_agree (h : Plain inv c path console w node) (hwrite : c.has .write = false)
    (hcheck : c.has .check = false) {writes checks : List Bytes} {cw cc : CommandLine}
    (hreadw : CommandLine.ofArguments writes = .ok cw) (haddsw : c.Adds .write cw)
    (hreadc : CommandLine.ofArguments checks = .ok cc) (haddsc : c.Adds .check cc) :
    Ends inv console w 0 (reformat node.data).output w.files.getKey? ∧
    Ends { inv with arguments := writes } console w 0 [] (fun k =>
      if k = FileSystem.key path then some { node with data := (reformat node.data).output }
      else w.files.getKey? k) ∧
    Ends { inv with arguments := checks } console w
      (if (reformat node.data).output = node.data then 0 else 1) [] w.files.getKey? := by
  have hcheckw : cw.has .check = false := (haddsw.has (by decide)).trans hcheck
  have hwritec : cc.has .write = false := (haddsc.has (by decide)).trans hwrite
  have hplainw := h.adds (Or.inl rfl) haddsw hreadw (by rw [hcheckw, Bool.and_false])
  have hplainc := h.adds (Or.inr rfl) haddsc hreadc (by rw [hwritec, Bool.false_and])
  refine ⟨?_, ?_, ?_⟩
  · exact h.ends_print (CommandLine.isSet_of_has hcheck) (CommandLine.isSet_of_has hwrite)
  · exact hplainw.ends_write (CommandLine.isSet_of_has hcheckw) haddsw.isSet
  · exact hplainc.ends_check haddsc.isSet

end Plain

theorem adds_check :
    (CommandLine.mk [] ["/a.cxx"]).Adds .check ⟨[(.check, .truth true)], ["/a.cxx"]⟩ := by
  refine ⟨rfl, rfl, fun g hg => ?_⟩
  have hne : (g == Flag.check) = false := by simpa using hg
  simp [List.lookup_cons, hne]

theorem plain_sourceWorld : Plain (calledWith ["/a.cxx"]) ⟨[], ["/a.cxx"]⟩ "/a.cxx" freshConsole
    (sourceWorld "/a.cxx") ⟨1, hangingText, 0o640, none⟩ where
  selects := ⟨by decide +kernel, rfl, rfl, rfl, rfl⟩
  profiles := rfl
  patience := rfl
  out := rfl
  err := rfl
  calm := fun _ _ _ => rfl
  settings := ⟨.default, by decide +kernel, rfl⟩
  node := by decide +kernel

/-- A source in which braces hang is printed with the braces moved, written in this form, and
refused by a check. -/
theorem modes_agree_hanging :
    Ends (calledWith ["/a.cxx"]) freshConsole (sourceWorld "/a.cxx") 0
      "if (x)\n\x7b\n\x7d\n" (sourceWorld "/a.cxx").files.getKey? ∧
    Ends (calledWith ["--write", "/a.cxx"]) freshConsole (sourceWorld "/a.cxx") 0 [] (fun k =>
      if k = FileSystem.key "/a.cxx" then some ⟨1, "if (x)\n\x7b\n\x7d\n", 0o640, none⟩
      else (sourceWorld "/a.cxx").files.getKey? k) ∧
    Ends (calledWith ["/a.cxx", "--check"]) freshConsole (sourceWorld "/a.cxx") 1 []
      (sourceWorld "/a.cxx").files.getKey? := by
  have hmoved : (reformat hangingText).output = "if (x)\n\x7b\n\x7d\n" := by decide +kernel
  have hdiffers : ¬ (reformat hangingText).output = hangingText := by decide +kernel
  -- one flag stands first, the other last
  have hfirst : Bytes.ofString "--" ++ Bytes.ofString (Flag.name .write) = "--write" := by
    decide +kernel
  obtain ⟨cw, hreadw, haddsw⟩ := @CommandLine.exists_adds _ .write rfl rfl _
    plain_sourceWorld.selects.read
  rw [hfirst] at hreadw
  have hmodes := @modes_agree _ _ _ _ _ _ plain_sourceWorld rfl rfl ["--write", "/a.cxx"]
    ["/a.cxx", "--check"] cw ⟨[(.check, .truth true)], ["/a.cxx"]⟩ hreadw haddsw
    (by decide +kernel) adds_check
  dsimp only at hmodes
  rw [if_neg hdiffers, hmoved] at hmodes
  exact hmodes

end Program

end Allman
