import Allman.Proofs.Findings
import Mathlib.Data.List.Pairwise

/-! # Every bracket is accounted for

Each closing bracket takes the first of those that wait, or nothing (`takings`). No opening bracket
is lost or taken twice: those that are taken and those that wait at the end are, up to order, all
that there are (`perm_takings`). A closing bracket and what it took are a pair if their kinds agree
(`pairs_iff_mem_takings`), and otherwise the closing bracket is blamed and the finding names what
was taken; what waits at the end is reported as unclosed (`mem_findings`). So every bracket has
exactly one fate, whether the text is balanced or not (`CloserFate`, `OpenerFate`,
`accounts_run`). -/

namespace Allman

namespace Pairing

/-! ### What closing brackets take -/

/-- Each closing bracket with what it takes, where `wait` waits before the first mark. -/
def takings : List Mark → List Mark → List (Mark × Option Mark)
  | _, [] => []
  | wait, m :: ms =>
    if Bracket.isOpener m.byte then takings (step wait m) ms
    else (m, wait.head?) :: takings (step wait m) ms

theorem takings_append : ∀ (a b wait : List Mark),
    takings wait (a ++ b) = takings wait a ++ takings (a.foldl step wait) b
  | [], _, _ => rfl
  | m :: a, b, wait => by
    have ih := takings_append a b (step wait m)
    rw [List.cons_append, takings, takings, List.foldl_cons, ih]
    split_ifs
    · rfl
    · rfl

theorem map_fst_takings : ∀ ms wait : List Mark,
    (takings wait ms).map Prod.fst = ms.filter (!Bracket.isOpener ·.byte)
  | [], _ => rfl
  | m :: ms, wait => by
    have ih := map_fst_takings ms (step wait m)
    rw [takings, List.filter_cons]
    split_ifs with h1 h2 h2
    · simp [h1] at h2
    · exact ih
    · rw [List.map_cons, ih]
    · simp [h1] at h2

/-- **No opening bracket is lost**: those that are taken and those that wait at the end are those
that waited at the start and those that came. -/
theorem perm_takings : ∀ ms wait : List Mark,
    ((takings wait ms).filterMap Prod.snd ++ ms.foldl step wait).Perm
      (wait ++ ms.filter (Bracket.isOpener ·.byte))
  | [], wait => by simp [takings]
  | m :: ms, wait => by
    have ih := perm_takings ms (step wait m)
    rw [takings, List.foldl_cons, List.filter_cons]
    split_ifs with hopen
    · have hstep : step wait m = m :: wait := if_pos hopen
      rw [hstep] at ih ⊢
      exact ih.trans List.perm_middle.symm
    · have hstep : step wait m = wait.tail := if_neg hopen
      rw [hstep] at ih ⊢
      rcases wait with _ | ⟨o, wait⟩
      · exact ih
      · exact ih.cons o

/-- **A closing bracket pairs with what it takes** if the kinds agree. -/
theorem pairs_iff_mem_takings {ms : List Mark} {o c : Mark} :
    Pairs ms o c ↔ (c, some o) ∈ takings [] ms ∧ Bracket.openerOf? c.byte = some o.byte := by
  induction ms using List.reverseRecOn with
  | nil =>
    have hnone : ¬ Pairs [] o c := fun h => absurd h.mem_closer (by simp)
    simp [hnone, takings]
  | append_singleton ms m ih =>
    have hlast : takings [] (ms ++ [m]) = takings [] ms ++ takings (waiting ms) [m] :=
      takings_append ms [m] []
    rw [pairs_concat, ih, hlast, List.mem_append]
    by_cases hopen : Bracket.isOpener m.byte = true
    · have hnone := Bracket.openerOf?_eq_none_of_isOpener hopen
      simp [takings, hopen, hnone]
    · have hnew : (c, some o) ∈ takings (waiting ms) [m] ↔
          c = m ∧ (waiting ms).head? = some o := by
        simp [takings, hopen, eq_comm]
      rw [hnew]
      constructor
      · rintro (⟨hmem, hkind⟩ | ⟨rfl, hhead, hkind⟩)
        · exact ⟨Or.inl hmem, hkind⟩
        · exact ⟨Or.inr ⟨rfl, hhead⟩, hkind⟩
      · rintro ⟨hmem | ⟨rfl, hhead⟩, hkind⟩
        · exact Or.inl ⟨hmem, hkind⟩
        · exact Or.inr ⟨rfl, hhead, hkind⟩

theorem reverse_waiting_sublist (ms : List Mark) : (waiting ms).reverse.Sublist ms := by
  simpa using (waiting_sublist ms).reverse

theorem mem_of_mem_takings {ms wait : List Mark} {x : Mark × Option Mark}
    (hx : x ∈ takings wait ms) : x.1 ∈ ms ∧ Bracket.isOpener x.1.byte = false := by
  have hmem : x.1 ∈ (takings wait ms).map Prod.fst := List.mem_map_of_mem hx
  rw [map_fst_takings, List.mem_filter] at hmem
  simpa using hmem

theorem exists_mem_takings {ms : List Mark} {c : Mark} (hc : c ∈ ms)
    (hclose : Bracket.isOpener c.byte = false) : ∃ t, (c, t) ∈ takings [] ms := by
  have hmem : c ∈ (takings [] ms).map Prod.fst := by
    rw [map_fst_takings, List.mem_filter]
    exact ⟨hc, by simp [hclose]⟩
  obtain ⟨x, hx, rfl⟩ := List.mem_map.mp hmem
  exact ⟨x.2, hx⟩

theorem mem_of_taken {ms wait : List Mark} {c o : Mark} (h : (c, some o) ∈ takings wait ms) :
    o ∈ wait ∨ o ∈ ms := by
  have htaken : o ∈ (takings wait ms).filterMap Prod.snd := List.mem_filterMap.mpr ⟨_, h, rfl⟩
  have hmem := (perm_takings ms wait).mem_iff.mp (List.mem_append_left _ htaken)
  rw [List.mem_append, List.mem_filter] at hmem
  exact hmem.imp_right And.left

theorem exists_taker {ms : List Mark} {o : Mark} (ho : o ∈ ms)
    (hopen : Bracket.isOpener o.byte = true) (hwait : o ∉ waiting ms) :
    ∃ c, (c, some o) ∈ takings [] ms := by
  have hmem : o ∈ (takings [] ms).filterMap Prod.snd ++ waiting ms := by
    rw [waiting, (perm_takings ms []).mem_iff, List.nil_append, List.mem_filter]
    exact ⟨ho, hopen⟩
  obtain ⟨x, hx, hxo⟩ := List.mem_filterMap.mp ((List.mem_append.mp hmem).resolve_right hwait)
  exact ⟨x.1, hxo ▸ hx⟩

/-! ### Marks in reading order -/

section Sorted

variable {ms : List Mark} (hsorted : ms.Pairwise Before)
include hsorted

theorem nodup_positions : (ms.map Mark.position).Nodup := by
  rw [List.Nodup, List.pairwise_map]
  refine hsorted.imp fun {m m'} h heq => ?_
  have hrow : m.row = m'.row := congrArg Position.row heq
  have hcol : m.col = m'.col := congrArg Position.col heq
  rcases h with h | h
  · omega
  · omega

theorem eq_of_position {m m' : Mark} (hm : m ∈ ms) (hm' : m' ∈ ms)
    (heq : m.position = m'.position) : m = m' :=
  List.inj_on_of_nodup_map (nodup_positions hsorted) hm hm' heq

/-- A closing bracket takes only once. -/
theorem taking_eq_of_fst {x y : Mark × Option Mark} (hx : x ∈ takings [] ms)
    (hy : y ∈ takings [] ms) (heq : x.1 = y.1) : x = y := by
  have hnodup : ((takings [] ms).map Prod.fst).Nodup := by
    rw [map_fst_takings]
    exact (nodup_of_sorted hsorted).filter _
  exact List.inj_on_of_nodup_map hnodup hx hy heq

theorem nodup_taken_append_waiting :
    ((takings [] ms).filterMap Prod.snd ++ waiting ms).Nodup :=
  (perm_takings ms []).nodup_iff.mpr ((nodup_of_sorted hsorted).filter _)

/-- An opening bracket is taken only once. -/
theorem taking_eq_of_snd {x y : Mark × Option Mark} {o : Mark} (hx : x ∈ takings [] ms)
    (hy : y ∈ takings [] ms) (hxo : x.2 = some o) (hyo : y.2 = some o) : x = y := by
  have hpairwise := (List.nodup_append.mp (nodup_taken_append_waiting hsorted)).1
  rw [List.Nodup, List.pairwise_filterMap] at hpairwise
  have hsymm : Std.Symm fun a a' : Mark × Option Mark =>
      ∀ b, a.2 = some b → ∀ b', a'.2 = some b' → b ≠ b' :=
    ⟨fun a a' h b hb b' hb' => (h b' hb' b hb).symm⟩
  by_contra hne
  exact hpairwise.forall hx hy hne o hxo o hyo rfl

/-- What is taken does not wait at the end. -/
theorem not_mem_waiting_of_mem_takings {c o : Mark} (h : (c, some o) ∈ takings [] ms) :
    o ∉ waiting ms := by
  have hdisjoint := (List.nodup_append.mp (nodup_taken_append_waiting hsorted)).2.2
  have htaken : o ∈ (takings [] ms).filterMap Prod.snd := List.mem_filterMap.mpr ⟨_, h, rfl⟩
  exact fun hwait => hdisjoint o htaken o hwait rfl

end Sorted

/-! ### Pairs never cross -/

theorem Before.asymm {m m' : Mark} (h : Before m m') : ¬ Before m' m := by
  unfold Before at h ⊢
  omega

/-- What waits first came last. -/
theorem eq_or_before_of_mem_waiting {ms : List Mark} (hsorted : ms.Pairwise Before) {o m : Mark}
    (hhead : (waiting ms).head? = some o) (hm : m ∈ waiting ms) : m = o ∨ Before m o := by
  have hwait : (waiting ms).Pairwise fun x y => Before y x :=
    (List.pairwise_reverse.mpr hsorted).sublist (waiting_sublist ms)
  rcases hw : waiting ms with _ | ⟨first, rest⟩
  · simp [hw] at hm
  · rw [hw] at hhead hm hwait
    obtain rfl : first = o := by simpa using hhead
    rcases List.mem_cons.mp hm with rfl | hm
    · exact Or.inl rfl
    · exact Or.inr ((List.pairwise_cons.mp hwait).1 m hm)

/-- **Pairs never cross**: a pair that starts inside another ends inside it. -/
theorem Pairs.nested {ms : List Mark} (hsorted : ms.Pairwise Before) {o c o' c' : Mark}
    (h : Pairs ms o c) (h' : Pairs ms o' c') (hstart : Before o o') (hinside : Before o' c) :
    Before c' c := by
  have htook := (pairs_iff_mem_takings.mp h').1
  obtain ⟨before, after, rfl, hhead, -⟩ := h
  obtain ⟨hbefore, hafter, hcut⟩ := List.pairwise_append.mp hsorted
  by_contra hcross
  -- then `o'` is taken by `c` or later, so that it waits when `c` comes
  have hlater : (c', some o') ∈ takings (waiting before) (c :: after) := by
    rw [takings_append, List.mem_append] at htook
    refine htook.resolve_left fun hmem => hcross ?_
    exact hcut c' (mem_of_mem_takings hmem).1 c (by simp)
  have hwait : o' ∈ waiting before := by
    refine (mem_of_taken hlater).resolve_right fun hmem => ?_
    rcases List.mem_cons.mp hmem with rfl | hmem
    · exact not_before_self o' hinside
    · exact hinside.asymm ((List.pairwise_cons.mp hafter).1 o' hmem)
  -- but `c` takes what came last
  rcases eq_or_before_of_mem_waiting hbefore hhead hwait with rfl | hearlier
  · exact not_before_self o' hstart
  · exact hstart.asymm hearlier

end Pairing

namespace Layout

open Pairing

/-! ### Findings about takings -/

/-- The closing bracket took one of its own kind. -/
def agrees (x : Mark × Option Mark) : Bool :=
  x.2.any fun o => Bracket.openerOf? x.1.byte == some o.byte

theorem agrees_some {c o : Mark} :
    agrees (c, some o) = true ↔ Bracket.openerOf? c.byte = some o.byte := by
  simp [agrees]

/-- The finding for a closing bracket that took nothing or one of another kind. -/
def blame (x : Mark × Option Mark) : Diagnostic :=
  mismatched x.1.row x.1.col x.1.byte (x.2.map (entryOf fun _ => 0))

theorem complaints_eq_map_blame : ∀ ms wait : List Mark,
    complaints wait ms = ((takings wait ms).filter (!agrees ·)).map blame
  | [], _ => rfl
  | m :: ms, wait => by
    have ih := complaints_eq_map_blame ms (step wait m)
    rw [complaints, takings, ih]
    by_cases hopen : Bracket.isOpener m.byte = true
    · simp [complaint, hopen]
    · rcases wait with _ | ⟨o, wait⟩
      · simp [complaint, hopen, agrees, blame]
      · by_cases hkind : Bracket.openerOf? m.byte = some o.byte
        · simp [complaint, hopen, agrees, hkind]
        · simp [complaint, hopen, agrees, blame, hkind, entryOf]

theorem mem_findings {ms : List Mark} {d : Diagnostic} : d ∈ findings ms ↔
    (∃ x ∈ takings [] ms, agrees x = false ∧ d = blame x) ∨
      ∃ o ∈ waiting ms, d = unclosedMark o := by
  simp only [findings, complaints_eq_map_blame, List.mem_append, List.mem_map, List.mem_filter,
    List.mem_reverse, Bool.not_eq_true']
  constructor
  · rintro (⟨x, ⟨hx, hkind⟩, rfl⟩ | ⟨o, ho, rfl⟩)
    · exact Or.inl ⟨x, hx, hkind, rfl⟩
    · exact Or.inr ⟨o, ho, rfl⟩
  · rintro (⟨x, hx, hkind, rfl⟩ | ⟨o, ho, rfl⟩)
    · exact Or.inl ⟨x, ⟨hx, hkind⟩, rfl⟩
    · exact Or.inr ⟨o, ho, rfl⟩

@[simp] theorem position_blame (x : Mark × Option Mark) : (blame x).position = x.1.position := by
  unfold blame mismatched
  rcases x.2 with _ | o
  · rfl
  · rfl

@[simp] theorem code_blame (x : Mark × Option Mark) : (blame x).code = .mismatched := by
  unfold blame mismatched
  rcases x.2 with _ | o
  · rfl
  · rfl

@[simp] theorem position_unclosedMark (o : Mark) : (unclosedMark o).position = o.position := rfl

@[simp] theorem code_unclosedMark (o : Mark) : (unclosedMark o).code = .unclosed := rfl

theorem notes_blame (x : Mark × Option Mark) :
    (blame x).notes.map Note.position = (x.2.map Mark.position).toList := by
  unfold blame mismatched
  rcases x.2 with _ | o
  · rfl
  · rfl

/-- **All findings are at different places.** -/
theorem nodup_positions_findings {ms : List Mark} (hsorted : ms.Pairwise Before) :
    ((findings ms).map Diagnostic.position).Nodup := by
  have hblamed : (complaints [] ms).map Diagnostic.position =
      (((takings [] ms).filter (!agrees ·)).map Prod.fst).map Mark.position := by
    simp [complaints_eq_map_blame, Function.comp_def]
  have hopen : ((waiting ms).reverse.map unclosedMark).map Diagnostic.position =
      (waiting ms).reverse.map Mark.position := by
    rw [List.map_map]
    rfl
  have hclosers : (((takings [] ms).filter (!agrees ·)).map Prod.fst).Sublist ms := by
    have hsub := (List.filter_sublist (p := (!agrees ·)) (l := takings [] ms)).map Prod.fst
    rw [map_fst_takings] at hsub
    exact hsub.trans List.filter_sublist
  have hwaiting := reverse_waiting_sublist ms
  have hnodup := nodup_positions hsorted
  rw [findings, List.map_append, hblamed, hopen, List.nodup_append]
  refine ⟨hnodup.sublist (hclosers.map _), hnodup.sublist (hwaiting.map _), ?_⟩
  -- a closing bracket and one that waits stand at different places
  rintro p hp _ hp' rfl
  obtain ⟨c, hc, rfl⟩ := List.mem_map.mp hp
  obtain ⟨o, ho, heq⟩ := List.mem_map.mp hp'
  obtain rfl := eq_of_position hsorted (hwaiting.subset ho) (hclosers.subset hc) heq
  obtain ⟨x, hx, rfl⟩ := List.mem_map.mp hc
  have hclose := (mem_of_mem_takings (List.mem_filter.mp hx).1).2
  rw [isOpener_of_mem_waiting (List.mem_reverse.mp ho)] at hclose
  simp at hclose

/-! ### Counting findings -/

/-- The diagnostic blames the closing bracket `c`. -/
def Blames (c : Mark) (d : Diagnostic) : Prop := d.code = .mismatched ∧ d.position = c.position

/-- The diagnostic blames a closing bracket and names `o` as what it took. -/
def Names (o : Mark) (d : Diagnostic) : Prop :=
  d.code = .mismatched ∧ d.notes.map Note.position = [o.position]

/-- The diagnostic reports `o` as never closed. -/
def Reports (o : Mark) (d : Diagnostic) : Prop := d.code = .unclosed ∧ d.position = o.position

instance (c : Mark) : DecidablePred (Blames c) := fun _ => inferInstanceAs (Decidable (_ ∧ _))

instance (o : Mark) : DecidablePred (Names o) := fun _ => inferInstanceAs (Decidable (_ ∧ _))

instance (o : Mark) : DecidablePred (Reports o) := fun _ => inferInstanceAs (Decidable (_ ∧ _))

section Counts

variable {ms : List Mark} (hsorted : ms.Pairwise Before)
include hsorted

/-- Findings of some sort are counted by saying which one there is, and when. -/
theorem countP_findings {P : Diagnostic → Prop} [DecidablePred P] {q : Prop} [Decidable q]
    {d : Diagnostic} (hmem : q → d ∈ findings ms ∧ P d)
    (hall : ∀ d' ∈ findings ms, P d' → d' = d ∧ q) :
    (findings ms).countP P = if q then 1 else 0 := by
  have hnodup : (findings ms).Nodup := (nodup_positions_findings hsorted).of_map _
  split_ifs with hq
  · obtain ⟨hd, hP⟩ := hmem hq
    have hcount : (findings ms).countP P = (findings ms).count d := by
      refine List.countP_congr fun d' hd' => ?_
      rw [decide_eq_true_iff, beq_iff_eq]
      exact ⟨fun h => (hall d' hd' h).1, fun h => h ▸ hP⟩
    rw [hcount, List.count_eq_one_of_mem hnodup hd]
  · exact List.countP_eq_zero.mpr fun d' hd' h => hq (hall d' hd' (of_decide_eq_true h)).2

/-- A closing bracket is blamed once, or not at all if it took one of its kind. -/
theorem countP_blames {x : Mark × Option Mark} (hx : x ∈ takings [] ms) :
    (findings ms).countP (Blames x.1) = if agrees x = false then 1 else 0 := by
  refine countP_findings hsorted (d := blame x) (fun hkind => ?_) ?_
  · exact ⟨mem_findings.mpr (Or.inl ⟨x, hx, hkind, rfl⟩), by simp [Blames]⟩
  · rintro d hd ⟨hcode, hpos⟩
    rcases mem_findings.mp hd with ⟨y, hy, hkind, rfl⟩ | ⟨o, -, rfl⟩
    · rw [position_blame] at hpos
      have hmark := eq_of_position hsorted (mem_of_mem_takings hy).1 (mem_of_mem_takings hx).1 hpos
      obtain rfl := taking_eq_of_fst hsorted hy hx hmark
      exact ⟨rfl, hkind⟩
    · simp [Code.mismatched, Code.unclosed] at hcode

theorem exists_taker_of_names {o : Mark} (ho : o ∈ ms) {d : Diagnostic} (hd : d ∈ findings ms)
    (hnames : Names o d) : ∃ c, (c, some o) ∈ takings [] ms ∧ agrees (c, some o) = false ∧
      d = blame (c, some o) := by
  obtain ⟨hcode, hnotes⟩ := hnames
  rcases mem_findings.mp hd with ⟨⟨c, t⟩, hx, hkind, rfl⟩ | ⟨m, -, rfl⟩
  · rw [notes_blame] at hnotes
    rcases t with _ | o'
    · simp at hnotes
    · have hpos : o'.position = o.position := by simpa using hnotes
      have ho' : o' ∈ ms := (mem_of_taken hx).resolve_left (by simp)
      obtain rfl := eq_of_position hsorted ho' ho hpos
      exact ⟨c, hx, hkind, rfl⟩
  · simp [Code.mismatched, Code.unclosed] at hcode

/-- An opening bracket that is taken is named once, or not at all if the kinds agree. -/
theorem countP_names {c o : Mark} (hx : (c, some o) ∈ takings [] ms) :
    (findings ms).countP (Names o) = if agrees (c, some o) = false then 1 else 0 := by
  have ho : o ∈ ms := (mem_of_taken hx).resolve_left (by simp)
  refine countP_findings hsorted (d := blame (c, some o)) (fun hkind => ?_) ?_
  · exact ⟨mem_findings.mpr (Or.inl ⟨_, hx, hkind, rfl⟩), by simp [Names, notes_blame]⟩
  · intro d hd hnames
    obtain ⟨c', hy, hkind, rfl⟩ := exists_taker_of_names hsorted ho hd hnames
    have heq := taking_eq_of_snd hsorted hy hx rfl rfl
    rw [heq] at hkind ⊢
    exact ⟨rfl, hkind⟩

/-- An opening bracket that waits at the end is named nowhere. -/
theorem countP_names_of_mem_waiting {o : Mark} (ho : o ∈ waiting ms) :
    (findings ms).countP (Names o) = 0 := by
  refine List.countP_eq_zero.mpr fun d hd hnames => ?_
  obtain ⟨c, hx, -⟩ :=
    exists_taker_of_names hsorted (mem_of_mem_waiting ho) hd (of_decide_eq_true hnames)
  exact not_mem_waiting_of_mem_takings hsorted hx ho

/-- An opening bracket is reported as unclosed once if it waits at the end. -/
theorem countP_reports {o : Mark} (ho : o ∈ ms) :
    (findings ms).countP (Reports o) = if o ∈ waiting ms then 1 else 0 := by
  refine countP_findings hsorted (d := unclosedMark o) (fun hwait => ?_) ?_
  · exact ⟨mem_findings.mpr (Or.inr ⟨o, hwait, rfl⟩), by simp [Reports]⟩
  · rintro d hd ⟨hcode, hpos⟩
    rcases mem_findings.mp hd with ⟨y, -, -, rfl⟩ | ⟨m, hm, rfl⟩
    · simp [Code.mismatched, Code.unclosed] at hcode
    · rw [position_unclosedMark] at hpos
      obtain rfl := eq_of_position hsorted (mem_of_mem_waiting hm) ho hpos
      exact ⟨rfl, hm⟩

end Counts

/-! ### What becomes of a bracket -/

/-- **What becomes of a closing bracket**: it pairs with one opening bracket, or it is blamed
once. -/
inductive CloserFate (ms : List Mark) (r : Result) (c : Mark) : Prop
  | paired : (∃! o, Pairs ms o c) → r.diagnostics.countP (Blames c) = 0 → CloserFate ms r c
  | blamed : (∀ o, ¬ Pairs ms o c) → r.diagnostics.countP (Blames c) = 1 → CloserFate ms r c

/-- **What becomes of an opening bracket**: it pairs with one closing bracket, or it is named once
as what a closing bracket of another kind took, or it is left over once and reported once as
unclosed. -/
inductive OpenerFate (ms : List Mark) (r : Result) (o : Mark) : Prop
  | paired : (∃! c, Pairs ms o c) → r.diagnostics.countP (Names o) = 0 →
      (r.leftover.map Mark.ofEntry).count o = 0 → r.diagnostics.countP (Reports o) = 0 →
      OpenerFate ms r o
  | named : (∀ c, ¬ Pairs ms o c) → r.diagnostics.countP (Names o) = 1 →
      (r.leftover.map Mark.ofEntry).count o = 0 → r.diagnostics.countP (Reports o) = 0 →
      OpenerFate ms r o
  | left : (∀ c, ¬ Pairs ms o c) → r.diagnostics.countP (Names o) = 0 →
      (r.leftover.map Mark.ofEntry).count o = 1 → r.diagnostics.countP (Reports o) = 1 →
      OpenerFate ms r o

/-- **The result accounts for the brackets.** Each has one fate; pairs start first, are of one kind
and never cross; brackets are left over in reading order; no two diagnostics are at the same place,
and none is about anything else. -/
structure Accounts (ms : List Mark) (r : Result) : Prop where
  closers : ∀ c ∈ ms, Bracket.isOpener c.byte = false → CloserFate ms r c
  openers : ∀ o ∈ ms, Bracket.isOpener o.byte = true → OpenerFate ms r o
  pairs : ∀ o c, Pairs ms o c → Before o c ∧ Bracket.openerOf? c.byte = some o.byte
  nested : ∀ o c o' c', Pairs ms o c → Pairs ms o' c' → Before o o' → Before o' c → Before c' c
  leftover : (r.leftover.map Mark.ofEntry).Pairwise Before
  positions : (r.diagnostics.map Diagnostic.position).Nodup
  only : ∀ d ∈ r.diagnostics, (∃ c ∈ ms, Bracket.isOpener c.byte = false ∧ Blames c d) ∨
    ∃ o ∈ ms, Bracket.isOpener o.byte = true ∧ Reports o d

section Fates

variable {ms : List Mark} {r : Result} (hsorted : ms.Pairwise Before)
  (hfound : r.diagnostics = findings ms)
include hsorted hfound

theorem closerFate {c : Mark} (hc : c ∈ ms) (hclose : Bracket.isOpener c.byte = false) :
    CloserFate ms r c := by
  obtain ⟨t, hx⟩ := exists_mem_takings hc hclose
  have hcount := countP_blames hsorted hx
  rw [← hfound] at hcount
  -- what pairs with `c` is what `c` took
  have htook : ∀ o, Pairs ms o c → t = some o ∧ agrees (c, t) = true := by
    intro o hpair
    obtain ⟨hy, hkind⟩ := pairs_iff_mem_takings.mp hpair
    obtain rfl : t = some o := congrArg Prod.snd (taking_eq_of_fst hsorted hx hy rfl)
    exact ⟨rfl, agrees_some.mpr hkind⟩
  rcases hkind : agrees (c, t) with _ | _
  · refine .blamed (fun o hpair => ?_) (by simpa [hkind] using hcount)
    have hsame := (htook o hpair).2
    simp [hkind] at hsame
  · refine .paired ?_ (by simpa [hkind] using hcount)
    rcases t with _ | o
    · simp [agrees] at hkind
    · have hpair : Pairs ms o c := pairs_iff_mem_takings.mpr ⟨hx, agrees_some.mp hkind⟩
      exact ⟨o, hpair, fun o' h => (Option.some.inj (htook o' h).1).symm⟩

theorem openerFate (hleft : r.leftover.map Mark.ofEntry = (waiting ms).reverse) {o : Mark}
    (ho : o ∈ ms) (hopen : Bracket.isOpener o.byte = true) : OpenerFate ms r o := by
  have hreports := countP_reports hsorted ho
  have hnodup := (reverse_waiting_sublist ms).nodup (nodup_of_sorted hsorted)
  rw [← hfound] at hreports
  by_cases hwait : o ∈ waiting ms
  · have hnames := countP_names_of_mem_waiting hsorted hwait
    rw [← hfound] at hnames
    refine .left (fun c hpair => ?_) hnames ?_ (by simpa [hwait] using hreports)
    · exact not_mem_waiting_of_mem_takings hsorted (pairs_iff_mem_takings.mp hpair).1 hwait
    · rw [hleft]
      exact List.count_eq_one_of_mem hnodup (List.mem_reverse.mpr hwait)
  · obtain ⟨c, hx⟩ := exists_taker ho hopen hwait
    have hnames := countP_names hsorted hx
    rw [← hfound] at hnames
    have hcount : (r.leftover.map Mark.ofEntry).count o = 0 := by
      rw [hleft, List.count_eq_zero, List.mem_reverse]
      exact hwait
    -- what pairs with `o` is what took `o`
    have htaker : ∀ c', Pairs ms o c' → c' = c := by
      intro c' hpair
      have hy := (pairs_iff_mem_takings.mp hpair).1
      exact congrArg Prod.fst (taking_eq_of_snd hsorted hy hx rfl rfl)
    rcases hkind : agrees (c, some o) with _ | _
    · refine .named (fun c' hpair => ?_) (by simpa [hkind] using hnames) hcount
        (by simpa [hwait] using hreports)
      obtain rfl := htaker c' hpair
      have hsame := agrees_some.mpr hpair.kind
      simp [hkind] at hsame
    · have hpair : Pairs ms o c := pairs_iff_mem_takings.mpr ⟨hx, agrees_some.mp hkind⟩
      exact .paired ⟨c, hpair, htaker⟩ (by simpa [hkind] using hnames) hcount
        (by simpa [hwait] using hreports)

end Fates

/-- **Every bracket of the masked rows is accounted for exactly once** by a run over as many
lines. -/
theorem accounts_run (lines masked : List Bytes) (hlen : masked.length = lines.length) :
    Accounts (marks masked) (run lines masked) := by
  have hsorted := sorted_marks masked
  have hfound := run_diagnostics (Nat.le_of_eq hlen)
  have hleft := run_leftover (Nat.le_of_eq hlen)
  refine ⟨fun c => closerFate hsorted hfound, fun o => openerFate hsorted hfound hleft,
    fun o c h => ⟨h.before hsorted, h.kind⟩, fun o c o' c' h => h.nested hsorted, ?_, ?_, ?_⟩
  · rw [hleft]
    exact hsorted.sublist (reverse_waiting_sublist (marks masked))
  · rw [hfound]
    exact nodup_positions_findings hsorted
  · intro d hd
    rw [hfound] at hd
    rcases mem_findings.mp hd with ⟨x, hx, -, rfl⟩ | ⟨o, ho, rfl⟩
    · obtain ⟨hmem, hclose⟩ := mem_of_mem_takings hx
      exact Or.inl ⟨x.1, hmem, hclose, by simp [Blames]⟩
    · exact Or.inr ⟨o, mem_of_mem_waiting ho, isOpener_of_mem_waiting ho, by simp [Reports]⟩

/-- A text with all fates: a pair, a bracket that is named, two that are blamed, one of them for
taking nothing, and one that is left over. -/
theorem accounts_run_unbalanced :
    (layout (splitLines ("a(]\n) \x7b[\n]\n" : String))).diagnostics.length = 3 ∧
    Accounts (marks (maskLines (splitLines ("a(]\n) \x7b[\n]\n" : String))))
      (layout (splitLines ("a(]\n) \x7b[\n]\n" : String))) :=
  ⟨by decide +kernel, accounts_run _ _ (length_maskLines _)⟩

end Layout

end Allman
