import Allman.Cache.Record
import Mathlib.Algebra.Group.Nat.Defs
import Mathlib.Data.List.Basic
import Mathlib.Tactic.SplitIfs

/-! # Records are read back as they were written

A reader reads `s` as `x` if it takes `s` from the front of every text that starts with it, and
gives `x` (`Reader.Reads`). Readings follow each other as readers do (`Reads.bind`), so every form of
a value is read back piece by piece: numbers (`reads_readInt_writeInt`), texts (`reads_readText`),
lists (`reads_readList`, `reads_readSlots`) and records, whose fields are put in one after the other
(`Turns`). A record of the cache is read back if all of it fits in the fields it is written to
(`CacheRecord.decode?_encode`). -/

namespace Allman

/-- The reader takes `s` from the front of every text that starts with it, and gives `x`. -/
def Reader.Reads {α : Type} (r : Reader α) (s : Bytes) (x : α) : Prop :=
  ∀ rest, r.run (s ++ rest) = some (x, rest)

namespace Reader

variable {α β : Type} {r : Reader α} {s t : Bytes} {x : α}

theorem reads_pure (x : α) : Reads (pure x) [] x := fun _ => rfl

theorem Reads.bind {f : α → Reader β} {y : β} (h : r.Reads s x) (hf : (f x).Reads t y) :
    Reads (r >>= f) (s ++ t) y := by
  intro rest
  have hr := h (t ++ rest)
  have hy := hf rest
  unfold Reader.run at hr hy ⊢
  rw [List.append_assoc, StateT.run_bind, hr]
  exact hy

theorem Reads.map (h : r.Reads s x) (f : α → β) : Reads (do return f (← r)) s (f x) := by
  have hpure := h.bind (f := fun x => pure (f x)) (reads_pure (f x))
  rwa [List.append_nil] at hpure

theorem reads_byte (b : UInt8) : byte.Reads [b] b := fun _ => rfl

theorem reads_take (s : Bytes) : (take s.length).Reads s s := by
  intro rest
  change (take s.length) (s ++ rest) = _
  unfold take
  simp

theorem Reads.times {write : α → Bytes} : ∀ {l : List α}, (∀ x ∈ l, r.Reads (write x) x) →
    (r.times l.length).Reads (l.flatMap write) l
  | [], _ => reads_pure []
  | x :: l, h => by
    have hl := Reads.times (l := l) fun y hy => h y (List.mem_cons_of_mem x hy)
    exact (h x List.mem_cons_self).bind (hl.map (x :: ·))

end Reader

namespace MessagePack

open Reader

/-! ### Numbers -/

/-- A byte that says what follows can hold a small number as well. -/
theorem toNat_add_ofNat {code : UInt8} {n : Nat} (h : code.toNat + n < 256) :
    (code + UInt8.ofNat n).toNat = code.toNat + n := by
  rw [UInt8.toNat_add, UInt8.toNat_ofNat']
  omega

theorem ofBigEndian_append (s t : Bytes) :
    ofBigEndian (s ++ t) = t.foldl (fun n b => n * 256 + b.toNat) (ofBigEndian s) :=
  List.foldl_append

theorem length_bigEndian : ∀ width n : Nat, (bigEndian width n).length = width
  | 0, _ => rfl
  | width + 1, n => by
    rw [bigEndian, List.length_append, length_bigEndian width]
    rfl

theorem ofBigEndian_bigEndian : ∀ {width n : Nat}, n < 256 ^ width →
    ofBigEndian (bigEndian width n) = n
  | 0, n, h => by
    have hzero : n = 0 := by simpa using h
    rw [hzero]
    rfl
  | width + 1, n, h => by
    have ih : ofBigEndian (bigEndian width (n / 256)) = n / 256 :=
      ofBigEndian_bigEndian (Nat.div_lt_of_lt_mul (by rwa [Nat.pow_succ, Nat.mul_comm] at h))
    have hlast : (UInt8.ofNat n).toNat = n % 256 := UInt8.toNat_ofNat'
    rw [bigEndian, ofBigEndian_append, ih, List.foldl_cons, List.foldl_nil, hlast]
    omega

theorem reads_natural {width n : Nat} (h : n < 256 ^ width) :
    (natural width).Reads (bigEndian width n) n := by
  have htake := reads_take (bigEndian width n)
  rw [length_bigEndian] at htake
  have hmap := htake.map ofBigEndian
  rwa [ofBigEndian_bigEndian h] at hmap

theorem reads_signed {width : Nat} (half : Nat) (hhalf : 256 ^ width = 2 * half) {n : Int}
    (hlow : -(half : Int) ≤ n) (hhigh : n < half) :
    (signed width).Reads (bigEndian width (n % (Nat.pow 256 width : Nat)).toNat) n := by
  unfold signed
  rw [Nat.pow_eq, hhalf]
  have hnonneg : 0 ≤ n % ((2 * half : Nat) : Int) := Int.emod_nonneg n (by omega)
  have hlt : n % ((2 * half : Nat) : Int) < (2 * half : Nat) := Int.emod_lt_of_pos n (by omega)
  have hnatural : (natural width).Reads (bigEndian width (n % ((2 * half : Nat) : Int)).toNat)
      (n % ((2 * half : Nat) : Int)).toNat := reads_natural (by omega)
  have hread := hnatural.map fun m => Int.bmod m (2 * half)
  have hback : Int.bmod (n % ((2 * half : Nat) : Int)) (2 * half) = n := by
    rw [Int.emod_bmod, Int.bmod_eq_of_le (by omega) (by omega)]
  rwa [Int.toNat_of_nonneg hnonneg, hback] at hread

theorem reads_readInt_natural {code : UInt8} {width n : Nat} (h : n < 256 ^ width)
    (hcode : code = 0xcc ∧ width = 1 ∨ code = 0xcd ∧ width = 2 ∨ code = 0xce ∧ width = 4 ∨
      code = 0xcf ∧ width = 8) : readInt.Reads (code :: bigEndian width n) n := by
  have hread := (reads_natural h).map fun n => (n : Int)
  unfold readInt
  refine (reads_byte code).bind (t := bigEndian width n) ?_
  rcases hcode with ⟨rfl, rfl⟩ | ⟨rfl, rfl⟩ | ⟨rfl, rfl⟩ | ⟨rfl, rfl⟩
  all_goals exact hread

theorem reads_readInt_writeNat {n : Nat} (h : n < 0x10000000000000000) :
    readInt.Reads (writeNat n) n := by
  unfold writeNat writeByte writeShort writeWord
  split_ifs with hfix hbyte hshort hword
  · unfold readInt
    refine (reads_byte (UInt8.ofNat n)).bind (t := []) ?_
    have hn : (UInt8.ofNat n).toNat = n := UInt8.toNat_ofNat_of_lt' (Nat.lt_trans hfix (by decide))
    have hle : UInt8.ofNat n ≤ 0x7f := by
      rw [UInt8.le_iff_toNat_le, hn]
      exact Nat.le_of_lt_succ hfix
    rw [if_pos hle, hn]
    exact reads_pure _
  · exact reads_readInt_natural hbyte (.inl ⟨rfl, rfl⟩)
  · exact reads_readInt_natural hshort (.inr (.inl ⟨rfl, rfl⟩))
  · exact reads_readInt_natural hword (.inr (.inr (.inl ⟨rfl, rfl⟩)))
  · exact reads_readInt_natural h (.inr (.inr (.inr ⟨rfl, rfl⟩)))

theorem reads_readInt_writeInt {n : Int} (hlow : -0x8000000000000000 ≤ n)
    (hhigh : n < 0x8000000000000000) : readInt.Reads (writeInt n) n := by
  unfold writeInt
  dsimp only
  split_ifs with hnat hfix hbyte hshort hword
  · have hread := reads_readInt_writeNat (n := n.toNat) (by omega)
    rwa [Int.toNat_of_nonneg hnat] at hread
  · -- one byte, which stands for itself
    have hlt : (n % (Nat.pow 256 1 : Nat)).toNat = (n + 256).toNat := by
      change (n % 256).toNat = _
      omega
    have hcode : bigEndian 1 (n % (Nat.pow 256 1 : Nat)).toNat = [UInt8.ofNat (n + 256).toNat] := by
      rw [hlt]
      rfl
    have hnat : (UInt8.ofNat (n + 256).toNat).toNat = (n + 256).toNat :=
      UInt8.toNat_ofNat_of_lt' (by change _ < 256; omega)
    rw [hcode]
    unfold readInt
    refine (reads_byte _).bind (t := []) ?_
    rw [if_neg, if_pos, hnat]
    · have hback : (((n + 256).toNat : Nat) : Int) - 256 = n := by omega
      rw [hback]
      exact reads_pure n
    · rw [UInt8.le_iff_toNat_le, hnat]
      change 224 ≤ _
      omega
    · rw [UInt8.le_iff_toNat_le, hnat]
      change ¬ _ ≤ 127
      omega
  all_goals unfold readInt
  · exact (reads_byte 0xd0).bind (reads_signed 0x80 (by decide) (by omega) (by omega))
  · exact (reads_byte 0xd1).bind (reads_signed 0x8000 (by decide) (by omega) (by omega))
  · exact (reads_byte 0xd2).bind (reads_signed 0x80000000 (by decide) (by omega) (by omega))
  · exact (reads_byte 0xd3).bind
      (reads_signed 0x8000000000000000 (by decide) (by omega) (by omega))

theorem reads_readField {width n : Nat} {s : Bytes} (h : readInt.Reads s n) (hn : n < 256 ^ width) :
    (readField width).Reads s n := by
  have hread := h.map fun n => (n % (Nat.pow 256 width : Nat)).toNat
  have hmod : ((n : Int) % (Nat.pow 256 width : Nat)).toNat = n := by
    rw [Nat.pow_eq, ← Int.natCast_emod, Nat.mod_eq_of_lt hn]
    rfl
  rwa [hmod] at hread

theorem reads_writeByte {n : Nat} (h : n < 256) : (readField 1).Reads (writeByte n) n :=
  reads_readField (reads_readInt_natural h (.inl ⟨rfl, rfl⟩)) h

theorem reads_writeShort {n : Nat} (h : n < 0x10000) : (readField 2).Reads (writeShort n) n :=
  reads_readField (reads_readInt_natural h (.inr (.inl ⟨rfl, rfl⟩))) h

theorem reads_writeWord {n : Nat} (h : n < 0x100000000) : (readField 4).Reads (writeWord n) n :=
  reads_readField (reads_readInt_natural h (.inr (.inr (.inl ⟨rfl, rfl⟩)))) h

theorem reads_readInt64 {n : Int} (hlow : -0x8000000000000000 ≤ n)
    (hhigh : n < 0x8000000000000000) : readInt64.Reads (writeInt n) n := by
  have hread := (reads_readInt_writeInt hlow hhigh).map fun n => Int.bmod n 0x10000000000000000
  rwa [Int.bmod_eq_of_le (by omega) (by omega)] at hread

/-! ### Texts and lists -/

theorem reads_textLength {code : UInt8} {width n : Nat} (h : n < 256 ^ width)
    (hcode : code = 0xd9 ∧ width = 1 ∨ code = 0xda ∧ width = 2 ∨ code = 0xdb ∧ width = 4) :
    (do textLength (← byte)).Reads (code :: bigEndian width n) n := by
  refine (reads_byte code).bind (t := bigEndian width n) ?_
  rcases hcode with ⟨rfl, rfl⟩ | ⟨rfl, rfl⟩ | ⟨rfl, rfl⟩
  all_goals exact reads_natural h

theorem reads_writeTextLength {n : Nat} (h : n < 0x100000000) :
    (do textLength (← byte)).Reads (writeTextLength n) n := by
  unfold writeTextLength
  split_ifs with hfix hbyte hshort
  · have hcode : (0xa0 + UInt8.ofNat n).toNat = 0xa0 + n :=
      toNat_add_ofNat (by change 160 + n < 256; omega)
    refine (reads_byte _).bind (t := []) ?_
    unfold textLength
    rw [if_pos, hcode, Nat.add_sub_cancel_left]
    · exact reads_pure n
    · rw [UInt8.le_iff_toNat_le, UInt8.le_iff_toNat_le, hcode]
      change 160 ≤ _ ∧ _ ≤ 191
      omega
  · exact reads_textLength hbyte (.inl ⟨rfl, rfl⟩)
  · exact reads_textLength hshort (.inr (.inl ⟨rfl, rfl⟩))
  · exact reads_textLength h (.inr (.inr ⟨rfl, rfl⟩))

theorem reads_readText {s : Bytes} (h : s.length < 0x100000000) :
    readText.Reads (writeText s) s := by
  have hread := (reads_writeTextLength h).bind (f := take) (reads_take s)
  rwa [bind_assoc] at hread

/-- The start of a list is a byte that says where the length is, and the length. -/
theorem exists_listExtent {n : Nat} (h : n < 0x100000000) : ∃ code t extent,
    writeListLength n = code :: t ∧ code ≠ 0xc0 ∧ listExtent? code = some extent ∧
      extent.read.Reads t n := by
  unfold writeListLength
  split_ifs with hfix hshort
  · have hcode : (0x90 + UInt8.ofNat n).toNat = 0x90 + n :=
      toNat_add_ofNat (by change 144 + n < 256; omega)
    refine ⟨_, [], .known n, rfl, fun heq => ?_, ?_, reads_pure n⟩
    · rw [heq] at hcode
      change 192 = _ at hcode
      omega
    · unfold listExtent?
      rw [if_pos, hcode, Nat.add_sub_cancel_left]
      rw [UInt8.le_iff_toNat_le, UInt8.le_iff_toNat_le, hcode]
      change 144 ≤ _ ∧ _ ≤ 159
      omega
  · exact ⟨0xdc, bigEndian 2 n, .following 2, rfl, by decide, rfl, reads_natural hshort⟩
  · exact ⟨0xdd, bigEndian 4 n, .following 4, rfl, by decide, rfl, reads_natural h⟩

section Lists

variable {α : Type} {write : α → Bytes} {l : List α}

theorem reads_readList {read : Reader α} (hlen : l.length < 0x100000000)
    (h : ∀ x ∈ l, read.Reads (write x) x) : (readList read).Reads (writeList write l) (some l) := by
  obtain ⟨code, t, extent, hwrite, hne, hextent, hread⟩ := exists_listExtent hlen
  unfold readList writeList
  rw [hwrite, List.cons_append]
  refine (reads_byte code).bind (t := t ++ l.flatMap write) ?_
  rw [if_neg hne, hextent]
  exact hread.bind ((Reads.times h).map some)

theorem reads_readOver {β : Type} {read : β → Reader β} {blank : β} {f : α → β} :
    ∀ {l : List α}, (∀ x ∈ l, (read blank).Reads (write x) (f x)) →
      (readOver read blank l.length []).Reads (l.flatMap write) (l.map f)
  | [], _ => reads_pure []
  | x :: l, h => by
    have hl := reads_readOver (l := l) fun y hy => h y (List.mem_cons_of_mem x hy)
    exact (h x List.mem_cons_self).bind (hl.map (f x :: ·))

theorem reads_readSlots {β : Type} {read : β → Reader β} {blank : β} {f : α → β}
    (hlen : l.length < 0x100000000) (h : ∀ x ∈ l, (read blank).Reads (write x) (f x)) :
    (readSlots read blank .empty).Reads (writeList write l) ⟨l.map f, []⟩ := by
  obtain ⟨code, t, extent, hwrite, hne, hextent, hread⟩ := exists_listExtent hlen
  unfold readSlots writeList
  rw [hwrite, List.cons_append]
  refine (reads_byte code).bind (t := t ++ l.flatMap write) ?_
  rw [if_neg hne, hextent]
  refine hread.bind ?_
  have hslots := (reads_readOver h).map fun items => (⟨items, [].drop l.length⟩ : Slots β)
  have hnone : (⟨l.map f, [].drop l.length⟩ : Slots β) = ⟨l.map f, []⟩ := by rw [List.drop_nil]
  rw [hnone] at hslots
  exact hslots

end Lists

/-! ### Records -/

/-- What is written, with names, turns a record into another one when it is read. -/
inductive Turns {σ : Type} (fields : List (RecordField σ)) : σ → List (String × Bytes) → σ → Prop
  | nil (x : σ) : Turns fields x [] x
  | cons {x y z : σ} {name : String} {f : RecordField σ} {value : Bytes}
    {written : List (String × Bytes)} (hname : (Bytes.ofString name).length < 0x100000000)
    (hfind : (fields.find? fun f => Bytes.ofString f.name == Bytes.ofString name) = some f)
    (hread : (f.read x).Reads value y) (hrest : Turns fields y written z) :
    Turns fields x ((name, value) :: written) z

section Records

variable {σ : Type} {fields : List (RecordField σ)} {x y : σ} {written : List (String × Bytes)}

theorem Turns.reads_readNamed (h : Turns fields x written y) :
    (readNamed fields written.length x).Reads
      (written.flatMap fun (name, value) => writeText name ++ value) y := by
  induction h with
  | nil x => exact reads_pure x
  | cons hname hfind hread hrest ih =>
    rw [List.flatMap_cons, List.append_assoc]
    refine (reads_readText hname).bind ?_
    rw [hfind]
    exact hread.bind ih

theorem Turns.reads_readRecord (h : Turns fields x written y) (hlen : written.length < 16)
    (blank : σ) : (readRecord fields blank x).Reads (writeRecord written) y := by
  have hcode : (0x80 + UInt8.ofNat written.length).toNat = 0x80 + written.length :=
    toNat_add_ofNat (by change 128 + written.length < 256; omega)
  unfold readRecord writeRecord
  refine (reads_byte _).bind (t := written.flatMap _) ?_
  have hne : (0x80 + UInt8.ofNat written.length) ≠ 0xc0 := by
    intro heq
    rw [heq] at hcode
    change 192 = _ at hcode
    omega
  have hextent : mapExtent? (0x80 + UInt8.ofNat written.length) = some (.known written.length) := by
    unfold mapExtent?
    rw [if_pos, hcode, Nat.add_sub_cancel_left]
    rw [UInt8.le_iff_toNat_le, UInt8.le_iff_toNat_le, hcode]
    change 128 ≤ _ ∧ _ ≤ 143
    omega
  rw [if_neg hne, hextent]
  exact (reads_pure written.length).bind h.reads_readNamed

end Records

end MessagePack

/-! ### Records of the cache -/

/-- The place fits in 32 bits. -/
def Position.Fits (p : Position) : Prop := p.row < bound ∧ p.col < bound

/-- All lengths and places of the diagnostic fit in 32 bits. -/
structure Diagnostic.Fits (d : Diagnostic) : Prop where
  message : d.message.length < 0x100000000
  position : d.position.Fits
  notes : d.notes.length < 0x100000000
  note : ∀ n ∈ d.notes, n.message.length < 0x100000000 ∧ n.position.Fits

namespace CacheRecord

open MessagePack Reader

theorem reads_writeNote {n : Note} (hmessage : n.message.length < 0x100000000)
    (hposition : n.position.Fits) :
    (readRecord noteFields default default).Reads (writeNote n) n := by
  refine Turns.reads_readRecord ?_ (by simp) _
  refine .cons (by decide) rfl ((reads_readText hmessage).map _) ?_
  refine .cons (by decide) rfl ((reads_writeWord hposition.1).map _) ?_
  refine .cons (by decide) rfl ((reads_writeWord hposition.2).map _) ?_
  exact .nil _

/-- What is read of a diagnostic that was written. -/
def partsOf (d : Diagnostic) : DiagnosticParts := ⟨{ d with notes := [] }, ⟨d.notes, []⟩⟩

theorem reads_writeDiagnostic {d : Diagnostic} (h : d.Fits) :
    (readRecord diagnosticFields .blank .blank).Reads (writeDiagnostic d) (partsOf d) := by
  have hsame : partsOf d = ⟨⟨⟨UInt8.ofNat d.severity.rank.toNat⟩,
      ⟨UInt16.ofNat d.code.number.toNat⟩, d.message, d.position, []⟩, ⟨d.notes, []⟩⟩ := by
    rw [UInt8.ofNat_toNat, UInt16.ofNat_toNat]
    rfl
  rw [hsame]
  refine Turns.reads_readRecord ?_ ?_ _
  · refine .cons (by decide) rfl ((reads_writeByte d.severity.rank.toNat_lt).map _) ?_
    refine .cons (by decide) rfl ((reads_writeShort d.code.number.toNat_lt).map _) ?_
    refine .cons (by decide) rfl ((reads_readText h.message).map _) ?_
    refine .cons (by decide) rfl ((reads_writeWord h.position.1).map _) ?_
    refine .cons (by decide) rfl ((reads_writeWord h.position.2).map _) ?_
    by_cases hnotes : d.notes = []
    · rw [hnotes, if_pos List.isEmpty_nil]
      exact .nil _
    · have hslots := reads_readSlots (f := id) h.notes fun n hn =>
        reads_writeNote (h.note n hn).1 (h.note n hn).2
      rw [List.map_id] at hslots
      rw [if_neg (by simpa using hnotes)]
      exact .cons (by decide) rfl (hslots.map _) (.nil _)
  · split_ifs
    · simp
    · simp

/-- All lengths, places and numbers of the record fit in the fields they are written to. -/
structure Fits (r : CacheRecord) : Prop where
  schema : r.schema < 0x10000
  lines : ∀ l, r.lines = some l → l.length < 0x100000000 ∧ ∀ s ∈ l, s.length < 0x100000000
  adjusted : ∀ l, r.adjusted = some l → l.length < 0x100000000 ∧
    ∀ n ∈ l, -0x8000000000000000 ≤ n ∧ n < 0x8000000000000000
  unclosed : -0x8000000000000000 ≤ r.unclosed ∧ r.unclosed < 0x8000000000000000
  diagnostics : r.diagnostics.length < 0x100000000
  diagnostic : ∀ d ∈ r.diagnostics, d.Fits

theorem reads_writeOptionalList {α : Type} {write : α → Bytes} (read : Reader α) :
    ∀ {l : Option (List α)}, (∀ items, l = some items → items.length < 0x100000000 ∧
      ∀ x ∈ items, read.Reads (write x) x) → (readList read).Reads (writeOptionalList write l) l
  | none, _ => fun _ => rfl
  | some _, h => reads_readList (h _ rfl).1 (h _ rfl).2

theorem reads_writeDiagnostics {ds : List Diagnostic} (hlen : ds.length < 0x100000000)
    (h : ∀ d ∈ ds, d.Fits) : (readSlots (readRecord diagnosticFields .blank) .blank .empty).Reads
      (writeNonemptyList writeDiagnostic ds) ⟨ds.map partsOf, []⟩ := by
  unfold writeNonemptyList
  split_ifs with hempty
  · rw [List.isEmpty_iff.mp hempty]
    exact fun _ => rfl
  · exact reads_readSlots hlen fun d hd => reads_writeDiagnostic (h d hd)

/-- **A record that fits is read back as it was written.** -/
theorem decode?_encode {r : CacheRecord} (h : r.Fits) : decode? r.encode = some r := by
  have hlines := reads_writeOptionalList readText (l := r.lines) fun l hl =>
    ⟨(h.lines l hl).1, fun s hs => reads_readText ((h.lines l hl).2 s hs)⟩
  have hadjusted := reads_writeOptionalList readInt64 (l := r.adjusted) fun l hl =>
    ⟨(h.adjusted l hl).1, fun n hn =>
      reads_readInt64 ((h.adjusted l hl).2 n hn).1 ((h.adjusted l hl).2 n hn).2⟩
  have hunclosed := reads_readInt64 h.unclosed.1 h.unclosed.2
  have hdiagnostics := reads_writeDiagnostics h.diagnostics h.diagnostic
  have hread : (readRecord fields .blank .blank).Reads r.encode
      ⟨{ r with lines := r.lines.or none, diagnostics := [] },
        ⟨r.diagnostics.map partsOf, []⟩⟩ := by
    refine Turns.reads_readRecord ?_ (by simp) _
    refine .cons (by decide) rfl ((reads_writeShort h.schema).map _) ?_
    refine .cons (by decide) rfl (hlines.map _) ?_
    refine .cons (by decide) rfl (hadjusted.map _) ?_
    refine .cons (by decide) rfl (hunclosed.map _) ?_
    refine .cons (by decide) rfl (hdiagnostics.map _) ?_
    exact .nil _
  have hrun := hread []
  rw [List.append_nil] at hrun
  have hwhole : (r.diagnostics.map partsOf).map DiagnosticParts.whole = r.diagnostics := by
    rw [List.map_map]
    exact List.map_id _
  unfold decode?
  rw [hrun]
  simp only [Option.map_some, Parts.whole, hwhole, Option.or_none]

end CacheRecord

end Allman
