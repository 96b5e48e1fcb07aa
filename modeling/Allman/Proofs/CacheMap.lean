import Allman.Proofs.Acts
import Allman.Proofs.CachePlaces
import Mathlib.Data.Finmap

/-! # The cache is a finite map

What the cache gives for a key hangs on the bytes of one file (`found_eq`). To keep a record changes
this file in one step, when the complete record is moved into place: before, and whenever a call
fails, the files of all keys are as they were (`ensures_put_entries`). To clear the cache takes all
files away at once, or none (`ensures_clear_entries`). So a cache that was made by these two
operations is a finite map from keys to records, whatever calls failed on the way; to keep a record
is to insert it, or to change nothing (`refines_map`).

To clear the cache is to empty the map where everything goes that lies in the directory of the cache
when its tree is removed (`FileSystem.TakesTree`). This is so in every directory but the root, and
in the root if it is removed as a whole (`FileSystem.takesTree_iff`). -/

namespace Allman

/-- The record in the form in which it is kept. -/
def CacheRecord.stamped (r : CacheRecord) : CacheRecord :=
  { r with schema := CacheRecord.currentSchema }

/-- Decoding inverts encoding for the record. -/
def CacheRecord.Recoverable (r : CacheRecord) : Prop := CacheRecord.decode? r.encode = some r

namespace Cache

open FileSystem

/-! ### What is found -/

/-- The bytes that are kept for a key. -/
def entry (c : Cache) (fs : FileSystem) (key : Bytes) : Option Bytes := fs.data? (c.fileFor key)

/-- **What the cache gives for a key** when no call fails. -/
def found (c : Cache) (fs : FileSystem) (key : Bytes) : Except CacheError (Option CacheRecord) :=
  ((World.ofFiles fs).run (c.get key)).1

/-- What bytes that are kept for a key stand for. -/
def reading (key : Bytes) : Option Bytes → Except CacheError (Option CacheRecord)
  | none => .ok none
  | some data =>
    match CacheRecord.decode? data with
    | none => .error (.undecodable key none)
    | some record => .ok (if record.schema = CacheRecord.currentSchema then some record else none)

variable {c : Cache}

/-- A search in which no call fails gives what the bytes of the key stand for. -/
theorem run_get {w : World} (hcalm : ∀ n call p, w.trouble .cache n call p = none) (key : Bytes) :
    (w.run (c.get key)).1 = reading key (c.entry w.files key) := by
  have hcall : ∀ (calls : List (FileCall × Bytes)) (kind : FileCall),
      ({ w with calls := calls } : World).run (Act.call .cache kind (c.fileFor key)) =
        (.ok (), { w with calls := (kind, c.fileFor key) :: calls }) := by
    intro calls kind
    rw [World.run_call]
    dsimp only
    rw [hcalm]
  unfold get entry data?
  dsimp only
  rcases hnode : w.files.get? (c.fileFor key) with _ | node
  · have hopen : w.run (Act.openFile .cache (c.fileFor key)) =
        (.error (.notFound (FileSystem.key (c.fileFor key))),
          { w with calls := (.openRead, c.fileFor key) :: w.calls }) := by
      unfold Act.openFile
      rw [World.run_bind_ok w (hcall w.calls .openRead), World.run_bind, World.run_node]
      dsimp only
      rw [hnode]
    rw [World.run_bind_ok w (World.run_attempt w _), hopen]
    rfl
  · have hopen : w.run (Act.openFile .cache (c.fileFor key)) =
        (.ok node.data, { w with calls := (.openRead, c.fileFor key) :: w.calls }) := by
      unfold Act.openFile
      rw [World.run_bind_ok w (hcall w.calls .openRead), World.run_bind, World.run_node]
      dsimp only
      rw [hnode]
      rfl
    rw [World.run_bind_ok w (World.run_attempt w _), hopen]
    dsimp only
    rw [World.run_bind, World.run_mapError, hcall]
    dsimp only [Except.mapError, Option.map, reading]
    rcases CacheRecord.decode? node.data with _ | record
    · rfl
    · rfl

theorem found_eq (fs : FileSystem) (key : Bytes) :
    c.found fs key = reading key (c.entry fs key) :=
  run_get (w := World.ofFiles fs) (fun _ _ _ => rfl) key

/-! ### Operations on the files of keys -/

/-- The files of all keys are as in `fs₀`. -/
def SameEntries (c : Cache) (fs₀ fs : FileSystem) : Prop :=
  ∀ key : Key, c.entry fs key = c.entry fs₀ key

theorem SameEntries.refl {fs : FileSystem} : SameEntries c fs fs := fun _ => rfl

theorem entry_cons (fs : FileSystem) (b : UInt8) (s : Bytes) :
    c.entry fs (b :: s) = fs.dataAt (c.place b (entryName (b :: s))) := by
  unfold entry
  rw [data?_eq, key_fileFor]

theorem sameEntries_of_dataAt {fs₀ fs fs' : FileSystem} (h : SameEntries c fs₀ fs)
    (hdata : ∀ b s, fs'.dataAt (c.place b (entryName (b :: s))) =
      fs.dataAt (c.place b (entryName (b :: s)))) : SameEntries c fs₀ fs' := by
  intro key
  rw [← h key]
  obtain ⟨b, s, hkey⟩ := key.exists_cons
  rw [hkey, entry_cons, entry_cons, hdata]

section Put

variable {fs₀ fs : FileSystem} {b : UInt8} {s : Bytes} {n : Nat}

theorem place_entry_ne_temporary {a : UInt8} {key : Bytes} :
    c.place a (entryName key) ≠ c.place b (temporaryName n) := by
  intro h
  have hbase := congrArg Path.base h
  unfold place at hbase
  rw [Path.base_append _ (isName_entryName key).slash,
    Path.base_append _ (isName_temporaryName n).slash] at hbase
  exact temporaryName_ne_entryName n key hbase.symm

theorem SameEntries.makeDirectory (h : SameEntries c fs₀ fs) :
    SameEntries c fs₀ (fs.makeDirectory (Path.parent (c.fileFor (b :: s)))) := by
  refine sameEntries_of_dataAt h fun a t => ?_
  have hkey : FileSystem.key (Path.parent (c.fileFor (b :: s))) =
      Path.stem c.dir ++ folderName b := by
    rw [parent_fileFor, key_stem_append (isName_folderName b)]
  refine dataAt_makeDirectory_of_not_above ?_ ?_
  · rw [hkey]
    exact place_ne_folder
  · rw [hkey]
    exact not_above_folder

theorem SameEntries.create (h : SameEntries c fs₀ fs) (mode : Nat) :
    SameEntries c fs₀ (fs.create (c.place b (temporaryName n)) mode) := by
  refine sameEntries_of_dataAt h fun a t => dataAt_create_of_not_above ?_ ?_
  · rw [key_place _ _ (isName_temporaryName n)]
    exact place_entry_ne_temporary
  · rw [key_place _ _ (isName_temporaryName n)]
    exact not_above_place (isName_temporaryName n)

theorem SameEntries.setData (h : SameEntries c fs₀ fs) (data : Bytes) :
    SameEntries c fs₀ (fs.setData (c.place b (temporaryName n)) data) := by
  refine sameEntries_of_dataAt h fun a t => ?_
  rw [dataAt_setData, key_place _ _ (isName_temporaryName n), if_neg place_entry_ne_temporary]

theorem SameEntries.remove (h : SameEntries c fs₀ fs) :
    SameEntries c fs₀ (fs.remove (c.place b (temporaryName n))) := by
  refine sameEntries_of_dataAt h fun a t => ?_
  rw [dataAt_remove, key_place _ _ (isName_temporaryName n), if_neg place_entry_ne_temporary]

/-- **A file that is moved into place** changes what is kept for its key, and nothing else. -/
theorem SameEntries.move (h : SameEntries c fs₀ fs) {data : Bytes}
    (hdata : fs.data? (c.place b (temporaryName n)) = some data) (key : Key) :
    c.entry (fs.move (c.place b (temporaryName n)) (c.fileFor (b :: s))) key =
      if key.1 = b :: s then some data else c.entry fs₀ key := by
  have htarget := key_fileFor c b s
  obtain ⟨a, t, hkey⟩ := key.exists_cons
  rw [← h key, hkey, entry_cons, entry_cons]
  split
  · next heq =>
    obtain ⟨rfl, rfl⟩ := List.cons.inj heq
    rw [← htarget]
    exact (dataAt_move hdata _).1
  · next hne =>
    refine dataAt_move_of_not_above ?_ ?_ ?_
    · rw [key_place _ _ (isName_temporaryName n)]
      exact place_entry_ne_temporary
    · rw [← key_fileFor]
      exact fun heq => hne (fileFor_injective c heq)
    · rw [htarget]
      exact not_above_place (isName_entryName _)

end Put

/-- A complete file is written and then moved into place; it is one or the other. -/
theorem ensures_write_rename_entries {fs₀ : FileSystem} {b : UInt8} {s : Bytes} {n : Nat}
    (data : Bytes) :
    Act.Ensures
      (fun fs => SameEntries c fs₀ fs ∧ fs.data? (c.place b (temporaryName n)) = some [])
      (do
        Act.writeAndClose .cache (c.place b (temporaryName n)) data
        Act.rename .cache (c.place b (temporaryName n)) (c.fileFor (b :: s)))
      fun r fs =>
        match r with
        | .ok _ => ∀ k : Key, c.entry fs k = if k.1 = b :: s then some data else c.entry fs₀ k
        | .error _ => SameEntries c fs₀ fs := by
  have hwrite : Act.Ensures
      (fun fs => SameEntries c fs₀ fs ∧ fs.data? (c.place b (temporaryName n)) = some [])
      (Act.writeAndClose .cache (c.place b (temporaryName n)) data) fun r fs =>
        SameEntries c fs₀ fs ∧
          (r = .ok () → fs.data? (c.place b (temporaryName n)) = some data) := by
    refine (Act.ensures_call .cache .write _).bind (fun _ _ h => ⟨h.1, by simp⟩) fun _ => ?_
    refine (Act.ensures_modifyFiles (Q := fun fs => SameEntries c fs₀ fs ∧
      fs.data? (c.place b (temporaryName n)) = some data) fun fs h => ?_).bind
      (fun _ _ h => ⟨h.1, by simp⟩) fun _ => ?_
    · refine ⟨h.1.setData data, ?_⟩
      have hset := dataAt_setData fs (c.place b (temporaryName n)) data
        (FileSystem.key (c.place b (temporaryName n)))
      rw [if_pos rfl, ← data?_eq, ← data?_eq, h.2] at hset
      exact hset
    · exact (Act.ensures_call .cache .close _).mono fun _ _ h => ⟨h.1, fun _ => h.2⟩
  refine hwrite.bind (fun _ _ h => h.1) fun _ => ?_
  refine (Act.ensures_call .cache .rename _).bind (fun _ _ h => h.1) fun _ => ?_
  refine (Act.ensures_node _).bind (fun _ _ h => h.1) fun _ => ?_
  exact Act.ensures_modify fun fs h => h.1.1.move (h.1.2 rfl)

/-- **To keep a record** replaces what is kept for its key, or changes nothing, whatever calls
fail. -/
theorem ensures_put_entries {fs₀ : FileSystem} (key : Key) (record : CacheRecord) :
    Act.Ensures (SameEntries c fs₀) (c.put key record) fun r fs =>
      match r with
      | .ok _ => ∀ k : Key,
          c.entry fs k = if k = key then some record.stamped.encode else c.entry fs₀ k
      | .error _ => SameEntries c fs₀ fs := by
  obtain ⟨b, s, hkey⟩ := key.exists_cons
  have hiff : ∀ k : Key, k = key ↔ k.1 = b :: s := fun k => by rw [Subtype.ext_iff, hkey]
  simp only [hiff]
  rw [hkey]
  unfold put
  refine (Act.ensures_call_modifyFiles fun fs h => h.makeDirectory).bind (fun _ _ h => h)
    fun _ => ?_
  refine Act.ensures_get.bind (fun _ _ h => h) fun w => ?_
  dsimp only
  obtain ⟨n, hn⟩ := exists_unusedPath c w.files b s
  rw [hn]
  refine (Act.ensures_call .cache .openWrite _).bind (fun _ _ h => h) fun _ => ?_
  refine (Act.ensures_modifyFiles (Q := fun fs => SameEntries c fs₀ fs ∧
    fs.data? (c.place b (temporaryName n)) = some []) fun fs h =>
      ⟨h.create _, (dataAt_create fs _ _).1⟩).bind (fun _ _ h => h.1) fun _ => ?_
  refine (ensures_write_rename_entries _).attempt_bind fun outcome => ?_
  rcases outcome with e | _
  · have hremove : Act.Ensures (SameEntries c fs₀)
        (Act.removeFile .cache (c.place b (temporaryName n))) fun _ fs => SameEntries c fs₀ fs :=
      Act.ensures_call_modifyFiles fun fs h => h.remove
    exact hremove.ignore.bind (fun _ _ h => h) fun _ => Act.ensures_throw fun _ h => h
  · exact Act.ensures_pure fun _ h => h

/-- The files of all keys are gone. -/
def ClearedEntries (c : Cache) (fs : FileSystem) : Prop := ∀ key : Key, c.entry fs key = none

section Clear

variable {fs fs' fs₀ : FileSystem} {removal : Removal}

theorem ClearedEntries.of_sameEntries (h : ClearedEntries c fs) (hsame : SameEntries c fs fs') :
    ClearedEntries c fs' := fun key => (hsame key).trans (h key)

theorem sameEntries_makeDirectory (c : Cache) (fs : FileSystem) :
    SameEntries c fs (fs.makeDirectory c.dir) := by
  refine sameEntries_of_dataAt SameEntries.refl fun b s => ?_
  refine dataAt_makeDirectory_of_not_above (fun heq => ?_) ?_
  · have hlt := @length_dir_lt_place c b (entryName (b :: s))
    rw [heq] at hlt
    omega
  · exact not_above_of_length_le place_ne_root length_dir_lt_place.le

theorem clearedEntries_takeTree (h : TakesTree removal c.dir) (fs : FileSystem) :
    ClearedEntries c (fs.takeTree removal c.dir) := by
  intro key
  obtain ⟨b, s, hkey⟩ := key.exists_cons
  rw [hkey, entry_cons, dataAt, h fs _ isWithin_place]
  rfl

/-- The files of all keys are as in `fs₀`, or all gone. -/
def AllOrNone (c : Cache) (fs₀ fs : FileSystem) : Prop := SameEntries c fs₀ fs ∨ ClearedEntries c fs

theorem AllOrNone.trans (h : AllOrNone c fs₀ fs) (h' : AllOrNone c fs fs') :
    AllOrNone c fs₀ fs' := by
  rcases h' with hsame | hcleared
  · exact h.imp (fun hold key => (hsame key).trans (hold key)) (·.of_sameEntries hsame)
  · exact Or.inr hcleared

/-- The files of a cache stay where the root goes alone and the cache is in it. -/
theorem allOrNone_takeTree (c : Cache) (removal : Removal) (fs : FileSystem) :
    AllOrNone c fs (fs.takeTree removal c.dir) := by
  by_cases halone : removal = .rootAlone ∧ FileSystem.key c.dir = Path.root
  · refine Or.inl (sameEntries_of_dataAt SameEntries.refl fun b s => ?_)
    rw [takeTree, if_pos halone, dataAt_remove, halone.2, if_neg place_ne_root]
  · exact Or.inr (clearedEntries_takeTree (takesTree_iff.mpr halone) fs)

/-- To clear the cache takes all files away, or changes nothing, whatever calls fail and however
trees are removed. -/
theorem ensures_clear_entries :
    Act.Ensures (SameEntries c fs₀) c.clear fun _ fs => AllOrNone c fs₀ fs := by
  have hremove : Act.Ensures (AllOrNone c fs₀) (Act.removeTree .cache c.dir)
      fun _ fs => AllOrNone c fs₀ fs :=
    Act.ensures_removeTree fun fs removal h => h.trans (allOrNone_takeTree c removal fs)
  have hmake : Act.Ensures (AllOrNone c fs₀) (Act.makeDirectory .cache c.dir)
      fun _ fs => AllOrNone c fs₀ fs :=
    Act.ensures_call_modifyFiles fun fs h => h.trans (Or.inl (sameEntries_makeDirectory c fs))
  have hclear : Act.Ensures (AllOrNone c fs₀) c.clear fun _ fs => AllOrNone c fs₀ fs :=
    hremove.bind (fun _ _ h => h) fun _ => hmake
  exact hclear.of_le fun _ h => Or.inl h

/-- **A cache that is cleared without a fault is empty**, where the removal of its directory takes
everything in it. -/
theorem clearedEntries_of_ok {w : World} (htakes : TakesTree w.removal c.dir)
    (hok : (w.run c.clear).1 = .ok ()) : ClearedEntries c (w.run c.clear).2.files := by
  have hmake : Act.Ensures (ClearedEntries c) (Act.makeDirectory .cache c.dir)
      fun _ fs => ClearedEntries c fs :=
    Act.ensures_call_modifyFiles fun fs h => h.of_sameEntries (sameEntries_makeDirectory c fs)
  unfold clear at hok ⊢
  rw [World.run_bind, World.run_removeTree] at hok ⊢
  rcases hfault : w.trouble .cache w.calls.length .removeTree c.dir with _ | e
  · exact hmake _ (clearedEntries_takeTree htakes w.files)
  · rw [hfault] at hok
    simp at hok

end Clear

/-! ### The map -/

/-- **The cache is the map**: what it gives for every key is what the map holds. -/
def Holds (c : Cache) (fs : FileSystem) (m : Finmap fun _ : Key => CacheRecord) : Prop :=
  ∀ key : Key, c.found fs key = .ok (m.lookup key)

/-- The states of a cache that began without files: records are kept and the cache is cleared,
whatever calls fail, and anything may happen in between that does not touch the files of keys. -/
inductive Reachable (c : Cache) : World → Prop
  | fresh {w : World} (h : ClearedEntries c w.files) : Reachable c w
  | put {w : World} (h : Reachable c w) (key : Key) (record : CacheRecord)
      (hrecord : record.stamped.Recoverable) : Reachable c (w.run (c.put key record)).2
  | clear {w : World} (h : Reachable c w) : Reachable c (w.run c.clear).2
  | elsewhere {w w' : World} (h : Reachable c w) (hsame : SameEntries c w.files w'.files) :
      Reachable c w'

variable {m : Finmap fun _ : Key => CacheRecord} {fs fs' : FileSystem}

theorem Holds.of_sameEntries (h : Holds c fs m) (hsame : SameEntries c fs fs') :
    Holds c fs' m := by
  intro key
  rw [found_eq, hsame key, ← found_eq, h key]

theorem holds_empty (h : ClearedEntries c fs) : Holds c fs ∅ := by
  intro key
  rw [found_eq, h key, Finmap.lookup_empty]
  rfl

theorem Holds.insert (h : Holds c fs m) {key : Key} {record : CacheRecord}
    (hrecord : record.stamped.Recoverable)
    (hentry : ∀ k : Key, c.entry fs' k =
      if k = key then some record.stamped.encode else c.entry fs k) :
    Holds c fs' (m.insert key record.stamped) := by
  intro k
  rw [found_eq, hentry k]
  by_cases hk : k = key
  · rw [if_pos hk, hk, Finmap.lookup_insert]
    unfold reading
    dsimp only
    rw [hrecord]
    rfl
  · rw [if_neg hk, Finmap.lookup_insert_of_ne _ hk, ← found_eq, h k]

/-- One call keeps a record, or fails and changes nothing. -/
theorem Holds.put {w : World} (h : Holds c w.files m) (key : Key) {record : CacheRecord}
    (hrecord : record.stamped.Recoverable) : Holds c (w.run (c.put key record)).2.files
      (match (w.run (c.put key record)).1 with
        | .ok _ => m.insert key record.stamped
        | .error _ => m) := by
  have hput := ensures_put_entries key record w (SameEntries.refl (c := c))
  rcases hrun : (w.run (c.put key record)).1 with e | _
  · rw [hrun] at hput
    exact h.of_sameEntries hput
  · rw [hrun] at hput
    exact h.insert hrecord hput

/-- Other calls may fail from now on. -/
theorem Reachable.retrouble {w : World} (h : Reachable c w) (trouble : Trouble) :
    Reachable c { w with trouble := trouble } := .elsewhere h SameEntries.refl

/-- **A cache is a finite map in every reachable state.** -/
theorem Reachable.exists_holds {w : World} (h : Reachable c w) :
    ∃ m : Finmap fun _ : Key => CacheRecord, Holds c w.files m := by
  induction h with
  | fresh h => exact ⟨∅, holds_empty h⟩
  | put _ key record hrecord ih =>
    obtain ⟨m, hm⟩ := ih
    exact ⟨_, hm.put key hrecord⟩
  | @clear w _ ih =>
    obtain ⟨m, hm⟩ := ih
    rcases ensures_clear_entries w (SameEntries.refl (c := c)) with hsame | hcleared
    · exact ⟨m, hm.of_sameEntries hsame⟩
    · exact ⟨∅, holds_empty hcleared⟩
  | elsewhere _ hsame ih =>
    obtain ⟨m, hm⟩ := ih
    exact ⟨m, hm.of_sameEntries hsame⟩

/-- **The cache is a finite map from keys to records.** In every reachable state there is a map that
says what is found for every key. To keep a record inserts it into the map if it succeeds, and
leaves the map as it is if any call fails. To clear the cache without a fault empties the map, where
the removal of its directory takes everything in it. -/
theorem refines_map {w : World} (hw : Reachable c w) :
    ∃ m : Finmap fun _ : Key => CacheRecord, Holds c w.files m ∧
      (∀ (key : Key) (record : CacheRecord), record.stamped.Recoverable →
        Holds c (w.run (c.put key record)).2.files
          (match (w.run (c.put key record)).1 with
            | .ok _ => m.insert key record.stamped
            | .error _ => m)) ∧
      (TakesTree w.removal c.dir → (w.run c.clear).1 = .ok () →
        Holds c (w.run c.clear).2.files ∅) := by
  obtain ⟨m, hm⟩ := hw.exists_holds
  refine ⟨m, hm, fun key record hrecord => hm.put key hrecord, fun htakes hok => ?_⟩
  exact holds_empty (clearedEntries_of_ok htakes hok)

/-- A key of thirty-two equal bytes. -/
def keyOf (b : UInt8) : Key := ⟨List.replicate 32 b, List.length_replicate⟩

/-- The record of a text of one line in which a parenthesis is left open. -/
def openRecord : CacheRecord :=
  ⟨CacheRecord.currentSchema, some ["("], none, 1, [.warning .unclosed ⟨0, 0⟩ "unclosed '('"]⟩

/-- A world in which a cache in the root keeps one record. -/
def keepingWorld : World :=
  ((World.ofFiles .empty).run ((Cache.mk Path.root).put (keyOf 1) openRecord)).2

theorem clearedEntries_empty (c : Cache) : ClearedEntries c .empty := by
  intro key
  obtain ⟨b, s, hkey⟩ := key.exists_cons
  have hne : (c.place b (entryName (b :: s)) == Path.root) = false := by
    simpa using place_ne_root
  rw [hkey, entry_cons, dataAt]
  simp [getKey?, FileSystem.empty, List.lookup_cons, hne]

/-- That world when no file can be moved any more. -/
def movelessWorld : World :=
  { keepingWorld with
    trouble := fun _ _ call _ => if call = .rename then some (.injected call) else none }

theorem recoverable_openRecord : openRecord.stamped.Recoverable := by
  unfold CacheRecord.Recoverable
  decide +kernel

theorem reachable_movelessWorld : Reachable ⟨Path.root⟩ movelessWorld := by
  have hkeeping : Reachable ⟨Path.root⟩ keepingWorld :=
    .put (.fresh (clearedEntries_empty ⟨Path.root⟩)) (keyOf 1) openRecord recoverable_openRecord
  exact hkeeping.retrouble _

/-- Where no file can be moved, keeping another record changes nothing, and clearing takes the first
one away, also in the root. -/
theorem refines_map_moveless : Reachable ⟨Path.root⟩ movelessWorld ∧
    ∃ m : Finmap fun _ : Key => CacheRecord, Holds ⟨Path.root⟩ movelessWorld.files m ∧
      m.lookup (keyOf 1) = some openRecord ∧
      (movelessWorld.run ((Cache.mk Path.root).put (keyOf 2) openRecord)).1 =
        .error (.injected .rename) ∧
      Holds ⟨Path.root⟩
        (movelessWorld.run ((Cache.mk Path.root).put (keyOf 2) openRecord)).2.files m ∧
      Holds ⟨Path.root⟩ (movelessWorld.run (Cache.clear ⟨Path.root⟩)).2.files ∅ := by
  -- all that is to be computed about the worlds, at once
  obtain ⟨hfound, hput, hclear, hremoval⟩ :
      (Cache.mk Path.root).found movelessWorld.files (keyOf 1) = .ok (some openRecord) ∧
      (movelessWorld.run ((Cache.mk Path.root).put (keyOf 2) openRecord)).1 =
        .error (.injected .rename) ∧
      (movelessWorld.run (Cache.clear ⟨Path.root⟩)).1 = .ok () ∧
      movelessWorld.removal = .whole := by decide +kernel
  have htakes : TakesTree movelessWorld.removal Path.root := by
    rw [takesTree_iff, hremoval]
    decide
  obtain ⟨m, hm, hkeep, hempty⟩ := refines_map reachable_movelessWorld
  have hkept := hkeep (keyOf 2) openRecord recoverable_openRecord
  rw [hput] at hkept
  have hlookup : m.lookup (keyOf 1) = some openRecord :=
    Except.ok.inj ((hm (keyOf 1)).symm.trans hfound)
  exact ⟨reachable_movelessWorld, m, hm, hlookup, hput, hkept, hempty htakes hclear⟩

end Cache

end Allman
