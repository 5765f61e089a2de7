import MiniDynamo.Storage.Invariant

/-! Compaction.

`Compact` copies, in the order in which `range` visits the index, the live record of each key
into a fresh file and replaces the data file and the index with the copy. On an engine that
holds a log, the copy is the log `compactLog`: one record per live key, with the key's value and
timestamp, in the visiting order, and the engine then holds it (`Holds.compact`). What that log
says as a map is the old map with its tombstones dropped (`storeOf_compactLog`): every key reads
as before, and a deleted key is no longer there at all. -/
namespace MiniDynamo.Storage

/-- The record compaction writes for `key`: its live version in `s`, if it has one. -/
def liveRecord (s : Store) (key : Bytes) : Option Record :=
  match s key with
  | some v => if v.isDeleted then none else some ⟨key, v.value, v.timestamp, false⟩
  | none => none

/-- The log compaction writes when it visits the index in the order `visit`. -/
def compactLog (s : Store) (visit : List (Bytes × IndexEntry)) : List Record :=
  visit.filterMap fun p => liveRecord s p.1

theorem liveRecord_eq_some {s : Store} {key : Bytes} {r : Record} (h : liveRecord s key = some r) :
    r.key = key ∧ r.isDeleted = false ∧ s key = some ⟨r.value, r.timestamp, false⟩ := by
  unfold liveRecord at h
  rcases hs : s key with _ | ⟨value, timestamp, _ | _⟩ <;> simp [hs] at h
  subst h
  exact ⟨rfl, rfl, rfl⟩

/-- The copy loop writes `writeEntry`'s bytes. -/
theorem compactRecord_eq (key value : Bytes) (timestamp : Timestamp) :
    Bitcask.compactRecord key value timestamp = encodeRecord key value timestamp false := rfl

/-! ### The copy loop -/

section CopyLoop

variable {file : Bytes} {idx : Index} {s : Store}

/-- Over a file and an index that agree with a map, the copy loop never fails: it appends the
compacted log of what it visits to the copy, replayed into the copy's index. -/
theorem copyLoop_fst (ha : Agrees file idx s) (visit : List (Bytes × IndexEntry))
    (hv : ∀ p ∈ visit, idx.get p.1 = some p.2) (copy : Bitcask.Copy) (cursor : Nat) :
    (Bitcask.copyLoop file visit copy cursor).1 =
      .ok ⟨copy.temp ++ encodeLog (compactLog s visit),
        replay (compactLog s visit) copy.position copy.index,
        copy.position + (encodeLog (compactLog s visit)).length⟩ := by
  induction visit generalizing copy cursor with
  | nil => simp [Bitcask.copyLoop, compactLog, replay]
  | cons p visit ih =>
    obtain ⟨key, entry⟩ := p
    have hrest := ih fun q hq => hv q (List.mem_cons_of_mem _ hq)
    obtain ⟨v, hs, hd, -, hloc⟩ := ha.of_get (hv _ (List.mem_cons_self _ _))
    cases hdel : entry.isDeleted
    · obtain ⟨hf, rest, hr⟩ := hloc (hd ▸ hdel)
      have hlive : liveRecord s key = some ⟨key, v.value, v.timestamp, false⟩ := by
        simp [liveRecord, hs, ← hd, hdel]
      simp only [Bitcask.copyLoop, hdel, Bool.false_eq_true, if_false, hr,
        readEntry_encodeRecord _ _ _ _ hf, hrest]
      simp [compactLog, hlive, encodeLog, replay, Index.apply, Record.encode, compactRecord_eq,
        length_encodeRecord, Nat.add_assoc]
    · have hdead : liveRecord s key = none := by simp [liveRecord, hs, ← hd, hdel]
      simp [Bitcask.copyLoop, hdel, hrest, compactLog, hdead]

end CopyLoop

/-- Whatever the file, a copy loop that succeeds has written one live record for each live entry
it visited, under the entry's key: the copy grows by those records' bytes, and each record goes
into the index at the position it was written at. -/
theorem copyLoop_ok {file : Bytes} {visit : List (Bytes × IndexEntry)} {copy copy' : Bitcask.Copy}
    {cursor cursor' : Nat} (h : Bitcask.copyLoop file visit copy cursor = (.ok copy', cursor')) :
    ∃ rs : List Record, rs.map Record.key = (visit.filter fun p => !p.2.isDeleted).map Prod.fst ∧
      (∀ r ∈ rs, r.isDeleted = false) ∧
      copy' = ⟨copy.temp ++ encodeLog rs, replay rs copy.position copy.index,
        copy.position + (encodeLog rs).length⟩ := by
  induction visit generalizing copy cursor with
  | nil =>
    simp only [Bitcask.copyLoop, Prod.mk.injEq, Except.ok.injEq] at h
    exact ⟨[], rfl, by simp, by simp [← h.1, replay]⟩
  | cons p visit ih =>
    obtain ⟨key, entry⟩ := p
    cases hdel : entry.isDeleted
    · simp only [Bitcask.copyLoop, hdel, Bool.false_eq_true, if_false] at h
      split at h
      · simp at h
      · next read n _ =>
        obtain ⟨rs, hk, hl, rfl⟩ := ih h
        refine ⟨⟨key, read.value, read.timestamp, false⟩ :: rs, by simp [hdel, hk],
          by simpa using hl, ?_⟩
        simp [encodeLog, replay, Index.apply, Record.encode, compactRecord_eq,
          length_encodeRecord, Nat.add_assoc]
    · simp only [Bitcask.copyLoop, hdel, if_true] at h
      obtain ⟨rs, hk, hl, rfl⟩ := ih h
      exact ⟨rs, by simp [hdel, hk], hl, rfl⟩

/-- Compaction writes records as `writeEntry` does. `writeEntry(key, value, timestamp, false)`
appends exactly the bytes the copy loop writes for the same three. From an empty copy, a copy
loop that succeeds leaves the temporary file as the log of the live records it visited, its
position at the end of that file, and an index whose offsets are the running sums of the
records' lengths (`replay`). When keys and values fit their `uint32` lengths, that is where
each record starts: the index agrees with the records over the temporary file, and rebuilding
the index from the file gives the same index. -/
theorem compact_encodes_like_writeEntry :
    (∀ (bc : Bitcask) (key value : Bytes) (timestamp : Timestamp),
      (bc.writeEntry key value timestamp false).2.data =
        bc.data ++ Bitcask.compactRecord key value timestamp) ∧
    ∀ (file : Bytes) (visit : List (Bytes × IndexEntry)) (cursor : Nat) (copy : Bitcask.Copy)
      (cursor' : Nat), Bitcask.copyLoop file visit ⟨[], Index.empty, 0⟩ cursor = (.ok copy, cursor') →
      ∃ rs : List Record, rs.map Record.key = (visit.filter fun p => !p.2.isDeleted).map Prod.fst ∧
        (∀ r ∈ rs, r.isDeleted = false) ∧ copy.temp = encodeLog rs ∧
        copy.index = replay rs 0 Index.empty ∧ copy.position = copy.temp.length ∧
        ((∀ r ∈ rs, r.Fits) → Agrees copy.temp copy.index (storeOf rs) ∧
          Bitcask.rebuildLoop copy.temp 0 Index.empty = .ok copy.index) := by
  refine ⟨fun bc key value timestamp => by rw [Bitcask.data_writeEntry, compactRecord_eq], ?_⟩
  intro file visit cursor copy cursor' h
  obtain ⟨rs, hk, hl, rfl⟩ := copyLoop_ok h
  exact ⟨rs, hk, hl, rfl, rfl, by simp,
    fun hf => ⟨agrees_replay rs hf, rebuildLoop_encodeLog rs hf 0 _⟩⟩

/-! ### The compacted log as a map -/

theorem foldl_apply_of_forall_ne {key : Bytes} :
    ∀ {rs : List Record} (s : Store), (∀ r ∈ rs, r.key ≠ key) → rs.foldl Store.apply s key = s key
  | [], _, _ => rfl
  | r :: rs, s, h => by
    rw [List.foldl_cons, foldl_apply_of_forall_ne _ fun r' h' => h r' (List.mem_cons_of_mem _ h')]
    have hne := Ne.symm (h r (List.mem_cons_self _ _))
    unfold Store.apply; split
    · exact Store.delete_ne _ hne _
    · exact Store.put_ne _ hne _ _

theorem foldl_apply_of_mem {key : Bytes} {r : Record} (hk : r.key = key) (hl : r.isDeleted = false) :
    ∀ {rs : List Record} (s : Store), r ∈ rs → (rs.map Record.key).Nodup →
      rs.foldl Store.apply s key = some ⟨r.value, r.timestamp, false⟩
  | [], _, h, _ => by cases h
  | r' :: rs, s, h, hnd => by
    rw [List.map_cons, List.nodup_cons] at hnd
    rcases List.mem_cons.mp h with rfl | h
    · rw [List.foldl_cons, foldl_apply_of_forall_ne]
      · simp [Store.apply, hl, ← hk]
      · intro r' hr' he; exact hnd.1 (hk ▸ he ▸ List.mem_map_of_mem _ hr')
    · rw [List.foldl_cons]; exact foldl_apply_of_mem hk hl _ h hnd.2

theorem nodup_compactLog_keys (s : Store) {visit : List (Bytes × IndexEntry)}
    (hv : (visit.map Prod.fst).Nodup) : ((compactLog s visit).map Record.key).Nodup := by
  have : (compactLog s visit).map Record.key =
      (visit.map Prod.fst).filterMap fun key => (liveRecord s key).map Record.key := by
    simp only [compactLog, List.map_filterMap, List.filterMap_map]; rfl
  rw [this]
  refine hv.filterMap fun a a' b ha ha' => ?_
  simp only [Function.comp, Option.mem_def, Option.map_eq_some'] at ha ha'
  obtain ⟨r, hr, rfl⟩ := ha
  obtain ⟨r', hr', he⟩ := ha'
  exact (liveRecord_eq_some hr).1.symm.trans (he ▸ (liveRecord_eq_some hr').1)

/-- Compacting in any order of the index's entries gives the map without its tombstones. -/
theorem storeOf_compactLog {bytes : Bytes} {idx : Index} {s : Store} (ha : Agrees bytes idx s)
    {visit : List (Bytes × IndexEntry)} (hv : visit.Perm idx.all) :
    storeOf (compactLog s visit) = s.compact := by
  funext key
  rcases hlive : liveRecord s key with _ | r
  · rw [storeOf, foldl_apply_of_forall_ne]
    · unfold liveRecord at hlive
      unfold Store.compact
      rcases hs : s key with _ | v <;> simp_all [Store.empty]
    · intro r hr hk
      obtain ⟨p, -, hp⟩ := List.mem_filterMap.mp hr
      rw [← hk, (liveRecord_eq_some hp).1, hp] at hlive; cases hlive
  · obtain ⟨hk, hl, hs⟩ := liveRecord_eq_some hlive
    obtain ⟨e, he, -⟩ := ha.present key _ hs
    have hmem : r ∈ compactLog s visit :=
      List.mem_filterMap.mpr ⟨(key, e), hv.symm.subset (Index.mem_all.mpr he), hlive⟩
    have hnd := nodup_compactLog_keys s (hv.map Prod.fst |>.nodup_iff.mpr (Index.nodup_all_keys idx))
    rw [storeOf, foldl_apply_of_mem hk hl _ hmem hnd]
    simp [Store.compact, hs]

theorem compactLog_fits {bytes : Bytes} {idx : Index} {s : Store} (ha : Agrees bytes idx s)
    (visit : List (Bytes × IndexEntry)) : ∀ r ∈ compactLog s visit, r.Fits := by
  intro r hr
  obtain ⟨p, -, hp⟩ := List.mem_filterMap.mp hr
  obtain ⟨hk, -, hs⟩ := liveRecord_eq_some hp
  obtain ⟨_, _, _, _, hloc⟩ := ha.present _ _ hs
  show Fits r.key r.value
  rw [hk]; exact (hloc rfl).1

/-! ### `Compact` on an engine that holds a log -/

/-- `Compact` on an open engine that holds a log succeeds, whatever order `range` visits the
index in, and the engine then holds the compacted log. -/
theorem Holds.compact {bc : Bitcask} {log : List Record} (h : Holds bc log)
    (hc : bc.closed = false) {visit : List (Bytes × IndexEntry)} (hv : visit.Perm bc.index.all) :
    (bc.compact visit).1 = .ok () ∧ Holds (bc.compact visit).2 (compactLog (storeOf log) visit) ∧
      (bc.compact visit).2.closed = false := by
  have ha := h.agrees
  have hcopy := copyLoop_fst ha visit (fun p hp => Index.mem_all.mp (hv.subset hp))
    ⟨[], Index.empty, 0⟩ bc.flush.cursor
  unfold Bitcask.compact
  simp only [hc, Bool.false_eq_true, if_false, Bitcask.file_flush]
  rcases hloop : Bitcask.copyLoop bc.data visit ⟨[], Index.empty, 0⟩ bc.flush.cursor with ⟨r, cursor⟩
  rw [hloop] at hcopy
  subst hcopy
  exact ⟨rfl, ⟨compactLog_fits ha visit, by simp [Bitcask.data], by simp, rfl⟩,
    (Bitcask.closed_flush bc).trans hc⟩

end MiniDynamo.Storage
