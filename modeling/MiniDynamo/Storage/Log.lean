import MiniDynamo.Storage.Bitcask
import MiniDynamo.Storage.Store

/-! Logs: what the data file holds, record by record.

A log is the list of records written, oldest first, and its bytes are their encodings one
after another (`encodeLog`). `replay` is what `rebuildIndex` makes of a log, and
`rebuildLoop_encodeLog` says that decoding the bytes of a log of fitting records gives exactly
that. `storeOf` is what a log says as a map, and `agrees_replay` ties the two together: every
key of the map has an entry in the replayed index with the same timestamp and tombstone flag,
and a live entry points, in the log's bytes, at a record of the key's value and timestamp. -/
namespace MiniDynamo.Storage

/-- A record as `writeEntry` was given it. -/
structure Record where
  key : Bytes
  value : Bytes
  timestamp : Timestamp
  isDeleted : Bool

namespace Record

def encode (r : Record) : Bytes := encodeRecord r.key r.value r.timestamp r.isDeleted

def Fits (r : Record) : Prop := Storage.Fits r.key r.value

end Record

/-- The bytes of a log. -/
def encodeLog : List Record → Bytes
  | [] => []
  | r :: rs => r.encode ++ encodeLog rs

@[simp] theorem encodeLog_nil : encodeLog [] = [] := rfl

theorem encodeLog_append (rs ss : List Record) :
    encodeLog (rs ++ ss) = encodeLog rs ++ encodeLog ss := by
  induction rs with
  | nil => rfl
  | cons r rs ih => simp [encodeLog, ih]

@[simp] theorem encodeLog_snoc (rs : List Record) (r : Record) :
    encodeLog (rs ++ [r]) = encodeLog rs ++ r.encode := by
  simp [encodeLog_append, encodeLog]

/-! ### Replaying a log into an index -/

/-- What `rebuildIndex` does with a record found at `offset`. -/
def Index.apply (idx : Index) (offset : Nat) (r : Record) : Index :=
  if r.isDeleted then (idx.delete r.key r.timestamp).1
  else idx.put r.key offset (BitVec.ofNat 32 r.value.length) r.timestamp

/-- The index a log replays to, its first record being at `offset`. -/
def replay : List Record → Nat → Index → Index
  | [], _, idx => idx
  | r :: rs, offset, idx => replay rs (offset + r.encode.length) (idx.apply offset r)

theorem replay_snoc (rs : List Record) (r : Record) (offset : Nat) (idx : Index) :
    replay (rs ++ [r]) offset idx = (replay rs offset idx).apply (offset + (encodeLog rs).length) r := by
  induction rs generalizing offset idx with
  | nil => rfl
  | cons r' rs ih => simp [replay, ih, encodeLog, Nat.add_assoc]

theorem rebuildLoop_nil (offset : Nat) (idx : Index) : Bitcask.rebuildLoop [] offset idx = .ok idx := by
  rw [Bitcask.rebuildLoop]; rfl

/-- `rebuildIndex`'s loop reads a log of fitting records one record at a time, replaying each,
and then goes on with whatever follows the log. -/
theorem rebuildLoop_encodeLog_append (rs : List Record) (hf : ∀ r ∈ rs, r.Fits) (rest : Bytes)
    (offset : Nat) (idx : Index) :
    Bitcask.rebuildLoop (encodeLog rs ++ rest) offset idx =
      Bitcask.rebuildLoop rest (offset + (encodeLog rs).length) (replay rs offset idx) := by
  induction rs generalizing offset idx with
  | nil => rfl
  | cons r rs ih =>
    have hr := readEntry_encodeRecord r.key r.value r.timestamp r.isDeleted
      (hf r (List.mem_cons_self _ _)) (encodeLog rs ++ rest) offset
    simp only [encodeLog, Record.encode, List.append_assoc] at hr ⊢
    rw [Bitcask.rebuildLoop]
    split
    next h => simp [hr] at h
    next e _ h => simp [hr] at h
    next entry n h =>
      simp only [hr, Except.ok.injEq, Prod.mk.injEq] at h
      obtain ⟨rfl, rfl⟩ := h
      rw [List.drop_left, ih (fun r' h' => hf r' (List.mem_cons_of_mem _ h'))]
      simp [replay, Index.apply, Record.encode, Nat.add_assoc]

/-- `rebuildIndex`'s loop over the bytes of a log of fitting records replays the log. -/
theorem rebuildLoop_encodeLog (rs : List Record) (hf : ∀ r ∈ rs, r.Fits) (offset : Nat)
    (idx : Index) : Bitcask.rebuildLoop (encodeLog rs) offset idx = .ok (replay rs offset idx) := by
  simpa [rebuildLoop_nil] using rebuildLoop_encodeLog_append rs hf [] offset idx

/-! ### A log as a map -/

/-- What a record does to the map. -/
def Store.apply (s : Store) (r : Record) : Store :=
  if r.isDeleted then s.delete r.key r.timestamp else s.put r.key r.value r.timestamp

/-- What a log says as a map. -/
def storeOf (log : List Record) : Store := log.foldl Store.apply Store.empty

/-- An index agrees with a map over the bytes of a file: the same keys, the same timestamps and
tombstone flags, and each live entry at a record of the key's value and timestamp. -/
structure Agrees (bytes : Bytes) (idx : Index) (s : Store) : Prop where
  absent : ∀ key, s key = none → idx.get key = none
  present : ∀ key v, s key = some v → ∃ e, idx.get key = some e ∧ e.isDeleted = v.isDeleted ∧
    e.timestamp = v.timestamp ∧ (v.isDeleted = false → Fits key v.value ∧
      ∃ rest, bytes.drop e.offset = encodeRecord key v.value v.timestamp false ++ rest)

/-- Every entry of the index is a key of the map, with its flag and timestamp. -/
theorem Agrees.of_get {bytes : Bytes} {idx : Index} {s : Store} (h : Agrees bytes idx s)
    {key : Bytes} {e : IndexEntry} (he : idx.get key = some e) :
    ∃ v, s key = some v ∧ e.isDeleted = v.isDeleted ∧ e.timestamp = v.timestamp ∧
      (v.isDeleted = false → Fits key v.value ∧
        ∃ rest, bytes.drop e.offset = encodeRecord key v.value v.timestamp false ++ rest) := by
  rcases hs : s key with _ | v
  · rw [h.absent key hs] at he; cases he
  · obtain ⟨e', he', hloc⟩ := h.present key v hs
    rw [he, Option.some.injEq] at he'
    subst he'
    exact ⟨v, rfl, hloc⟩

theorem drop_append_of_drop_eq {bytes pre rest : Bytes} {n : Nat} (h : bytes.drop n = pre ++ rest)
    (hpre : pre ≠ []) (tail : Bytes) : (bytes ++ tail).drop n = pre ++ (rest ++ tail) := by
  have hn : n ≤ bytes.length := by
    by_contra hlt
    rw [List.drop_eq_nil_of_le (by omega)] at h
    exact hpre (List.append_eq_nil.mp h.symm).1
  rw [List.drop_append_of_le_length hn, h, List.append_assoc]

theorem encodeRecord_ne_nil (key value : Bytes) (timestamp : Timestamp) (isDeleted : Bool) :
    encodeRecord key value timestamp isDeleted ≠ [] := by
  rw [← List.length_pos, length_encodeRecord, headerSize]; omega

/-- Appending bytes keeps every located record where it was. -/
theorem Agrees.append {bytes : Bytes} {idx : Index} {s : Store} (h : Agrees bytes idx s)
    (tail : Bytes) (key : Bytes) (v : Version) (hv : s key = some v) :
    ∃ e, idx.get key = some e ∧ e.isDeleted = v.isDeleted ∧ e.timestamp = v.timestamp ∧
      (v.isDeleted = false → Fits key v.value ∧
        ∃ rest, (bytes ++ tail).drop e.offset = encodeRecord key v.value v.timestamp false ++ rest) := by
  obtain ⟨e, he, hd, ht, hloc⟩ := h.present key v hv
  refine ⟨e, he, hd, ht, fun hl => ?_⟩
  obtain ⟨hf, rest, hr⟩ := hloc hl
  exact ⟨hf, _, drop_append_of_drop_eq hr (encodeRecord_ne_nil _ _ _ _) tail⟩

/-- A put record keeps the agreement. -/
theorem Agrees.put {bytes : Bytes} {idx : Index} {s : Store} (h : Agrees bytes idx s)
    (key value : Bytes) (timestamp : Timestamp) (hf : Fits key value) :
    Agrees (bytes ++ encodeRecord key value timestamp false)
      (idx.put key bytes.length (BitVec.ofNat 32 value.length) timestamp)
      (s.put key value timestamp) := by
  constructor
  · intro k hk
    by_cases hkey : k = key
    · subst hkey; simp at hk
    · rw [Index.get_put_ne _ hkey]; exact h.absent k (by rwa [Store.put_ne _ hkey] at hk)
  · intro k v hk
    by_cases hkey : k = key
    · subst hkey
      simp only [Store.put_self, Option.some.injEq] at hk
      subst hk
      exact ⟨_, Index.get_put_self .., rfl, rfl, fun _ => ⟨hf, [], by simp⟩⟩
    · rw [Index.get_put_ne _ hkey]
      exact h.append _ k v (by rwa [Store.put_ne _ hkey] at hk)

/-- A tombstone record keeps the agreement. -/
theorem Agrees.delete {bytes : Bytes} {idx : Index} {s : Store} (h : Agrees bytes idx s)
    (key : Bytes) (timestamp : Timestamp) (tail : Bytes) :
    Agrees (bytes ++ tail) (idx.delete key timestamp).1 (s.delete key timestamp) := by
  constructor
  · intro k hk
    by_cases hkey : k = key
    · subst hkey
      obtain ⟨v, hv, _⟩ := Store.delete_self s k timestamp
      rw [hv] at hk; cases hk
    · rw [Index.get_delete_ne _ hkey]; exact h.absent k (by rwa [Store.delete_ne _ hkey] at hk)
  · intro k v hk
    by_cases hkey : k = key
    · subst hkey
      rw [Index.get_delete_self]
      rw [Store.delete_apply_self] at hk
      rcases hs : s k with _ | w <;> rw [hs] at hk
      · rw [h.absent k hs]
        cases hk
        exact ⟨_, rfl, rfl, rfl, nofun⟩
      · obtain ⟨e, he, hd, ht, -⟩ := h.present k w hs
        rw [he]
        dsimp only
        rw [hd]
        cases hw : w.isDeleted <;> simp only [hw, if_true, if_false, Bool.false_eq_true] at hk ⊢ <;>
          cases hk
        · exact ⟨_, rfl, rfl, rfl, nofun⟩
        · exact ⟨e, rfl, hd, ht, fun h' => Bool.noConfusion (hw.symm.trans h')⟩
    · rw [Index.get_delete_ne _ hkey]
      exact h.append _ k v (by rwa [Store.delete_ne _ hkey] at hk)

/-- One record, replayed into the index and applied to the map, keeps the agreement. -/
theorem Agrees.apply {bytes : Bytes} {idx : Index} {s : Store} (h : Agrees bytes idx s)
    (r : Record) (hr : r.Fits) :
    Agrees (bytes ++ r.encode) (idx.apply bytes.length r) (s.apply r) := by
  unfold Index.apply Store.apply Record.encode
  cases hd : r.isDeleted
  · simpa [hd] using h.put r.key r.value r.timestamp hr
  · simpa [hd] using h.delete r.key r.timestamp _

theorem agrees_empty : Agrees [] Index.empty Store.empty :=
  ⟨fun _ _ => rfl, fun _ _ h => by cases h⟩

theorem Agrees.replay {bytes : Bytes} {idx : Index} {s : Store} (h : Agrees bytes idx s)
    (rs : List Record) (hf : ∀ r ∈ rs, r.Fits) :
    Agrees (bytes ++ encodeLog rs) (replay rs bytes.length idx) (rs.foldl Store.apply s) := by
  induction rs generalizing bytes idx s with
  | nil => simpa using h
  | cons r rs ih =>
    have := ih (h.apply r (hf r (List.mem_cons_self _ _)))
      (fun r' h' => hf r' (List.mem_cons_of_mem _ h'))
    simpa [replay, encodeLog, List.append_assoc] using this

/-- The replayed index of a log agrees with what the log says, over the log's bytes. -/
theorem agrees_replay (log : List Record) (hf : ∀ r ∈ log, r.Fits) :
    Agrees (encodeLog log) (replay log 0 Index.empty) (storeOf log) := by
  simpa using agrees_empty.replay log hf

end MiniDynamo.Storage
