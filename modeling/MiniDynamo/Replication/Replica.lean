import MiniDynamo.Storage.Store

/-! A replica's engine, as the cluster writes to it.

A version of a key reaches a replica's store by four paths: the coordinator's own write in
`replicateToNodes` (`Store.put`), a replication request handled by `handleReplication`, which
read repair's remote branch and hint delivery also send, and the local branch of `readRepair`
(`repairLocal`). Only the last compares timestamps, and even it overwrites a tombstone of any
timestamp: it repairs whenever the local `Get` fails. So a replica keeps the version delivered
last, not the newest (`replica_keeps_last_delivered`).

Replicas are the engine's abstract store (`Store`, which the Bitcask refines); a key is stored
under its bytes, and timestamps are the engine's 64-bit words, compared as `int64`. -/
namespace MiniDynamo.Replication

open Storage

/-- `types.KeyValueEntry` as replicas exchange it; its vector clock is never set nor read. -/
@[ext]
structure KeyValueEntry where
  key : String
  value : Bytes
  timestamp : Timestamp
  isDeleted : Bool
  deriving DecidableEq, Repr

/-- The bytes the engine stores a key under (`[]byte(key)`). -/
def keyBytes (key : String) : Bytes := key.toUTF8.data.toList

/-- `handleReplication`: the entry's tombstone or value is written at its timestamp, whatever the
replica holds. -/
def handleReplication (s : Store) (e : KeyValueEntry) : Store :=
  if e.isDeleted then s.delete (keyBytes e.key) e.timestamp
  else s.put (keyBytes e.key) e.value e.timestamp

/-- The local branch of `readRepair`: the latest version is written when the local `Get` fails,
when it is older, or when it has the same timestamp and another value. -/
def repairLocal (s : Store) (latest : KeyValueEntry) : Store :=
  match s.get (keyBytes latest.key) with
  | .ok (value, timestamp) =>
    if timestamp.toInt < latest.timestamp.toInt then
      s.put (keyBytes latest.key) latest.value latest.timestamp
    else if timestamp = latest.timestamp ∧ value ≠ latest.value then
      s.put (keyBytes latest.key) latest.value latest.timestamp
    else s
  | .error _ => s.put (keyBytes latest.key) latest.value latest.timestamp

/-- What a replica answers a read with (`handleInternalRead`, and the local read of
`readFromNodes`): its live version, or nothing for a missing or deleted key. -/
def read (s : Store) (key : String) : Option KeyValueEntry :=
  match s.get (keyBytes key) with
  | .ok (value, timestamp) => some ⟨key, value, timestamp, false⟩
  | .error _ => none

/-! ### What each path installs -/

section Paths

variable (s : Store)

@[simp] theorem get_put_self (key value : Bytes) (timestamp : Timestamp) :
    (s.put key value timestamp).get key = .ok (value, timestamp) := by
  simp [Store.get]

theorem get_eq_ok {key : Bytes} {value : Bytes} {timestamp : Timestamp} :
    s.get key = .ok (value, timestamp) ↔ s key = some ⟨value, timestamp, false⟩ := by
  unfold Store.get
  rcases s key with _ | ⟨value', timestamp', _ | _⟩ <;> simp [and_comm, eq_comm]

theorem read_eq_some {key : String} {e : KeyValueEntry} :
    read s key = some e ↔ e.key = key ∧ e.isDeleted = false ∧ s.get (keyBytes key) = .ok (e.value, e.timestamp) := by
  unfold read
  split
  next value timestamp h =>
    obtain ⟨key', value', timestamp', isDeleted'⟩ := e
    simp only [Option.some.injEq, KeyValueEntry.mk.injEq, h, Except.ok.injEq, Prod.mk.injEq]
    constructor
    · rintro ⟨rfl, rfl, rfl, rfl⟩
      exact ⟨rfl, rfl, rfl, rfl⟩
    · rintro ⟨rfl, rfl, rfl, rfl⟩
      exact ⟨rfl, rfl, rfl, rfl⟩
  next h => simp only [h, reduceCtorEq, false_iff, not_and]; exact fun _ _ h' => nomatch h'

/-- A read sees only the version under the key's bytes. -/
theorem read_congr {s' : Store} {key : String} (h : s (keyBytes key) = s' (keyBytes key)) :
    read s key = read s' key := by
  simp only [read, Store.get, h]

theorem read_of_live {key : String} {value : Bytes} {timestamp : Timestamp}
    (h : s (keyBytes key) = some ⟨value, timestamp, false⟩) :
    read s key = some ⟨key, value, timestamp, false⟩ := by
  simp [read, Store.get, h]

theorem handleReplication_ne {e : KeyValueEntry} {k : Bytes} (hk : k ≠ keyBytes e.key) :
    handleReplication s e k = s k := by
  unfold handleReplication
  split
  · exact s.delete_ne hk _
  · exact s.put_ne hk _ _

/-- Under its key a replication request leaves what was there, or a version with its timestamp:
its value, unless it is a tombstone. -/
theorem handleReplication_at (e : KeyValueEntry) :
    handleReplication s e (keyBytes e.key) = s (keyBytes e.key) ∨
      ∃ v, handleReplication s e (keyBytes e.key) = some v ∧ v.timestamp = e.timestamp ∧
        (e.isDeleted = false → v = ⟨e.value, e.timestamp, false⟩) := by
  unfold handleReplication
  cases hd : e.isDeleted
  · exact .inr ⟨_, by simp, rfl, fun _ => rfl⟩
  · simp only [if_true, Store.delete]
    rcases h : s (keyBytes e.key) with _ | v
    · exact .inr ⟨⟨[], e.timestamp, true⟩, by simp, rfl, fun h => nomatch h⟩
    · dsimp only
      split
      · exact .inl h
      · exact .inr ⟨{ v with isDeleted := true, timestamp := e.timestamp }, by simp, rfl,
          fun h => nomatch h⟩

theorem repairLocal_ne {latest : KeyValueEntry} {k : Bytes} (hk : k ≠ keyBytes latest.key) :
    repairLocal s latest k = s k := by
  unfold repairLocal
  rcases s.get (keyBytes latest.key) with _ | ⟨value, timestamp⟩
  · exact s.put_ne hk _ _
  · dsimp only
    split_ifs
    · exact s.put_ne hk _ _
    · exact s.put_ne hk _ _
    · rfl

/-- Under its key the local branch of read repair leaves what was there, or the latest version. -/
theorem repairLocal_at (latest : KeyValueEntry) :
    repairLocal s latest (keyBytes latest.key) = s (keyBytes latest.key) ∨
      repairLocal s latest (keyBytes latest.key) = some ⟨latest.value, latest.timestamp, false⟩ := by
  unfold repairLocal
  rcases s.get (keyBytes latest.key) with _ | ⟨value, timestamp⟩
  · exact .inr (by simp)
  · dsimp only
    split_ifs
    · exact .inr (by simp)
    · exact .inr (by simp)
    · exact .inl rfl

/-- A replication request for a value leaves the replica holding it, whatever it held. -/
theorem handleReplication_live {e : KeyValueEntry} (he : e.isDeleted = false) :
    handleReplication s e (keyBytes e.key) = some ⟨e.value, e.timestamp, false⟩ := by
  simp [handleReplication, he]

/-- The local branch of read repair writes over a tombstone, whatever its timestamp. -/
theorem repairLocal_tombstone {latest : KeyValueEntry} {v : Version}
    (hs : s (keyBytes latest.key) = some v) (hd : v.isDeleted = true) :
    repairLocal s latest (keyBytes latest.key) = some ⟨latest.value, latest.timestamp, false⟩ := by
  simp [repairLocal, Store.get, hs, hd]

/-- Against a live version, the local branch of read repair is last-writer-wins: a version at
least as new stays. -/
theorem repairLocal_newer {latest : KeyValueEntry} {value : Bytes} {timestamp : Timestamp}
    (hs : s.get (keyBytes latest.key) = .ok (value, timestamp))
    (hle : latest.timestamp.toInt ≤ timestamp.toInt)
    (heq : timestamp = latest.timestamp → value = latest.value) :
    repairLocal s latest = s := by
  unfold repairLocal
  rw [hs]
  dsimp only
  rw [if_neg (by omega), if_neg fun h => h.2 (heq h.1)]

end Paths

/-- Version 200 then version 100 delivered to a replica leave version 100; and the local branch
of read repair puts a version of timestamp 100 over a tombstone of timestamp 300. -/
theorem replica_keeps_last_delivered :
    handleReplication (handleReplication Store.empty ⟨"k", [1], 200, false⟩) ⟨"k", [2], 100, false⟩
      (keyBytes "k") = some ⟨[2], 100, false⟩ ∧
    repairLocal (Store.empty.delete (keyBytes "k") 300) ⟨"k", [1], 100, false⟩ (keyBytes "k") =
      some ⟨[1], 100, false⟩ := by
  decide

end MiniDynamo.Replication
