import MiniDynamo.Storage.Codec
import Mathlib.Logic.Function.Basic

/-! What a storage engine is for (`engine.go`'s `Engine`), as a map.

A store maps each key to its latest version: a value with its timestamp, or a tombstone.
`put` replaces a version unconditionally; `delete` follows `Index.Delete` (a tombstone for a
missing key, a live version turned into one with the new timestamp, a tombstone left alone);
`compact` forgets tombstones; `get` answers as `Engine.Get` does. This is the level at which
the cluster is modelled, and what the Bitcask refines (`Refinement.lean`). -/
namespace MiniDynamo.Storage

/-- A key's latest version. -/
structure Version where
  value : Bytes
  timestamp : Timestamp
  isDeleted : Bool
  deriving DecidableEq, Repr

/-- The abstract store. -/
def Store := Bytes → Option Version

namespace Store

def empty : Store := fun _ => none

def put (s : Store) (key value : Bytes) (timestamp : Timestamp) : Store :=
  Function.update s key (some ⟨value, timestamp, false⟩)

def delete (s : Store) (key : Bytes) (timestamp : Timestamp) : Store :=
  match s key with
  | none => Function.update s key (some ⟨[], timestamp, true⟩)
  | some v => if v.isDeleted then s else Function.update s key (some { v with isDeleted := true, timestamp })

/-- Compaction keeps the live versions only. -/
def compact (s : Store) : Store := fun key =>
  match s key with
  | some v => if v.isDeleted then none else some v
  | none => none

/-- `Engine.Get`. -/
def get (s : Store) (key : Bytes) : Except Error (Bytes × Timestamp) :=
  match s key with
  | none => .error .keyNotFound
  | some v => if v.isDeleted then .error .keyDeleted else .ok (v.value, v.timestamp)

/-- `Engine.Has`. -/
def has (s : Store) (key : Bytes) : Bool :=
  match s key with
  | some v => !v.isDeleted
  | none => false

@[simp] theorem put_self (s : Store) (key value : Bytes) (timestamp : Timestamp) :
    s.put key value timestamp key = some ⟨value, timestamp, false⟩ := by
  simp [put]

@[simp] theorem put_ne (s : Store) {key key' : Bytes} (h : key' ≠ key) (value : Bytes)
    (timestamp : Timestamp) : s.put key value timestamp key' = s key' := by
  simp [put, Function.update_noteq h]

theorem delete_ne (s : Store) {key key' : Bytes} (h : key' ≠ key) (timestamp : Timestamp) :
    s.delete key timestamp key' = s key' := by
  unfold delete
  rcases s key with _ | v
  · simp [Function.update_noteq h]
  · dsimp only
    split <;> simp [Function.update_noteq h]

/-- Under its key a delete leaves a tombstone: the one there, unchanged; the live version's, at
the new timestamp; or an empty one for a missing key. -/
theorem delete_apply_self (s : Store) (key : Bytes) (timestamp : Timestamp) :
    s.delete key timestamp key = match s key with
      | none => some ⟨[], timestamp, true⟩
      | some v => if v.isDeleted then some v else some { v with isDeleted := true, timestamp } := by
  unfold delete
  rcases h : s key with _ | v
  · simp
  · cases hd : v.isDeleted <;> simp [h, hd]

/-- After `delete` the key holds a tombstone. -/
theorem delete_self (s : Store) (key : Bytes) (timestamp : Timestamp) :
    ∃ v, s.delete key timestamp key = some v ∧ v.isDeleted = true := by
  unfold delete
  rcases h : s key with _ | v
  · simp
  · cases hd : v.isDeleted <;> simp [h, hd]

end Store

end MiniDynamo.Storage
