import MiniDynamo.Storage.Codec
import Mathlib.Data.List.AList

/-! The in-memory index (`index.go`).

A hash map from each key to where its latest record lies, with two counters, `active` and
`deleted`, that `Put` and `Delete` adjust as they go. `Put` replaces an entry unconditionally;
`Delete` turns a live entry into a tombstone carrying the new timestamp, creates a tombstone
for a missing key, and leaves a tombstone as it is (its timestamp included).

The Go map is an association list: its order is one of the map's iteration orders, and no
result below depends on it. -/
namespace MiniDynamo.Storage

/-- `IndexEntry`: where the record starts, `int32` of its value length, its timestamp, and the
tombstone flag. -/
structure IndexEntry where
  offset : Nat
  size : BitVec 32
  timestamp : Timestamp
  isDeleted : Bool
  deriving DecidableEq, Repr

/-- `Index`: the map and the counters `stats.active` and `stats.deleted`. -/
structure Index where
  entries : AList (fun _ : Bytes => IndexEntry)
  active : Int
  deleted : Int

namespace Index

/-- `NewIndex`. -/
def empty : Index := ⟨∅, 0, 0⟩

/-- `Index.Get` (a copy of the entry). -/
def get (idx : Index) (key : Bytes) : Option IndexEntry := idx.entries.lookup key

/-- `Index.Put`: the counters first, then the entry, replaced whatever it was. -/
def put (idx : Index) (key : Bytes) (offset : Nat) (size : BitVec 32) (timestamp : Timestamp) :
    Index :=
  let counted : Index :=
    match idx.get key with
    | some existing => if existing.isDeleted then { idx with deleted := idx.deleted - 1 } else idx
    | none => { idx with active := idx.active + 1 }
  { counted with entries := idx.entries.insert key ⟨offset, size, timestamp, false⟩ }

/-- `Index.Delete`, with its result: whether a live entry was turned into a tombstone. -/
def delete (idx : Index) (key : Bytes) (timestamp : Timestamp) : Index × Bool :=
  match idx.get key with
  | none =>
    ({ idx with entries := idx.entries.insert key ⟨0, 0, timestamp, true⟩,
                deleted := idx.deleted + 1 }, false)
  | some entry =>
    if !entry.isDeleted then
      (⟨idx.entries.insert key { entry with isDeleted := true, timestamp := timestamp },
        idx.active - 1, idx.deleted + 1⟩, true)
    else (idx, false)

/-- `Index.Has`. -/
def has (idx : Index) (key : Bytes) : Bool :=
  match idx.get key with
  | some entry => !entry.isDeleted
  | none => false

/-- The keys whose entry is not a tombstone, in iteration order: what `Keys`' loop appends. -/
def liveKeys (idx : Index) : List Bytes :=
  (idx.entries.entries.filter fun e => !e.2.isDeleted).map Sigma.fst

/-- `Index.Keys`: `make([]string, 0, stats.active)` panics on a negative capacity (`none`);
otherwise the live keys. -/
def keys (idx : Index) : Option (List Bytes) := if idx.active < 0 then none else some idx.liveKeys

/-- `Index.Count`. -/
def count (idx : Index) : Int := idx.active

/-- `Index.DeletedCount`. -/
def deletedCount (idx : Index) : Int := idx.deleted

/-- `Index.Size`: entries, tombstones included. -/
def size (idx : Index) : Nat := idx.entries.entries.length

/-- `Index.All`: every entry, in iteration order. -/
def all (idx : Index) : List (Bytes × IndexEntry) := idx.entries.entries.map fun e => (e.1, e.2)

/-- `Index.Clear`. -/
def clear (_ : Index) : Index := empty

/-! ### Lookups after each operation -/

@[simp] theorem get_empty (key : Bytes) : empty.get key = none := rfl

@[simp] theorem get_put_self (idx : Index) (key : Bytes) (offset : Nat) (size : BitVec 32)
    (timestamp : Timestamp) :
    (idx.put key offset size timestamp).get key = some ⟨offset, size, timestamp, false⟩ := by
  simp [put, get, AList.lookup_insert]

theorem get_put_ne (idx : Index) {key key' : Bytes} (h : key' ≠ key) (offset : Nat)
    (size : BitVec 32) (timestamp : Timestamp) :
    (idx.put key offset size timestamp).get key' = idx.get key' := by
  simp [put, get, AList.lookup_insert_ne h]

/-- After `Delete`, the key's entry is a tombstone. Its timestamp is the new one unless the
entry already was a tombstone. -/
theorem get_delete_self (idx : Index) (key : Bytes) (timestamp : Timestamp) :
    (idx.delete key timestamp).1.get key =
      match idx.get key with
      | none => some ⟨0, 0, timestamp, true⟩
      | some entry =>
        if entry.isDeleted then some entry else some { entry with isDeleted := true, timestamp } := by
  unfold delete
  rcases h : idx.get key with _ | entry
  · simp [get, AList.lookup_insert]
  · cases hd : entry.isDeleted <;> simp_all [get, AList.lookup_insert]

theorem get_delete_ne (idx : Index) {key key' : Bytes} (h : key' ≠ key) (timestamp : Timestamp) :
    (idx.delete key timestamp).1.get key' = idx.get key' := by
  unfold delete
  rcases idx.get key with _ | entry
  · simp [get, AList.lookup_insert_ne h]
  · cases hd : entry.isDeleted <;> simp [get, AList.lookup_insert_ne h, hd]

theorem isDeleted_of_get_delete (idx : Index) (key : Bytes) (timestamp : Timestamp)
    {e : IndexEntry} (h : (idx.delete key timestamp).1.get key = some e) : e.isDeleted = true := by
  rw [get_delete_self] at h
  rcases hk : idx.get key with _ | entry <;> rw [hk] at h
  · cases h; rfl
  · cases hd : entry.isDeleted <;> simp only [hd, if_true, if_false, Bool.false_eq_true,
      Option.some.injEq] at h <;> subst h
    · rfl
    · exact hd

/-! ### Observations -/

theorem has_eq (idx : Index) (key : Bytes) :
    idx.has key = true ↔ ∃ e, idx.get key = some e ∧ e.isDeleted = false := by
  unfold has
  rcases idx.get key with _ | e <;> simp

theorem mem_all {idx : Index} {key : Bytes} {e : IndexEntry} :
    (key, e) ∈ idx.all ↔ idx.get key = some e := by
  simp only [all, get, List.mem_map, Prod.mk.injEq]
  constructor
  · rintro ⟨⟨k, e'⟩, hm, rfl, rfl⟩
    exact AList.mem_lookup_iff.mpr hm
  · exact fun hm => ⟨⟨key, e⟩, AList.mem_lookup_iff.mp hm, rfl, rfl⟩

theorem nodup_all_keys (idx : Index) : (idx.all.map Prod.fst).Nodup := by
  simpa [all, Function.comp_def] using idx.entries.nodupKeys

theorem mem_liveKeys {idx : Index} {key : Bytes} :
    key ∈ idx.liveKeys ↔ ∃ e, idx.get key = some e ∧ e.isDeleted = false := by
  simp only [liveKeys, get, List.mem_map, List.mem_filter, Bool.not_eq_true']
  constructor
  · rintro ⟨⟨k, e⟩, ⟨hm, hd⟩, rfl⟩
    exact ⟨e, AList.mem_lookup_iff.mpr hm, hd⟩
  · rintro ⟨e, hm, hd⟩
    exact ⟨⟨key, e⟩, ⟨AList.mem_lookup_iff.mp hm, hd⟩, rfl⟩

theorem nodup_liveKeys (idx : Index) : idx.liveKeys.Nodup :=
  ((List.filter_sublist _).map Sigma.fst).nodup idx.entries.nodupKeys

/-- What `Keys` answers, when it answers, is the live keys. -/
theorem eq_liveKeys_of_keys {idx : Index} {ks : List Bytes} (h : idx.keys = some ks) :
    ks = idx.liveKeys := by
  unfold keys at h
  split at h
  · cases h
  · exact (Option.some.inj h).symm

end Index

end MiniDynamo.Storage
