import MiniDynamo.Storage.Bitcask

/-! The index counters (`index.go`).

`Index` keeps `stats.active` and `stats.deleted` beside its map and adjusts them in `Put` and
`Delete` by what it finds under the key; `Count`, `DeletedCount` and `Stats` report them. They
are meant to count the live entries and the tombstones (`liveCount`, `tombCount`). `Delete`
keeps both exact, and so does a `Put` over a missing or live entry; a `Put` over a tombstone
takes it off `deleted` but does not count the new live entry in `active`. So along every run
`deleted` is exact and `active` falls short of the live entries by the number of `Put`s that
found a tombstone (`counters_exec`): Put, Delete, Put leaves one live key with `Count() = 0`,
and a further Delete makes `Count()` negative (`count_after_put_delete_put`), after which `Keys()`
panics. `Clear`, like the
fresh index `Compact` builds, starts again from `NewIndex`. -/
namespace MiniDynamo.Storage

namespace Index

/-- The live entries: what `stats.active` is meant to count. -/
def liveCount (idx : Index) : Nat := idx.entries.entries.countP fun e => !e.2.isDeleted

/-- The tombstones: what `stats.deleted` is meant to count. -/
def tombCount (idx : Index) : Nat := idx.entries.entries.countP fun e => e.2.isDeleted

/-- Whether the key holds a tombstone. -/
def isTomb (idx : Index) (key : Bytes) : Bool := (idx.get key).any (·.isDeleted)

/-- Inserting under a key counts the new entry, and no longer the one it replaces. -/
theorem countP_insert (s : AList fun _ : Bytes => IndexEntry) (a : Bytes) (b : IndexEntry)
    (q : IndexEntry → Bool) :
    ((s.insert a b).entries.countP fun e => q e.2) + (s.lookup a).elim 0 (fun old => if q old then 1 else 0) =
      (s.entries.countP fun e => q e.2) + if q b then 1 else 0 := by
  rcases h : s.lookup a with _ | old
  · rw [AList.insert_entries_of_neg (AList.lookup_eq_none.mp h), List.countP_cons]
    rfl
  · have ha : a ∈ s.entries.keys := AList.mem_keys.mp (AList.lookup_isSome.mp (by rw [h]; rfl))
    obtain ⟨b₀, l₁, l₂, -, hl, hk⟩ := List.exists_of_kerase ha
    have hb : (⟨a, b₀⟩ : Sigma fun _ : Bytes => IndexEntry) ∈ s.entries := by rw [hl]; simp
    obtain rfl : b₀ = old := Option.some.inj ((AList.mem_lookup_iff.mpr hb).symm.trans h)
    rw [AList.insert_entries, hk, hl]
    simp only [List.countP_cons, List.countP_append, Option.elim]
    omega

@[simp] theorem liveCount_empty : empty.liveCount = 0 := rfl

@[simp] theorem tombCount_empty : empty.tombCount = 0 := rfl

theorem length_liveKeys (idx : Index) : idx.liveKeys.length = idx.liveCount := by
  rw [liveKeys, List.length_map, ← List.countP_eq_length_filter, liveCount]

/-! ### What each call does to the counters -/

section Calls

variable (idx : Index) (key : Bytes) (timestamp : Timestamp)

@[simp] theorem entries_put (offset : Nat) (size : BitVec 32) :
    (idx.put key offset size timestamp).entries =
      idx.entries.insert key ⟨offset, size, timestamp, false⟩ := rfl

/-- `Put` keeps `deleted` exact, and `active` exact unless it finds a tombstone, when it falls one
short. -/
theorem put_counters (offset : Nat) (size : BitVec 32) :
    let idx' := idx.put key offset size timestamp
    idx'.deleted - idx'.tombCount = idx.deleted - idx.tombCount ∧
      idx'.active - idx'.liveCount =
        idx.active - idx.liveCount - if idx.isTomb key then 1 else 0 := by
  have ht := countP_insert idx.entries key ⟨offset, size, timestamp, false⟩ (·.isDeleted)
  have hl := countP_insert idx.entries key ⟨offset, size, timestamp, false⟩ (!·.isDeleted)
  change _ + (idx.get key).elim _ _ = _ at ht hl
  simp only [tombCount, liveCount, entries_put, isTomb]
  unfold put
  split
  next e he =>
    cases hd : e.isDeleted <;> simp only [he, hd, Option.elim, Option.any_some, if_true, if_false,
      Bool.not_true, Bool.not_false, Bool.false_eq_true] at ht hl ⊢ <;> omega
  next he =>
    simp only [he, Option.elim, Option.any_none, Bool.not_false, Bool.false_eq_true, if_true,
      if_false] at ht hl ⊢
    omega

/-- `Delete` keeps both counters exact. -/
theorem delete_counters :
    let idx' := (idx.delete key timestamp).1
    idx'.deleted - idx'.tombCount = idx.deleted - idx.tombCount ∧
      idx'.active - idx'.liveCount = idx.active - idx.liveCount := by
  simp only [delete, get, tombCount, liveCount]
  rcases h : idx.entries.lookup key with _ | e
  · have ht := countP_insert idx.entries key ⟨0, 0, timestamp, true⟩ (·.isDeleted)
    have hl := countP_insert idx.entries key ⟨0, 0, timestamp, true⟩ (!·.isDeleted)
    simp only [h, Option.elim, Bool.not_true, Bool.false_eq_true, if_true, if_false] at ht hl ⊢
    omega
  · cases hd : e.isDeleted
    · have ht := countP_insert idx.entries key { e with isDeleted := true, timestamp } (·.isDeleted)
      have hl := countP_insert idx.entries key { e with isDeleted := true, timestamp } (!·.isDeleted)
      simp only [h, hd, Option.elim, Bool.not_true, Bool.not_false, Bool.false_eq_true, if_true,
        if_false, Bool.not_eq_true', ite_true, ite_false] at ht hl ⊢
      omega
    · simp [h, hd]

end Calls

/-! ### Along a run -/

/-- A call on the index as `Bitcask.Put` and `Delete`, `rebuildIndex` and `Compact` issue it. -/
inductive Op
  | put (key : Bytes) (offset : Nat) (size : BitVec 32) (timestamp : Timestamp)
  | delete (key : Bytes) (timestamp : Timestamp)
  deriving DecidableEq, Repr

def exec (idx : Index) : Op → Index
  | .put key offset size timestamp => idx.put key offset size timestamp
  | .delete key timestamp => (idx.delete key timestamp).1

/-- The `Put`s of a run that find a tombstone. -/
def revivals : Index → List Op → Nat
  | _, [] => 0
  | idx, op :: ops =>
    (match op with
      | .put key .. => if idx.isTomb key then 1 else 0
      | .delete .. => 0) + revivals (idx.exec op) ops

/-- Along every run `deleted` keeps its distance to the tombstone count, and `active` falls
behind the live count by one for every `Put` that finds a tombstone. -/
theorem counters_exec (idx : Index) (ops : List Op) :
    let idx' := ops.foldl exec idx
    idx'.deleted - idx'.tombCount = idx.deleted - idx.tombCount ∧
      idx'.active - idx'.liveCount = idx.active - idx.liveCount - revivals idx ops := by
  induction ops generalizing idx with
  | nil => simp [revivals]
  | cons op ops ih =>
    obtain ⟨hd, ha⟩ := ih (idx.exec op)
    simp only [List.foldl_cons, revivals] at hd ha ⊢
    cases op with
    | put key offset size timestamp =>
      obtain ⟨hd₁, ha₁⟩ := put_counters idx key timestamp offset size
      simp only [exec] at hd ha ⊢
      by_cases ht : idx.isTomb key <;> simp only [ht, if_true, if_false, Bool.false_eq_true] at ha₁ ⊢ <;>
        omega
    | delete key timestamp =>
      obtain ⟨hd₁, ha₁⟩ := delete_counters idx key timestamp
      simp only [exec] at hd ha ⊢
      omega

/-- From `NewIndex`, whatever the calls: `deleted` is the number of tombstones, and `active` plus
the number of `Put`s that found a tombstone is the number of live entries. -/
theorem counters_from_new (ops : List Op) :
    let idx := ops.foldl exec empty
    idx.deleted = idx.tombCount ∧ idx.active + revivals empty ops = idx.liveCount := by
  obtain ⟨hd, ha⟩ := counters_exec empty ops
  simp only [liveCount_empty, tombCount_empty, show empty.active = 0 from rfl,
    show empty.deleted = 0 from rfl] at hd ha
  exact ⟨by omega, by omega⟩

end Index

/-- `Put k`, `Delete k`, `Put k` on a fresh engine leave one live key, listed by `Keys()`, and
`Count() = 0`, with no tombstone counted; a second `Delete k` leaves no live key and
`Count() = -1`. -/
theorem count_after_put_delete_put :
    ((Bitcask.open_ [] false).toOption.map fun bc =>
      let bc₁ := (bc.put [107] [1] 1).2
      let bc₂ := (bc₁.delete [107] 2).2
      let bc₃ := (bc₂.put [107] [2] 3).2
      let bc₄ := (bc₃.delete [107] 4).2
      (bc₃.count, bc₃.keys, bc₃.stats.deletedKeys, bc₄.count)) =
      some (0, some [[107]], 0, -1) := by
  decide

end MiniDynamo.Storage
