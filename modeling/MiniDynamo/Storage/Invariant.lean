import MiniDynamo.Storage.Log

/-! The engine's invariant: it holds a log.

`Holds bc log` says that the engine's bytes, the file and the writer's buffer together, are the
encoding of `log`, that the position is their length, and that the index is `log` replayed from
offset zero, counters included. `NewBitcask` on the bytes of a log builds a state that holds it
(`open_encodeLog`); `Put` and `Delete` append their record to the log, and `Get`, `Sync` and
`Close` keep it (compaction, which rewrites it, is `Compaction.lean`).

While it holds, the engine answers what the log says as a map: `get_eq`, `has_eq`, and
`mem_liveKeys` for the keys `Keys` lists when it does not panic. -/
namespace MiniDynamo.Storage

/-- The engine holds `log`. -/
structure Holds (bc : Bitcask) (log : List Record) : Prop where
  fits : ∀ r ∈ log, r.Fits
  data : bc.data = encodeLog log
  position : bc.position = (encodeLog log).length
  index : bc.index = replay log 0 Index.empty

/-- `NewBitcask` on the bytes of a log of fitting records succeeds, with the log replayed. -/
theorem open_encodeLog (log : List Record) (hf : ∀ r ∈ log, r.Fits) (syncWrite : Bool) :
    Bitcask.open_ (encodeLog log) syncWrite =
      .ok ⟨encodeLog log, [], (encodeLog log).length, replay log 0 Index.empty,
        (encodeLog log).length, false, syncWrite, 0, 0⟩ := by
  unfold Bitcask.open_
  dsimp only
  split
  · simp only [Bitcask.rebuildIndex, rebuildLoop_encodeLog log hf]
  · cases log with
    | nil => rfl
    | cons r rs =>
      simp [encodeLog, Record.encode, length_encodeRecord, headerSize] at *

theorem holds_of_open {log : List Record} (hf : ∀ r ∈ log, r.Fits) {syncWrite : Bool}
    {bc : Bitcask} (h : Bitcask.open_ (encodeLog log) syncWrite = .ok bc) :
    Holds bc log ∧ bc.closed = false := by
  rw [open_encodeLog log hf, Except.ok.injEq] at h
  subst h
  exact ⟨⟨hf, List.append_nil _, rfl, rfl⟩, rfl⟩

namespace Holds

variable {bc : Bitcask} {log : List Record}

/-- Only the bytes, the position and the index matter. -/
theorem congr (h : Holds bc log) {bc' : Bitcask} (hd : bc'.data = bc.data)
    (hp : bc'.position = bc.position) (hi : bc'.index = bc.index) : Holds bc' log :=
  ⟨h.fits, hd.trans h.data, hp.trans h.position, hi.trans h.index⟩

theorem agrees (h : Holds bc log) : Agrees bc.data bc.index (storeOf log) := by
  rw [h.data, h.index]
  exact agrees_replay log h.fits

/-! ### Each operation -/

/-- `Put` appends its record. -/
theorem put (h : Holds bc log) (hc : bc.closed = false) {key value : Bytes} (hf : Fits key value)
    (timestamp : Timestamp) :
    Holds (bc.put key value timestamp).2 (log ++ [⟨key, value, timestamp, false⟩]) := by
  simp only [Bitcask.put, hc]
  refine ⟨?_, ?_, ?_, ?_⟩
  · simpa [or_imp, forall_and] using ⟨h.fits, hf⟩
  · show (Bitcask.writeEntry _ key value timestamp false).2.data = _
    rw [Bitcask.data_writeEntry, encodeLog_snoc, ← h.data]; rfl
  · simp [h.position, Record.encode]
  · simp [h.index, replay_snoc, Index.apply, h.position]

/-- `Delete` appends a tombstone. -/
theorem delete (h : Holds bc log) (hc : bc.closed = false) {key : Bytes} (hf : Fits key [])
    (timestamp : Timestamp) :
    Holds (bc.delete key timestamp).2 (log ++ [⟨key, [], timestamp, true⟩]) := by
  simp only [Bitcask.delete, hc]
  refine ⟨?_, ?_, ?_, ?_⟩
  · simpa [or_imp, forall_and] using ⟨h.fits, hf⟩
  · show (Bitcask.writeEntry _ key [] timestamp true).2.data = _
    rw [Bitcask.data_writeEntry, encodeLog_snoc, ← h.data]; rfl
  · simp [h.position, Record.encode]
  · simp [h.index, replay_snoc, Index.apply, h.position]

theorem get (h : Holds bc log) (key : Bytes) : Holds (bc.get key).2 log :=
  h.congr (by simp) (by simp) (by simp)

theorem sync (h : Holds bc log) : Holds bc.sync.2 log := by
  unfold Bitcask.sync; split
  · exact h
  · exact h.congr (by simp) (by simp) (by simp)

theorem close (h : Holds bc log) : Holds bc.close.2 log := by
  unfold Bitcask.close; split
  · exact h
  · exact h.congr (by simp [Bitcask.data]) (by simp) (by simp)

/-! ### What the engine answers -/

/-- `Get` on an open engine answers what the log says. -/
theorem get_eq (h : Holds bc log) (hc : bc.closed = false) (key : Bytes) :
    (bc.get key).1 = (storeOf log).get key := by
  have ha := h.agrees
  unfold Bitcask.get Store.get
  simp only [hc, Bool.false_eq_true, if_false]
  rcases hs : storeOf log key with _ | v
  · simp [ha.absent key hs]
  · obtain ⟨e, he, hd, -, hloc⟩ := ha.present key v hs
    cases hv : v.isDeleted
    · obtain ⟨hf, rest, hr⟩ := hloc hv
      have hr : (bc.file ++ bc.buffer).drop e.offset = _ := hr
      simp [he, hd, hv, Bitcask.data, hr, readEntry_encodeRecord _ _ _ _ hf]
    · simp [he, hd, hv]

theorem has_eq (h : Holds bc log) (hc : bc.closed = false) (key : Bytes) :
    bc.has key = (storeOf log).has key := by
  have ha := h.agrees
  simp only [Bitcask.has, hc, Bool.false_eq_true, if_false, Index.has, Store.has]
  rcases hs : storeOf log key with _ | v
  · simp [ha.absent key hs]
  · obtain ⟨e, he, hd, -⟩ := ha.present key v hs
    simp [he, hd]

theorem mem_liveKeys (h : Holds bc log) (hc : bc.closed = false) (key : Bytes) :
    key ∈ bc.index.liveKeys ↔ (storeOf log).has key = true := by
  rw [← h.has_eq hc, Bitcask.has, hc]
  simp [Index.mem_liveKeys, Index.has_eq]

end Holds

end MiniDynamo.Storage
