import MiniDynamo.Storage.Invariant

/-! Concurrent readers: `Bitcask.Get` under the read lock.

`Get` holds only the read lock, so any number of `Get`s run at once, and each of them moves state
they all share: the writer's buffer, which `Flush` first writes out and then empties, and the
file's cursor, which that write (the file is opened with `O_APPEND`), the `Seek` and the read all
move. Here a `Get` is its steps: the index lookup, the two halves of `Flush`, the seek, and the
read of one record. The engine with its running `Get`s takes a step of one of them at a time
(`Readers.step`); `Put`, `Delete` and `Compact` take the write lock and do not run meanwhile.

Run alone, a `Get`'s steps compute `Bitcask.get` (`steps_start`). Interleaved, they do not:
a `Get` that has seeked can read where another `Get` seeked since, and `readEntry` does not
check the key it decodes (`get_reads_other_key`); and two `Get`s that flush at once write the
buffered records twice (`flush_twice`). -/
namespace MiniDynamo.Storage

/-- Where one `Get` is in its body. -/
inductive Reader
  | start (key : Bytes)
  | found (entry : IndexEntry)
  | flushing (entry : IndexEntry)
  | flushed (entry : IndexEntry)
  | seeked (entry : IndexEntry)
  | done (result : Except Error (Bytes × Timestamp))

namespace Reader

/-- One step of a `Get` on the engine it shares. -/
def step (bc : Bitcask) : Reader → Reader × Bitcask
  | start key =>
    if bc.closed then (done (.error .storageClosed), bc) else
    let bc := { bc with totalReads := bc.totalReads + 1 }
    match bc.index.get key with
    | none => (done (.error .keyNotFound), bc)
    | some entry => if entry.isDeleted then (done (.error .keyDeleted), bc) else (found entry, bc)
  | found entry =>
    if bc.buffer.isEmpty then (flushed entry, bc)
    else (flushing entry, { bc with file := bc.file ++ bc.buffer, cursor := (bc.file ++ bc.buffer).length })
  | flushing entry => (flushed entry, { bc with buffer := [] })
  | flushed entry => (seeked entry, { bc with cursor := entry.offset })
  | seeked entry =>
    match readEntry (bc.file.drop bc.cursor) entry.offset with
    | .error e => (done (.error (.failed "read entry" e)), bc)
    | .ok (read, n) => (done (.ok (read.value, read.timestamp)), { bc with cursor := bc.cursor + n })
  | done result => (done result, bc)

/-- `n` steps of a `Get` running alone. -/
def steps (bc : Bitcask) (r : Reader) : Nat → Reader × Bitcask
  | 0 => (r, bc)
  | n + 1 => (r.step bc).1.steps (r.step bc).2 n

/-- Alone, a `Get` is done within five steps, with `Bitcask.get`'s answer and state. -/
theorem steps_start (bc : Bitcask) (key : Bytes) :
    (start key).steps bc 5 = (done (bc.get key).1, (bc.get key).2) := by
  unfold Bitcask.get
  by_cases hc : bc.closed
  · simp [steps, step, hc]
  rcases he : bc.index.get key with _ | e
  · simp [steps, step, hc, he]
  by_cases hd : e.isDeleted
  · simp [steps, step, hc, he, hd]
  by_cases hb : bc.buffer.isEmpty
  · rcases hr : readEntry (bc.file.drop e.offset) e.offset with _ | ⟨read, n⟩ <;>
      simp [steps, step, hc, he, hd, hb, hr, Bitcask.flush]
  · rcases hr : readEntry ((bc.file ++ bc.buffer).drop e.offset) e.offset with _ | ⟨read, n⟩ <;>
      simp [steps, step, hc, he, hd, hb, hr, Bitcask.flush]

end Reader

/-- The engine and the `Get`s running on it. -/
structure Readers where
  bc : Bitcask
  gets : List Reader

namespace Readers

/-- `Get` number `i` takes a step. -/
def step (rs : Readers) (i : Nat) : Readers :=
  match rs.gets[i]? with
  | none => rs
  | some r => ⟨(r.step rs.bc).2, rs.gets.set i (r.step rs.bc).1⟩

/-- The `Get`s take steps in the order `schedule` names them. -/
def run (rs : Readers) (schedule : List Nat) : Readers := schedule.foldl step rs

end Readers

/-! ### Two interleavings -/

/-- Two `Get`s of live keys with nothing buffered: the first seeks to its entry, the second seeks
to its own, and the first then reads at the shared cursor, answering with whatever record starts
at the second's offset. -/
theorem run_reads_other_entry {bc : Bitcask} {key₁ key₂ : Bytes} {e₁ e₂ : IndexEntry}
    (hc : bc.closed = false) (hb : bc.buffer = []) (he₁ : bc.index.get key₁ = some e₁)
    (hd₁ : e₁.isDeleted = false) (he₂ : bc.index.get key₂ = some e₂) (hd₂ : e₂.isDeleted = false)
    {read : Entry} {n : Nat} (hr : readEntry (bc.file.drop e₂.offset) e₁.offset = .ok (read, n)) :
    (Readers.run ⟨bc, [.start key₁, .start key₂]⟩ [0, 0, 0, 1, 1, 1, 0]).gets[0]? =
      some (.done (.ok (read.value, read.timestamp))) := by
  simp [Readers.run, Readers.step, Reader.step, hc, hb, he₁, hd₁, he₂, hd₂, hr]

/-- `Get` of a live key, nothing buffered, answers the record at the key's offset. -/
theorem get_fst_of_read {bc : Bitcask} {key : Bytes} {e : IndexEntry} {read : Entry} {n : Nat}
    (hc : bc.closed = false) (he : bc.index.get key = some e) (hd : e.isDeleted = false)
    (hb : bc.buffer = []) (hr : readEntry (bc.file.drop e.offset) e.offset = .ok (read, n)) :
    (bc.get key).1 = .ok (read.value, read.timestamp) := by
  simp [Bitcask.get, hc, he, hd, Bitcask.flush, hb, hr]

/-- Two `Get`s of different keys on an engine opened on their two records: the first seeks to
its record, the second to its own, and the first then reads at the shared cursor and returns
the second key's value. Alone, it returns its own. -/
theorem get_reads_other_key {key₁ value₁ key₂ value₂ : Bytes} {timestamp₁ timestamp₂ : Timestamp}
    (hk : key₁ ≠ key₂) (hf₁ : Fits key₁ value₁) (hf₂ : Fits key₂ value₂) {syncWrite : Bool}
    {bc : Bitcask} (h : Bitcask.open_ (encodeLog [⟨key₁, value₁, timestamp₁, false⟩,
      ⟨key₂, value₂, timestamp₂, false⟩]) syncWrite = .ok bc) :
    (bc.get key₁).1 = .ok (value₁, timestamp₁) ∧
    (Readers.run ⟨bc, [.start key₁, .start key₂]⟩ [0, 0, 0, 1, 1, 1, 0]).gets[0]? =
      some (.done (.ok (value₂, timestamp₂))) := by
  have hfits : ∀ r ∈ [(⟨key₁, value₁, timestamp₁, false⟩ : Record), ⟨key₂, value₂, timestamp₂, false⟩],
      r.Fits := by simpa [Record.Fits] using ⟨hf₁, hf₂⟩
  obtain ⟨hh, hc⟩ := holds_of_open hfits h
  have hb : bc.buffer = [] := by rw [open_encodeLog _ hfits, Except.ok.injEq] at h; rw [← h]
  have hfile : bc.file = encodeRecord key₁ value₁ timestamp₁ false ++
      encodeRecord key₂ value₂ timestamp₂ false := by
    simpa [Bitcask.data, hb, encodeLog, Record.encode] using hh.data
  have hidx : bc.index = (Index.empty.put key₁ 0 (BitVec.ofNat 32 value₁.length) timestamp₁).put key₂
      (encodeRecord key₁ value₁ timestamp₁ false).length (BitVec.ofNat 32 value₂.length) timestamp₂ := by
    simp [hh.index, replay, Index.apply, Record.encode]
  have he₁ : bc.index.get key₁ = some ⟨0, BitVec.ofNat 32 value₁.length, timestamp₁, false⟩ := by
    rw [hidx, Index.get_put_ne _ hk, Index.get_put_self]
  have he₂ := hidx ▸ Index.get_put_self _ key₂ (encodeRecord key₁ value₁ timestamp₁ false).length
    (BitVec.ofNat 32 value₂.length) timestamp₂
  have hr₁ := readEntry_encodeRecord key₁ value₁ timestamp₁ false hf₁
    (encodeRecord key₂ value₂ timestamp₂ false) 0
  have hr₂ := readEntry_encodeRecord key₂ value₂ timestamp₂ false hf₂ [] 0
  rw [List.append_nil, ← List.drop_left (encodeRecord key₁ value₁ timestamp₁ false)
    (encodeRecord key₂ value₂ timestamp₂ false), ← hfile] at hr₂
  exact ⟨get_fst_of_read hc he₁ rfl hb (by rw [hfile]; exact hr₁),
    run_reads_other_entry hc hb he₁ rfl he₂ rfl hr₂⟩

/-- Two `Get`s of a live key while the writer buffers records: each finds the buffer non-empty and
writes it to the file before either empties it, so the file holds the buffered bytes twice. -/
theorem run_flushes_twice {bc : Bitcask} {key : Bytes} (hc : bc.closed = false)
    (hl : bc.index.has key = true) (hb : bc.buffer ≠ []) :
    (Readers.run ⟨bc, [.start key, .start key]⟩ [0, 1, 0, 1, 0, 1]).bc.file =
      bc.file ++ bc.buffer ++ bc.buffer := by
  obtain ⟨e, he, hd⟩ := (Index.has_eq ..).mp hl
  simp [Readers.run, Readers.step, Reader.step, hc, he, hd, hb]

/-- A `Put` left in the writer's buffer, then two interleaved `Get`s of its key: its record ends up
in the file twice. -/
theorem put_then_flushes_twice {bc : Bitcask} (hc : bc.closed = false)
    (hs : bc.syncWrite = false) (key value : Bytes) (timestamp : Timestamp) :
    (Readers.run ⟨(bc.put key value timestamp).2, [.start key, .start key]⟩ [0, 1, 0, 1, 0, 1]).bc.file =
      bc.file ++ (bc.buffer ++ encodeRecord key value timestamp false) ++
        (bc.buffer ++ encodeRecord key value timestamp false) := by
  have hput : (bc.put key value timestamp).2 = { bc with
      buffer := bc.buffer ++ encodeRecord key value timestamp false
      index := bc.index.put key bc.position (BitVec.ofNat 32 value.length) timestamp
      position := bc.position + (headerSize + key.length + value.length)
      totalWrites := bc.totalWrites + 1 } := by
    simp [Bitcask.put, Bitcask.writeEntry, hc, hs]
  rw [hput]
  refine (run_flushes_twice ?_ ?_ ?_).trans rfl
  · exact hc
  · exact (Index.has_eq ..).mpr ⟨_, Index.get_put_self .., rfl⟩
  · simp [encodeRecord_ne_nil]

/-- `Get`s at once on the engine: opened on `Put([1], [10], 1)` and `Put([2], [20], 2)`, `Get([1])`
alone returns `([10], 1)`, but interleaved with `Get([2])` it returns `([20], 2)`; and with
`Put([1], [10], 1)` still in the writer's buffer, two interleaved `Get([1])`s leave its record in
the file twice. -/
theorem get_concurrent_readers :
    (Bitcask.open_ (encodeLog [⟨[1], [10], 1, false⟩, ⟨[2], [20], 2, false⟩]) false).map
        (fun bc => ((bc.get [1]).1,
          (Readers.run ⟨bc, [.start [1], .start [2]]⟩ [0, 0, 0, 1, 1, 1, 0]).gets[0]?)) =
      .ok (.ok ([10], 1), some (.done (.ok ([20], 2)))) ∧
    (Bitcask.open_ [] false).map (fun bc =>
        (Readers.run ⟨(bc.put [1] [10] 1).2, [.start [1], .start [1]]⟩ [0, 1, 0, 1, 0, 1]).bc.file) =
      .ok (encodeRecord [1] [10] 1 false ++ encodeRecord [1] [10] 1 false) := by
  have hfits : ∀ r ∈ [(⟨[1], [10], 1, false⟩ : Record), ⟨[2], [20], 2, false⟩], r.Fits := by
    simp [Record.Fits, Fits]
  have h := open_encodeLog _ hfits false
  obtain ⟨hg, hr⟩ := get_reads_other_key (by decide) (by simp [Fits]) (by simp [Fits]) h
  refine ⟨by rw [h]; simp only [Except.map, hg, hr], ?_⟩
  rw [show Bitcask.open_ [] false = .ok ⟨[], [], 0, Index.empty, 0, false, false, 0, 0⟩ from rfl]
  simp only [Except.map]
  rw [put_then_flushes_twice rfl rfl]
  simp only [List.nil_append]

end MiniDynamo.Storage
