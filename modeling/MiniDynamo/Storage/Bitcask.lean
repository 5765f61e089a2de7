import MiniDynamo.Storage.Index

/-! The storage engine (`bitcask.go`).

One append-only data file with a `bufio.Writer` in front of it, the in-memory index, and the
position where the next record will start. The state keeps the bytes the file holds
(`file`), the bytes the writer still buffers (`buffer`), and the file's read cursor, which
`Get` and `Compact` move with `Seek`. A write appends to the buffer; a flush moves the buffer
to the file. (The writer also flushes by itself when its 64 KiB fill up; that moves bytes
from `buffer` to `file` without changing `file ++ buffer`, and is left out.)

No system call fails here: each operation is the path on which every write, flush, sync,
seek, rename and open succeeds, and it fails only where the engine itself returns an error —
a closed engine, a missing or deleted key, or a record that does not decode. -/
namespace MiniDynamo.Storage

/-- `Bitcask`. The statistics are the two `atomic` counters. -/
structure Bitcask where
  file : Bytes
  buffer : Bytes
  cursor : Nat
  index : Index
  position : Nat
  closed : Bool
  syncWrite : Bool
  totalReads : Nat
  totalWrites : Nat

/-- `Stats`. -/
structure Stats where
  activeKeys : Int
  deletedKeys : Int
  dataFileSize : Nat
  indexSize : Nat
  totalReads : Nat
  totalWrites : Nat
  deriving DecidableEq, Repr

namespace Bitcask

/-- Everything written so far: the file, then what the writer still holds. -/
def data (bc : Bitcask) : Bytes := bc.file ++ bc.buffer

/-- `writer.Flush()`: nothing on an empty buffer; otherwise the buffer goes to the file, which is
opened with `O_APPEND`, so the write leaves the file's cursor at its end. -/
def flush (bc : Bitcask) : Bitcask :=
  if bc.buffer.isEmpty then bc
  else { bc with file := bc.file ++ bc.buffer, buffer := [], cursor := (bc.file ++ bc.buffer).length }

/-! ### Opening: `NewBitcask` and `rebuildIndex` -/

/-- The loop of `rebuildIndex`: decode records from `offset` on into `idx` until `io.EOF`;
any other error stops the rebuild. -/
def rebuildLoop (rest : Bytes) (offset : Nat) (idx : Index) : Except Error Index :=
  match _hread : readEntry rest offset with
  | .error .eof => .ok idx
  | .error e => .error (.atOffset offset e)
  | .ok (entry, bytesRead) =>
    rebuildLoop (rest.drop bytesRead) (offset + bytesRead)
      (if entry.isDeleted then (idx.delete entry.key entry.timestamp).1
       else idx.put entry.key offset entry.size entry.timestamp)
termination_by rest.length
decreasing_by
  have := readEntry_ok _hread
  simp only [List.length_drop, headerSize] at this ⊢
  omega

/-- `rebuildIndex`: the flushed file replayed into the engine's index. -/
def rebuildIndex (bc : Bitcask) : Except Error Index := rebuildLoop bc.file 0 bc.index

/-- `NewBitcask` on a data file holding `contents`: the position is the end of the file, and a
non-empty file is replayed into a fresh index. -/
def open_ (contents : Bytes) (syncWrite : Bool) : Except Error Bitcask :=
  let bc : Bitcask := ⟨contents, [], contents.length, Index.empty, contents.length, false,
    syncWrite, 0, 0⟩
  if 0 < bc.position then
    match bc.rebuildIndex with
    | .error e => .error (.failed "rebuild index" e)
    | .ok index => .ok { bc with index }
  else .ok bc

/-! ### Reading and writing -/

/-- `writeEntry`: the record goes to the writer at the current position, which advances by
the record's length; with `syncWrite` the writer is flushed and the file synced. Returns
where the record starts. -/
def writeEntry (bc : Bitcask) (key value : Bytes) (timestamp : Timestamp) (isDeleted : Bool) :
    Nat × Bitcask :=
  let offset := bc.position
  let totalSize := headerSize + key.length + value.length
  let bc := { bc with buffer := bc.buffer ++ encodeRecord key value timestamp isDeleted,
                      position := bc.position + totalSize }
  (offset, if bc.syncWrite then bc.flush else bc)

/-- `Bitcask.Get`: the index decides; a live entry is read back from the file at its offset,
after a flush and a seek. The cursor ends after the record (the reader's read-ahead moves it
further; every read seeks first). -/
def get (bc : Bitcask) (key : Bytes) : Except Error (Bytes × Timestamp) × Bitcask :=
  if bc.closed then (.error .storageClosed, bc) else
  let bc := { bc with totalReads := bc.totalReads + 1 }
  match bc.index.get key with
  | none => (.error .keyNotFound, bc)
  | some entry =>
    if entry.isDeleted then (.error .keyDeleted, bc) else
    let bc := { bc.flush with cursor := entry.offset }
    match readEntry (bc.file.drop bc.cursor) entry.offset with
    | .error e => (.error (.failed "read entry" e), bc)
    | .ok (read, n) => (.ok (read.value, read.timestamp), { bc with cursor := bc.cursor + n })

/-- `Bitcask.Put`. -/
def put (bc : Bitcask) (key value : Bytes) (timestamp : Timestamp) : Except Error Unit × Bitcask :=
  if bc.closed then (.error .storageClosed, bc) else
  let bc := { bc with totalWrites := bc.totalWrites + 1 }
  let (offset, bc) := bc.writeEntry key value timestamp false
  (.ok (), { bc with index := bc.index.put key offset (BitVec.ofNat 32 value.length) timestamp })

/-- `Bitcask.Delete`: a tombstone record (empty value), then `Index.Delete`. -/
def delete (bc : Bitcask) (key : Bytes) (timestamp : Timestamp) : Except Error Unit × Bitcask :=
  if bc.closed then (.error .storageClosed, bc) else
  let bc := { bc with totalWrites := bc.totalWrites + 1 }
  let (_, bc) := bc.writeEntry key [] timestamp true
  (.ok (), { bc with index := (bc.index.delete key timestamp).1 })

/-- `Bitcask.Has`. -/
def has (bc : Bitcask) (key : Bytes) : Bool := if bc.closed then false else bc.index.has key

/-- `Bitcask.Keys`: `nil` on a closed engine. -/
def keys (bc : Bitcask) : Option (List Bytes) := if bc.closed then some [] else bc.index.keys

/-- `Bitcask.Count` (no check for a closed engine). -/
def count (bc : Bitcask) : Int := bc.index.count

/-- `Bitcask.Close`: flushed and synced; closing twice is not an error. -/
def close (bc : Bitcask) : Except Error Unit × Bitcask :=
  if bc.closed then (.ok (), bc) else (.ok (), { bc.flush with closed := true })

/-- `Bitcask.Sync`. -/
def sync (bc : Bitcask) : Except Error Unit × Bitcask :=
  if bc.closed then (.error .storageClosed, bc) else (.ok (), bc.flush)

/-- `Bitcask.Stats`. The file size is `Stat` of the file, so the buffered bytes are not in
it, and `Stat` of a closed file fails, leaving zero. -/
def stats (bc : Bitcask) : Stats :=
  ⟨bc.index.count, bc.index.deletedCount, if bc.closed then 0 else bc.file.length,
    bc.index.size, bc.totalReads, bc.totalWrites⟩

/-! ### Compaction -/

/-- The bytes Compact's copy loop writes for a key, inline in the Go code: `writeEntry`'s
layout with the flag byte left at zero. -/
def compactRecord (key value : Bytes) (timestamp : Timestamp) : Bytes :=
  let header := putBE 8 timestamp.toNat ++ putBE 4 key.length ++ putBE 4 value.length ++ [0]
  putBE 4 (checksumIEEE (header ++ key ++ value)).toNat ++ header ++ key ++ value

/-- What the copy loop has built: the temporary file, the new index, the new position. -/
structure Copy where
  temp : Bytes
  index : Index
  position : Nat

/-- Compact's copy loop over `visit`, the order in which `range` presents `Index.All()`: each
live entry's record is read back at its offset in the (flushed) file and written again, under
the map's key, at the end of the temporary file. Returns the cursor as the reads left it. -/
def copyLoop (file : Bytes) : List (Bytes × IndexEntry) → Copy → Nat → Except Error Copy × Nat
  | [], copy, cursor => (.ok copy, cursor)
  | (key, entry) :: rest, copy, cursor =>
    if entry.isDeleted then copyLoop file rest copy cursor else
    match readEntry (file.drop entry.offset) entry.offset with
    | .error e => (.error (.failed "read entry" e), entry.offset)
    | .ok (read, n) =>
      copyLoop file rest
        ⟨copy.temp ++ compactRecord key read.value read.timestamp,
          copy.index.put key copy.position (BitVec.ofNat 32 read.value.length) read.timestamp,
          copy.position + (headerSize + key.length + read.value.length)⟩
        (entry.offset + n)

/-- `Bitcask.Compact`, visiting the index in the order `visit`: the copy replaces the data
file, the new index replaces the old one, and the file is reopened with a fresh writer. -/
def compact (bc : Bitcask) (visit : List (Bytes × IndexEntry)) : Except Error Unit × Bitcask :=
  if bc.closed then (.error .storageClosed, bc) else
  let bc := bc.flush
  match copyLoop bc.file visit ⟨[], Index.empty, 0⟩ bc.cursor with
  | (.error e, cursor) => (.error e, { bc with cursor })
  | (.ok copy, _) =>
    (.ok (), { bc with file := copy.temp, buffer := [], cursor := 0, index := copy.index,
                       position := copy.position })

/-! ### What each operation does to the bytes, the position, the index and the flag -/

section Effects

variable (bc : Bitcask) (key value : Bytes) (timestamp : Timestamp) (isDeleted : Bool)

@[simp] theorem file_flush : bc.flush.file = bc.data := by
  unfold flush data; split <;> simp_all

@[simp] theorem buffer_flush : bc.flush.buffer = [] := by
  unfold flush; split <;> simp_all

@[simp] theorem data_flush : bc.flush.data = bc.data := by simp [data]

@[simp] theorem index_flush : bc.flush.index = bc.index := by unfold flush; split <;> rfl

@[simp] theorem position_flush : bc.flush.position = bc.position := by unfold flush; split <;> rfl

@[simp] theorem closed_flush : bc.flush.closed = bc.closed := by unfold flush; split <;> rfl

@[simp] theorem syncWrite_flush : bc.flush.syncWrite = bc.syncWrite := by unfold flush; split <;> rfl

@[simp] theorem totalReads_flush : bc.flush.totalReads = bc.totalReads := by unfold flush; split <;> rfl

@[simp] theorem totalWrites_flush : bc.flush.totalWrites = bc.totalWrites := by unfold flush; split <;> rfl

@[simp] theorem fst_writeEntry : (bc.writeEntry key value timestamp isDeleted).1 = bc.position :=
  rfl

@[simp] theorem data_writeEntry :
    (bc.writeEntry key value timestamp isDeleted).2.data =
      bc.data ++ encodeRecord key value timestamp isDeleted := by
  unfold writeEntry; dsimp only; split <;> simp [data]

@[simp] theorem position_writeEntry :
    (bc.writeEntry key value timestamp isDeleted).2.position =
      bc.position + (encodeRecord key value timestamp isDeleted).length := by
  unfold writeEntry; dsimp only; split <;> simp [length_encodeRecord, Nat.add_assoc]

@[simp] theorem index_writeEntry : (bc.writeEntry key value timestamp isDeleted).2.index = bc.index := by
  unfold writeEntry; dsimp only; split <;> simp

@[simp] theorem closed_writeEntry :
    (bc.writeEntry key value timestamp isDeleted).2.closed = bc.closed := by
  unfold writeEntry; dsimp only; split <;> simp

@[simp] theorem syncWrite_writeEntry :
    (bc.writeEntry key value timestamp isDeleted).2.syncWrite = bc.syncWrite := by
  unfold writeEntry flush; dsimp only; split <;> [split; skip] <;> rfl

@[simp] theorem totalReads_writeEntry :
    (bc.writeEntry key value timestamp isDeleted).2.totalReads = bc.totalReads := by
  unfold writeEntry flush; dsimp only; split <;> [split; skip] <;> rfl

@[simp] theorem totalWrites_writeEntry :
    (bc.writeEntry key value timestamp isDeleted).2.totalWrites = bc.totalWrites := by
  unfold writeEntry flush; dsimp only; split <;> [split; skip] <;> rfl

/-- What `Get` leaves behind: the engine untouched (closed), one more read counted, or that and
the buffer flushed with the cursor somewhere. -/
theorem get_snd_eq : (bc.get key).2 = bc ∨ (bc.get key).2 = { bc with totalReads := bc.totalReads + 1 } ∨
    ∃ cursor, (bc.get key).2 = { ({ bc with totalReads := bc.totalReads + 1 } : Bitcask).flush with cursor } := by
  unfold get
  split
  · exact .inl rfl
  · dsimp only
    split
    · exact .inr (.inl rfl)
    · split
      · exact .inr (.inl rfl)
      · split <;> exact .inr (.inr ⟨_, rfl⟩)

@[simp] theorem data_get : (bc.get key).2.data = bc.data := by
  rcases get_snd_eq bc key with h | h | ⟨_, h⟩ <;> simp [h, data]

@[simp] theorem position_get : (bc.get key).2.position = bc.position := by
  rcases get_snd_eq bc key with h | h | ⟨_, h⟩ <;> simp [h]

@[simp] theorem index_get : (bc.get key).2.index = bc.index := by
  rcases get_snd_eq bc key with h | h | ⟨_, h⟩ <;> simp [h]

@[simp] theorem closed_get : (bc.get key).2.closed = bc.closed := by
  rcases get_snd_eq bc key with h | h | ⟨_, h⟩ <;> simp [h]

theorem closed_of_put {bc' : Bitcask} (h : bc.put key value timestamp = (.ok (), bc')) :
    bc.closed = false ∧ bc'.closed = false := by
  unfold put at h
  split at h
  · cases h
  · next hc =>
    cases h
    have hc : bc.closed = false := by simpa using hc
    exact ⟨hc, (closed_writeEntry ..).trans hc⟩

theorem closed_of_delete {bc' : Bitcask} (h : bc.delete key timestamp = (.ok (), bc')) :
    bc.closed = false ∧ bc'.closed = false := by
  unfold delete at h
  split at h
  · cases h
  · next hc =>
    cases h
    have hc : bc.closed = false := by simpa using hc
    exact ⟨hc, (closed_writeEntry ..).trans hc⟩

end Effects

end Bitcask

end MiniDynamo.Storage
