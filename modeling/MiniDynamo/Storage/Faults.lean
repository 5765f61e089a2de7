import MiniDynamo.Storage.Writer
import MiniDynamo.Storage.Compaction

/-! The engine when system calls fail (`bitcask.go`).

The engine is the fault-free state (`Bitcask`) together with what a failure changes: the
writer's sticky error and the two `*os.File`s, the one the writer writes to and `bc.dataFile`,
which `Get`, `Sync` and `Compact` use. The two are one file until a reopen fails, which leaves
`bc.dataFile` nil and the writer on the old, closed file. `bc.file` is what the data file holds;
`bc.cursor` is left alone, since every read here seeks first. Each call takes the system's
answers from a script (`Writer.lean`); a call whose error the code ignores (`tempFile.Close`,
`bc.dataFile.Close`) takes none, since whatever it answers the same thing follows.

On the empty script the engine makes the fault-free calls (`Mirrors.put`, `Mirrors.compact` and
the rest): the same results, the same bytes, index and position.

When a `Put` or a `Delete` fails the index is left alone, but the bytes are not
(`leaves_put`, `leaves_delete`): they grow by a prefix of the record, and by the whole record when the
error comes from the flush or the fsync of `syncWrite`, after the position has moved past it. So
a `Put` reported as failed can be in the file and read back after a restart
(`put_fails_at_sync`). A `Compact` that fails at the rename has already closed the data file, and
leaves an engine that is not closed but whose every `Get` of a live key fails. -/
namespace MiniDynamo.Storage

/-- The engine with its writer's error and its two `*os.File`s. -/
structure Engine where
  bc : Bitcask
  err : Option Error
  /-- The file the writer writes to. -/
  writes : Handle
  /-- `bc.dataFile`. -/
  dataFile : Handle

namespace Engine

/-- The engine's writer: its buffer over the data file. -/
def writer (e : Engine) : Writer := ⟨e.bc.file, e.writes, e.bc.buffer, e.err⟩

/-- The engine once its writer has moved on to `w`. -/
def withWriter (e : Engine) (w : Writer) : Engine :=
  { e with bc.file := w.file, bc.buffer := w.buf, err := w.err }

/-- `writeEntry`: the header, the key and the value go to the writer one `Write` at a time; once
the three are taken the position moves past the record, and with `syncWrite` the writer is
flushed and the file synced. Returns where the record starts. -/
def writeEntry (e : Engine) (key value : Bytes) (timestamp : Timestamp) (isDeleted : Bool)
    (script : List Answer) : Except Error Nat × Engine × List Answer :=
  let offset := e.bc.position
  let totalSize := headerSize + key.length + value.length
  let r := e.writer.writeParts [("write header", header key value timestamp isDeleted),
    ("write key", key), ("write value", value)] script
  match r.1 with
  | some (what, err) => (.error (.failed what err), e.withWriter r.2.1, r.2.2)
  | none =>
    let e := { e with bc.position := e.bc.position + totalSize }
    if e.bc.syncWrite then
      let f := r.2.1.flush r.2.2
      match f.1 with
      | some err => (.error (.failed "flush" err), e.withWriter f.2.1, f.2.2)
      | none =>
        let s := e.dataFile.call f.2.2
        match s.1 with
        | some err => (.error (.failed "sync" err), e.withWriter f.2.1, s.2)
        | none => (.ok offset, e.withWriter f.2.1, s.2)
    else (.ok offset, e.withWriter r.2.1, r.2.2)

/-- `Bitcask.Put`: the index moves only when the record was written. -/
def put (e : Engine) (key value : Bytes) (timestamp : Timestamp) (script : List Answer) :
    Except Error Unit × Engine × List Answer :=
  if e.bc.closed then (.error .storageClosed, e, script) else
  let e := { e with bc.totalWrites := e.bc.totalWrites + 1 }
  let r := e.writeEntry key value timestamp false script
  match r.1 with
  | .error err => (.error err, r.2.1, r.2.2)
  | .ok offset =>
    let index := r.2.1.bc.index.put key offset (BitVec.ofNat 32 value.length) timestamp
    (.ok (), { r.2.1 with bc.index := index }, r.2.2)

/-- `Bitcask.Delete`: a tombstone record, then `Index.Delete`. -/
def delete (e : Engine) (key : Bytes) (timestamp : Timestamp) (script : List Answer) :
    Except Error Unit × Engine × List Answer :=
  if e.bc.closed then (.error .storageClosed, e, script) else
  let e := { e with bc.totalWrites := e.bc.totalWrites + 1 }
  let r := e.writeEntry key [] timestamp true script
  match r.1 with
  | .error err => (.error err, r.2.1, r.2.2)
  | .ok _ => (.ok (), { r.2.1 with bc.index := (r.2.1.bc.index.delete key timestamp).1 }, r.2.2)

/-- `Bitcask.Get`: the index decides; a live entry is read back after a flush, a seek and the
reads of its record, each of which can fail. -/
def get (e : Engine) (key : Bytes) (script : List Answer) :
    Except Error (Bytes × Timestamp) × Engine × List Answer :=
  if e.bc.closed then (.error .storageClosed, e, script) else
  let e := { e with bc.totalReads := e.bc.totalReads + 1 }
  match e.bc.index.get key with
  | none => (.error .keyNotFound, e, script)
  | some entry =>
    if entry.isDeleted then (.error .keyDeleted, e, script) else
    let f := e.writer.flush script
    let e := e.withWriter f.2.1
    match f.1 with
    | some err => (.error (.failed "flush" err), e, f.2.2)
    | none =>
      let seek := e.dataFile.call f.2.2
      match seek.1 with
      | some err => (.error (.failed "seek" err), e, seek.2)
      | none =>
        let read := e.dataFile.call seek.2
        match read.1 with
        | some err => (.error (.failed "read entry" err), e, read.2)
        | none =>
          match readEntry (e.bc.file.drop entry.offset) entry.offset with
          | .error err => (.error (.failed "read entry" err), e, read.2)
          | .ok (entry, _) => (.ok (entry.value, entry.timestamp), e, read.2)

/-- `bc.dataFile.Close()`, whose error `Compact` ignores: the file is closed, and with it the
writer's, which is the same file; a nil file stays nil. -/
def closeDataFile (e : Engine) : Engine :=
  match e.dataFile with
  | .nil => e
  | _ => { e with writes := .closed, dataFile := .closed }

/-- Compact's copy loop over `visit`: for each live entry, a seek and the reads of its record in
the data file, whose errors are wrapped as `Get` wraps them, then the record's three `Write`s to
the temporary file's writer, whose error is returned as it is; the new index and position follow
each record. -/
def copyLoop (e : Engine) : List (Bytes × IndexEntry) → Writer × Index × Nat → List Answer →
    Except Error (Writer × Index × Nat) × List Answer
  | [], copy, script => (.ok copy, script)
  | (key, entry) :: rest, (temp, index, position), script =>
    if entry.isDeleted then e.copyLoop rest (temp, index, position) script else
    let seek := e.dataFile.call script
    match seek.1 with
    | some err => (.error (.failed "seek" err), seek.2)
    | none =>
      let read := e.dataFile.call seek.2
      match read.1 with
      | some err => (.error (.failed "read entry" err), read.2)
      | none =>
        match readEntry (e.bc.file.drop entry.offset) entry.offset with
        | .error err => (.error (.failed "read entry" err), read.2)
        | .ok (found, _) =>
          let w := temp.writeParts [("write header", header key found.value found.timestamp false),
            ("write key", key), ("write value", found.value)] read.2
          match w.1 with
          | some (_, err) => (.error err, w.2.2)
          | none =>
            e.copyLoop rest (w.2.1, index.put key position (BitVec.ofNat 32 found.value.length)
              found.timestamp, position + (headerSize + key.length + found.value.length)) w.2.2

/-- `Bitcask.Compact`, visiting the index in the order `visit`: flush, create the temporary file,
copy, flush and sync the copy (these errors are returned as they are), close the data file,
rename the copy over it and reopen it with a fresh writer. The data file is closed before the
rename is tried; a failed reopen leaves `bc.dataFile` nil and the old index in place. -/
def compact (e : Engine) (visit : List (Bytes × IndexEntry)) (script : List Answer) :
    Except Error Unit × Engine × List Answer :=
  if e.bc.closed then (.error .storageClosed, e, script) else
  let f := e.writer.flush script
  let e := e.withWriter f.2.1
  match f.1 with
  | some err => (.error (.failed "flush" err), e, f.2.2)
  | none =>
    let create := sysCall f.2.2
    match create.1 with
    | some err => (.error (.failed "create temp file" err), e, create.2)
    | none =>
      let copy := e.copyLoop visit (⟨[], .opened, [], none⟩, Index.empty, 0) create.2
      match copy.1 with
      | .error err => (.error err, e, copy.2)
      | .ok (temp, index, position) =>
        let tf := temp.flush copy.2
        match tf.1 with
        | some err => (.error err, e, tf.2.2)
        | none =>
          let sync := tf.2.1.handle.call tf.2.2
          match sync.1 with
          | some err => (.error err, e, sync.2)
          | none =>
            let e := e.closeDataFile
            let rename := sysCall sync.2
            match rename.1 with
            | some err => (.error (.failed "rename temp file" err), e, rename.2)
            | none =>
              let e := { e with bc.file := tf.2.1.file }
              let reopen := sysCall rename.2
              match reopen.1 with
              | some err => (.error (.failed "reopen data file" err), { e with dataFile := .nil }, reopen.2)
              | none =>
                let e := { e with bc.buffer := [], bc.index := index, bc.position := position }
                (.ok (), { e with err := none, writes := .opened, dataFile := .opened }, reopen.2)

/-! ### Nothing failing: the fault-free engine -/

/-- The engine is `bc` with nothing gone wrong: no writer error, its files open, and the same
bytes, index, position, flags and counters (how the bytes split between file and buffer may
differ, since the writer flushes by itself when its buffer fills, and so may the cursor). -/
structure Mirrors (e : Engine) (bc : Bitcask) : Prop where
  err : e.err = none
  writes : e.writes = .opened
  dataFile : e.dataFile = .opened
  data : e.bc.data = bc.data
  index : e.bc.index = bc.index
  position : e.bc.position = bc.position
  closed : e.bc.closed = bc.closed
  syncWrite : e.bc.syncWrite = bc.syncWrite
  totalReads : e.bc.totalReads = bc.totalReads
  totalWrites : e.bc.totalWrites = bc.totalWrites

/-- A fault-free state with its file open and no error. -/
theorem mirrors_self (bc : Bitcask) : Mirrors ⟨bc, none, .opened, .opened⟩ bc :=
  ⟨rfl, rfl, rfl, rfl, rfl, rfl, rfl, rfl, rfl, rfl⟩

section Effects

variable (e : Engine) (w : Writer)

@[simp] theorem data_withWriter : (e.withWriter w).bc.data = w.data := rfl

@[simp] theorem data_writer : e.writer.data = e.bc.data := rfl

@[simp] theorem index_withWriter : (e.withWriter w).bc.index = e.bc.index := rfl

@[simp] theorem position_withWriter : (e.withWriter w).bc.position = e.bc.position := rfl

@[simp] theorem dataFile_withWriter : (e.withWriter w).dataFile = e.dataFile := rfl

@[simp] theorem writes_withWriter : (e.withWriter w).writes = e.writes := rfl

@[simp] theorem err_withWriter : (e.withWriter w).err = w.err := rfl

@[simp] theorem file_withWriter : (e.withWriter w).bc.file = w.file := rfl

/-- The three parts `writeEntry` writes are the record. -/
theorem partsBytes_record (key value : Bytes) (timestamp : Timestamp) (isDeleted : Bool) :
    Writer.partsBytes [("write header", header key value timestamp isDeleted), ("write key", key),
      ("write value", value)] = encodeRecord key value timestamp isDeleted := by
  simp [Writer.partsBytes, encodeRecord_eq]

variable (key value : Bytes) (timestamp : Timestamp) (isDeleted : Bool) (script : List Answer)

/-- `writeEntry` changes the writer and the position, and nothing else. -/
theorem writeEntry_frame : ∃ w position,
    (e.writeEntry key value timestamp isDeleted script).2.1 =
      ({ e with bc.position := position } : Engine).withWriter w := by
  unfold writeEntry; dsimp only; split
  · exact ⟨_, e.bc.position, rfl⟩
  · split
    · split
      · exact ⟨_, _, rfl⟩
      · split <;> exact ⟨_, _, rfl⟩
    · exact ⟨_, _, rfl⟩

@[simp] theorem index_writeEntry :
    (e.writeEntry key value timestamp isDeleted script).2.1.bc.index = e.bc.index := by
  obtain ⟨w, position, h⟩ := writeEntry_frame e key value timestamp isDeleted script
  rw [h]; rfl

@[simp] theorem closed_writeEntry :
    (e.writeEntry key value timestamp isDeleted script).2.1.bc.closed = e.bc.closed := by
  obtain ⟨w, position, h⟩ := writeEntry_frame e key value timestamp isDeleted script
  rw [h]; rfl

@[simp] theorem dataFile_writeEntry :
    (e.writeEntry key value timestamp isDeleted script).2.1.dataFile = e.dataFile := by
  obtain ⟨w, position, h⟩ := writeEntry_frame e key value timestamp isDeleted script
  rw [h]; rfl

/-- The bytes `writeEntry` leaves are the bytes its `Write`s left (a flush only moves them to the
file), and the position has moved past the record exactly when the three went through. -/
theorem writeEntry_cases :
    let r := e.writer.writeParts [("write header", header key value timestamp isDeleted),
      ("write key", key), ("write value", value)] script
    let e' := (e.writeEntry key value timestamp isDeleted script).2.1
    e'.bc.data = r.2.1.data ∧ (r.1.isSome ∧ e'.bc.position = e.bc.position ∨
      r.1 = none ∧ e'.bc.position = e.bc.position + (headerSize + key.length + value.length)) := by
  unfold writeEntry; dsimp only; split
  · next hw => exact ⟨rfl, .inl ⟨by simp [hw], rfl⟩⟩
  · next hw =>
    split
    · split
      · exact ⟨Writer.data_flush .., .inr ⟨hw, rfl⟩⟩
      · split <;> exact ⟨Writer.data_flush .., .inr ⟨hw, rfl⟩⟩
    · exact ⟨rfl, .inr ⟨hw, rfl⟩⟩

/-- What `writeEntry` leaves: the bytes grow by a prefix of the record; the position moves only
once the whole record is in them, and it moves past it. -/
theorem writeEntry_data :
    let e' := (e.writeEntry key value timestamp isDeleted script).2.1
    let record := encodeRecord key value timestamp isDeleted
    e.bc.data <+: e'.bc.data ∧ e'.bc.data <+: e.bc.data ++ record ∧
      (e'.bc.position = e.bc.position ∨
        e'.bc.data = e.bc.data ++ record ∧ e'.bc.position = e.bc.position + record.length) := by
  obtain ⟨h₁, h₂, h₃⟩ := e.writer.data_writeParts [("write header", header key value timestamp isDeleted),
    ("write key", key), ("write value", value)] script
  simp only [partsBytes_record, data_writer] at h₁ h₂ h₃
  obtain ⟨hd, ⟨-, hp⟩ | ⟨hw, hp⟩⟩ := writeEntry_cases e key value timestamp isDeleted script
  · exact ⟨hd ▸ h₁, hd ▸ h₂, .inl hp⟩
  · rw [h₃ hw] at hd
    dsimp only
    rw [hd, hp, length_encodeRecord]
    exact ⟨List.prefix_append _ _, List.prefix_refl _, .inr ⟨rfl, rfl⟩⟩

@[simp] theorem syncWrite_writeEntry :
    (e.writeEntry key value timestamp isDeleted script).2.1.bc.syncWrite = e.bc.syncWrite := by
  obtain ⟨w, position, h⟩ := writeEntry_frame e key value timestamp isDeleted script
  rw [h]; rfl

@[simp] theorem writes_writeEntry :
    (e.writeEntry key value timestamp isDeleted script).2.1.writes = e.writes := by
  obtain ⟨w, position, h⟩ := writeEntry_frame e key value timestamp isDeleted script
  rw [h]; rfl

@[simp] theorem totalReads_writeEntry :
    (e.writeEntry key value timestamp isDeleted script).2.1.bc.totalReads = e.bc.totalReads := by
  obtain ⟨w, position, h⟩ := writeEntry_frame e key value timestamp isDeleted script
  rw [h]; rfl

@[simp] theorem totalWrites_writeEntry :
    (e.writeEntry key value timestamp isDeleted script).2.1.bc.totalWrites = e.bc.totalWrites := by
  obtain ⟨w, position, h⟩ := writeEntry_frame e key value timestamp isDeleted script
  rw [h]; rfl

/-- On the empty script `writeEntry` on a healthy engine succeeds, with the record appended. -/
theorem writeEntry_nil (he : e.err = none) (hw : e.writes = .opened) (hd : e.dataFile = .opened) :
    let r := e.writeEntry key value timestamp isDeleted []
    r.1 = .ok e.bc.position ∧ r.2.2 = [] ∧ r.2.1.err = none ∧
      r.2.1.bc.data = e.bc.data ++ encodeRecord key value timestamp isDeleted ∧
      r.2.1.bc.position = e.bc.position + (encodeRecord key value timestamp isDeleted).length := by
  obtain ⟨h₁, h₂, h₃⟩ := e.writer.writeParts_nil [("write header", header key value timestamp isDeleted),
    ("write key", key), ("write value", value)] hw he
  have hdata := (e.writer.data_writeParts [("write header", header key value timestamp isDeleted),
    ("write key", key), ("write value", value)] []).2.2 h₁
  simp only [partsBytes_record, data_writer] at hdata
  obtain ⟨hd', ⟨hs, -⟩ | ⟨-, hpos⟩⟩ := writeEntry_cases e key value timestamp isDeleted []
  · simp [h₁] at hs
  have hh : (e.writer.writeParts [("write header", header key value timestamp isDeleted),
      ("write key", key), ("write value", value)] []).2.1.handle = .opened := by
    rw [Writer.handle_writeParts]; exact hw
  refine ⟨?_, ?_, ?_, hd'.trans hdata, by rw [hpos, length_encodeRecord]⟩ <;>
  · unfold writeEntry; dsimp only; simp only [h₁]
    split
    · simp [Writer.flush_nil _ hh h₂, h₃, hd, h₂, Handle.call_nil]
    · simp [h₂, h₃]

end Effects

/-! ### Nothing failing -/

namespace Mirrors

variable {e : Engine} {bc : Bitcask}

/-- On the empty script `writeEntry` is the fault-free one. -/
theorem writeEntry (h : e.Mirrors bc) (key value : Bytes) (timestamp : Timestamp) (isDeleted : Bool) :
    (e.writeEntry key value timestamp isDeleted []).1 = .ok (bc.writeEntry key value timestamp isDeleted).1 ∧
      (e.writeEntry key value timestamp isDeleted []).2.1.Mirrors
        (bc.writeEntry key value timestamp isDeleted).2 ∧
      (e.writeEntry key value timestamp isDeleted []).2.2 = [] := by
  obtain ⟨h₁, h₂, h₃, h₄, h₅⟩ := writeEntry_nil e key value timestamp isDeleted h.err h.writes h.dataFile
  refine ⟨by rw [h₁, Bitcask.fst_writeEntry, h.position], ⟨h₃, ?_, ?_, ?_, ?_, ?_, ?_, ?_, ?_, ?_⟩, h₂⟩
  · rw [writes_writeEntry, h.writes]
  · rw [dataFile_writeEntry, h.dataFile]
  · rw [h₄, Bitcask.data_writeEntry, h.data]
  · rw [index_writeEntry, Bitcask.index_writeEntry, h.index]
  · rw [h₅, Bitcask.position_writeEntry, h.position]
  · rw [closed_writeEntry, Bitcask.closed_writeEntry, h.closed]
  · rw [syncWrite_writeEntry, Bitcask.syncWrite_writeEntry, h.syncWrite]
  · rw [totalReads_writeEntry, Bitcask.totalReads_writeEntry, h.totalReads]
  · rw [totalWrites_writeEntry, Bitcask.totalWrites_writeEntry, h.totalWrites]

/-- Counting a write on both sides. -/
theorem countWrite (h : e.Mirrors bc) :
    Mirrors { e with bc.totalWrites := e.bc.totalWrites + 1 } { bc with totalWrites := bc.totalWrites + 1 } :=
  { h with totalWrites := congrArg (· + 1) h.totalWrites }

/-- Setting the same index on both sides. -/
theorem withIndex (h : e.Mirrors bc) (index : Index) :
    Mirrors { e with bc.index := index } { bc with index := index } :=
  { h with index := rfl }

/-- On the empty script `Put` is the fault-free `Put`. -/
theorem put (h : e.Mirrors bc) (key value : Bytes) (timestamp : Timestamp) :
    (e.put key value timestamp []).1 = (bc.put key value timestamp).1 ∧
      (e.put key value timestamp []).2.1.Mirrors (bc.put key value timestamp).2 ∧
      (e.put key value timestamp []).2.2 = [] := by
  unfold Engine.put Bitcask.put
  rw [h.closed]
  split
  · exact ⟨rfl, h, rfl⟩
  · obtain ⟨h₁, h₂, h₃⟩ := h.countWrite.writeEntry key value timestamp false
    dsimp only at h₁ h₂ h₃ ⊢
    rw [h₁]
    dsimp only
    refine ⟨rfl, ?_, h₃⟩
    rw [h₂.index]
    exact h₂.withIndex _

/-- On the empty script `Delete` is the fault-free `Delete`. -/
theorem delete (h : e.Mirrors bc) (key : Bytes) (timestamp : Timestamp) :
    (e.delete key timestamp []).1 = (bc.delete key timestamp).1 ∧
      (e.delete key timestamp []).2.1.Mirrors (bc.delete key timestamp).2 ∧
      (e.delete key timestamp []).2.2 = [] := by
  unfold Engine.delete Bitcask.delete
  rw [h.closed]
  split
  · exact ⟨rfl, h, rfl⟩
  · obtain ⟨h₁, h₂, h₃⟩ := h.countWrite.writeEntry key [] timestamp true
    dsimp only at h₁ h₂ h₃ ⊢
    rw [h₁]
    dsimp only
    refine ⟨rfl, ?_, h₃⟩
    rw [h₂.index]
    exact h₂.withIndex _

/-- Counting a read on both sides. -/
theorem countRead (h : e.Mirrors bc) :
    Mirrors { e with bc.totalReads := e.bc.totalReads + 1 } { bc with totalReads := bc.totalReads + 1 } :=
  { h with totalReads := congrArg (· + 1) h.totalReads }

/-- The cursor does not matter. -/
theorem cursor (h : e.Mirrors bc) (c : Nat) : e.Mirrors { bc with cursor := c } :=
  ⟨h.err, h.writes, h.dataFile, h.data, h.index, h.position, h.closed, h.syncWrite, h.totalReads,
    h.totalWrites⟩

/-- A flush that succeeds on one side and the fault-free flush on the other. -/
theorem flushed (h : e.Mirrors bc) :
    (e.withWriter ⟨e.writer.data, e.writer.handle, [], e.writer.err⟩).Mirrors bc.flush := by
  refine ⟨h.err, h.writes, h.dataFile, ?_, ?_, ?_, ?_, ?_, ?_, ?_⟩
  · show e.bc.data ++ [] = _; rw [List.append_nil, Bitcask.data_flush, h.data]
  · rw [Bitcask.index_flush]; exact h.index
  · rw [Bitcask.position_flush]; exact h.position
  · rw [Bitcask.closed_flush]; exact h.closed
  · rw [Bitcask.syncWrite_flush]; exact h.syncWrite
  · rw [Bitcask.totalReads_flush]; exact h.totalReads
  · rw [Bitcask.totalWrites_flush]; exact h.totalWrites

/-- On the empty script `Get` is the fault-free `Get`. -/
theorem get (h : e.Mirrors bc) (key : Bytes) :
    (e.get key []).1 = (bc.get key).1 ∧ (e.get key []).2.1.Mirrors (bc.get key).2 ∧
      (e.get key []).2.2 = [] := by
  have h₁ := h.countRead
  unfold Engine.get Bitcask.get
  rw [h.closed]
  split
  · exact ⟨rfl, h, rfl⟩
  dsimp only at h₁ ⊢
  have hk' : e.bc.index.get key = bc.index.get key := by rw [h.index]
  rcases hk : bc.index.get key with _ | entry
  · simp only [hk', hk, true_and, and_true]; exact h₁
  by_cases hd : entry.isDeleted
  · simp only [hk', hk, hd, if_true, true_and, and_true]; exact h₁
  have hf := h₁.flushed
  simp only [hk', hk, hd, if_false, Bool.false_eq_true]
  rw [Writer.flush_nil _ h.writes h.err]
  have hc : e.dataFile.call [] = (none, []) := by rw [h.dataFile]; rfl
  simp only [dataFile_withWriter, hc]
  have hA : List.drop entry.offset ((({ e with bc.totalReads := e.bc.totalReads + 1 } : Engine).withWriter
      { ({ e with bc.totalReads := e.bc.totalReads + 1 } : Engine).writer with
        file := ({ e with bc.totalReads := e.bc.totalReads + 1 } : Engine).writer.data, buf := [] }).bc.file) =
      List.drop entry.offset bc.data := by
    show List.drop _ e.bc.data = _; rw [h.data]
  have hB : List.drop entry.offset ({ bc with totalReads := bc.totalReads + 1 } : Bitcask).flush.file =
      List.drop entry.offset bc.data := by
    rw [Bitcask.file_flush]; rfl
  rw [hA, hB]
  rcases readEntry (List.drop entry.offset bc.data) entry.offset with err | ⟨read, n⟩
  · exact ⟨rfl, hf.cursor _, rfl⟩
  · exact ⟨rfl, hf.cursor _, rfl⟩

end Mirrors

/-- On the empty script the copy loop is the fault-free one: it fails with the same error, or it
ends with the same index and position and a temporary writer holding the same bytes, open and
without error. -/
theorem copyLoop_nil (e : Engine) (hd : e.dataFile = .opened) (visit : List (Bytes × IndexEntry))
    (temp : Writer) (hh : temp.handle = .opened) (he : temp.err = none) (index : Index)
    (position cursor : Nat) :
    (e.copyLoop visit (temp, index, position) []).2 = [] ∧
      match (Bitcask.copyLoop e.bc.file visit ⟨temp.data, index, position⟩ cursor).1 with
      | .error err => (e.copyLoop visit (temp, index, position) []).1 = .error err
      | .ok copy => ∃ temp', (e.copyLoop visit (temp, index, position) []).1 =
          .ok (temp', copy.index, copy.position) ∧ temp'.data = copy.temp ∧
          temp'.handle = .opened ∧ temp'.err = none := by
  induction visit generalizing temp index position cursor with
  | nil => exact ⟨rfl, temp, rfl, rfl, hh, he⟩
  | cons p visit ih =>
    obtain ⟨key, entry⟩ := p
    by_cases hdel : entry.isDeleted
    · simp only [copyLoop, Bitcask.copyLoop, hdel, if_true]
      exact ih temp hh he index position cursor
    have hc : e.dataFile.call [] = (none, []) := by rw [hd]; rfl
    simp only [copyLoop, Bitcask.copyLoop, hdel, if_false, Bool.false_eq_true, hc]
    rcases hr : readEntry (e.bc.file.drop entry.offset) entry.offset with err | ⟨found, n⟩
    · exact ⟨rfl, rfl⟩
    obtain ⟨h₁, h₂, h₃⟩ := temp.writeParts_nil [("write header", header key found.value found.timestamp false),
      ("write key", key), ("write value", found.value)] hh he
    have hdata := (temp.data_writeParts [("write header", header key found.value found.timestamp false),
      ("write key", key), ("write value", found.value)] []).2.2 h₁
    rw [partsBytes_record, ← compactRecord_eq] at hdata
    simp only [h₁, h₃]
    have := ih _ (by rw [Writer.handle_writeParts, hh]) h₂
      (index.put key position (BitVec.ofNat 32 found.value.length) found.timestamp)
      (position + (headerSize + key.length + found.value.length)) (entry.offset + n)
    rwa [hdata] at this

/-- On the empty script `Compact` is the fault-free `Compact`. -/
theorem Mirrors.compact {e : Engine} {bc : Bitcask} (h : e.Mirrors bc) (visit : List (Bytes × IndexEntry)) :
    (e.compact visit []).1 = (bc.compact visit).1 ∧ (e.compact visit []).2.1.Mirrors (bc.compact visit).2 ∧
      (e.compact visit []).2.2 = [] := by
  unfold Engine.compact Bitcask.compact
  rw [h.closed]
  split
  · exact ⟨rfl, h, rfl⟩
  have hf := h.flushed
  have hcl := copyLoop_nil (e.withWriter ⟨e.writer.data, e.writer.handle, [], e.writer.err⟩) h.dataFile visit
    ⟨[], .opened, [], none⟩ rfl rfl Index.empty 0 bc.flush.cursor
  have hfile : (e.withWriter ⟨e.writer.data, e.writer.handle, [], e.writer.err⟩).bc.file = bc.flush.file := by
    rw [Bitcask.file_flush]; exact h.data
  rw [hfile] at hcl
  rw [Writer.flush_nil _ h.writes h.err]
  dsimp only
  simp only [show sysCall [] = (none, []) from rfl]
  obtain ⟨hs, hcl⟩ := hcl
  rw [show Writer.data ⟨[], .opened, [], none⟩ = [] from rfl] at hcl
  rw [hs]
  revert hcl
  rcases Bitcask.copyLoop bc.flush.file visit ⟨[], Index.empty, 0⟩ bc.flush.cursor with ⟨_ | copy, cursor⟩
  · intro hcl
    dsimp only at hcl ⊢
    rw [hcl]
    exact ⟨rfl, hf.cursor _, rfl⟩
  · rintro ⟨temp, hcl, htemp, hh, he⟩
    dsimp only
    rw [hcl]
    dsimp only
    rw [Writer.flush_nil _ hh he]
    dsimp only
    rw [hh, Handle.call_nil]
    dsimp only
    unfold closeDataFile
    rw [dataFile_withWriter, h.dataFile]
    simp only [show sysCall [] = (none, []) from rfl]
    exact ⟨trivial, ⟨rfl, rfl, rfl, congrArg (· ++ []) htemp, rfl, rfl, hf.closed, hf.syncWrite,
      hf.totalReads, hf.totalWrites⟩, trivial⟩

/-! ### A failed `Put` or `Delete` -/

/-- What a write can leave: the index as it was, the bytes grown by a prefix of the record, and
the position as it was unless the whole record is in the bytes and the position past it. -/
structure Leaves (e e' : Engine) (record : Bytes) : Prop where
  index : e'.bc.index = e.bc.index
  grows : e.bc.data <+: e'.bc.data
  within : e'.bc.data <+: e.bc.data ++ record
  position : e'.bc.position = e.bc.position ∨
    e'.bc.data = e.bc.data ++ record ∧ e'.bc.position = e.bc.position + record.length

theorem Leaves.refl (e : Engine) (record : Bytes) : Leaves e e record :=
  ⟨rfl, List.prefix_refl _, List.prefix_append _ _, .inl rfl⟩

/-- Only the first engine's index, bytes and position matter. -/
theorem Leaves.congr {e₁ e e' : Engine} {record : Bytes} (h : Leaves e₁ e' record)
    (hi : e₁.bc.index = e.bc.index) (hd : e₁.bc.data = e.bc.data) (hp : e₁.bc.position = e.bc.position) :
    Leaves e e' record := by
  obtain ⟨h₁, h₂, h₃, h₄⟩ := h
  rw [hi] at h₁; rw [hd] at h₂ h₃ h₄; rw [hp] at h₄
  exact ⟨h₁, h₂, h₃, h₄⟩

theorem leaves_writeEntry (e : Engine) (key value : Bytes) (timestamp : Timestamp) (isDeleted : Bool)
    (script : List Answer) :
    Leaves e (e.writeEntry key value timestamp isDeleted script).2.1
      (encodeRecord key value timestamp isDeleted) :=
  have h := writeEntry_data e key value timestamp isDeleted script
  ⟨index_writeEntry .., h.1, h.2.1, h.2.2⟩

section Failed

variable {e : Engine} {key value : Bytes} {timestamp : Timestamp} {script : List Answer} {err : Error}

theorem leaves_put (h : (e.put key value timestamp script).1 = .error err) :
    Leaves e (e.put key value timestamp script).2.1 (encodeRecord key value timestamp false) := by
  unfold put at h ⊢
  by_cases hc : e.bc.closed
  · rw [if_pos hc]; exact Leaves.refl ..
  · rw [if_neg hc] at h ⊢
    dsimp only at h ⊢; split
    · exact (leaves_writeEntry ..).congr rfl rfl rfl
    · next hw => rw [hw] at h; cases h

theorem leaves_delete (h : (e.delete key timestamp script).1 = .error err) :
    Leaves e (e.delete key timestamp script).2.1 (encodeRecord key [] timestamp true) := by
  unfold delete at h ⊢
  by_cases hc : e.bc.closed
  · rw [if_pos hc]; exact Leaves.refl ..
  · rw [if_neg hc] at h ⊢
    dsimp only at h ⊢; split
    · exact (leaves_writeEntry ..).congr rfl rfl rfl
    · next hw => rw [hw] at h; cases h

end Failed

/-- With `syncWrite`, on a healthy engine that holds a log and whose buffer has room for the
record, a `Put` whose flush succeeds and whose fsync fails reports the error and leaves the index
alone, yet the file holds the record, after the log. -/
theorem put_fails_at_sync {e : Engine} {log : List Record} (h : Holds e.bc log)
    (hc : e.bc.closed = false) (hs : e.bc.syncWrite = true) (he : e.err = none)
    (hw : e.writes = .opened) (key value : Bytes) (timestamp : Timestamp)
    (hb : e.bc.buffer.length + (encodeRecord key value timestamp false).length ≤ Writer.bufferSize)
    (errno : Nat) (hd : e.dataFile = .opened) :
    (e.put key value timestamp [.ok, .fail 0 errno]).1 = .error (.failed "sync" (.os errno)) ∧
      (e.put key value timestamp [.ok, .fail 0 errno]).2.1.bc.index = e.bc.index ∧
      (e.put key value timestamp [.ok, .fail 0 errno]).2.1.bc.file =
        encodeLog (log ++ [⟨key, value, timestamp, false⟩]) := by
  have hfit := Writer.writeParts_fits ⟨e.bc.file, e.writes, e.bc.buffer, e.err⟩
    [("write header", header key value timestamp false), ("write key", key), ("write value", value)]
    [.ok, .fail 0 errno] he (by rw [partsBytes_record]; simp only [Writer.available]; omega)
  rw [partsBytes_record] at hfit
  have hne : e.bc.buffer ++ encodeRecord key value timestamp false ≠ [] := by
    simp [encodeRecord_ne_nil]
  unfold put writeEntry
  simp only [hc, if_false, Bool.false_eq_true, writer, hfit, hs, if_true]
  rw [Writer.flush_ok ⟨e.bc.file, e.writes, e.bc.buffer ++ encodeRecord key value timestamp false, e.err⟩
    hw he hne]
  simp only [hd, Handle.call, Handle.refusal, sysCall, Answer.next]
  simp only [true_and]
  refine ⟨rfl, ?_⟩
  show e.bc.file ++ (e.bc.buffer ++ _) = _
  rw [← List.append_assoc]
  change e.bc.data ++ _ = _
  rw [h.data, encodeLog_snoc]; rfl

end Engine

/-! ### A failed `Compact` -/

namespace Engine

/-- The copy loop fails at a seek or a read of the data file, or with an error the system
returned for the temporary file. -/
theorem copyLoop_error (e : Engine) {visit : List (Bytes × IndexEntry)} {temp : Writer} {index : Index}
    {position : Nat} {script : List Answer} {err : Error} (hh : temp.handle = .opened)
    (he : temp.err = none) (h : (e.copyLoop visit (temp, index, position) script).1 = .error err) :
    (∃ x, err = .failed "seek" x) ∨ (∃ x, err = .failed "read entry" x) ∨ ∃ errno, err = .os errno := by
  induction visit generalizing temp index position script with
  | nil => cases h
  | cons p visit ih =>
    obtain ⟨key, entry⟩ := p
    unfold copyLoop at h
    split at h
    · exact ih hh he h
    dsimp only at h
    split at h
    · cases h; exact .inl ⟨_, rfl⟩
    split at h
    · cases h; exact .inr (.inl ⟨_, rfl⟩)
    split at h
    · cases h; exact .inr (.inl ⟨_, rfl⟩)
    split at h
    · next hw =>
      cases h
      exact .inr (.inr (Writer.os_of_writeParts hh he hw))
    · next hw =>
      exact ih (by rw [Writer.handle_writeParts, hh])
        ((Writer.writeParts_err _ _ _ he).symm.trans (by rw [hw]; rfl)) h

/-- The copy loop leaves the temporary file's writer open and without error. -/
theorem copyLoop_ok (e : Engine) {visit : List (Bytes × IndexEntry)} {temp temp' : Writer}
    {index index' : Index} {position position' : Nat} {script : List Answer}
    (hh : temp.handle = .opened) (he : temp.err = none)
    (h : (e.copyLoop visit (temp, index, position) script).1 = .ok (temp', index', position')) :
    temp'.handle = .opened ∧ temp'.err = none := by
  induction visit generalizing temp index position script with
  | nil => cases h; exact ⟨hh, he⟩
  | cons p visit ih =>
    obtain ⟨key, entry⟩ := p
    unfold copyLoop at h
    split at h
    · exact ih hh he h
    dsimp only at h
    split at h
    · cases h
    split at h
    · cases h
    split at h
    · cases h
    split at h
    · cases h
    · next hw =>
      exact ih (by rw [Writer.handle_writeParts, hh])
        ((Writer.writeParts_err _ _ _ he).symm.trans (by rw [hw]; rfl)) h

/-- A `Compact` that reports a failed rename has flushed the writer and closed the data file, and
done nothing else to the engine. -/
theorem compact_of_rename {e : Engine} {visit : List (Bytes × IndexEntry)} {script : List Answer}
    {err : Error} (h : (e.compact visit script).1 = .error (.failed "rename temp file" err)) :
    e.bc.closed = false ∧ (e.writer.flush script).1 = none ∧
      (e.compact visit script).2.1 = (e.withWriter (e.writer.flush script).2.1).closeDataFile := by
  unfold compact at h ⊢
  by_cases hc : e.bc.closed
  · rw [if_pos hc] at h; cases h
  rw [if_neg hc] at h ⊢
  refine ⟨by simpa using hc, ?_⟩
  dsimp only at h ⊢
  split at h
  · simp at h
  next hf =>
  refine ⟨hf, ?_⟩
  split at h
  · simp at h
  next hcr =>
  split at h
  · next err' hcp =>
    cases h
    rcases copyLoop_error _ rfl rfl hcp with ⟨_, h⟩ | ⟨_, h⟩ | ⟨_, h⟩ <;> simp at h
  next temp index position hcp =>
  obtain ⟨hh, he⟩ := copyLoop_ok _ rfl rfl hcp
  split at h
  · next err' htf =>
    cases h
    obtain ⟨n, hn⟩ := Writer.sysErr_flush temp _ hh (he ▸ sysErr_none) _
      (by rw [← Writer.fst_flush, htf]; rfl)
    cases hn
  next htf =>
  split at h
  · next err' hs =>
    cases h
    rw [Writer.handle_flush, hh] at hs
    obtain ⟨n, hn⟩ := sysErr_sysCall _ _ (by rw [show Handle.opened.call _ = sysCall _ from rfl] at hs; rw [hs]; rfl)
    cases hn
  next hs =>
  split at h
  · rfl
  next hr =>
  split at h <;> simp at h

/-- An open engine whose writer holds nothing and whose data file is closed fails every `Get` of
a live key at the seek, whatever the system answers. -/
theorem get_of_closed_file {e : Engine} (hc : e.bc.closed = false) (he : e.err = none)
    (hb : e.bc.buffer = []) (hd : e.dataFile = .closed) {key : Bytes} {entry : IndexEntry}
    (hk : e.bc.index.get key = some entry) (hl : entry.isDeleted = false) (script : List Answer) :
    (e.get key script).1 = .error (.failed "seek" .fileClosed) := by
  simp [get, hc, hk, hl, writer, Writer.flush, he, hb, hd, Handle.call, Handle.refusal]

end Engine

/-- A `Compact` that fails at the rename leaves the engine open, with its bytes, index and
position, but with its data file closed: from then on every `Get` of a live key fails at the
seek, whatever the system answers. -/
theorem compact_rename_failure_breaks_get {e : Engine} {visit : List (Bytes × IndexEntry)}
    {script : List Answer} {err : Error} (hd : e.dataFile = .opened)
    (h : (e.compact visit script).1 = .error (.failed "rename temp file" err)) :
    (e.compact visit script).2.1.bc.closed = false ∧
      (e.compact visit script).2.1.bc.data = e.bc.data ∧
      (e.compact visit script).2.1.bc.index = e.bc.index ∧
      (e.compact visit script).2.1.bc.position = e.bc.position ∧
      (e.compact visit script).2.1.dataFile = .closed ∧
      ∀ key entry script', e.bc.index.get key = some entry → entry.isDeleted = false →
        ((e.compact visit script).2.1.get key script').1 = .error (.failed "seek" .fileClosed) := by
  obtain ⟨hc, hf, he⟩ := Engine.compact_of_rename h
  have hw : (e.writer.flush script).2.1.err = none := (Writer.fst_flush ..).symm.trans hf
  have hb : (e.writer.flush script).2.1.buf = [] := Writer.buf_flush hf
  rw [he]
  simp only [Engine.closeDataFile, Engine.dataFile_withWriter, hd]
  refine ⟨hc, by simp, rfl, rfl, trivial, fun key entry script' hk hl => ?_⟩
  apply Engine.get_of_closed_file <;> first | assumption | rfl

/-- On an engine opened on one record, `Get` answers; a `Compact` whose rename fails reports it,
and `Get` then fails at the seek. -/
theorem compact_rename_failure_one_record :
    let e : Engine := ⟨⟨encodeRecord [107] [1] 1 false, [], 23, Index.empty.put [107] 0 1 1, 23, false,
      false, 0, 0⟩, none, .opened, .opened⟩
    let script : List Answer := [.ok, .ok, .ok, .ok, .ok, .fail 0 2]
    (e.get [107] []).1 = .ok ([1], 1) ∧
      (e.compact (Index.empty.put [107] 0 1 1).all script).1 = .error (.failed "rename temp file" (.os 2)) ∧
      ((e.compact (Index.empty.put [107] 0 1 1).all script).2.1.get [107] []).1 =
        .error (.failed "seek" .fileClosed) :=
  have hb : Holds ⟨encodeRecord [107] [1] 1 false, [], 23, Index.empty.put [107] 0 1 1, 23, false, false, 0, 0⟩
      [⟨[107], [1], 1, false⟩] := ⟨by simp [Record.Fits, Fits], rfl, rfl, rfl⟩
  have hr : readEntry (encodeRecord [107] [1] 1 false) 0 = .ok (⟨[107], [1], 1, false, 0, 1⟩, 23) := by
    simpa using readEntry_encodeRecord [107] [1] 1 false (by simp [Fits]) [] 0
  -- The copy reads the record through `hr`, so that no evaluation runs the checksum.
  have hcopy : ∀ e : Engine, e.dataFile = .opened → e.bc.file = encodeRecord [107] [1] 1 false →
      e.copyLoop [([107], ⟨0, 1, 1, false⟩)] (⟨[], .opened, [], none⟩, Index.empty, 0) [.ok, .ok, .ok, .ok, .fail 0 2] =
        (.ok (⟨[], .opened, header [107] [1] 1 false ++ [107] ++ [1], none⟩, Index.empty.put [107] 0 1 1, 23),
          [.ok, .ok, .fail 0 2]) := by
    intro e hd hf
    unfold Engine.copyLoop
    simp only [hd, hf, Handle.call, Handle.refusal, sysCall, Answer.next, List.drop_zero, hr]
    rfl
  have h : (Engine.compact ⟨⟨encodeRecord [107] [1] 1 false, [], 23, Index.empty.put [107] 0 1 1, 23, false,
      false, 0, 0⟩, none, .opened, .opened⟩ (Index.empty.put [107] 0 1 1).all
      [.ok, .ok, .ok, .ok, .ok, .fail 0 2]).1 = .error (.failed "rename temp file" (.os 2)) := by
    rw [show (Index.empty.put [107] 0 1 1).all = [([107], ⟨0, 1, 1, false⟩)] from rfl]
    unfold Engine.compact
    dsimp only
    erw [hcopy _ rfl rfl]
    rfl
  ⟨((Engine.mirrors_self _).get [107]).1.trans ((hb.get_eq rfl [107]).trans rfl), h,
    (compact_rename_failure_breaks_get rfl h).2.2.2.2.2 [107] _ [] rfl rfl⟩

/-! ### What a failed write leaves -/

/-- A `Put` or a `Delete` that returns an error leaves the index as it was and appends a prefix of
its record to the engine's bytes; the position moves only when the whole record is there, and
then past it. -/
theorem failed_write_leaves_partial_record (e : Engine) (key value : Bytes) (timestamp : Timestamp)
    (script : List Answer) (err : Error) :
    ((e.put key value timestamp script).1 = .error err →
      Engine.Leaves e (e.put key value timestamp script).2.1 (encodeRecord key value timestamp false)) ∧
    ((e.delete key timestamp script).1 = .error err →
      Engine.Leaves e (e.delete key timestamp script).2.1 (encodeRecord key [] timestamp true)) :=
  ⟨Engine.leaves_put, Engine.leaves_delete⟩

theorem failed_write_at_sync_leaves_record :
    let e : Engine := ⟨⟨[], [], 0, Index.empty, 0, false, true, 0, 0⟩, none, .opened, .opened⟩
    (e.put [107] [1] 1 [.ok, .fail 0 5]).1 = .error (.failed "sync" (.os 5)) ∧
      Engine.Leaves e (e.put [107] [1] 1 [.ok, .fail 0 5]).2.1 (encodeRecord [107] [1] 1 false) ∧
    (e.delete [107] 1 [.ok, .fail 0 5]).1 = .error (.failed "sync" (.os 5)) ∧
      Engine.Leaves e (e.delete [107] 1 [.ok, .fail 0 5]).2.1 (encodeRecord [107] [] 1 true) :=
  have hp : (Engine.put ⟨⟨[], [], 0, Index.empty, 0, false, true, 0, 0⟩, none, .opened, .opened⟩
      [107] [1] 1 [.ok, .fail 0 5]).1 = .error (.failed "sync" (.os 5)) := rfl
  have hd : (Engine.delete ⟨⟨[], [], 0, Index.empty, 0, false, true, 0, 0⟩, none, .opened, .opened⟩
      [107] 1 [.ok, .fail 0 5]).1 = .error (.failed "sync" (.os 5)) := rfl
  ⟨hp, (failed_write_leaves_partial_record _ [107] [1] 1 [.ok, .fail 0 5] _).1 hp,
    hd, (failed_write_leaves_partial_record _ [107] [1] 1 [.ok, .fail 0 5] _).2 hd⟩

/-- With `syncWrite`, a `Put` on a fresh engine whose flush succeeds and whose fsync fails reports
the error and leaves the index empty, yet `NewBitcask` on the file reads the value back. -/
theorem put_reported_failed_is_read_after_restart :
    let e : Engine := ⟨⟨[], [], 0, Index.empty, 0, false, true, 0, 0⟩, none, .opened, .opened⟩
    (e.put [107] [1] 1 [.ok, .fail 0 5]).1 = .error (.failed "sync" (.os 5)) ∧
      (e.put [107] [1] 1 [.ok, .fail 0 5]).2.1.bc.index = Index.empty ∧
      ∃ bc, Bitcask.open_ (e.put [107] [1] 1 [.ok, .fail 0 5]).2.1.bc.file false = .ok bc ∧
        (bc.get [107]).1 = .ok ([1], 1) := by
  have h₀ : Holds ⟨[], [], 0, Index.empty, 0, false, true, 0, 0⟩ [] :=
    ⟨(fun _ h => nomatch h), rfl, rfl, rfl⟩
  obtain ⟨h₁, h₂, h₃⟩ := @Engine.put_fails_at_sync ⟨_, none, .opened, .opened⟩ [] h₀ rfl rfl rfl rfl
    [107] [1] 1
    (by simp [length_encodeRecord, headerSize, Writer.bufferSize]) 5 rfl
  have hf : ∀ r ∈ [(⟨[107], [1], 1, false⟩ : Record)], r.Fits := by simp [Record.Fits, Fits]
  obtain ⟨hh, hc⟩ := holds_of_open hf (open_encodeLog _ hf false)
  refine ⟨h₁, h₂, _, by rw [h₃, List.nil_append]; exact open_encodeLog _ hf false, ?_⟩
  rw [hh.get_eq hc]; rfl

end MiniDynamo.Storage
