import MiniDynamo.Storage.Refinement

/-! Recovery: `NewBitcask` on the file a run left behind.

After a run of successful calls and `Close`, the file holds the run's log, so `NewBitcask` on it
succeeds and `rebuildIndex` builds exactly the index held before `Close`, counters included
(`reopen_after_close`): every `Get`, `Has`, `Keys`, `Count` and key count of `Stats` answers as
before the restart.

A file that ends in a torn record is another matter. `rebuildIndex` stops only at `io.EOF` on a
record boundary and treats every other error as fatal, so on a log followed by a strict prefix of
a record, or by a record whose checksum does not match, `NewBitcask` fails with the tail's error
at the tail's offset (`open_tornTail`); nothing is truncated. -/
namespace MiniDynamo.Storage

/-! ### Reopening after `Close` -/

/-- `Close` leaves the engine's bytes in the file. -/
theorem file_close {bc : Bitcask} (hc : bc.closed = false) : bc.close.2.file = bc.data := by
  simp [Bitcask.close, hc]

/-- After a run of successful calls from an engine opened on a log, and `Close`, `NewBitcask` on
the file succeeds and rebuilds the index held before `Close`: every answer is the same. -/
theorem reopen_after_close {log0 : List Record} (hf0 : ∀ r ∈ log0, r.Fits) {syncWrite : Bool}
    {bc0 bc : Bitcask} {calls : List Call} (h0 : Bitcask.open_ (encodeLog log0) syncWrite = .ok bc0)
    (hr : Runs bc0 calls bc) (hf : ∀ c ∈ calls, c.Fits) (syncWrite' : Bool) :
    ∃ bc', Bitcask.open_ bc.close.2.file syncWrite' = .ok bc' ∧ bc'.index = bc.index ∧
      bc'.keys = bc.keys ∧ bc'.count = bc.count ∧
      bc'.stats.activeKeys = bc.stats.activeKeys ∧ bc'.stats.deletedKeys = bc.stats.deletedKeys ∧
      ∀ key, (bc'.get key).1 = (bc.get key).1 ∧ bc'.has key = bc.has key := by
  obtain ⟨h0, hc0⟩ := holds_of_open hf0 h0
  obtain ⟨log, h, -, hc⟩ := hr.holds h0 hc0 hf
  obtain ⟨h', hc'⟩ := holds_of_open h.fits (open_encodeLog log h.fits syncWrite')
  have hi : replay log 0 Index.empty = bc.index := h.index.symm
  rw [file_close hc, h.data]
  refine ⟨_, open_encodeLog log h.fits syncWrite', hi, ?_, ?_, ?_, ?_, fun key => ⟨?_, ?_⟩⟩
  · simp [Bitcask.keys, hc, hi]
  · simp [Bitcask.count, hi]
  · simp [Bitcask.stats, hi]
  · simp [Bitcask.stats, hi]
  · rw [h'.get_eq hc' key, h.get_eq hc key]
  · rw [h'.has_eq hc' key, h.has_eq hc key]

theorem reopen_after_close_one_put :
    (∀ r ∈ ([] : List Record), r.Fits) ∧
    Bitcask.open_ (encodeLog []) false = .ok ⟨[], [], 0, Index.empty, 0, false, false, 0, 0⟩ ∧
    Runs ⟨[], [], 0, Index.empty, 0, false, false, 0, 0⟩ [.put [1] [2] 5]
      (Bitcask.put ⟨[], [], 0, Index.empty, 0, false, false, 0, 0⟩ [1] [2] 5).2 ∧
    (∀ c ∈ [Call.put [1] [2] 5], c.Fits) ∧
    ∃ bc', Bitcask.open_ (Bitcask.put ⟨[], [], 0, Index.empty, 0, false, false, 0, 0⟩ [1] [2] 5).2.close.2.file
        true = .ok bc' ∧
      bc'.index = (Bitcask.put ⟨[], [], 0, Index.empty, 0, false, false, 0, 0⟩ [1] [2] 5).2.index ∧
      bc'.keys = (Bitcask.put ⟨[], [], 0, Index.empty, 0, false, false, 0, 0⟩ [1] [2] 5).2.keys ∧
      bc'.count = (Bitcask.put ⟨[], [], 0, Index.empty, 0, false, false, 0, 0⟩ [1] [2] 5).2.count ∧
      bc'.stats.activeKeys =
        (Bitcask.put ⟨[], [], 0, Index.empty, 0, false, false, 0, 0⟩ [1] [2] 5).2.stats.activeKeys ∧
      bc'.stats.deletedKeys =
        (Bitcask.put ⟨[], [], 0, Index.empty, 0, false, false, 0, 0⟩ [1] [2] 5).2.stats.deletedKeys ∧
      ∀ key, (bc'.get key).1 =
          ((Bitcask.put ⟨[], [], 0, Index.empty, 0, false, false, 0, 0⟩ [1] [2] 5).2.get key).1 ∧
        bc'.has key = (Bitcask.put ⟨[], [], 0, Index.empty, 0, false, false, 0, 0⟩ [1] [2] 5).2.has key :=
  have hr : Runs ⟨[], [], 0, Index.empty, 0, false, false, 0, 0⟩ [.put [1] [2] 5]
      (Bitcask.put ⟨[], [], 0, Index.empty, 0, false, false, 0, 0⟩ [1] [2] 5).2 :=
    .snoc (.nil _) (.put rfl)
  have hf : ∀ c ∈ [Call.put [1] [2] 5], c.Fits := by simp [Call.Fits, Fits]
  have hf0 : ∀ r ∈ ([] : List Record), r.Fits := fun _ h => nomatch h
  ⟨hf0, rfl, hr, hf, reopen_after_close hf0 rfl hr hf true⟩

/-! ### A torn tail -/

/-- Any error but `io.EOF` stops the rebuild, reported at its offset. -/
theorem rebuildLoop_of_error {rest : Bytes} {offset : Nat} {e : Error}
    (h : readEntry rest offset = .error e) (he : e ≠ .eof) (idx : Index) :
    Bitcask.rebuildLoop rest offset idx = .error (.atOffset offset e) := by
  rw [Bitcask.rebuildLoop]
  split
  next h' => rw [h, Except.error.injEq] at h'; exact absurd h' he
  next h' => rw [h, Except.error.injEq] at h'; rw [h']
  next h' => rw [h] at h'; cases h'

/-- `NewBitcask` on a log of fitting records succeeds with the log replayed, but on the log
followed by a torn tail it fails, with the tail's error, never `io.EOF`, at the tail's offset. -/
theorem open_tornTail {log : List Record} (hf : ∀ r ∈ log, r.Fits) {tail : Bytes}
    (ht : TornTail tail) (syncWrite : Bool) :
    (∃ bc, Bitcask.open_ (encodeLog log) syncWrite = .ok bc ∧ bc.index = replay log 0 Index.empty) ∧
    ∃ e, e ≠ .eof ∧ Bitcask.open_ (encodeLog log ++ tail) syncWrite =
      .error (.failed "rebuild index" (.atOffset (encodeLog log).length e)) := by
  refine ⟨⟨_, open_encodeLog log hf syncWrite, rfl⟩, ?_⟩
  obtain ⟨e, he, hne⟩ := readEntry_tornTail ht (encodeLog log).length
  have hpos : 0 < (encodeLog log ++ tail).length := by
    rcases tail with _ | ⟨b, tail⟩
    · exact absurd (Except.error.inj he).symm hne
    · simp only [List.length_append, List.length_cons]; omega
  refine ⟨e, hne, ?_⟩
  unfold Bitcask.open_
  simp only [if_pos hpos, Bitcask.rebuildIndex, rebuildLoop_encodeLog_append log hf, Nat.zero_add,
    rebuildLoop_of_error he hne]

/-- A log of one record followed by the first 20 bytes of another, a header cut short. -/
theorem open_torn_header :
    TornTail ((encodeRecord [3] [4] 6 false).take 20) ∧
    Bitcask.open_ (encodeLog [⟨[1], [2], 5, false⟩] ++ (encodeRecord [3] [4] 6 false).take 20) false =
      .error (.failed "rebuild index" (.atOffset 23 .unexpectedEOF)) := by
  have hf : ∀ r ∈ [(⟨[1], [2], 5, false⟩ : Record)], r.Fits := by simp [Record.Fits, Fits]
  refine ⟨.short _ _ _ _ 20 (by simp [Fits]) (by decide)
    (by simp [length_encodeRecord, headerSize]), ?_⟩
  have he : readEntry ((encodeRecord [3] [4] 6 false).take 20) 23 = .error .unexpectedEOF :=
    readEntry_short_header (by simp [← List.length_pos, length_encodeRecord, headerSize])
      (by simp [length_encodeRecord, headerSize]) 23
  have hl : (encodeLog [(⟨[1], [2], 5, false⟩ : Record)]).length = 23 := by
    simp [encodeLog, Record.encode, length_encodeRecord, headerSize]
  unfold Bitcask.open_
  simp only [Bitcask.rebuildIndex, rebuildLoop_encodeLog_append _ hf, Nat.zero_add, hl,
    rebuildLoop_of_error he (by decide)]
  simp [encodeRecord_ne_nil]

theorem open_tornTail_after_one_record :
    (∀ r ∈ [(⟨[1], [2], 5, false⟩ : Record)], r.Fits) ∧
    TornTail ((encodeRecord [3] [4] 6 false).take 20) ∧
    (∃ bc, Bitcask.open_ (encodeLog [⟨[1], [2], 5, false⟩]) false = .ok bc ∧
      bc.index = replay [⟨[1], [2], 5, false⟩] 0 Index.empty) ∧
    ∃ e, e ≠ .eof ∧ Bitcask.open_ (encodeLog [⟨[1], [2], 5, false⟩] ++
        (encodeRecord [3] [4] 6 false).take 20) false =
      .error (.failed "rebuild index" (.atOffset (encodeLog [⟨[1], [2], 5, false⟩]).length e)) :=
  have hf : ∀ r ∈ [(⟨[1], [2], 5, false⟩ : Record)], r.Fits := by simp [Record.Fits, Fits]
  have ht : TornTail ((encodeRecord [3] [4] 6 false).take 20) :=
    .short _ _ _ _ 20 (by simp [Fits]) (by decide) (by simp [length_encodeRecord, headerSize])
  ⟨hf, ht, open_tornTail hf ht false⟩

end MiniDynamo.Storage
