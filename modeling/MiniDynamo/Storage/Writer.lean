import MiniDynamo.Storage.Codec

/-! `bufio.Writer` over an `*os.File`, with system calls that can fail.

What the system answers to each call comes from a script, in the order of the calls; once the
script runs out every call succeeds, so the empty script is the run on which nothing fails. A
`write` that succeeds takes every byte (`(*os.File).Write` reports an error whenever it takes
fewer); one that fails has taken some of them. A closed or nil `*os.File` refuses every call
before it reaches the system.

`Writer.flush` and `Writer.write` are `bufio`'s `Flush` and `Write` over a buffer of
`bufferSize` bytes. The error of a failed flush sticks, and every later call returns it; a
flush that fails keeps in the buffer what the file did not take; a write larger than the free
space fills the buffer and flushes it, or goes straight to the file when the buffer is empty.

What a failure can leave behind (`data_write`, `data_writeParts`): the writer's bytes, the file
followed by the buffer, grow by a prefix of what was written, and by all of it exactly when the
call succeeds. On the empty script nothing fails (`write_nil`, `flush_nil`). -/
namespace MiniDynamo.Storage

/-- What the system answers to one call. -/
inductive Answer where
  | ok
  /-- The call failed with `errno`, a `write` after taking `written` bytes. -/
  | fail (written : Nat) (errno : Nat)
  deriving DecidableEq, Repr

/-- The next answer and the script after it; once the script runs out every call succeeds. -/
def Answer.next : List Answer → Answer × List Answer
  | [] => (.ok, [])
  | a :: script => (a, script)

/-- A call that moves no bytes (`Sync`, `Seek`, a read, `Create`, `Rename`, `OpenFile`). -/
def sysCall (script : List Answer) : Option Error × List Answer :=
  match Answer.next script with
  | (.ok, script) => (none, script)
  | (.fail _ errno, script) => (some (.os errno), script)

/-- An error, if any, that the system returned. -/
def SysErr (err : Option Error) : Prop := ∀ e ∈ err, ∃ errno, e = .os errno

theorem sysErr_none : SysErr none := fun _ h => nomatch h

theorem sysErr_sysCall (script : List Answer) : SysErr (sysCall script).1 := by
  unfold sysCall; split
  · exact sysErr_none
  · exact fun _ h => ⟨_, (Option.mem_some_iff.mp h).symm⟩

/-- What an `*os.File` variable holds. -/
inductive Handle where
  | opened
  | closed
  | nil
  deriving DecidableEq, Repr

namespace Handle

/-- The error a closed or nil `*os.File` returns without asking the system. -/
def refusal : Handle → Option Error
  | opened => none
  | closed => some .fileClosed
  | nil => some .invalid

/-- A call that moves no bytes, on this file. -/
def call (h : Handle) (script : List Answer) : Option Error × List Answer :=
  match h.refusal with
  | some err => (some err, script)
  | none => sysCall script

/-- `(*os.File).Write(p)`: how many bytes the file takes, and the error if it fails. -/
def write (h : Handle) (p : Bytes) (script : List Answer) : Nat × Option Error × List Answer :=
  match h.refusal with
  | some err => (0, some err, script)
  | none =>
    match Answer.next script with
    | (.ok, script) => (p.length, none, script)
    | (.fail written errno, script) => (min written p.length, some (.os errno), script)

theorem write_le (h : Handle) (p : Bytes) (script : List Answer) : (h.write p script).1 ≤ p.length := by
  unfold write; split
  · exact Nat.zero_le _
  · split
    · exact le_rfl
    · exact Nat.min_le_right _ _

/-- A write that reports no error took everything. -/
theorem write_of_none {h : Handle} {p : Bytes} {script : List Answer}
    (hn : (h.write p script).2.1 = none) : (h.write p script).1 = p.length := by
  unfold write at hn ⊢
  rcases hr : h.refusal with _ | err
  · rcases hs : Answer.next script with ⟨_ | ⟨written, errno⟩, s⟩ <;> simp [hr, hs] at hn ⊢
  · simp [hr] at hn

/-- An open file's errors are the system's. -/
theorem sysErr_write (p : Bytes) (script : List Answer) : SysErr (opened.write p script).2.1 := by
  simp only [write, refusal]; split
  · exact sysErr_none
  · exact fun _ h => ⟨_, (Option.mem_some_iff.mp h).symm⟩

@[simp] theorem write_nil (p : Bytes) : opened.write p [] = (p.length, none, []) := rfl

@[simp] theorem call_nil : opened.call [] = (none, []) := rfl

end Handle

/-- A `bufio.Writer` and the file under it. -/
structure Writer where
  /-- What the file holds. -/
  file : Bytes
  /-- The `*os.File` it writes to. -/
  handle : Handle
  /-- `buf[0:n]`. -/
  buf : Bytes
  /-- The error every call returns once a write to the file has failed. -/
  err : Option Error
  deriving DecidableEq, Repr

namespace Writer

/-- `bufio.NewWriterSize(f, 64*1024)`. -/
def bufferSize : Nat := 64 * 1024

/-- Everything written: the file, then the buffer. -/
def data (w : Writer) : Bytes := w.file ++ w.buf

/-- `Available()`. -/
def available (w : Writer) : Nat := bufferSize - w.buf.length

/-- `Flush`: the buffer goes to the file; what the file did not take stays buffered. (The
`io.ErrShortWrite` of a short write without an error cannot arise: `(*os.File).Write` never
takes fewer bytes without one.) -/
def flush (w : Writer) (script : List Answer) : Option Error × Writer × List Answer :=
  match w.err with
  | some err => (some err, w, script)
  | none =>
    if w.buf.isEmpty then (none, w, script) else
    let r := w.handle.write w.buf script
    (r.2.1, { w with file := w.file ++ w.buf.take r.1, buf := w.buf.drop r.1, err := r.2.1 }, r.2.2)

/-- One turn of `Write`'s loop: an empty buffer sends `p` straight to the file; a non-empty one
is filled up from `p` and flushed. -/
def writeStep (w : Writer) (p : Bytes) (script : List Answer) : Writer × Bytes × List Answer :=
  if w.buf.isEmpty then
    let r := w.handle.write p script
    ({ w with file := w.file ++ p.take r.1, err := r.2.1 }, p.drop r.1, r.2.2)
  else
    let r := { w with buf := w.buf ++ p.take w.available }.flush script
    (r.2.1, p.drop w.available, r.2.2)

/-- The loop of `Write`: it turns while `p` does not fit and no error is set. -/
def writeLoop : Nat → Writer → Bytes → List Answer → Writer × Bytes × List Answer
  | 0, w, p, script => (w, p, script)
  | fuel + 1, w, p, script =>
    if w.available < p.length ∧ w.err = none then
      let r := writeStep w p script
      writeLoop fuel r.1 r.2.1 r.2.2
    else (w, p, script)

/-- `Write`: the loop, which is over within two turns (`writeLoop_done`), then the error, or the
rest of `p` into the buffer. -/
def write (w : Writer) (p : Bytes) (script : List Answer) : Option Error × Writer × List Answer :=
  let r := writeLoop 2 w p script
  match r.1.err with
  | some err => (some err, r.1, r.2.2)
  | none => (none, { r.1 with buf := r.1.buf ++ r.2.1 }, r.2.2)

/-- `Write`s one after another, as `writeEntry` and `Compact` issue them; the first error stops
them and is returned with the name of the part it stopped. -/
def writeParts (w : Writer) : List (String × Bytes) → List Answer →
    Option (String × Error) × Writer × List Answer
  | [], script => (none, w, script)
  | (what, p) :: parts, script =>
    let r := w.write p script
    match r.1 with
    | some err => (some (what, err), r.2.1, r.2.2)
    | none => writeParts r.2.1 parts r.2.2

/-! ### `Flush` -/

section Flush

variable (w : Writer) (script : List Answer)

@[simp] theorem handle_flush : (w.flush script).2.1.handle = w.handle := by
  unfold flush; split
  · rfl
  · split <;> rfl

@[simp] theorem data_flush : (w.flush script).2.1.data = w.data := by
  unfold flush; split
  · rfl
  · split
    · rfl
    · simp [data]

/-- `Flush` returns the writer's error, as it leaves it. -/
theorem fst_flush : (w.flush script).1 = (w.flush script).2.1.err := by
  unfold flush; split
  · next err h => exact h.symm
  · split
    · next h _ => exact h.symm
    · rfl

/-- Over an open file the writer's error stays one the system returned. -/
theorem sysErr_flush (hh : w.handle = .opened) (he : SysErr w.err) : SysErr (w.flush script).2.1.err := by
  unfold flush; split
  · exact he
  · split
    · exact he
    · show SysErr (w.handle.write w.buf script).2.1
      rw [hh]; exact Handle.sysErr_write _ _

theorem flush_of_err {err : Error} (h : w.err = some err) : w.flush script = (some err, w, script) := by
  simp [flush, h]

/-- A flush that succeeds empties the buffer. -/
theorem buf_flush {w : Writer} {script : List Answer} (h : (w.flush script).1 = none) :
    (w.flush script).2.1.buf = [] := by
  unfold flush at h ⊢
  rcases he : w.err with _ | err
  · by_cases hb : w.buf.isEmpty
    · simp only [he, hb, if_true]
      exact List.isEmpty_iff.mp hb
    · simp only [he, hb, if_false, Bool.false_eq_true] at h ⊢
      simp [Handle.write_of_none h]
  · simp [he] at h

/-- On the empty script a flush of a healthy writer succeeds. -/
theorem flush_nil (hh : w.handle = .opened) (he : w.err = none) :
    w.flush [] = (none, { w with file := w.data, buf := [] }, []) := by
  obtain ⟨file, handle, buf, err⟩ := w
  cases hh; cases he
  by_cases hb : buf = [] <;> simp [flush, data, hb]

/-- A flush of a non-empty buffer whose write succeeds takes one answer and empties the buffer. -/
theorem flush_ok (hh : w.handle = .opened) (he : w.err = none) (hb : w.buf ≠ []) (rest : List Answer) :
    w.flush (.ok :: rest) = (none, { w with file := w.data, buf := [] }, rest) := by
  obtain ⟨file, handle, buf, err⟩ := w
  cases hh; cases he
  simp [flush, data, hb, Handle.write, Handle.refusal, Answer.next]

end Flush

/-! ### `Write` -/

section Write

variable (w : Writer) (p : Bytes) (script : List Answer)

@[simp] theorem handle_writeStep : (writeStep w p script).1.handle = w.handle := by
  unfold writeStep; split
  · rfl
  · exact handle_flush ..

theorem sysErr_writeStep (hh : w.handle = .opened) (he : SysErr w.err) :
    SysErr (writeStep w p script).1.err := by
  unfold writeStep; split
  · show SysErr (w.handle.write p script).2.1
    rw [hh]; exact Handle.sysErr_write _ _
  · exact sysErr_flush _ _ hh he

/-- A turn moves bytes from `p` to the writer and loses none. -/
theorem writeStep_data :
    (writeStep w p script).1.data ++ (writeStep w p script).2.1 = w.data ++ p ∧
      w.data <+: (writeStep w p script).1.data := by
  unfold writeStep; split
  · next hb =>
    simp only [data, List.isEmpty_iff.mp hb, List.append_nil, List.append_assoc, List.take_append_drop,
      true_and]
    exact List.prefix_append _ _
  · simp only [data_flush]
    simp only [data, List.append_assoc, List.take_append_drop, true_and]
    exact (List.prefix_append_right_inj _).mpr (List.prefix_append _ _)

/-- A turn from an empty buffer leaves `p`'s rest fitting, or an error set: the file took
everything or failed. -/
theorem writeStep_done (hb : w.buf.isEmpty) :
    ¬ ((writeStep w p script).1.available < (writeStep w p script).2.1.length ∧
      (writeStep w p script).1.err = none) := by
  rintro ⟨hl, he⟩
  simp only [writeStep, hb, if_true] at hl he
  simp [Handle.write_of_none he] at hl

/-- A turn from a non-empty buffer ends in an error or an empty buffer. -/
theorem writeStep_flush (hb : ¬ w.buf.isEmpty) :
    (writeStep w p script).1.err = none → (writeStep w p script).1.buf.isEmpty := by
  simp only [writeStep, hb, if_false, Bool.false_eq_true]
  intro he
  rw [← fst_flush] at he
  simp [buf_flush he]

@[simp] theorem handle_writeLoop (fuel : Nat) :
    (writeLoop fuel w p script).1.handle = w.handle := by
  induction fuel generalizing w p script with
  | zero => rfl
  | succ fuel ih =>
    unfold writeLoop; split
    · rw [ih, handle_writeStep]
    · rfl

theorem writeLoop_stop (fuel : Nat) (h : ¬ (w.available < p.length ∧ w.err = none)) :
    writeLoop fuel w p script = (w, p, script) := by
  cases fuel <;> simp only [writeLoop, h, if_false]

theorem writeLoop_succ (fuel : Nat) (h : w.available < p.length ∧ w.err = none) :
    writeLoop (fuel + 1) w p script =
      writeLoop fuel (writeStep w p script).1 (writeStep w p script).2.1 (writeStep w p script).2.2 := by
  rw [writeLoop, if_pos h]

/-- The loop moves bytes from `p` to the writer and loses none: the writer's bytes, then what is
left of `p`, are the bytes it started with. -/
theorem writeLoop_data (fuel : Nat) :
    (writeLoop fuel w p script).1.data ++ (writeLoop fuel w p script).2.1 = w.data ++ p ∧
      w.data <+: (writeLoop fuel w p script).1.data := by
  induction fuel generalizing w p script with
  | zero => exact ⟨rfl, List.prefix_refl _⟩
  | succ fuel ih =>
    by_cases hg : w.available < p.length ∧ w.err = none
    · obtain ⟨h₁, h₂⟩ := writeStep_data w p script
      obtain ⟨g₁, g₂⟩ := ih (writeStep w p script).1 (writeStep w p script).2.1 (writeStep w p script).2.2
      rw [writeLoop_succ _ _ _ _ hg]
      exact ⟨g₁.trans h₁, h₂.trans g₂⟩
    · rw [writeLoop_stop _ _ _ _ hg]
      exact ⟨rfl, List.prefix_refl _⟩

/-- A loop that turns from an empty buffer stops after that turn. -/
theorem writeLoop_of_empty (fuel : Nat) (hb : w.buf.isEmpty) :
    ¬ ((writeLoop (fuel + 1) w p script).1.available < (writeLoop (fuel + 1) w p script).2.1.length ∧
      (writeLoop (fuel + 1) w p script).1.err = none) := by
  by_cases hg : w.available < p.length ∧ w.err = none
  · rw [writeLoop_succ _ _ _ _ hg, writeLoop_stop _ _ _ _ (writeStep_done w p script hb)]
    exact writeStep_done w p script hb
  · rwa [writeLoop_stop _ _ _ _ hg]

/-- After the loop `p`'s rest fits, or an error is set: two turns are always enough, since a
flush that succeeds leaves the buffer empty and a write to the file from an empty buffer either
takes everything or fails. -/
theorem writeLoop_done :
    ¬ ((writeLoop 2 w p script).1.available < (writeLoop 2 w p script).2.1.length ∧
      (writeLoop 2 w p script).1.err = none) := by
  by_cases hb : w.buf.isEmpty
  · exact writeLoop_of_empty w p script 1 hb
  by_cases hg : w.available < p.length ∧ w.err = none
  · rw [writeLoop_succ _ _ _ _ hg]
    by_cases hg' : (writeStep w p script).1.available < (writeStep w p script).2.1.length ∧
        (writeStep w p script).1.err = none
    · exact writeLoop_of_empty _ _ _ 0 (writeStep_flush w p script hb hg'.2)
    · rwa [writeLoop_stop _ _ _ _ hg']
  · rwa [writeLoop_stop _ _ _ _ hg]

theorem sysErr_writeLoop (fuel : Nat) (hh : w.handle = .opened) (he : SysErr w.err) :
    SysErr (writeLoop fuel w p script).1.err := by
  induction fuel generalizing w p script with
  | zero => exact he
  | succ fuel ih =>
    by_cases hg : w.available < p.length ∧ w.err = none
    · rw [writeLoop_succ _ _ _ _ hg]
      exact ih _ _ _ (by rw [handle_writeStep, hh]) (sysErr_writeStep w p script hh he)
    · rw [writeLoop_stop _ _ _ _ hg]; exact he

/-- What a `Write` leaves: the writer's bytes grow by a prefix of `p`, all of it when it
succeeds. -/
theorem data_write :
    w.data <+: (w.write p script).2.1.data ∧ (w.write p script).2.1.data <+: w.data ++ p ∧
      ((w.write p script).1 = none → (w.write p script).2.1.data = w.data ++ p) := by
  obtain ⟨h₁, h₂⟩ := writeLoop_data w p script 2
  unfold write; dsimp only; split
  · refine ⟨h₂, ?_, fun h => nomatch h⟩
    rw [← h₁]; exact List.prefix_append _ _
  · have hd : ({ (writeLoop 2 w p script).1 with
        buf := (writeLoop 2 w p script).1.buf ++ (writeLoop 2 w p script).2.1 } : Writer).data =
        w.data ++ p := by rw [← h₁]; simp [data]
    rw [hd]
    exact ⟨List.prefix_append _ _, List.prefix_refl _, fun _ => rfl⟩

/-- `Write` returns the writer's error, as it leaves it. -/
theorem fst_write : (w.write p script).1 = (w.write p script).2.1.err := by
  unfold write; dsimp only; split
  · next err h => exact h.symm
  · next h => exact h.symm

@[simp] theorem handle_write : (w.write p script).2.1.handle = w.handle := by
  unfold write; dsimp only; split <;> simp

theorem sysErr_write (hh : w.handle = .opened) (he : SysErr w.err) : SysErr (w.write p script).2.1.err := by
  have := sysErr_writeLoop w p script 2 hh he
  unfold write; dsimp only; split
  · exact this
  · exact this

theorem write_of_err {err : Error} (h : w.err = some err) : w.write p script = (some err, w, script) := by
  rw [write, writeLoop_stop _ _ _ _ (by simp [h])]
  simp [h]

/-- A write that fits goes into the buffer, with no call to the system. -/
theorem write_fits (he : w.err = none) (hp : p.length ≤ w.available) :
    w.write p script = (none, { w with buf := w.buf ++ p }, script) := by
  rw [write, writeLoop_stop _ _ _ _ fun h => absurd h.1 (by omega)]
  simp [he]

theorem writeStep_nil (hh : w.handle = .opened) (he : w.err = none) :
    (writeStep w p []).1.err = none ∧ (writeStep w p []).2.2 = [] := by
  unfold writeStep; split
  · simp [hh]
  · rw [flush_nil { w with buf := w.buf ++ p.take w.available } hh he]
    exact ⟨he, rfl⟩

theorem writeLoop_nil (fuel : Nat) (hh : w.handle = .opened) (he : w.err = none) :
    (writeLoop fuel w p []).1.err = none ∧ (writeLoop fuel w p []).2.2 = [] := by
  induction fuel generalizing w p with
  | zero => exact ⟨he, rfl⟩
  | succ fuel ih =>
    by_cases hg : w.available < p.length ∧ w.err = none
    · obtain ⟨h₁, h₂⟩ := writeStep_nil w p hh he
      rw [writeLoop_succ _ _ _ _ hg, h₂]
      exact ih _ _ (by rw [handle_writeStep, hh]) h₁
    · rw [writeLoop_stop _ _ _ _ hg]
      exact ⟨he, rfl⟩

/-- On the empty script a write to a healthy writer succeeds. -/
theorem write_nil (hh : w.handle = .opened) (he : w.err = none) :
    (w.write p []).1 = none ∧ (w.write p []).2.1.err = none ∧ (w.write p []).2.2 = [] := by
  obtain ⟨h₁, h₂⟩ := writeLoop_nil w p 2 hh he
  simp [write, h₁, h₂]

end Write

/-! ### A sequence of `Write`s -/

section Parts

variable (w : Writer) (parts : List (String × Bytes)) (script : List Answer)

/-- The bytes of the parts, in order. -/
def partsBytes (parts : List (String × Bytes)) : Bytes := (parts.map Prod.snd).flatten

@[simp] theorem handle_writeParts : (w.writeParts parts script).2.1.handle = w.handle := by
  induction parts generalizing w script with
  | nil => rfl
  | cons part parts ih =>
    unfold writeParts; dsimp only; split
    · simp
    · rw [ih, handle_write]

/-- What the `Write`s leave: the writer's bytes grow by a prefix of the parts' bytes, all of
them when every `Write` succeeds. -/
theorem data_writeParts :
    w.data <+: (w.writeParts parts script).2.1.data ∧
      (w.writeParts parts script).2.1.data <+: w.data ++ partsBytes parts ∧
      ((w.writeParts parts script).1 = none →
        (w.writeParts parts script).2.1.data = w.data ++ partsBytes parts) := by
  induction parts generalizing w script with
  | nil => exact ⟨List.prefix_refl _, by simp [writeParts, partsBytes], fun _ => by simp [writeParts, partsBytes]⟩
  | cons part parts ih =>
    obtain ⟨h₁, h₂, h₃⟩ := data_write w part.2 script
    unfold writeParts; dsimp only; split
    · next err h =>
      refine ⟨h₁, h₂.trans ?_, fun h => nomatch h⟩
      simp [partsBytes, List.append_assoc]
    · next h =>
      obtain ⟨g₁, g₂, g₃⟩ := ih (w.write part.2 script).2.1 (w.write part.2 script).2.2
      rw [h₃ h] at g₁ g₂ g₃
      simp only [partsBytes, List.map_cons, List.flatten_cons, List.append_assoc] at g₂ g₃ ⊢
      exact ⟨(List.prefix_append _ _).trans g₁, g₂, g₃⟩

/-- From a writer without error, the parts' error is the writer's error, as they leave it. -/
theorem writeParts_err (he : w.err = none) :
    ((w.writeParts parts script).1.map Prod.snd) = (w.writeParts parts script).2.1.err := by
  induction parts generalizing w script with
  | nil => exact he.symm
  | cons part parts ih =>
    unfold writeParts; dsimp only; split
    · next err h => rw [fst_write] at h; simp [h]
    · next h => exact ih _ _ ((fst_write ..).symm.trans h)

/-- Parts that fit together go into the buffer, with no call to the system. -/
theorem writeParts_fits (he : w.err = none) (hp : (partsBytes parts).length ≤ w.available) :
    w.writeParts parts script = (none, { w with buf := w.buf ++ partsBytes parts }, script) := by
  induction parts generalizing w with
  | nil => simp [writeParts, partsBytes]
  | cons part parts ih =>
    simp only [partsBytes, List.map_cons, List.flatten_cons, List.length_append] at hp
    have hw := write_fits w part.2 script he (by omega)
    unfold writeParts
    simp only [hw]
    rw [ih { w with buf := w.buf ++ part.2 } he
      (by simp only [available, partsBytes, List.length_append] at hp ⊢; omega)]
    simp [partsBytes, List.append_assoc]

/-- Over an open file, from no error, the parts' error is one the system returned. -/
theorem sysErr_writeParts (hh : w.handle = .opened) (he : w.err = none) :
    SysErr ((w.writeParts parts script).1.map Prod.snd) := by
  rw [writeParts_err _ _ _ he]
  induction parts generalizing w script with
  | nil => show SysErr w.err; rw [he]; exact sysErr_none
  | cons part parts ih =>
    unfold writeParts; dsimp only; split
    · exact sysErr_write _ _ _ hh (he ▸ sysErr_none)
    · next h =>
      have he' : (w.write part.2 script).2.1.err = none := (fst_write ..).symm.trans h
      exact ih (w.write part.2 script).2.1 (w.write part.2 script).2.2 (by rw [handle_write, hh]) he'

theorem os_of_writeParts {w : Writer} {parts : List (String × Bytes)} {script : List Answer}
    {what : String} {err : Error} (hh : w.handle = .opened) (he : w.err = none)
    (h : (w.writeParts parts script).1 = some (what, err)) : ∃ errno, err = .os errno :=
  sysErr_writeParts w parts script hh he _ (by rw [h]; rfl)

theorem writeParts_nil (hh : w.handle = .opened) (he : w.err = none) :
    (w.writeParts parts []).1 = none ∧ (w.writeParts parts []).2.1.err = none ∧
      (w.writeParts parts []).2.2 = [] := by
  induction parts generalizing w with
  | nil => exact ⟨rfl, he, rfl⟩
  | cons part parts ih =>
    obtain ⟨h₁, h₂, h₃⟩ := write_nil w part.2 hh he
    unfold writeParts
    simp only [h₁, h₃]
    exact ih _ (by rw [handle_write, hh]) h₂

end Parts

end Writer

end MiniDynamo.Storage
