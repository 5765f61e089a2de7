import Mathlib.Data.List.Basic
import Mathlib.Data.Nat.Defs
import Mathlib.Data.List.GetD
import Mathlib.Algebra.Group.Nat.Basic

/-! The record format of the data file (`bitcask.go`).

A record is a 21-byte header — the CRC-32 (IEEE) of everything after it, the timestamp, the
key and value lengths, all big-endian, and the deletion flag — followed by the key and the
value. `encodeRecord` is what `Bitcask.writeEntry` appends; `readEntry` decodes one record from
the front of a byte stream, as the Go function does from a `bufio.Reader`, failing with
`io.EOF` on an empty stream, `io.ErrUnexpectedEOF` on a short header, a wrapped read error on
a short key or value, and `ErrCorruptData` on a checksum mismatch.

`readEntry_encodeRecord` is the round trip, whatever follows the record. The torn-tail lemmas
at the end say that a strict prefix of a record, or a record with a wrong checksum, is an error
other than `io.EOF`. -/
namespace MiniDynamo.Storage

/-- Byte strings; Go strings are byte strings too, so keys are `Bytes`. -/
abbrev Bytes := List UInt8

/-- Timestamps are Go `int64`s: 64 bits, compared as signed integers. -/
abbrev Timestamp := BitVec 64

/-! ### Big-endian integers and the checksum -/

/-- `binary.BigEndian.PutUintN`: the `w` low bytes of `n`, most significant first. -/
def putBE : Nat → Nat → Bytes
  | 0, _ => []
  | w + 1, n => putBE w (n / 256) ++ [UInt8.ofNat n]

/-- `binary.BigEndian.UintN`: bytes read as a big-endian number. -/
def getBE (bs : Bytes) : Nat := bs.foldl (fun acc b => acc * 256 + b.toNat) 0

@[simp] theorem length_putBE (w n : Nat) : (putBE w n).length = w := by
  induction w generalizing n with
  | zero => rfl
  | succ w ih => simp [putBE, ih]

theorem toNat_ofNat_byte (n : Nat) : (UInt8.ofNat n).toNat = n % 256 := rfl

theorem ofNat_toNat_word (c : UInt32) : UInt32.ofNat c.toNat = c := by
  cases c; simp [UInt32.ofNat, UInt32.toNat]

theorem getBE_snoc (bs : Bytes) (b : UInt8) : getBE (bs ++ [b]) = getBE bs * 256 + b.toNat := by
  simp [getBE, List.foldl_append]

theorem getBE_putBE (w n : Nat) : getBE (putBE w n) = n % 256 ^ w := by
  induction w generalizing n with
  | zero => simp [putBE, getBE, Nat.mod_one]
  | succ w ih =>
    rw [putBE, getBE_snoc, ih, toNat_ofNat_byte, Nat.pow_succ, Nat.mul_comm (256 ^ w), Nat.mod_mul]
    omega

theorem getBE_putBE_of_lt {w n : Nat} (h : n < 256 ^ w) : getBE (putBE w n) = n := by
  rw [getBE_putBE, Nat.mod_eq_of_lt h]

theorem getBE_lt (bs : Bytes) : getBE bs < 256 ^ bs.length := by
  induction bs using List.reverseRecOn with
  | nil => decide
  | append_singleton bs b ih =>
    have : b.toNat < 256 := b.toBitVec.isLt
    rw [getBE_snoc, List.length_append, List.length_singleton, Nat.pow_succ]
    omega

/-- Writing back a number read big-endian gives the bytes it was read from. -/
theorem putBE_getBE (bs : Bytes) : putBE bs.length (getBE bs) = bs := by
  induction bs using List.reverseRecOn with
  | nil => rfl
  | append_singleton bs b ih =>
    have hb : b.toNat < 256 := b.toBitVec.isLt
    rw [List.length_append, List.length_singleton, putBE, getBE_snoc,
      show (getBE bs * 256 + b.toNat) / 256 = getBE bs by omega, ih,
      show UInt8.ofNat (getBE bs * 256 + b.toNat) = b from UInt8.toNat.inj (by rw [toNat_ofNat_byte]; omega)]

/-- One byte into the reflected CRC-32 register (polynomial `0xEDB88320`), bit by bit. -/
def crcByte (crc : UInt32) (b : UInt8) : UInt32 :=
  Nat.repeat (fun c => if c &&& 1 = 1 then (c >>> 1) ^^^ 0xEDB88320 else c >>> 1) 8
    (crc ^^^ b.toUInt32)

/-- `crc32.ChecksumIEEE`. -/
def checksumIEEE (data : Bytes) : UInt32 := ~~~(data.foldl crcByte 0xFFFFFFFF)

/-! ### Errors and decoded entries -/

/-- The errors the storage engine returns: its own (`engine.go`), those of `io` and `os`, and
the `fmt.Errorf` wrappings, whose text is kept. -/
inductive Error where
  | eof
  | unexpectedEOF
  | keyNotFound
  | keyDeleted
  | corruptData
  | storageClosed
  /-- What a failed system call returns: a `*PathError` carrying the system's `errno`. -/
  | os (errno : Nat)
  /-- `os.ErrClosed`: a call on a closed `*os.File`. -/
  | fileClosed
  /-- `os.ErrInvalid`: a call on a nil `*os.File`. -/
  | invalid
  /-- `fmt.Errorf("failed to <what>: %w", cause)`. -/
  | failed (what : String) (cause : Error)
  /-- `fmt.Errorf("error at offset %d: %w", offset, cause)`. -/
  | atOffset (offset : Nat) (cause : Error)
  deriving DecidableEq, Repr

/-- `storage.Entry`: a decoded record, where it was read, and `int32` of its value length. -/
structure Entry where
  key : Bytes
  value : Bytes
  timestamp : Timestamp
  isDeleted : Bool
  offset : Nat
  size : BitVec 32
  deriving DecidableEq, Repr

def headerSize : Nat := 21

@[simp] theorem ok_bind {α β : Type} (a : α) (f : α → Except Error β) :
    (Except.ok a >>= f) = f a := rfl

@[simp] theorem error_bind {α β : Type} (e : Error) (f : α → Except Error β) :
    (Except.error e >>= f) = .error e := rfl

@[simp] theorem mapError_ok {α : Type} (g : Error → Error) (a : α) :
    (Except.ok a : Except Error α).mapError g = .ok a := rfl

@[simp] theorem mapError_error {α : Type} (g : Error → Error) (e : Error) :
    (Except.error e : Except Error α).mapError g = .error (g e) := rfl

/-! ### Writing and reading one record -/

/-- The header after its checksum: timestamp, key length, value length (each `uint32` of the
Go length) and the flag byte. -/
def headerBody (key value : Bytes) (timestamp : Timestamp) (isDeleted : Bool) : Bytes :=
  putBE 8 timestamp.toNat ++ putBE 4 key.length ++ putBE 4 value.length ++
    [if isDeleted then 1 else 0]

/-- The bytes `writeEntry` appends: the header, the key, the value. -/
def encodeRecord (key value : Bytes) (timestamp : Timestamp) (isDeleted : Bool) : Bytes :=
  let body := headerBody key value timestamp isDeleted
  putBE 4 (checksumIEEE (body ++ key ++ value)).toNat ++ body ++ key ++ value

/-- `io.ReadFull` of `n` bytes: those bytes and the rest; `io.EOF` if the stream is empty,
`io.ErrUnexpectedEOF` if it is shorter than `n`. -/
def readFull (stream : Bytes) (n : Nat) : Except Error (Bytes × Bytes) :=
  if n ≤ stream.length then .ok (stream.take n, stream.drop n)
  else if stream.isEmpty then .error .eof else .error .unexpectedEOF

/-- `Bitcask.readEntry`: one record from the front of `stream`, with the number of bytes it
takes. The key is not compared with anything: callers get whatever record is there. -/
def readEntry (stream : Bytes) (offset : Nat) : Except Error (Entry × Nat) := do
  let (header, stream) ← readFull stream headerSize
  let storedCRC := UInt32.ofNat (getBE (header.take 4))
  let timestamp : Timestamp := BitVec.ofNat 64 (getBE ((header.drop 4).take 8))
  let keyLen := getBE ((header.drop 12).take 4)
  let valueLen := getBE ((header.drop 16).take 4)
  let isDeleted := header.getD 20 0 == 1
  let (key, stream) ← (readFull stream keyLen).mapError (.failed "read key")
  let (value, _) ← (readFull stream valueLen).mapError (.failed "read value")
  if storedCRC != checksumIEEE (header.drop 4 ++ key ++ value) then throw .corruptData
  pure (⟨key, value, timestamp, isDeleted, offset, BitVec.ofNat 32 valueLen⟩,
    headerSize + keyLen + valueLen)

theorem readFull_append {pre : Bytes} (rest : Bytes) {n : Nat} (h : pre.length = n) :
    readFull (pre ++ rest) n = .ok (pre, rest) := by
  subst h
  simp [readFull]

theorem readFull_short {s : Bytes} {n : Nat} (hs : s ≠ []) (h : s.length < n) :
    readFull s n = .error .unexpectedEOF := by
  simp [readFull, Nat.not_le.mpr h, hs]

theorem readFull_lt {s : Bytes} {n : Nat} (h : s.length < n) :
    ∃ e, readFull s n = .error e := by
  unfold readFull
  rw [if_neg (Nat.not_le.mpr h)]
  split <;> exact ⟨_, rfl⟩

theorem readFull_ok {s pre rest : Bytes} {n : Nat} (h : readFull s n = .ok (pre, rest)) :
    pre.length = n ∧ pre ++ rest = s := by
  unfold readFull at h
  split at h
  · cases h; simp_all
  · split at h <;> cases h

/-- What a successful `readEntry` read: a 21-byte header, then a key and a value of the lengths
it gives, whose checksum with the header's last 17 bytes is the stored one. -/
theorem readEntry_eq_ok {s : Bytes} {offset : Nat} {e : Entry} {n : Nat}
    (h : readEntry s offset = .ok (e, n)) :
    ∃ hdr key value rest, s = hdr ++ key ++ value ++ rest ∧ hdr.length = headerSize ∧
      key.length = getBE ((hdr.drop 12).take 4) ∧ value.length = getBE ((hdr.drop 16).take 4) ∧
      UInt32.ofNat (getBE (hdr.take 4)) = checksumIEEE (hdr.drop 4 ++ key ++ value) ∧
      e = ⟨key, value, BitVec.ofNat 64 (getBE ((hdr.drop 4).take 8)), hdr.getD 20 0 == 1, offset,
        BitVec.ofNat 32 (getBE ((hdr.drop 16).take 4))⟩ ∧ n = headerSize + key.length + value.length := by
  unfold readEntry at h
  rcases h1 : readFull s headerSize with _ | ⟨hdr, s1⟩ <;> simp only [h1, error_bind, ok_bind] at h
  · cases h
  rcases h2 : readFull s1 (getBE ((hdr.drop 12).take 4)) with _ | ⟨key, s2⟩ <;>
    simp only [h2, mapError_error, mapError_ok, error_bind, ok_bind] at h
  · cases h
  rcases h3 : readFull s2 (getBE ((hdr.drop 16).take 4)) with _ | ⟨value, rest⟩ <;>
    simp only [h3, mapError_error, mapError_ok, error_bind, ok_bind] at h
  · cases h
  obtain ⟨l1, rfl⟩ := readFull_ok h1
  obtain ⟨l2, rfl⟩ := readFull_ok h2
  obtain ⟨l3, rfl⟩ := readFull_ok h3
  split at h
  · cases h
  next hcrc =>
    cases h
    exact ⟨hdr, key, value, rest, by simp only [List.append_assoc], l1, l2, l3, by simpa using hcrc, rfl,
      by rw [l2, l3]⟩

/-- A successful `readEntry` takes at least a header and at most the whole stream. -/
theorem readEntry_ok {s : Bytes} {offset : Nat} {e : Entry} {n : Nat}
    (h : readEntry s offset = .ok (e, n)) : headerSize ≤ n ∧ n ≤ s.length := by
  obtain ⟨hdr, key, value, rest, rfl, hh, -, -, -, -, rfl⟩ := readEntry_eq_ok h
  simp only [List.length_append, hh]
  omega

/-- On a checksum `c` followed by as many bytes `D` as the lengths in `D`'s bytes 8 to 15 give,
`readEntry` is the checksum test over `D`, whatever comes after. -/
theorem readEntry_checked {c D : Bytes} (hc : c.length = 4) {K V : Nat}
    (hK : getBE ((D.drop 8).take 4) = K) (hV : getBE ((D.drop 12).take 4) = V)
    (hD : D.length = 17 + K + V) (rest : Bytes) (offset : Nat) :
    readEntry (c ++ D ++ rest) offset =
      if UInt32.ofNat (getBE c) != checksumIEEE D then .error .corruptData
      else .ok (⟨(D.drop 17).take K, D.drop (17 + K), BitVec.ofNat 64 (getBE (D.take 8)), D.getD 16 0 == 1,
        offset, BitVec.ofNat 32 V⟩, headerSize + K + V) := by
  have hsplit : D = D.take 17 ++ ((D.drop 17).take K ++ D.drop (17 + K)) := by
    rw [← List.drop_drop, List.take_append_drop, List.take_append_drop]
  have hh : (c ++ D.take 17).length = headerSize := by simp [hc, headerSize]; omega
  have hk : ((D.drop 17).take K).length = K := by simp; omega
  have hv : (D.drop (17 + K)).length = V := by simp; omega
  have hfields : (c ++ D.take 17).take 4 = c ∧ ((c ++ D.take 17).drop 12).take 4 = (D.drop 8).take 4 ∧
      ((c ++ D.take 17).drop 16).take 4 = (D.drop 12).take 4 ∧
      (c ++ D.take 17).getD 20 0 = D.getD 16 0 ∧ (c ++ D.take 17).drop 4 = D.take 17 := by
    simp [List.drop_append_eq_append_drop, List.take_append_eq_append_take, hc, List.drop_take,
      List.take_take, List.getD_eq_getElem?_getD, List.getElem?_append_right]
  obtain ⟨f1, f2, f3, f4, f5⟩ := hfields
  have f6 : (D.take 17).take 8 = D.take 8 := by rw [List.take_take]; rfl
  rw [show c ++ D ++ rest = (c ++ D.take 17) ++ ((D.drop 17).take K ++ (D.drop (17 + K) ++ rest)) by
    conv_lhs => rw [hsplit]
    simp only [List.append_assoc]]
  simp only [readEntry, readFull_append _ hh, ok_bind, f1, f2, f3, f4, f5, f6, hK, hV]
  simp only [readFull_append _ hk, mapError_ok, ok_bind, readFull_append _ hv]
  rw [show D.take 17 ++ (D.drop 17).take K ++ D.drop (17 + K) = D by rw [List.append_assoc]; exact hsplit.symm]
  split <;> rfl

/-- A record fits the format when its key and value lengths fit in `uint32`. -/
def Fits (key value : Bytes) : Prop := key.length < 2 ^ 32 ∧ value.length < 2 ^ 32

@[simp] theorem length_headerBody (key value : Bytes) (timestamp : Timestamp) (isDeleted : Bool) :
    (headerBody key value timestamp isDeleted).length = 17 := by
  simp [headerBody]

theorem length_encodeRecord (key value : Bytes) (timestamp : Timestamp) (isDeleted : Bool) :
    (encodeRecord key value timestamp isDeleted).length = headerSize + key.length + value.length := by
  simp [encodeRecord, headerSize]
  omega

/-- The 21-byte header of a record. -/
def header (key value : Bytes) (timestamp : Timestamp) (isDeleted : Bool) : Bytes :=
  let body := headerBody key value timestamp isDeleted
  putBE 4 (checksumIEEE (body ++ key ++ value)).toNat ++ body

theorem encodeRecord_eq (key value : Bytes) (timestamp : Timestamp) (isDeleted : Bool) :
    encodeRecord key value timestamp isDeleted =
      header key value timestamp isDeleted ++ (key ++ value) := by
  simp [encodeRecord, header]

@[simp] theorem length_header (key value : Bytes) (timestamp : Timestamp) (isDeleted : Bool) :
    (header key value timestamp isDeleted).length = headerSize := by
  simp [header, headerSize]

/-- The fields `readEntry` takes out of a header with stored checksum `c`. -/
theorem header_fields (c : UInt32) (key value : Bytes) (timestamp : Timestamp) (isDeleted : Bool)
    (hf : Fits key value) :
    let h := putBE 4 c.toNat ++ headerBody key value timestamp isDeleted
    UInt32.ofNat (getBE (h.take 4)) = c ∧
      BitVec.ofNat 64 (getBE ((h.drop 4).take 8)) = timestamp ∧
      getBE ((h.drop 12).take 4) = key.length ∧ getBE ((h.drop 16).take 4) = value.length ∧
      (h.getD 20 0 == 1) = isDeleted ∧ h.drop 4 = headerBody key value timestamp isDeleted := by
  have h4 : (2 : Nat) ^ 32 = 256 ^ 4 := by decide
  have hk : key.length < 256 ^ 4 := h4 ▸ hf.1
  have hv : value.length < 256 ^ 4 := h4 ▸ hf.2
  have ht : timestamp.toNat < 256 ^ 8 := (by decide : (2 : Nat) ^ 64 = 256 ^ 8) ▸ timestamp.isLt
  have hc : c.toNat < 256 ^ 4 := h4 ▸ c.toBitVec.isLt
  intro h
  have hh : h = putBE 4 c.toNat ++ (putBE 8 timestamp.toNat ++ (putBE 4 key.length ++
      (putBE 4 value.length ++ [if isDeleted then 1 else 0]))) := by
    simp only [h, headerBody, List.append_assoc]
  have h₁ : h.drop 4 = headerBody key value timestamp isDeleted := List.drop_left' (length_putBE 4 _)
  refine ⟨?_, ?_, ?_, ?_, ?_, h₁⟩
  · rw [hh, List.take_left' (length_putBE 4 _), getBE_putBE_of_lt hc, ofNat_toNat_word]
  · rw [hh, List.drop_left' (length_putBE 4 _), List.take_left' (length_putBE 8 _),
      getBE_putBE_of_lt ht, BitVec.ofNat_toNat, BitVec.setWidth_eq]
  · rw [hh, ← List.append_assoc, List.drop_left' (by simp), List.take_left' (length_putBE 4 _),
      getBE_putBE_of_lt hk]
  · rw [hh, ← List.append_assoc, ← List.append_assoc, List.drop_left' (by simp),
      List.take_left' (length_putBE 4 _), getBE_putBE_of_lt hv]
  · rw [hh, ← List.append_assoc, ← List.append_assoc, ← List.append_assoc,
      List.getD_append_right _ _ _ _ (by simp)]
    simp only [List.length_append, length_putBE]
    cases isDeleted <;> rfl

/-- `readEntry` after a well-formed header with stored checksum `c`: the key read, the value
read, then the checksum comparison. -/
theorem readEntry_header (c : UInt32) (key value : Bytes) (timestamp : Timestamp)
    (isDeleted : Bool) (hf : Fits key value) (s : Bytes) (offset : Nat) :
    readEntry (putBE 4 c.toNat ++ headerBody key value timestamp isDeleted ++ s) offset =
      match readFull s key.length with
      | .error e => .error (.failed "read key" e)
      | .ok (k, s) =>
        match readFull s value.length with
        | .error e => .error (.failed "read value" e)
        | .ok (v, _) =>
          if c != checksumIEEE (headerBody key value timestamp isDeleted ++ k ++ v) then
            .error .corruptData
          else .ok (⟨k, v, timestamp, isDeleted, offset, BitVec.ofNat 32 value.length⟩,
            headerSize + key.length + value.length) := by
  obtain ⟨hcrc, hts, hkl, hvl, hdel, hbody⟩ := header_fields c key value timestamp isDeleted hf
  have hlen : (putBE 4 c.toNat ++ headerBody key value timestamp isDeleted).length = headerSize := by
    simp [headerSize]
  simp only [readEntry, readFull_append _ hlen, ok_bind, hkl, hvl, hcrc, hts, hdel]
  simp only [hbody]
  rcases readFull s key.length with e | ⟨k, s'⟩
  · rfl
  simp only [mapError_ok, ok_bind]
  rcases readFull s' value.length with e | ⟨v, s''⟩
  · rfl
  simp only [mapError_ok, ok_bind]
  split <;> rfl

/-- The round trip: whatever follows a record, `readEntry` returns exactly what was written
and takes exactly the record's bytes. -/
theorem readEntry_encodeRecord (key value : Bytes) (timestamp : Timestamp) (isDeleted : Bool)
    (hf : Fits key value) (rest : Bytes) (offset : Nat) :
    readEntry (encodeRecord key value timestamp isDeleted ++ rest) offset =
      .ok (⟨key, value, timestamp, isDeleted, offset, BitVec.ofNat 32 value.length⟩,
        (encodeRecord key value timestamp isDeleted).length) := by
  simp only [encodeRecord, List.append_assoc]
  rw [← List.append_assoc (putBE 4 _), readEntry_header _ _ _ _ _ hf, readFull_append _ rfl]
  simp only [readFull_append _ rfl, List.append_assoc, bne_self_eq_false]
  simp [headerSize]
  omega

/-! ### Torn tails -/

/-- What a crash can leave after the last whole record: a non-empty strict prefix of a record,
or a whole record whose stored checksum is wrong. -/
inductive TornTail : Bytes → Prop
  | short (key value : Bytes) (timestamp : Timestamp) (isDeleted : Bool) (n : Nat) :
      Fits key value → 0 < n → n < (encodeRecord key value timestamp isDeleted).length →
      TornTail ((encodeRecord key value timestamp isDeleted).take n)
  | badChecksum (c : UInt32) (key value : Bytes) (timestamp : Timestamp) (isDeleted : Bool) :
      Fits key value → c ≠ checksumIEEE (headerBody key value timestamp isDeleted ++ key ++ value) →
      TornTail (putBE 4 c.toNat ++ headerBody key value timestamp isDeleted ++ key ++ value)

theorem readEntry_short_header {t : Bytes} (ht : t ≠ []) (hlt : t.length < headerSize)
    (offset : Nat) : readEntry t offset = .error .unexpectedEOF := by
  simp only [readEntry, readFull_short ht hlt, error_bind]

/-- A torn tail is an error, and never `io.EOF`. -/
theorem readEntry_tornTail {t : Bytes} (ht : TornTail t) (offset : Nat) :
    ∃ e, readEntry t offset = .error e ∧ e ≠ .eof := by
  cases ht with
  | short key value timestamp isDeleted n hf hn hlt =>
    rw [length_encodeRecord] at hlt
    by_cases hh : n < headerSize
    · refine ⟨_, readEntry_short_header ?_ ?_ offset, by decide⟩
      · simpa [← List.length_pos, length_encodeRecord] using by omega
      · simp [length_encodeRecord]; omega
    simp only [headerSize] at hh hlt
    simp only [encodeRecord, List.append_assoc]
    rw [← List.append_assoc (putBE 4 _), List.take_append_eq_append_take, List.take_of_length_le
      (by simp; omega), readEntry_header _ _ _ _ _ hf]
    have hlen : (putBE 4 (checksumIEEE (headerBody key value timestamp isDeleted ++
        (key ++ value))).toNat ++ headerBody key value timestamp isDeleted).length = 21 := by simp
    simp only [hlen, List.take_append_eq_append_take]
    by_cases hk : n - 21 < key.length
    · obtain ⟨e, he⟩ := readFull_lt (s := key.take (n - 21) ++
        value.take (n - 21 - key.length)) (n := key.length) (by simp; omega)
      rw [he]
      exact ⟨_, rfl, by simp⟩
    · rw [List.take_of_length_le (by omega), readFull_append _ rfl]
      obtain ⟨e, he⟩ := readFull_lt (s := value.take (n - 21 - key.length)) (n := value.length)
        (by simp; omega)
      simp only [he]
      exact ⟨_, rfl, by simp⟩
  | badChecksum c key value timestamp isDeleted hf hc =>
    refine ⟨.corruptData, ?_, by decide⟩
    rw [List.append_assoc, readEntry_header _ _ _ _ _ hf, readFull_append _ rfl]
    simpa [readFull] using hc

end MiniDynamo.Storage
