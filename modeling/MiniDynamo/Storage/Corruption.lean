import MiniDynamo.Storage.Codec

/-! What `readEntry` accepts, and what the checksum catches (`bitcask.go`).

The codec round-trips. `readEntry` decodes what `writeEntry` appends, whatever follows it; and a
record it accepts, written back in `writeEntry`'s layout, is the bytes it read exactly when its flag
byte is 0 or 1 (`codec_round_trip`). `isDeleted := header[20] == 1` reads any other flag byte as a
live record, which is written back with flag 0 (`flag_byte_two_read_as_live`).

Each turn of the CRC register is injective: the carry it shifts out is the polynomial's top bit of
the result. So two byte strings that differ in one byte have different checksums
(`checksumIEEE_set_ne`). The stored checksum covers everything after it, so a record with one byte
changed anywhere but in its key and value lengths fails with `ErrCorruptData`, whatever follows it
(`single_byte_change_detected`). A changed length changes which bytes the checksum is taken over,
and a value chosen for that lets the changed record through (`length_byte_change_accepted`). -/
namespace MiniDynamo.Storage

/-! ### The checksum of fixed bytes -/

/-- Whether `steps` pairs each byte with the register after it, starting from `c`. -/
def crcSteps : UInt32 → List (UInt8 × UInt32) → Bool
  | _, [] => true
  | c, (b, c') :: steps => crcByte c b == c' && crcSteps c' steps

theorem foldl_crcByte_of_crcSteps : ∀ {c : UInt32} {steps : List (UInt8 × UInt32)},
    crcSteps c steps = true → (steps.map Prod.fst).foldl crcByte c = ((steps.map Prod.snd).getLast?).getD c
  | _, [], _ => rfl
  | c, (b, c') :: steps, h => by
    simp only [crcSteps, Bool.and_eq_true, beq_iff_eq] at h
    rw [List.map_cons, List.foldl_cons, h.1, foldl_crcByte_of_crcSteps h.2]
    cases steps <;> rfl

/-- The checksum of fixed bytes from the register after each of them, so that no evaluation runs
over more than one byte. -/
theorem checksumIEEE_of_crcSteps (steps : List (UInt8 × UInt32)) (h : crcSteps 0xFFFFFFFF steps = true) :
    checksumIEEE (steps.map Prod.fst) = ~~~((steps.map Prod.snd).getLast?.getD 0xFFFFFFFF) := by
  rw [checksumIEEE, foldl_crcByte_of_crcSteps h]

/-! ### Round trips -/

theorem putBE_getBE_of_length {bs : Bytes} {w : Nat} (h : bs.length = w) : putBE w (getBE bs) = bs :=
  h ▸ putBE_getBE bs

/-- Four bytes read as a `uint32` and written back are the same four bytes. -/
theorem putBE_ofNat_getBE {bs : Bytes} (h : bs.length = 4) : putBE 4 (UInt32.ofNat (getBE bs)).toNat = bs := by
  have hlt : getBE bs < 2 ^ 32 := lt_of_lt_of_eq (getBE_lt _) (by rw [h]; decide)
  exact (congrArg (putBE 4) (Nat.mod_eq_of_lt hlt)).trans (putBE_getBE_of_length h)

/-- A header's last 17 bytes are its timestamp, key length, value length and flag. -/
theorem drop_four_header {hdr : Bytes} (hh : hdr.length = headerSize) :
    hdr.drop 4 = (hdr.drop 4).take 8 ++ (hdr.drop 12).take 4 ++ (hdr.drop 16).take 4 ++ [hdr.getD 20 0] := by
  have h20 : hdr.drop 20 = [hdr.getD 20 0] := by
    rw [List.drop_eq_getElem_cons (by rw [hh]; decide), List.drop_eq_nil_of_le (by rw [hh]; decide),
      List.getD_eq_getElem _ _ (by rw [hh]; decide)]
  calc hdr.drop 4 = (hdr.drop 4).take 8 ++ ((hdr.drop 12).take 4 ++ ((hdr.drop 16).take 4 ++ hdr.drop 20)) := by
        rw [show hdr.drop 20 = (hdr.drop 16).drop 4 by rw [List.drop_drop], List.take_append_drop,
          show hdr.drop 16 = (hdr.drop 12).drop 4 by rw [List.drop_drop], List.take_append_drop,
          show hdr.drop 12 = (hdr.drop 4).drop 8 by rw [List.drop_drop], List.take_append_drop]
    _ = _ := by rw [h20]; simp only [List.append_assoc]

/-- `writeEntry` writes its flag as byte 20. -/
theorem getD_encodeRecord_flag (key value : Bytes) (timestamp : Timestamp) (isDeleted : Bool) :
    (encodeRecord key value timestamp isDeleted).getD 20 0 = if isDeleted then 1 else 0 := by
  simp only [encodeRecord, headerBody, List.append_assoc]
  rw [List.getD_append_right _ _ _ _ (by simp), List.getD_append_right _ _ _ _ (by simp),
    List.getD_append_right _ _ _ _ (by simp), List.getD_append_right _ _ _ _ (by simp)]
  rfl

/-- A record `readEntry` accepts is, written back, the bytes it read exactly when its flag byte is 0
or 1. -/
theorem reencode_iff {s : Bytes} {offset : Nat} {e : Entry} {n : Nat} (h : readEntry s offset = .ok (e, n)) :
    encodeRecord e.key e.value e.timestamp e.isDeleted = s.take n ↔ s.getD 20 0 = 0 ∨ s.getD 20 0 = 1 := by
  obtain ⟨hdr, key, value, rest, rfl, hh, hk, hv, hcrc, rfl, rfl⟩ := readEntry_eq_ok h
  have hh' : hdr.length = 21 := hh
  rw [List.take_left' (by simp [hh, Nat.add_assoc]), List.append_assoc, List.append_assoc,
    List.getD_append _ _ _ _ (by rw [hh']; decide)]
  dsimp only
  have hts : (BitVec.ofNat 64 (getBE ((hdr.drop 4).take 8))).toNat = getBE ((hdr.drop 4).take 8) := by
    have hlt := getBE_lt ((hdr.drop 4).take 8)
    rw [show ((hdr.drop 4).take 8).length = 8 by simp [hh']] at hlt
    rw [BitVec.toNat_ofNat]
    exact Nat.mod_eq_of_lt (lt_of_lt_of_eq hlt (by decide))
  have hbody : headerBody key value (BitVec.ofNat 64 (getBE ((hdr.drop 4).take 8))) (hdr.getD 20 0 == 1) =
      (hdr.drop 4).take 8 ++ (hdr.drop 12).take 4 ++ (hdr.drop 16).take 4 ++
        [if hdr.getD 20 0 == 1 then 1 else 0] := by
    rw [headerBody, hts, hk, hv, putBE_getBE_of_length (by simp [hh']), putBE_getBE_of_length (by simp [hh']),
      putBE_getBE_of_length (by simp [hh'])]
  constructor
  · intro heq
    have := congrArg (List.getD · 20 0) heq
    simp only [getD_encodeRecord_flag, List.getD_append _ _ _ _ (by rw [hh']; decide : 20 < hdr.length)] at this
    rw [← this]
    split <;> simp
  · intro hf
    have hflag : (if hdr.getD 20 0 == 1 then (1 : UInt8) else 0) = hdr.getD 20 0 := by
      rcases hf with hf | hf <;> rw [hf] <;> rfl
    rw [encodeRecord, hbody, hflag, ← drop_four_header hh, ← hcrc, putBE_ofNat_getBE (by simp [hh']),
      ← List.append_assoc, List.take_append_drop]

/-- The codec round-trips. `readEntry` decodes exactly what `writeEntry` appends, whatever follows
it; and a record `readEntry` accepts is, written back, the bytes it read exactly when its flag byte
is 0 or 1. -/
theorem codec_round_trip :
    (∀ key value timestamp isDeleted, Fits key value → ∀ rest offset,
      readEntry (encodeRecord key value timestamp isDeleted ++ rest) offset =
        .ok (⟨key, value, timestamp, isDeleted, offset, BitVec.ofNat 32 value.length⟩,
          headerSize + key.length + value.length)) ∧
    ∀ s offset e n, readEntry s offset = .ok (e, n) →
      (encodeRecord e.key e.value e.timestamp e.isDeleted = s.take n ↔ s.getD 20 0 = 0 ∨ s.getD 20 0 = 1) :=
  ⟨fun key value timestamp isDeleted hf rest offset => by
    rw [readEntry_encodeRecord key value timestamp isDeleted hf rest offset, length_encodeRecord],
   fun _ _ _ _ h => reencode_iff h⟩

theorem codec_round_trip_tombstone :
    Fits [107] [] ∧
      readEntry (encodeRecord [107] [] 1 true ++ [7]) 0 = .ok (⟨[107], [], 1, true, 0, 0⟩, 22) ∧
      (encodeRecord [107] [] 1 true = (encodeRecord [107] [] 1 true ++ [7]).take 22 ↔
        (encodeRecord [107] [] 1 true ++ [7]).getD 20 0 = 0 ∨
          (encodeRecord [107] [] 1 true ++ [7]).getD 20 0 = 1) := by
  have hf : Fits [107] [] := by unfold Fits; decide
  have hr : readEntry (encodeRecord [107] [] 1 true ++ [7]) 0 = .ok (⟨[107], [], 1, true, 0, 0⟩, 22) :=
    codec_round_trip.1 [107] [] 1 true hf [7] 0
  exact ⟨hf, hr, codec_round_trip.2 (encodeRecord [107] [] 1 true ++ [7]) 0 ⟨[107], [], 1, true, 0, 0⟩ 22 hr⟩

/-- A header of flag byte 2 under a matching checksum reads as a live record, and is written back
with flag byte 0. -/
theorem flag_byte_two_read_as_live :
    readEntry [39, 225, 144, 145, 0, 0, 0, 0, 0, 0, 0, 0, 0, 0, 0, 0, 0, 0, 0, 0, 2] 0 =
        .ok (⟨[], [], 0, false, 0, 0⟩, 21) ∧
      encodeRecord [] [] 0 false ≠ [39, 225, 144, 145, 0, 0, 0, 0, 0, 0, 0, 0, 0, 0, 0, 0, 0, 0, 0, 0, 2] := by
  have hc : checksumIEEE [0, 0, 0, 0, 0, 0, 0, 0, 0, 0, 0, 0, 0, 0, 0, 0, 2] = 0x27E19091 :=
    checksumIEEE_of_crcSteps [(0, 0x2DFD1072), (0, 0xBE26ED00), (0, 0x00BE26ED), (0, 0xDEBB20E3),
      (0, 0x39DD08E2), (0, 0x4E3D5E5C), (0, 0x62932081), (0, 0x9ADD2096), (0, 0x19F6EB51), (0, 0x1C759789),
      (0, 0x94784E13), (0, 0x842A3990), (0, 0xF08BB97D), (0, 0x2E448638), (0, 0x282CFC18), (0, 0x1344B4AA),
      (2, 0xD81E6F6E)] (by decide)
  have hflag : (encodeRecord [] [] 0 false).getD 20 0 ≠
      ([39, 225, 144, 145, 0, 0, 0, 0, 0, 0, 0, 0, 0, 0, 0, 0, 0, 0, 0, 0, 2] : Bytes).getD 20 0 := by
    rw [getD_encodeRecord_flag]
    decide
  refine ⟨?_, fun h => hflag (congrArg (List.getD · 20 0) h)⟩
  rw [show ([39, 225, 144, 145, 0, 0, 0, 0, 0, 0, 0, 0, 0, 0, 0, 0, 0, 0, 0, 0, 2] : Bytes) =
    [39, 225, 144, 145] ++ [0, 0, 0, 0, 0, 0, 0, 0, 0, 0, 0, 0, 0, 0, 0, 0, 2] ++ [] from rfl,
    readEntry_checked (c := [39, 225, 144, 145]) (D := [0, 0, 0, 0, 0, 0, 0, 0, 0, 0, 0, 0, 0, 0, 0, 0, 2])
      rfl rfl rfl rfl [] 0, hc]
  rfl

/-! ### The checksum catches a changed byte -/

theorem and_one_eq_one_iff (c : UInt32) : c &&& 1 = 1 ↔ c.toBitVec.getLsbD 0 = true := by
  have h : (c &&& 1).toBitVec = BitVec.setWidth 32 (BitVec.ofBool (c.toBitVec.getLsbD 0)) :=
    BitVec.and_one_eq_setWidth_ofBool_getLsbD
  constructor
  · intro he
    rw [he] at h
    cases hb : c.toBitVec.getLsbD 0
    · rw [hb] at h; exact absurd h (by decide)
    · rfl
  · intro hb
    rw [hb] at h
    exact UInt32.eq_of_toBitVec_eq (h.trans (by decide))

/-- A turn of the CRC register is injective: bit 31 of its result is the bit it shifted out, and the
other bits are the rest of the register, with the polynomial or without. -/
theorem crcShift_injective : Function.Injective fun c : UInt32 =>
    if c &&& 1 = 1 then (c >>> 1) ^^^ 0xEDB88320 else c >>> 1 := by
  intro a b hab
  have bits : ∀ (c : UInt32) i,
      (if c &&& 1 = 1 then (c >>> 1) ^^^ 0xEDB88320 else c >>> 1).toBitVec.getLsbD i =
        (c.toBitVec.getLsbD (1 + i) ^^ (c.toBitVec.getLsbD 0 && (0xEDB88320 : UInt32).toBitVec.getLsbD i)) :=
    fun c i => by
      by_cases h : c &&& 1 = 1
      · rw [if_pos h, (and_one_eq_one_iff c).mp h, Bool.true_and]
        exact BitVec.getLsbD_xor.trans (congrArg (· ^^ _) (BitVec.getLsbD_ushiftRight c.toBitVec 1 i))
      · rw [if_neg h, Bool.eq_false_iff.mpr (mt (and_one_eq_one_iff c).mpr h), Bool.false_and, Bool.xor_false]
        exact BitVec.getLsbD_ushiftRight c.toBitVec 1 i
  have hbit : ∀ i, _ := fun i => congrArg (fun x : UInt32 => x.toBitVec.getLsbD i) hab
  have h0 : a.toBitVec.getLsbD 0 = b.toBitVec.getLsbD 0 := by
    have := hbit 31
    simp only [bits, BitVec.getLsbD_ge _ 32 (le_refl _)] at this
    simpa using this
  refine UInt32.eq_of_toBitVec_eq (BitVec.eq_of_getLsbD_eq fun ⟨i, _⟩ => ?_)
  cases i with
  | zero => exact h0
  | succ j =>
    have := hbit j
    simp only [bits, h0] at this
    simpa [Nat.add_comm] using this

theorem repeat_injective {f : UInt32 → UInt32} (hf : Function.Injective f) :
    ∀ n, Function.Injective (Nat.repeat f n)
  | 0 => fun _ _ h => h
  | n + 1 => fun _ _ h => repeat_injective hf n (hf h)

theorem xor_comm_word (x y : UInt32) : x ^^^ y = y ^^^ x :=
  UInt32.eq_of_toBitVec_eq (BitVec.xor_comm _ _)

theorem xor_xor_cancel (c x : UInt32) : c ^^^ x ^^^ x = c :=
  UInt32.eq_of_toBitVec_eq (by
    show c.toBitVec ^^^ x.toBitVec ^^^ x.toBitVec = c.toBitVec
    rw [BitVec.xor_assoc, BitVec.xor_self, BitVec.xor_zero])

/-- The register after a byte determines the register before it. -/
theorem crcByte_injective_left (b : UInt8) : Function.Injective fun c => crcByte c b := fun c c' h => by
  have h' : c ^^^ b.toUInt32 = c' ^^^ b.toUInt32 := repeat_injective crcShift_injective 8 h
  rw [← xor_xor_cancel c b.toUInt32, h', xor_xor_cancel]

/-- From one register, different bytes give different registers. -/
theorem crcByte_injective_right (c : UInt32) : Function.Injective (crcByte c) := fun b b' h => by
  have h' : c ^^^ b.toUInt32 = c ^^^ b'.toUInt32 := repeat_injective crcShift_injective 8 h
  have hw : b.toUInt32 = b'.toUInt32 := by
    rw [← xor_xor_cancel b.toUInt32 c, ← xor_xor_cancel b'.toUInt32 c, xor_comm_word b.toUInt32,
      xor_comm_word b'.toUInt32, h']
  exact UInt8.toNat.inj (congrArg UInt32.toNat hw)

theorem foldl_crcByte_injective : ∀ l : Bytes, Function.Injective fun c => l.foldl crcByte c
  | [] => fun _ _ h => h
  | b :: l => fun _ _ h => crcByte_injective_left b (foldl_crcByte_injective l h)

/-- CRC-32 tells apart two byte strings that differ in one byte. -/
theorem checksumIEEE_set_ne {l : Bytes} {j : Nat} (hj : j < l.length) {b : UInt8} (hb : l[j]? ≠ some b) :
    checksumIEEE (l.set j b) ≠ checksumIEEE l := by
  intro heq
  have hnot : ∀ x : UInt32, ~~~~~~x = x := fun x => UInt32.eq_of_toBitVec_eq BitVec.not_not
  have hfold := congrArg (~~~ ·) heq
  simp only [checksumIEEE, hnot] at hfold
  rw [List.set_eq_take_append_cons_drop, if_pos hj] at hfold
  conv at hfold => rhs; rw [← List.take_append_drop j l, List.drop_eq_getElem_cons hj]
  simp only [List.foldl_append, List.foldl_cons] at hfold
  exact hb (by rw [List.getElem?_eq_getElem hj, crcByte_injective_right _ (foldl_crcByte_injective _ hfold)])

/-! ### A record with one byte changed -/

/-- Changing a byte outside a slice leaves the slice. -/
theorem slice_set {l : Bytes} {j a w : Nat} (h : j < a ∨ a + w ≤ j) (b : UInt8) :
    ((l.set j b).drop a).take w = (l.drop a).take w := by
  refine List.ext_getElem? fun k => ?_
  simp only [List.getElem?_take, List.getElem?_drop]
  split
  · exact List.getElem?_set_ne (by omega)
  · rfl

/-- A record is its checksum, then the bytes it is taken over, whose bytes 8 to 15 are the key and
value lengths. -/
theorem encodeRecord_checked (key value : Bytes) (timestamp : Timestamp) (isDeleted : Bool)
    (hf : Fits key value) :
    ∃ D, encodeRecord key value timestamp isDeleted = putBE 4 (checksumIEEE D).toNat ++ D ∧
      D.length = 17 + key.length + value.length ∧ getBE ((D.drop 8).take 4) = key.length ∧
      getBE ((D.drop 12).take 4) = value.length := by
  have h4 : (2 : Nat) ^ 32 = 256 ^ 4 := by decide
  refine ⟨headerBody key value timestamp isDeleted ++ key ++ value, by simp only [encodeRecord, List.append_assoc],
    by simp; omega, ?_, ?_⟩
  · simp only [headerBody, List.append_assoc]
    rw [List.drop_left' (length_putBE 8 _), List.take_left' (length_putBE 4 _), getBE_putBE_of_lt (h4 ▸ hf.1)]
  · rw [show headerBody key value timestamp isDeleted ++ key ++ value = (putBE 8 timestamp.toNat ++
        putBE 4 key.length) ++ (putBE 4 value.length ++ ([if isDeleted then 1 else 0] ++ (key ++ value))) by
        simp only [headerBody, List.append_assoc],
      List.drop_left' (by simp), List.take_left' (length_putBE 4 _), getBE_putBE_of_lt (h4 ▸ hf.2)]

/-- Single-byte corruption is caught. Changing one byte of a record anywhere but in its key and value
lengths makes `readEntry` fail with `ErrCorruptData`, whatever follows the record. -/
theorem single_byte_change_detected (key value : Bytes) (timestamp : Timestamp) (isDeleted : Bool)
    (hf : Fits key value) {i : Nat} (hi : i < (encodeRecord key value timestamp isDeleted).length)
    (hlen : i < 12 ∨ 20 ≤ i) {b : UInt8} (hb : (encodeRecord key value timestamp isDeleted)[i]? ≠ some b)
    (rest : Bytes) (offset : Nat) :
    readEntry ((encodeRecord key value timestamp isDeleted).set i b ++ rest) offset = .error .corruptData := by
  obtain ⟨D, hr, hD, hK, hV⟩ := encodeRecord_checked key value timestamp isDeleted hf
  have hc : (putBE 4 (checksumIEEE D).toNat).length = 4 := length_putBE 4 _
  have hstored : UInt32.ofNat (getBE (putBE 4 (checksumIEEE D).toNat)) = checksumIEEE D := by
    rw [getBE_putBE_of_lt ((by decide : (2 : Nat) ^ 32 = 256 ^ 4) ▸ (checksumIEEE D).toBitVec.isLt),
      ofNat_toNat_word]
  rw [hr] at hi hb ⊢
  set c := putBE 4 (checksumIEEE D).toNat
  by_cases h4 : i < 4
  · have hl : (c.set i b).length = 4 := by rw [List.length_set, hc]
    rw [List.set_append_left _ _ (by rw [hc]; exact h4), readEntry_checked hl hK hV hD]
    refine if_pos (bne_iff_ne.mpr fun heq => hb ?_)
    have hback : c.set i b = c := by rw [← putBE_ofNat_getBE hl, heq]
    rw [List.getElem?_append_left (by rw [hc]; exact h4), ← hback]
    exact List.getElem?_set_self (by rw [hc]; exact h4)
  · have hj : i - 4 < D.length := by simp [hc] at hi; omega
    rw [List.set_append_right _ _ (by rw [hc]; omega), hc,
      readEntry_checked hc ((congrArg getBE (slice_set (by omega) b)).trans hK)
        ((congrArg getBE (slice_set (by omega) b)).trans hV)
        (by rw [List.length_set, hD])]
    refine if_pos (bne_iff_ne.mpr ?_)
    rw [hstored]
    refine (checksumIEEE_set_ne hj ?_).symm
    rwa [List.getElem?_append_right (by rw [hc]; omega), hc] at hb

theorem single_byte_change_detected_at_flag :
    Fits [] [] ∧ 20 < (encodeRecord [] [] 0 false).length ∧ (20 < 12 ∨ 20 ≤ 20) ∧
      (encodeRecord [] [] 0 false)[20]? ≠ some 1 ∧
      readEntry ((encodeRecord [] [] 0 false).set 20 1 ++ [5]) 0 = .error .corruptData := by
  have hf : Fits [] [] := by unfold Fits; decide
  have hi : 20 < (encodeRecord [] [] 0 false).length := by rw [length_encodeRecord]; decide
  have hb : (encodeRecord [] [] 0 false)[20]? ≠ some 1 := by
    rw [List.getElem?_eq_getElem hi, ← List.getD_eq_getElem _ 0 hi, getD_encodeRecord_flag]
    decide
  exact ⟨hf, hi, .inr le_rfl, hb, single_byte_change_detected [] [] 0 false hf hi (.inr le_rfl) hb [5] 0⟩

/-- The record of key `k` and value `[113, 19, 133, 192]` at time 1. -/
theorem forged_record_eq : encodeRecord [107] [113, 19, 133, 192] 1 false =
    [218, 130, 163, 233, 0, 0, 0, 0, 0, 0, 0, 1, 0, 0, 0, 1, 0, 0, 0, 4, 0, 107, 113, 19, 133, 192] := by
  have hb : headerBody [107] [113, 19, 133, 192] 1 false = [0, 0, 0, 0, 0, 0, 0, 1, 0, 0, 0, 1, 0, 0, 0, 4, 0] := by
    decide
  have hc : checksumIEEE ([0, 0, 0, 0, 0, 0, 0, 1, 0, 0, 0, 1, 0, 0, 0, 4, 0] ++ [107] ++ [113, 19, 133, 192]) =
      0xDA82A3E9 :=
    checksumIEEE_of_crcSteps [(0, 0x2DFD1072), (0, 0xBE26ED00), (0, 0x00BE26ED), (0, 0xDEBB20E3),
      (0, 0x39DD08E2), (0, 0x4E3D5E5C), (0, 0x62932081), (1, 0xEDDA1000), (0, 0x00EDDA10), (0, 0x1DB7FDBE),
      (0, 0x2CC42976), (1, 0xCE4D20B6), (0, 0x22CC5B99), (0, 0x89F1E7BB), (0, 0x5C3A9BE3), (4, 0x3E324D40),
      (0, 0x76E273DD), (107, 0x2274F4CA), (113, 0x5C911EF0), (19, 0x395F22DC), (133, 0x128EB672),
      (192, 0x257D5C16)] (by decide)
  unfold encodeRecord
  dsimp only
  rw [hb, hc]
  decide

/-- The value bytes of this record are chosen so that the record read with value length 0 has the
stored checksum: changing its value-length byte from 4 to 0 gives a record `readEntry` accepts, with
an empty value. -/
theorem length_byte_change_accepted :
    (encodeRecord [107] [113, 19, 133, 192] 1 false)[19]? = some 4 ∧
      readEntry ((encodeRecord [107] [113, 19, 133, 192] 1 false).set 19 0 ++ []) 0 =
        .ok (⟨[107], [], 1, false, 0, 0⟩, 22) := by
  have hc : checksumIEEE [0, 0, 0, 0, 0, 0, 0, 1, 0, 0, 0, 1, 0, 0, 0, 0, 0, 107] = 0xDA82A3E9 :=
    checksumIEEE_of_crcSteps [(0, 0x2DFD1072), (0, 0xBE26ED00), (0, 0x00BE26ED), (0, 0xDEBB20E3),
      (0, 0x39DD08E2), (0, 0x4E3D5E5C), (0, 0x62932081), (1, 0xEDDA1000), (0, 0x00EDDA10), (0, 0x1DB7FDBE),
      (0, 0x2CC42976), (1, 0xCE4D20B6), (0, 0x22CC5B99), (0, 0x89F1E7BB), (0, 0x5C3A9BE3), (0, 0x395F8959),
      (0, 0x128EB6D9), (107, 0x257D5C16)] (by decide)
  rw [forged_record_eq, show ([218, 130, 163, 233, 0, 0, 0, 0, 0, 0, 0, 1, 0, 0, 0, 1, 0, 0, 0, 4, 0, 107, 113,
      19, 133, 192] : Bytes).set 19 0 ++ [] =
      [218, 130, 163, 233] ++ [0, 0, 0, 0, 0, 0, 0, 1, 0, 0, 0, 1, 0, 0, 0, 0, 0, 107] ++ [113, 19, 133, 192] from rfl,
    readEntry_checked (c := [218, 130, 163, 233]) (D := [0, 0, 0, 0, 0, 0, 0, 1, 0, 0, 0, 1, 0, 0, 0, 0, 0, 107])
      rfl rfl rfl rfl _ 0, hc]
  exact ⟨rfl, rfl⟩

end MiniDynamo.Storage
