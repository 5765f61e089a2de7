import MiniDynamo.Replication.Replica

/-! What a remote replica reads when the coordinator asks it for a key.

`fetchFromNode` asks `http://host:port/internal/read?key=%s` with the key pasted in as it is,
not escaped, and `handleInternalRead` reads it back with `r.URL.Query().Get("key")`. So the remote
reads the key the URL parses to. `url.Parse` cuts the URL at its first `#`, refuses a control byte
before it and a bad escape after it; a space ends the request line early, and the server answers
`400`. The query is cut into pieces at `&`; a piece with a `;` is dropped, the others are cut at
their first `=` and unescaped (`%XX`, and `+` for a space), a piece with a bad escape being dropped
too; and `Get` takes the first value named `key`. The remote answers with its live version under
the key it parsed, named as JSON carries that key back, each byte that starts no UTF-8 encoding
turned into U+FFFD.

A key of printable ASCII with no space, `#`, `%`, `&`, `+` or `;` is read as it is
(`fetch_of_urlSafe`). A key with an `&` is read as what stands before it (`fetch_amp`): the
remote's answer for `a&b` is its version of `a`. -/
namespace MiniDynamo.Replication

open Storage

/-! ### Unescaping -/

/-- `ishex`. -/
def ishex (b : UInt8) : Bool :=
  (0x30 ≤ b && b ≤ 0x39) || (0x61 ≤ b && b ≤ 0x66) || (0x41 ≤ b && b ≤ 0x46)

/-- `unhex`: the value of a hex digit, 0 for any other byte. -/
def unhex (b : UInt8) : UInt8 :=
  if 0x30 ≤ b ∧ b ≤ 0x39 then b - 0x30
  else if 0x61 ≤ b ∧ b ≤ 0x66 then b - 0x61 + 10
  else if 0x41 ≤ b ∧ b ≤ 0x46 then b - 0x41 + 10
  else 0

/-- The first loop of `unescape`: every `%` is followed by two hex digits. It is the only check in
the query and fragment modes. -/
def escapesValid : Bytes → Bool
  | [] => true
  | b :: rest =>
    if b = 0x25 then
      match rest with
      | h :: l :: rest => ishex h && ishex l && escapesValid rest
      | _ => false
    else escapesValid rest

/-- The second loop of `unescape` in the query-component mode: `%XX` becomes the byte `XX` and
`+` a space. -/
def unescapeQuery : Bytes → Bytes
  | [] => []
  | b :: rest =>
    if b = 0x25 then
      match rest with
      | h :: l :: rest => (unhex h <<< 4 ||| unhex l) :: unescapeQuery rest
      | _ => []
    else (if b = 0x2B then 0x20 else b) :: unescapeQuery rest

/-- `QueryUnescape`. -/
def queryUnescape (s : Bytes) : Option Bytes :=
  if escapesValid s then some (unescapeQuery s) else none

/-! ### The query -/

/-- `strings.Cut(s, sep)` for a one-byte separator: what stands before its first occurrence, and
what follows it (empty when there is none). -/
def cut (sep : UInt8) (s : Bytes) : Bytes × Bytes :=
  (s.takeWhile (· != sep), (s.dropWhile (· != sep)).drop 1)

/-- A piece of the query between two `&`, as `parseQuery` reads it: dropped when it is empty,
holds a `;`, or has a bad escape in its name or value; else its name and value, cut at its first
`=` and unescaped. -/
def parsePiece (piece : Bytes) : Option (Bytes × Bytes) :=
  if piece.contains 0x3B || piece.isEmpty then none
  else
    match queryUnescape (cut 0x3D piece).1, queryUnescape (cut 0x3D piece).2 with
    | some name, some value => some (name, value)
    | _, _ => none

/-- `ParseQuery` (Go 1.21): the query's names and values in order. `URL.Query` drops the error it
may return with them. -/
def parseQuery (query : Bytes) : List (Bytes × Bytes) :=
  (query.splitOn 0x26).filterMap parsePiece

/-- `Values.Get`: the first value given to the name, or the empty string. -/
def valuesGet (values : List (Bytes × Bytes)) (name : Bytes) : Bytes :=
  ((values.find? (·.1 == name)).map Prod.snd).getD []

/-- `stringContainsCTLByte`. -/
def containsCTL (s : Bytes) : Bool := s.any fun b => b < 0x20 || b == 0x7F

/-- The raw query `handleInternalRead` receives for `fetchFromNode`'s URL, `?key=` followed by the
key's bytes, or `none` when the request fails on the way: `url.Parse` cuts the URL at its first
`#` and refuses a control byte before it or a bad escape in the fragment after it, and a space
ends the request line early, which the server answers with `400 Bad Request`. -/
def rawQuery (key : String) : Option Bytes :=
  if containsCTL (cut 0x23 (keyBytes key)).1 || !escapesValid (cut 0x23 (keyBytes key)).2 ||
      (cut 0x23 (keyBytes key)).1.contains 0x20 then none
  else some (keyBytes "key=" ++ (cut 0x23 (keyBytes key)).1)

/-- The key `handleInternalRead` reads, `r.URL.Query().Get("key")`, when the request gets there. -/
def parsedKey (key : String) : Option Bytes :=
  (rawQuery key).map fun query => valuesGet (parseQuery query) (keyBytes "key")

/-! ### The key the answer names -/

/-- The second byte `utf8.DecodeRune` accepts after a first byte `b₀` (`acceptRanges`). -/
def acceptRange (b₀ : UInt8) : UInt8 × UInt8 :=
  if b₀ = 0xE0 then (0xA0, 0xBF) else if b₀ = 0xED then (0x80, 0x9F)
  else if b₀ = 0xF0 then (0x90, 0xBF) else if b₀ = 0xF4 then (0x80, 0x8F) else (0x80, 0xBF)

/-- A byte outside `lo..hi`. -/
def outside (range : UInt8 × UInt8) (b : UInt8) : Bool := b < range.1 || range.2 < b

/-- `utf8.DecodeRune`: the code point the bytes start with and its length, or `none` where Go
returns `RuneError` of length one. -/
def decodeRune : Bytes → Option (Nat × Nat)
  | [] => none
  | b₀ :: rest =>
    if b₀ < 0x80 then some (b₀.toNat, 1)
    else if b₀ < 0xC2 ∨ 0xF4 < b₀ then none
    else
      match rest with
      | [] => none
      | b₁ :: rest =>
        if outside (acceptRange b₀) b₁ then none
        else if b₀ < 0xE0 then some ((b₀ &&& 0x1F).toNat <<< 6 ||| (b₁ &&& 0x3F).toNat, 2)
        else
          match rest with
          | [] => none
          | b₂ :: rest =>
            if outside (0x80, 0xBF) b₂ then none
            else if b₀ < 0xF0 then
              some ((b₀ &&& 0x0F).toNat <<< 12 ||| (b₁ &&& 0x3F).toNat <<< 6 ||| (b₂ &&& 0x3F).toNat, 3)
            else
              match rest with
              | [] => none
              | b₃ :: _ =>
                if outside (0x80, 0xBF) b₃ then none
                else some ((b₀ &&& 0x07).toNat <<< 18 ||| (b₁ &&& 0x3F).toNat <<< 12 |||
                  (b₂ &&& 0x3F).toNat <<< 6 ||| (b₃ &&& 0x3F).toNat, 4)

/-- The characters `encoding/json` writes for the bytes of a Go string, rune by rune, a byte that
starts no encoding becoming U+FFFD; `fuel` counts the runes left to read, one per byte
suffices. -/
def jsonChars : Nat → Bytes → List Char
  | 0, _ => []
  | _, [] => []
  | fuel + 1, b :: rest =>
    match decodeRune (b :: rest) with
    | some (r, size) => Char.ofNat r :: jsonChars fuel ((b :: rest).drop size)
    | none => '\uFFFD' :: jsonChars fuel rest

/-- A Go string's bytes as the JSON of an entry carries them to the coordinator. -/
def jsonString (s : Bytes) : String := ⟨jsonChars s.length s⟩

/-- `utf8.DecodeRune` reads at least one byte, and no more than there are. -/
theorem decodeRune_size {bs : Bytes} {r size : Nat} (h : decodeRune bs = some (r, size)) :
    1 ≤ size ∧ size ≤ bs.length := by
  unfold decodeRune at h
  repeat' (first | split at h | split_ifs at h)
  all_goals cases h <;> simp

/-- So one rune per byte is fuel enough: more fuel changes nothing. -/
theorem jsonChars_fuel {m n : Nat} {bs : Bytes} (hm : bs.length ≤ m) (hn : bs.length ≤ n) :
    jsonChars m bs = jsonChars n bs := by
  induction m generalizing n bs with
  | zero => cases bs with
    | nil => cases n <;> rfl
    | cons b rest => simp at hm
  | succ m ih =>
    cases bs with
    | nil => cases n <;> rfl
    | cons b rest =>
      obtain ⟨n, rfl⟩ : ∃ k, n = k + 1 := ⟨n - 1, by simp at hn; omega⟩
      simp only [jsonChars]
      split
      next r size hd =>
        have := decodeRune_size hd
        exact congrArg _ (ih (by simp at hm ⊢; omega) (by simp at hn ⊢; omega))
      next => exact congrArg _ (ih (by simp at hm; omega) (by simp at hn; omega))

/-- What `fetchFromNode` gets back from a remote engine `s`: nothing when the request fails, when
the key the remote parses is empty (`400`) or when the engine's `Get` fails (`404`); else the live
version under the parsed key, named by it as JSON carries it back. -/
def fetch (s : Store) (key : String) : Option KeyValueEntry :=
  (parsedKey key).bind fun k =>
    if k = [] then none
    else
      match s.get k with
      | .ok (value, timestamp) => some ⟨jsonString k, value, timestamp, false⟩
      | .error _ => none

/-- A remote answers with a live version under the key it parsed, named by that key as JSON
carries it back. -/
theorem fetch_eq_some {s : Store} {key : String} {e : KeyValueEntry} :
    fetch s key = some e ↔ ∃ k, parsedKey key = some k ∧ k ≠ [] ∧ e.key = jsonString k ∧
      e.isDeleted = false ∧ s.get k = .ok (e.value, e.timestamp) := by
  unfold fetch
  rcases parsedKey key with _ | k
  · simp
  · simp only [Option.some_bind, Option.some.injEq, exists_eq_left']
    by_cases hk : k = []
    · simp [hk]
    · simp only [hk, if_false, ne_eq, not_false_eq_true, true_and]
      split
      next value timestamp h =>
        rw [h]
        obtain ⟨key', value', timestamp', isDeleted'⟩ := e
        simp only [Option.some.injEq, KeyValueEntry.mk.injEq, Except.ok.injEq, Prod.mk.injEq]
        constructor
        · rintro ⟨rfl, rfl, rfl, rfl⟩
          exact ⟨rfl, rfl, rfl, rfl⟩
        · rintro ⟨rfl, rfl, rfl, rfl⟩
          exact ⟨rfl, rfl, rfl, rfl⟩
      next h => simp only [h, reduceCtorEq, false_iff, not_and]; exact fun _ _ h' => nomatch h'

/-! ### Keys read as they are -/

/-- A byte that reaches the remote's key as it is: printable ASCII other than a space and the
bytes the URL and the query give a meaning to (`#`, `%`, `&`, `+`, `;`). -/
def safeByte (b : UInt8) : Bool :=
  0x20 < b && b < 0x7F && !([0x23, 0x25, 0x26, 0x2B, 0x3B] : List UInt8).contains b

/-- A key that is not empty and whose characters are ASCII with safe bytes. -/
def UrlSafe (key : String) : Prop :=
  key ≠ "" ∧ ∀ c ∈ key.data, c.toNat < 0x80 ∧ safeByte c.toNat.toUInt8 = true

instance : DecidablePred UrlSafe := fun _ => inferInstanceAs (Decidable (_ ∧ _))

section Safe

theorem toNat_toUInt8 {n : Nat} (h : n < 256) : n.toUInt8.toNat = n := by
  simp [Nat.toUInt8, UInt8.toNat, UInt8.ofNat, Fin.ofNat]
  omega

/-- An ASCII key is stored under the bytes of its characters. -/
theorem keyBytes_eq_map {key : String} (h : ∀ c ∈ key.data, c.toNat < 0x80) :
    keyBytes key = key.data.map fun c => c.toNat.toUInt8 := by
  obtain ⟨cs⟩ := key
  show cs.flatMap String.utf8EncodeChar = _
  induction cs with
  | nil => rfl
  | cons c cs ih =>
    have hc : c.val ≤ 0x7f :=
      (by have := h c (.head _); simp only [Char.toNat] at this; omega : c.val.toNat ≤ 127)
    rw [List.flatMap_cons, ih fun c' h' => h c' (.tail _ h')]
    simp [String.utf8EncodeChar, hc, UInt32.toUInt8, Char.toNat]

theorem keyBytes_append (a b : String) : keyBytes (a ++ b) = keyBytes a ++ keyBytes b :=
  List.flatMap_append _ _ _

theorem UrlSafe.safe {key : String} (h : UrlSafe key) : ∀ b ∈ keyBytes key, safeByte b = true := by
  rw [keyBytes_eq_map fun c hc => (h.2 c hc).1]
  intro b hb
  obtain ⟨c, hc, rfl⟩ := List.mem_map.mp hb
  exact (h.2 c hc).2

theorem UrlSafe.keyBytes_ne {key : String} (h : UrlSafe key) : keyBytes key ≠ [] := by
  rw [keyBytes_eq_map fun c hc => (h.2 c hc).1, Ne, List.map_eq_nil_iff]
  obtain ⟨cs⟩ := key
  rintro rfl
  exact h.1 rfl

theorem safeByte_ne {b : UInt8} (h : safeByte b = true) {c : UInt8}
    (hc : c ∈ ([0x20, 0x23, 0x25, 0x26, 0x2B, 0x3B] : List UInt8)) : b ≠ c := by
  rintro rfl
  simp only [List.mem_cons, List.mem_singleton, List.not_mem_nil, or_false] at hc
  rcases hc with rfl | rfl | rfl | rfl | rfl | rfl <;> exact absurd h (by decide)

/-- What the URL asks of a byte to carry it: no control byte, no space, no `#`. -/
theorem plain_of_safeByte {b : UInt8} (h : safeByte b = true) :
    (b < 0x20 || b == 0x7F) = false ∧ b ≠ 0x20 ∧ b ≠ 0x23 := by
  refine ⟨?_, safeByte_ne h (by simp), safeByte_ne h (by simp)⟩
  simp only [safeByte, Bool.and_eq_true, decide_eq_true_eq] at h
  have h₁ : 32 < b.toNat := h.1.1
  have h₂ : b.toNat < 127 := h.1.2
  simp only [Bool.or_eq_false_iff, decide_eq_false_iff_not, beq_eq_false_iff_ne]
  exact ⟨fun hl => by have : b.toNat < 32 := hl; omega, by rintro rfl; exact absurd h₂ (by decide)⟩

theorem escapesValid_cons {b : UInt8} (s : Bytes) (h : b ≠ 0x25) :
    escapesValid (b :: s) = escapesValid s := by
  rw [escapesValid.eq_def]
  simp only [if_neg h]

theorem unescapeQuery_cons {b : UInt8} (s : Bytes) (h : b ≠ 0x25) :
    unescapeQuery (b :: s) = (if b = 0x2B then 0x20 else b) :: unescapeQuery s := by
  rw [unescapeQuery.eq_def]
  simp only [if_neg h]

/-- Bytes with no `%` and no `+` unescape to themselves. -/
theorem queryUnescape_of_ne {s : Bytes} (h : ∀ b ∈ s, b ≠ 0x25 ∧ b ≠ 0x2B) :
    queryUnescape s = some s := by
  induction s with
  | nil => rfl
  | cons b s ih =>
    obtain ⟨h₁, h₂⟩ := h b (.head _)
    have ih := ih fun b' h' => h b' (.tail _ h')
    unfold queryUnescape at ih ⊢
    split at ih
    next hv =>
      rw [escapesValid_cons _ h₁, if_pos hv, unescapeQuery_cons _ h₁, if_neg h₂, Option.some.inj ih]
    next => cases ih

theorem cut_of_forall {sep : UInt8} {s : Bytes} (h : ∀ b ∈ s, b ≠ sep) : cut sep s = (s, []) := by
  rw [cut, List.takeWhile_eq_self_iff.mpr fun b hb => bne_iff_ne.mpr (h b hb),
    List.dropWhile_eq_nil_iff.mpr fun b hb => bne_iff_ne.mpr (h b hb)]
  rfl

/-- A key with no control byte, space or `#` reaches the remote's query whole. -/
theorem rawQuery_of_plain {key : String}
    (h : ∀ b ∈ keyBytes key, (b < 0x20 || b == 0x7F) = false ∧ b ≠ 0x20 ∧ b ≠ 0x23) :
    rawQuery key = some (keyBytes "key=" ++ keyBytes key) := by
  rw [rawQuery, cut_of_forall fun b hb => (h b hb).2.2, if_neg]
  simp only [escapesValid, Bool.not_true, Bool.or_false, Bool.or_eq_true, not_or]
  exact ⟨by simpa [containsCTL] using fun b hb => (h b hb).1,
    by simpa using fun hb => (h 0x20 hb).2.1 rfl⟩

/-- The query `key=` followed by safe bytes, and nothing or more pieces after an `&`, cuts into
the piece `key=` and those bytes first. -/
theorem splitOn_key {kb rest : Bytes} (h : ∀ b ∈ kb, safeByte b = true)
    (hrest : rest = [] ∨ ∃ r, rest = 0x26 :: r) :
    ∃ tail, (keyBytes "key=" ++ kb ++ rest).splitOn 0x26 = (keyBytes "key=" ++ kb) :: tail := by
  have hk : ∀ x ∈ keyBytes "key=", x ≠ 0x26 := by decide
  have hamp : ∀ x ∈ keyBytes "key=" ++ kb, ¬(x == 0x26) = true := by
    intro x hx
    rw [beq_iff_eq]
    rcases List.mem_append.mp hx with hx | hx
    · exact hk x hx
    · exact safeByte_ne (h x hx) (by simp)
  rcases hrest with rfl | ⟨r, rfl⟩
  · exact ⟨[], by rw [List.append_nil]; exact List.splitOnP_eq_single _ _ hamp⟩
  · exact ⟨_, List.splitOnP_first _ _ hamp _ (beq_self_eq_true _) r⟩

theorem parsePiece_key {kb : Bytes} (h : ∀ b ∈ kb, safeByte b = true) :
    parsePiece (keyBytes "key=" ++ kb) = some (keyBytes "key", kb) := by
  have hcut : cut 0x3D (keyBytes "key=" ++ kb) = (keyBytes "key", kb) := rfl
  have hsemi : (keyBytes "key=" ++ kb).contains 0x3B = false := by
    have hk : (0x3B : UInt8) ∉ keyBytes "key=" := by decide
    simpa [hk] using fun hb => safeByte_ne (h 0x3B hb) (by simp) rfl
  rw [parsePiece, hsemi, hcut, queryUnescape_of_ne fun b hb =>
    ⟨safeByte_ne (h b hb) (by simp), safeByte_ne (h b hb) (by simp)⟩]
  rfl

/-- `Get("key")` on that query gives those bytes, whatever follows the `&`. -/
theorem valuesGet_key {kb rest : Bytes} (h : ∀ b ∈ kb, safeByte b = true)
    (hrest : rest = [] ∨ ∃ r, rest = 0x26 :: r) :
    valuesGet (parseQuery (keyBytes "key=" ++ kb ++ rest)) (keyBytes "key") = kb := by
  obtain ⟨tail, hsplit⟩ := splitOn_key h hrest
  rw [valuesGet, parseQuery, hsplit, List.filterMap_cons_some (parsePiece_key h)]
  simp [List.find?_cons]

theorem decodeRune_ascii {b : UInt8} (rest : Bytes) (h : b < 0x80) :
    decodeRune (b :: rest) = some (b.toNat, 1) := by
  rw [decodeRune.eq_def]
  simp only [if_pos h]

/-- ASCII bytes come back from JSON as the characters they encode. -/
theorem jsonChars_ascii (cs : List Char) (h : ∀ c ∈ cs, c.toNat < 0x80) {fuel : Nat}
    (hf : cs.length ≤ fuel) : jsonChars fuel (cs.map fun c => c.toNat.toUInt8) = cs := by
  induction cs generalizing fuel with
  | nil => cases fuel <;> rfl
  | cons c cs ih =>
    obtain ⟨fuel, rfl⟩ : ∃ f, fuel = f + 1 := ⟨fuel - 1, by simp at hf; omega⟩
    have hb : c.toNat.toUInt8.toNat = c.toNat := toNat_toUInt8 (by have := h c (.head _); omega)
    have hlt : c.toNat.toUInt8 < 0x80 := (by rw [hb]; exact h c (.head _) : c.toNat.toUInt8.toNat < 128)
    rw [List.map_cons, jsonChars, decodeRune_ascii _ hlt]
    simp only [List.drop_one, List.tail_cons, hb, Char.ofNat_toNat]
    rw [ih (fun c' h' => h c' (.tail _ h')) (by simp at hf; omega)]

theorem jsonString_keyBytes {key : String} (h : ∀ c ∈ key.data, c.toNat < 0x80) :
    jsonString (keyBytes key) = key := by
  rw [jsonString, keyBytes_eq_map h, jsonChars_ascii _ h (by simp)]

theorem parsedKey_of_urlSafe {key : String} (h : UrlSafe key) :
    parsedKey key = some (keyBytes key) := by
  rw [parsedKey, rawQuery_of_plain fun b hb => plain_of_safeByte (h.safe b hb), Option.map_some',
    ← List.append_nil (keyBytes "key=" ++ keyBytes key), valuesGet_key h.safe (.inl rfl)]

/-- **A URL-safe key is read as it is.** A remote answers `fetchFromNode` for it as
`handleInternalRead` would for the key itself. -/
theorem fetch_of_urlSafe (s : Store) {key : String} (h : UrlSafe key) : fetch s key = read s key := by
  rw [fetch, parsedKey_of_urlSafe h, Option.some_bind, if_neg h.keyBytes_ne,
    jsonString_keyBytes fun c hc => (h.2 c hc).1]
  rfl

/-- **A key with an `&` is read as what stands before it.** For URL-safe `a` and `b`, a remote
answers the coordinator's read of `a&b` with its version of `a`. -/
theorem fetch_amp (s : Store) {a b : String} (ha : UrlSafe a) (hb : UrlSafe b) :
    fetch s (a ++ "&" ++ b) = read s a := by
  have hbytes : keyBytes (a ++ "&" ++ b) = keyBytes a ++ 0x26 :: keyBytes b := by
    rw [keyBytes_append, keyBytes_append, List.append_assoc]
    rfl
  have hplain : ∀ x ∈ keyBytes (a ++ "&" ++ b),
      (x < 0x20 || x == 0x7F) = false ∧ x ≠ 0x20 ∧ x ≠ 0x23 := by
    rw [hbytes]
    intro x hx
    rcases List.mem_append.mp hx with hx | hx
    · exact plain_of_safeByte (ha.safe x hx)
    · rcases List.mem_cons.mp hx with rfl | hx
      · decide
      · exact plain_of_safeByte (hb.safe x hx)
  have hkey : parsedKey (a ++ "&" ++ b) = some (keyBytes a) := by
    rw [parsedKey, rawQuery_of_plain hplain, Option.map_some', hbytes, ← List.append_assoc,
      valuesGet_key ha.safe (.inr ⟨_, rfl⟩)]
  rw [fetch, hkey, Option.some_bind, if_neg ha.keyBytes_ne,
    jsonString_keyBytes fun c hc => (ha.2 c hc).1]
  rfl

end Safe

end MiniDynamo.Replication
