import Mathlib.Data.List.DropRight
import Mathlib.Data.List.Basic

/-! The seed list of `main.go` (`splitAndTrim`, `splitString`, `trimSpace`).

The `--seeds` flag is split at each separator and each part trimmed of spaces, tabs, newlines and
carriage returns; empty parts are dropped. A Go string is its bytes. `splitString` walks them one
at a time and appends `string(s[i])` to the current part, which converts the byte to the code point
of its value: a byte from `0x80` up becomes two bytes of UTF-8.

For a one-byte separator the loop is `List.splitOn` with every byte so re-encoded
(`splitString_eq_splitOn`). So a list of ASCII addresses, none empty, none holding the separator
and none starting or ending with a space, joined with the separator is split back into itself
(`splitAndTrim_intercalate`), and such a list is split back into itself only if it is ASCII: each
byte from `0x80` up comes back as two (`splitAndTrim_intercalate_iff_ascii`). With an empty
separator the loop never ends. -/
namespace MiniDynamo.Cmd

/-- `string(s[i])`: the byte read as a code point and encoded in UTF-8, so that a byte from `0x80`
up becomes two. -/
def byteString (b : UInt8) : List UInt8 :=
  if b < 0x80 then [b] else [(0xC0 : UInt8) ||| (b >>> 6), (0x80 : UInt8) ||| (b &&& 0x3F)]

/-- The loop of `splitString` from byte `i`, with the part `current` and the parts `result` so
far, and `fuel` turns left. A match appends the part and moves `i` past the separator
(`i += sepLen - 1`, then `i++`). -/
def splitLoop (s sep : List UInt8) : Nat → Nat → List UInt8 → List (List UInt8) → List (List UInt8)
  | 0, _, current, result => result ++ [current]
  | fuel + 1, i, current, result =>
    if i < s.length then
      if i + sep.length ≤ s.length ∧ (s.drop i).take sep.length = sep then
        splitLoop s sep fuel (i + sep.length) [] (result ++ [current])
      else splitLoop s sep fuel (i + 1) (current ++ byteString (s.getD i 0)) result
    else result ++ [current]

/-- `splitString`. Each turn moves `i` on by at least one byte when the separator is not empty,
so `len(s)` turns finish the loop. With an empty separator `i` never moves and the loop never
ends on a non-empty string (`none`). -/
def splitString (s sep : List UInt8) : Option (List (List UInt8)) :=
  if sep = [] ∧ s ≠ [] then none else some (splitLoop s sep s.length 0 [] [])

/-- The bytes `trimSpace` trims. -/
def isSpace (b : UInt8) : Bool := b == 32 || b == 9 || b == 10 || b == 13

/-- `trimSpace`: `start` moves past the leading spaces, `end` back past the trailing ones down
to `start`, and the bytes between are kept. -/
def trimSpace (s : List UInt8) : List UInt8 := (s.dropWhile isSpace).rdropWhile isSpace

/-- `splitAndTrim`: nil for the empty string; otherwise the parts trimmed, the empty ones left
out. -/
def splitAndTrim (s sep : List UInt8) : Option (List (List UInt8)) :=
  if s = [] then some [] else
  (splitString s sep).map fun parts => (parts.map trimSpace).filter fun p => !p.isEmpty

/-! ### The loop is `splitOn` -/

/-- Every byte of a part, re-encoded as `string(s[i])` does. -/
def reencode (p : List UInt8) : List UInt8 := p.flatMap byteString

@[simp] theorem reencode_nil : reencode [] = [] := rfl

@[simp] theorem reencode_cons (b : UInt8) (p : List UInt8) :
    reencode (b :: p) = byteString b ++ reencode p := rfl

theorem map_reencode_modifyHead (b : UInt8) (ps : List (List UInt8)) :
    (ps.modifyHead (b :: ·)).map reencode = (ps.map reencode).modifyHead (byteString b ++ ·) := by
  cases ps <;> rfl

theorem splitOn_cons (b c : UInt8) (t : List UInt8) :
    (b :: t).splitOn c = if b = c then [] :: t.splitOn c else (t.splitOn c).modifyHead (b :: ·) := by
  simp [List.splitOn, List.splitOnP_cons]

/-- The loop from any byte, for a one-byte separator: what is left of the string, split at the
separator, each part re-encoded, with the current part put in front of the first. -/
theorem splitLoop_eq (s : List UInt8) (c : UInt8) :
    ∀ (t : List UInt8) (fuel i : Nat) (current : List UInt8) (result : List (List UInt8)),
      s.drop i = t → t.length ≤ fuel →
      splitLoop s [c] fuel i current result =
        result ++ ((t.splitOn c).map reencode).modifyHead (current ++ ·)
  | [], fuel, i, current, result, ht, _ => by
    have hi : s.length ≤ i := List.drop_eq_nil_iff.mp ht
    cases fuel <;> simp [splitLoop, Nat.not_lt.mpr hi]
  | b :: t, fuel + 1, i, current, result, ht, hf => by
    have hi : i < s.length := by
      have := congrArg List.length ht
      simp only [List.length_drop, List.length_cons] at this
      omega
    have hget : s.getD i 0 = b := by
      rw [List.getD_eq_getElem?_getD, ← List.head?_drop, ht]
      rfl
    have ht' : s.drop (i + 1) = t := by rw [← List.drop_drop, ht, List.drop_one, List.tail_cons]
    have hlen : t.length ≤ fuel := by simp only [List.length_cons] at hf; omega
    rw [splitLoop, if_pos hi, ht, splitOn_cons, List.length_singleton]
    by_cases hb : b = c
    · subst hb
      rw [if_pos ⟨hi, rfl⟩, if_pos rfl, splitLoop_eq s b t fuel (i + 1) [] _ ht' hlen, List.map_cons]
      generalize (t.splitOn b).map reencode = M
      cases M <;> simp
    · rw [if_neg fun h => hb (by simpa using h.2), if_neg hb, hget,
        splitLoop_eq s c t fuel (i + 1) _ result ht' hlen, map_reencode_modifyHead,
        List.modifyHead_modifyHead]
      simp only [Function.comp_def, List.append_assoc]
  | _ :: _, 0, _, _, _, _, hf => absurd hf (by simp)

/-- **`splitString` splits at the separator.** For a one-byte separator and any string, the loop
gives `List.splitOn`'s parts, every byte re-encoded as `string(s[i])` does. -/
theorem splitString_eq_splitOn (s : List UInt8) (c : UInt8) :
    splitString s [c] = some ((s.splitOn c).map reencode) := by
  rw [splitString, if_neg (by simp), splitLoop_eq s c s s.length 0 [] [] rfl le_rfl, List.nil_append]
  cases s.splitOn c <;> rfl

/-! ### ASCII -/

theorem byteString_of_lt {b : UInt8} (h : b < 0x80) : byteString b = [b] := if_pos h

theorem reencode_of_ascii {p : List UInt8} (h : ∀ b ∈ p, b < 0x80) : reencode p = p := by
  induction p with
  | nil => rfl
  | cons b p ih =>
    rw [reencode_cons, byteString_of_lt (h b (.head _)), ih fun b hb => h b (.tail _ hb)]
    rfl

/-! ### Trimming -/

/-- A part that neither starts nor ends with a space is not trimmed. -/
theorem trimSpace_of_ends {p : List UInt8} (hh : ∀ b ∈ p.head?, isSpace b = false)
    (hl : ∀ b ∈ p.getLast?, isSpace b = false) : trimSpace p = p := by
  have hd : p.dropWhile isSpace = p := by
    cases p with
    | nil => rfl
    | cons b p => simp [List.dropWhile_cons, hh b rfl]
  rw [trimSpace, hd, List.rdropWhile]
  cases hr : p.reverse with
  | nil => simp [List.reverse_eq_nil_iff.mp hr]
  | cons b q =>
    have hb : isSpace b = false := hl b (by rw [← List.head?_reverse, hr]; rfl)
    rw [List.dropWhile_cons_of_neg (by simp [hb]), ← hr, List.reverse_reverse]

/-- Trimmed ASCII parts without the separator, joined with it: `splitAndTrim` reads them back. -/
theorem splitAndTrim_intercalate (c : UInt8) {seeds : List (List UInt8)} (hne : seeds ≠ [])
    (hseeds : ∀ p ∈ seeds, p ≠ [] ∧ c ∉ p ∧ (∀ b ∈ p.head?, isSpace b = false) ∧
      (∀ b ∈ p.getLast?, isSpace b = false))
    (hascii : ∀ p ∈ seeds, ∀ b ∈ p, b < 0x80) :
    splitAndTrim ([c].intercalate seeds) [c] = some seeds := by
  have hjoin : [c].intercalate seeds ≠ [] := by
    obtain ⟨p, ps, rfl⟩ := List.exists_cons_of_ne_nil hne
    cases ps <;> simp [List.intercalate, (hseeds p (.head _)).1]
  rw [splitAndTrim, if_neg hjoin, splitString_eq_splitOn,
    List.splitOn_intercalate seeds c (fun p hp => (hseeds p hp).2.1) hne, Option.map_some']
  congr 1
  have hmap : (seeds.map reencode).map trimSpace = seeds := by
    rw [List.map_map]
    refine (List.map_congr_left fun p hp => ?_).trans (List.map_id _)
    obtain ⟨-, -, hh, hl⟩ := hseeds p hp
    rw [Function.comp_apply, reencode_of_ascii (hascii p hp), trimSpace_of_ends hh hl, id]
  rw [hmap, List.filter_eq_self]
  intro p hp
  simpa using (hseeds p hp).1

/-! ### Bytes from `0x80` up -/

/-- How many bytes of a string are from `0x80` up. -/
def highBytes (p : List UInt8) : Nat := p.countP fun b => !decide (b < 0x80)

@[simp] theorem highBytes_nil : highBytes [] = 0 := rfl

@[simp] theorem highBytes_append (p q : List UInt8) :
    highBytes (p ++ q) = highBytes p + highBytes q := List.countP_append ..

@[simp] theorem highBytes_reverse (p : List UInt8) : highBytes p.reverse = highBytes p :=
  List.countP_reverse ..

theorem highBytes_cons (b : UInt8) (p : List UInt8) :
    highBytes (b :: p) = (if b < 0x80 then 0 else 1) + highBytes p := by
  rw [← List.singleton_append, highBytes_append]
  by_cases hb : b < 0x80 <;> simp [highBytes, hb]

theorem lt_0x80_iff (b : UInt8) : b < 0x80 ↔ b.toBitVec.msb = false := by
  rw [UInt8.lt_def, BitVec.lt_def, BitVec.msb_eq_decide]
  simp

/-- Setting bits of a byte from `0x80` up leaves it there. -/
theorem not_lt_0x80_or {x : UInt8} (y : UInt8) (h : ¬x < 0x80) : ¬(x ||| y) < 0x80 := by
  rw [lt_0x80_iff] at *
  show ¬(x.toBitVec ||| y.toBitVec).msb = false
  simp_all [BitVec.msb_or]

/-- `string(s[i])` makes each byte from `0x80` up two such bytes. -/
theorem highBytes_byteString (b : UInt8) : highBytes (byteString b) = 2 * highBytes [b] := by
  unfold byteString
  by_cases hb : b < 0x80
  · simp [hb, highBytes]
  · simp only [if_neg hb, highBytes_cons, highBytes_nil,
      not_lt_0x80_or _ (show ¬(0xC0 : UInt8) < 0x80 by decide),
      not_lt_0x80_or _ (show ¬(0x80 : UInt8) < 0x80 by decide)]
    rfl

theorem highBytes_reencode (p : List UInt8) : highBytes (reencode p) = 2 * highBytes p := by
  induction p with
  | nil => rfl
  | cons b p ih =>
    rw [reencode_cons, highBytes_append, ih, highBytes_byteString, highBytes_cons b p,
      highBytes_cons b [], highBytes_nil]
    omega

/-- Spaces are ASCII. -/
theorem lt_of_isSpace {b : UInt8} (h : isSpace b = true) : b < 0x80 := by
  simp only [isSpace, Bool.or_eq_true, beq_iff_eq] at h
  rcases h with ((rfl | rfl) | rfl) | rfl <;> decide

theorem highBytes_dropWhile (s : List UInt8) : highBytes (s.dropWhile isSpace) = highBytes s := by
  induction s with
  | nil => rfl
  | cons b s ih =>
    rw [List.dropWhile_cons]
    split
    · rw [ih, highBytes_cons, if_pos (lt_of_isSpace ‹_›), Nat.zero_add]
    · rfl

/-- Trimming takes away spaces only, so no byte from `0x80` up. -/
theorem highBytes_trimSpace (s : List UInt8) : highBytes (trimSpace s) = highBytes s := by
  rw [trimSpace, List.rdropWhile, highBytes_reverse, highBytes_dropWhile, highBytes_reverse,
    highBytes_dropWhile]

/-- A map doubling the bytes from `0x80` up of each part doubles them over all parts. -/
theorem highBytes_flatten_map {f : List UInt8 → List UInt8} (hf : ∀ p, highBytes (f p) = 2 * highBytes p)
    (L : List (List UInt8)) : highBytes (L.map f).flatten = 2 * highBytes L.flatten := by
  induction L with
  | nil => rfl
  | cons p L ih =>
    rw [List.map_cons, List.flatten_cons, List.flatten_cons, highBytes_append, highBytes_append, hf,
      ih]
    omega

/-- `splitAndTrim` doubles the bytes from `0x80` up of the parts between the separators. -/
theorem highBytes_splitAndTrim (s : List UInt8) (c : UInt8) {parts : List (List UInt8)}
    (h : splitAndTrim s [c] = some parts) :
    highBytes parts.flatten = 2 * highBytes (s.splitOn c).flatten := by
  unfold splitAndTrim at h
  split at h
  · cases h
    subst s
    rfl
  · rw [splitString_eq_splitOn, Option.map_some', Option.some_inj] at h
    rw [← h, List.flatten_filter_not_isEmpty, List.map_map]
    exact highBytes_flatten_map (fun p => by
      rw [Function.comp_apply, highBytes_trimSpace, highBytes_reencode]) _

/-- **The seed list comes back exactly when it is ASCII.** Addresses that are not empty, do not
hold the separator and neither start nor end with a space, joined with the separator, are split
back into themselves if and only if every byte is below `0x80`: `string(s[i])` makes each byte
from `0x80` up two. -/
theorem splitAndTrim_intercalate_iff_ascii (c : UInt8) {seeds : List (List UInt8)}
    (hne : seeds ≠ [])
    (hseeds : ∀ p ∈ seeds, p ≠ [] ∧ c ∉ p ∧ (∀ b ∈ p.head?, isSpace b = false) ∧
      (∀ b ∈ p.getLast?, isSpace b = false)) :
    splitAndTrim ([c].intercalate seeds) [c] = some seeds ↔ ∀ p ∈ seeds, ∀ b ∈ p, b < 0x80 := by
  refine ⟨fun h => ?_, splitAndTrim_intercalate c hne hseeds⟩
  have hdouble := highBytes_splitAndTrim _ c h
  rw [List.splitOn_intercalate seeds c (fun p hp => (hseeds p hp).2.1) hne] at hdouble
  have hzero : highBytes seeds.flatten = 0 := by omega
  intro p hp b hb
  simpa using List.countP_eq_zero.mp hzero b (List.mem_flatten.mpr ⟨p, hp, hb⟩)

/-- The bytes of an ASCII text. -/
def ascii (s : String) : List UInt8 := s.toList.map fun ch => ch.toNat.toUInt8

theorem splitAndTrim_two_seeds :
    splitAndTrim ([44].intercalate [ascii "127.0.0.1:7947", ascii "127.0.0.1:7948"]) [44] =
      some [ascii "127.0.0.1:7947", ascii "127.0.0.1:7948"] :=
  (splitAndTrim_intercalate_iff_ascii 44 (by decide) (by decide)).mpr (by decide)

/-- A Latin-1 `é` in an address comes back as its two bytes of UTF-8. -/
example : splitAndTrim [0x61, 0xE9] [44] = some [[0x61, 0xC3, 0xA9]] := by decide

end MiniDynamo.Cmd
