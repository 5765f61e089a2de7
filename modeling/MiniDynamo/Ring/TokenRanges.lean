import MiniDynamo.Ring.Placement
import Mathlib.Data.UInt
import Mathlib.Tactic.Abel
import Mathlib.Algebra.Order.Ring.Nat

/-! Token ranges and the load distribution (`vnode.go`).

`GetTokenRanges` gives each token the range from just after the token before it, the last token
for the first, up to the token itself. Read round the circle of `uint64` hashes, from
`StartToken` to `EndToken` both included (`TokenRange.contains`), the ranges of a ring whose
tokens have distinct hashes partition the hash space, their sizes add up to `2^64`, and the range
holding a hash is the one whose node `GetNode` answers for a key of that hash
(`token_ranges_partition`).

`CalculateLoadDistribution` adds the ranges' sizes in `uint64`. Whichever branch computes it, a
range's size is `EndToken - StartToken + 1` modulo `2^64`, and each range starts just after the
token before it, so the sizes telescope: the total is 0 for every ring, and every share divides
by `float64(0)` (`load_total_wraps_to_zero`). -/
namespace MiniDynamo.Ring

/-- `TokenRange`. -/
structure TokenRange where
  startToken : UInt64
  endToken : UInt64
  nodeID : String
  deriving DecidableEq, Repr

/-- `VNodeManager`: operations over the ring it wraps. -/
structure VNodeManager where
  ring : HashRing

namespace VNodeManager

/-- `NewVNodeManager`. -/
def new (ring : HashRing) : VNodeManager := ⟨ring⟩

/-- The range `GetTokenRanges` builds for the token at `i`: from just after the token before it,
the last token for the first, up to the token itself. -/
def tokenRange (tokens : List VNode) (i : Nat) : TokenRange :=
  let vn := tokens.getD i default
  let startToken := if i = 0 then (tokens.getD (tokens.length - 1) default).hash + 1
    else (tokens.getD (i - 1) default).hash + 1
  ⟨startToken, vn.hash, vn.nodeID⟩

/-- `GetTokenRanges`: one range per token, in the ring's order; nil for an empty ring. -/
def getTokenRanges (m : VNodeManager) : List TokenRange :=
  let tokens := m.ring.getRingTokens
  if tokens.length = 0 then [] else (List.range tokens.length).map (tokenRange tokens)

/-- `GetNodeTokenRanges`. -/
def getNodeTokenRanges (m : VNodeManager) (nodeID : String) : List TokenRange :=
  m.getTokenRanges.filter fun r => r.nodeID = nodeID

/-- A range's size as `CalculateLoadDistribution` computes it, in `uint64`. -/
def rangeSize (r : TokenRange) : UInt64 :=
  if r.endToken ≥ r.startToken then r.endToken - r.startToken + 1
  else (~~~(0 : UInt64) - r.startToken) + r.endToken + 2

/-- One turn of `CalculateLoadDistribution`'s first loop: the range's size is added to its node's
load (0 when the map has none) and to `totalSpace`. -/
def addRange (acc : (AList fun _ : String => UInt64) × UInt64) (r : TokenRange) :
    (AList fun _ : String => UInt64) × UInt64 :=
  let rangeSize := rangeSize r
  (acc.1.insert r.nodeID ((acc.1.lookup r.nodeID).getD 0 + rangeSize), acc.2 + rangeSize)

/-- `CalculateLoadDistribution`'s first loop: `nodeLoad` and `totalSpace`. -/
def loadLoop (ranges : List TokenRange) : (AList fun _ : String => UInt64) × UInt64 :=
  ranges.foldl addRange (∅, 0)

/-- `CalculateLoadDistribution`'s second loop: `float64(load) / float64(totalSpace) * 100` for
each node, in the map's order. -/
def shares (nodeLoad : AList fun _ : String => UInt64) (totalSpace : UInt64) :
    AList fun _ : String => Float :=
  nodeLoad.entries.foldl (fun distribution e =>
    distribution.insert e.1 (e.2.toFloat / totalSpace.toFloat * 100)) ∅

/-- `CalculateLoadDistribution`: nil for a ring with no ranges. -/
def calculateLoadDistribution (m : VNodeManager) : Option (AList fun _ : String => Float) :=
  let ranges := m.getTokenRanges
  if ranges.length = 0 then none else
  let loads := loadLoop ranges
  some (shares loads.1 loads.2)

end VNodeManager

/-! ### Ranges on the circle of hashes -/

namespace TokenRange

/-- Whether `h` lies in the range, read round the circle of `uint64` hashes from `startToken` to
`endToken`, both included. -/
def contains (t : TokenRange) (h : UInt64) : Bool :=
  (h - t.startToken).toNat ≤ (t.endToken - t.startToken).toNat

/-- How many hashes the range holds, read the same way. -/
def size (t : TokenRange) : Nat := (t.endToken - t.startToken).toNat + 1

end TokenRange

theorem toNat_sub_eq (a b : UInt64) : (a - b).toNat = (2 ^ 64 - b.toNat + a.toNat) % 2 ^ 64 := rfl

theorem toNat_add_eq (a b : UInt64) : (a + b).toNat = (a.toNat + b.toNat) % 2 ^ 64 := rfl

theorem toNat_lt_pow (a : UInt64) : a.toNat < 2 ^ 64 := a.val.isLt

namespace VNodeManager

theorem getTokenRanges_eq (m : VNodeManager) :
    m.getTokenRanges = (List.range m.ring.vnodes.length).map (tokenRange m.ring.vnodes) := by
  unfold getTokenRanges HashRing.getRingTokens
  dsimp only
  split
  next h => rw [h]; rfl
  next => rfl

/-! ### Where each hash lies -/

section Ranges

variable {vnodes : List VNode}

theorem getD_eq_get {i : Nat} (hi : i < vnodes.length) : vnodes.getD i default = vnodes[i] := by
  rw [List.getD_eq_getElem?_getD, List.getElem?_eq_getElem hi, Option.getD_some]

/-- The walk starts at `i` when the token there is the first at or after the hash, or at the
first token when no token is at or after it. -/
theorem firstAtOrAfter_eq_iff {i : Nat} (hi : i < vnodes.length) (h : UInt64) :
    HashRing.firstAtOrAfter vnodes h = i ↔
      (h.toNat ≤ (vnodes.getD i default).hash.toNat ∧
        ∀ j < i, (vnodes.getD j default).hash.toNat < h.toNat) ∨
      (i = 0 ∧ ∀ j < vnodes.length, (vnodes.getD j default).hash.toNat < h.toNat) := by
  have hle : (vnodes.findIdx fun v => decide (v.hash ≥ h)) ≤ vnodes.length :=
    List.findIdx_le_length _
  have hat : ∀ hk : (vnodes.findIdx fun v => decide (v.hash ≥ h)) < vnodes.length,
      h.toNat ≤ (vnodes.getD (vnodes.findIdx fun v => decide (v.hash ≥ h)) default).hash.toNat :=
    fun hk => by
      have := List.findIdx_getElem (w := hk)
      rw [getD_eq_get hk]
      exact of_decide_eq_true this
  have hbefore : ∀ j < (vnodes.findIdx fun v => decide (v.hash ≥ h)),
      (vnodes.getD j default).hash.toNat < h.toNat := fun j hj => by
    have := List.not_of_lt_findIdx hj
    rw [getD_eq_get (by omega)]
    exact Nat.lt_of_not_le (of_decide_eq_false this)
  unfold HashRing.firstAtOrAfter
  generalize (vnodes.findIdx fun v => decide (v.hash ≥ h)) = k at hle hat hbefore
  dsimp only
  constructor
  · intro he
    split at he
    next hk => subst he; exact .inl ⟨hat hk, hbefore⟩
    next hk => exact .inr ⟨he.symm, fun j hj => hbefore j (by omega)⟩
  · rintro (⟨hi', hlt⟩ | ⟨rfl, hall⟩)
    · have hki : k = i := by
        rcases Nat.lt_trichotomy k i with hki | hki | hki
        · have := hat (by omega); have := hlt k hki; omega
        · exact hki
        · have := hbefore i hki; omega
      rw [if_pos (by omega), hki]
    · rw [if_neg fun hk => absurd (hat hk) (Nat.not_le_of_lt (hall k hk))]

variable (hs : vnodes.Sorted fun a b => a.hash.toNat < b.hash.toNat)

include hs

theorem hash_lt_hash {i j : Nat} (hij : i < j) (hj : j < vnodes.length) :
    (vnodes.getD i default).hash.toNat < (vnodes.getD j default).hash.toNat := by
  rw [getD_eq_get (by omega), getD_eq_get hj]
  exact List.pairwise_iff_getElem.mp hs i j (by omega) hj hij

theorem hash_le_hash {i j : Nat} (hij : i ≤ j) (hj : j < vnodes.length) :
    (vnodes.getD i default).hash.toNat ≤ (vnodes.getD j default).hash.toNat := by
  rcases Nat.lt_or_eq_of_le hij with h | rfl
  · exact (hash_lt_hash hs h hj).le
  · exact le_rfl

/-- The first range runs from just after the last token round to the first: it holds the hashes
up to the first token and those past the last. -/
theorem contains_tokenRange_zero (hn : 0 < vnodes.length) (h : UInt64) :
    (tokenRange vnodes 0).contains h = true ↔
      h.toNat ≤ (vnodes.getD 0 default).hash.toNat ∨
        (vnodes.getD (vnodes.length - 1) default).hash.toNat < h.toNat := by
  have hmono := hash_le_hash hs (Nat.zero_le (vnodes.length - 1)) (by omega)
  have := toNat_lt_pow (vnodes.getD 0 default).hash
  have := toNat_lt_pow (vnodes.getD (vnodes.length - 1) default).hash
  have := toNat_lt_pow h
  simp only [tokenRange, if_pos, TokenRange.contains, decide_eq_true_eq, toNat_sub_eq,
    toNat_add_eq]
  rw [show (1 : UInt64).toNat = 1 from rfl]
  omega

/-- Every other range runs from just after the token before it to its own. -/
theorem contains_tokenRange_succ {j : Nat} (hj : j + 1 < vnodes.length) (h : UInt64) :
    (tokenRange vnodes (j + 1)).contains h = true ↔
      (vnodes.getD j default).hash.toNat < h.toNat ∧
        h.toNat ≤ (vnodes.getD (j + 1) default).hash.toNat := by
  have hmono := hash_lt_hash hs (Nat.lt_add_one j) hj
  have := toNat_lt_pow (vnodes.getD (j + 1) default).hash
  have := toNat_lt_pow h
  simp only [tokenRange, Nat.add_one_ne_zero, if_false, Nat.add_sub_cancel, TokenRange.contains,
    decide_eq_true_eq, toNat_sub_eq, toNat_add_eq]
  rw [show (1 : UInt64).toNat = 1 from rfl]
  omega

/-- A range holds a hash exactly when the walk for that hash starts at its token. -/
theorem contains_tokenRange_iff {i : Nat} (hi : i < vnodes.length) (h : UInt64) :
    (tokenRange vnodes i).contains h = true ↔ HashRing.firstAtOrAfter vnodes h = i := by
  rw [firstAtOrAfter_eq_iff hi]
  cases i with
  | zero =>
    have hall : (∀ j < vnodes.length, (vnodes.getD j default).hash.toNat < h.toNat) ↔
        (vnodes.getD (vnodes.length - 1) default).hash.toNat < h.toNat :=
      ⟨fun hall => hall _ (by omega),
        fun hlt j hj => Nat.lt_of_le_of_lt (hash_le_hash hs (by omega) (by omega)) hlt⟩
    rw [contains_tokenRange_zero hs hi, hall]
    constructor
    · rintro (hle | hlt)
      · exact .inl ⟨hle, fun j hj => absurd hj (Nat.not_lt_zero j)⟩
      · exact .inr ⟨rfl, hlt⟩
    · rintro (⟨hle, -⟩ | ⟨-, hlt⟩)
      · exact .inl hle
      · exact .inr hlt
  | succ j =>
    have hbefore : (∀ l < j + 1, (vnodes.getD l default).hash.toNat < h.toNat) ↔
        (vnodes.getD j default).hash.toNat < h.toNat :=
      ⟨fun hall => hall j (Nat.lt_succ_self j),
        fun hlt l hl => Nat.lt_of_le_of_lt (hash_le_hash hs (by omega) (by omega)) hlt⟩
    rw [contains_tokenRange_succ hs hi, hbefore]
    constructor
    · rintro ⟨hlt, hle⟩
      exact .inl ⟨hle, hlt⟩
    · rintro (⟨hle, hlt⟩ | ⟨h0, -⟩)
      · exact ⟨hlt, hle⟩
      · exact absurd h0 (Nat.succ_ne_zero j)

/-- So every hash lies in exactly one range. -/
theorem countP_contains (hne : vnodes ≠ []) (h : UInt64) :
    ((List.range vnodes.length).map (tokenRange vnodes)).countP (·.contains h) = 1 := by
  have hk := HashRing.firstAtOrAfter_lt hne h
  rw [List.countP_map]
  calc (List.range vnodes.length).countP ((·.contains h) ∘ tokenRange vnodes)
      = (List.range vnodes.length).countP (· == HashRing.firstAtOrAfter vnodes h) :=
        List.countP_congr fun i hi => by
          rw [Function.comp_apply, contains_tokenRange_iff hs (List.mem_range.mp hi), beq_iff_eq,
            eq_comm]
    _ = 1 := List.count_eq_one_of_mem (List.nodup_range _) (List.mem_range.mpr hk)

theorem size_tokenRange_zero (hn : 0 < vnodes.length) :
    (tokenRange vnodes 0).size = 2 ^ 64 + (vnodes.getD 0 default).hash.toNat -
      (vnodes.getD (vnodes.length - 1) default).hash.toNat := by
  have hmono := hash_le_hash hs (Nat.zero_le (vnodes.length - 1)) (by omega)
  have := toNat_lt_pow (vnodes.getD (vnodes.length - 1) default).hash
  simp only [tokenRange, if_pos, TokenRange.size, toNat_sub_eq, toNat_add_eq]
  rw [show (1 : UInt64).toNat = 1 from rfl]
  omega

theorem size_tokenRange_succ {j : Nat} (hj : j + 1 < vnodes.length) :
    (tokenRange vnodes (j + 1)).size =
      (vnodes.getD (j + 1) default).hash.toNat - (vnodes.getD j default).hash.toNat := by
  have hmono := hash_lt_hash hs (Nat.lt_add_one j) hj
  have := toNat_lt_pow (vnodes.getD (j + 1) default).hash
  simp only [tokenRange, Nat.add_one_ne_zero, if_false, Nat.add_sub_cancel, TokenRange.size,
    toNat_sub_eq, toNat_add_eq]
  rw [show (1 : UInt64).toNat = 1 from rfl]
  omega

end Ranges

/-- Differences of consecutive terms of a non-decreasing sequence add up to its growth. -/
theorem sum_range_sub_add (g : Nat → Nat) :
    ∀ m, (∀ j < m, g j ≤ g (j + 1)) → ((List.range m).map fun j => g (j + 1) - g j).sum + g 0 = g m
  | 0, _ => by simp
  | m + 1, hg => by
    have ih := sum_range_sub_add g m fun j hj => hg j (by omega)
    have := hg m (by omega)
    rw [List.range_succ, List.map_append, List.sum_append, List.map_singleton, List.sum_singleton]
    omega

/-- The ranges' sizes add up to the whole circle. -/
theorem sum_size {vnodes : List VNode} (hs : vnodes.Sorted fun a b => a.hash.toNat < b.hash.toNat)
    (hne : vnodes ≠ []) :
    (((List.range vnodes.length).map (tokenRange vnodes)).map TokenRange.size).sum = 2 ^ 64 := by
  obtain ⟨m, hm⟩ : ∃ m, vnodes.length = m + 1 := ⟨vnodes.length - 1, by
    have := List.length_pos.mpr hne; omega⟩
  have hsucc : ((List.range m).map fun j => (tokenRange vnodes (j + 1)).size) =
      (List.range m).map fun j => (vnodes.getD (j + 1) default).hash.toNat -
        (vnodes.getD j default).hash.toNat :=
    List.map_congr_left fun j hj => size_tokenRange_succ hs (by rw [hm]; simpa using hj)
  have htel := sum_range_sub_add (fun j => (vnodes.getD j default).hash.toNat) m
    fun j hj => hash_le_hash hs (Nat.le_succ j) (by omega)
  dsimp only at htel
  have h0 := size_tokenRange_zero hs (by omega)
  have hmono := hash_le_hash hs (Nat.zero_le m) (by omega)
  rw [hm, Nat.add_sub_cancel] at h0
  rw [List.map_map, hm, List.range_succ_eq_map, List.map_cons, List.sum_cons, List.map_map]
  simp only [Function.comp_def, Nat.succ_eq_add_one] at hsucc ⊢
  have := toNat_lt_pow (vnodes.getD m default).hash
  rw [hsucc, h0]
  omega

/-! ### Placement -/

theorem sorted_lt_of_nodup {vnodes : List VNode} (hs : vnodes.Sorted fun a b => a.hash ≤ b.hash)
    (hd : (vnodes.map VNode.hash).Nodup) : vnodes.Sorted fun a b => a.hash.toNat < b.hash.toNat :=
  (hs.and (List.pairwise_map.mp hd)).imp fun {_ _} ⟨hle, hne⟩ =>
    Nat.lt_of_le_of_ne hle fun h => hne (UInt64.toNat.inj h)

/-- The range holding a key's hash belongs to the node `GetNode` answers for the key. -/
theorem getNode_eq_of_contains {hash : String → UInt64} {r : HashRing}
    (hs : r.vnodes.Sorted fun a b => a.hash.toNat < b.hash.toNat) {key : String} {t : TokenRange}
    (ht : t ∈ (new r).getTokenRanges) (hc : t.contains (hash key) = true) :
    HashRing.getNode hash r key = .ok t.nodeID := by
  rw [getTokenRanges_eq] at ht
  simp only [VNodeManager.new] at ht
  obtain ⟨i, hi, rfl⟩ := List.mem_map.mp ht
  have hi := List.mem_range.mp hi
  have hne : r.vnodes ≠ [] := List.ne_nil_of_length_pos (by omega)
  rw [contains_tokenRange_iff hs hi] at hc
  unfold HashRing.getNode
  rw [if_neg (by simpa [List.isEmpty_iff] using hne),
    HashRing.startIdx_eq (hs.imp fun {_ _} h => Nat.le_of_lt h), hc]
  rfl

/-! ### The load total -/

/-- Whichever branch computes it, a range's `uint64` size is `EndToken - StartToken + 1`. -/
theorem rangeSize_eq (t : TokenRange) : rangeSize t = t.endToken - t.startToken + 1 := by
  unfold rangeSize
  split
  · rfl
  · rw [show (~~~(0 : UInt64)) = 1 - 2 by decide]
    abel

theorem rangeSize_tokenRange_zero (tokens : List VNode) :
    rangeSize (tokenRange tokens 0) =
      (tokens.getD 0 default).hash - (tokens.getD (tokens.length - 1) default).hash := by
  rw [rangeSize_eq]
  simp only [tokenRange, if_pos]
  abel

theorem rangeSize_tokenRange_succ (tokens : List VNode) (j : Nat) :
    rangeSize (tokenRange tokens (j + 1)) =
      (tokens.getD (j + 1) default).hash - (tokens.getD j default).hash := by
  rw [rangeSize_eq]
  simp only [tokenRange, Nat.add_one_ne_zero, if_false, Nat.add_sub_cancel]
  abel

/-- Differences of consecutive terms add up to the difference of the last and the first. -/
theorem sum_range_sub (g : Nat → UInt64) :
    ∀ m, ((List.range m).map fun j => g (j + 1) - g j).sum = g m - g 0
  | 0 => by simp
  | m + 1 => by
    rw [List.range_succ, List.map_append, List.sum_append, sum_range_sub g m, List.map_singleton,
      List.sum_singleton]
    abel

/-- The `uint64` sizes of any ring's ranges add up to 0: each range starts just after the token
before it, so the sizes telescope round the circle. -/
theorem sum_rangeSize (tokens : List VNode) :
    (((List.range tokens.length).map (tokenRange tokens)).map rangeSize).sum = 0 := by
  rcases hn : tokens.length with _ | m
  · rfl
  · have hsucc : ((List.range m).map fun j => rangeSize (tokenRange tokens (j + 1))) =
        (List.range m).map fun j => (tokens.getD (j + 1) default).hash - (tokens.getD j default).hash :=
      List.map_congr_left fun j _ => rangeSize_tokenRange_succ tokens j
    rw [List.map_map, List.range_succ_eq_map, List.map_cons, List.sum_cons, List.map_map]
    simp only [Function.comp_def, Nat.succ_eq_add_one] at hsucc ⊢
    rw [hsucc, sum_range_sub (fun j => (tokens.getD j default).hash) m, rangeSize_tokenRange_zero, hn,
      Nat.add_sub_cancel]
    abel

theorem snd_foldl_addRange (ranges : List TokenRange) :
    ∀ acc, (ranges.foldl addRange acc).2 = acc.2 + (ranges.map rangeSize).sum := by
  induction ranges with
  | nil => intro acc; simp
  | cons r ranges ih =>
    intro acc
    rw [List.foldl_cons, ih, List.map_cons, List.sum_cons]
    simp only [addRange, add_assoc]

/-- Each node's load is the sum of the `uint64` sizes of its ranges. -/
theorem lookup_foldl_addRange (nodeID : String) (ranges : List TokenRange) :
    ∀ acc, ((ranges.foldl addRange acc).1.lookup nodeID).getD 0 =
      (acc.1.lookup nodeID).getD 0 + ((ranges.filter fun r => r.nodeID = nodeID).map rangeSize).sum := by
  induction ranges with
  | nil => intro acc; simp
  | cons r ranges ih =>
    intro acc
    rw [List.foldl_cons, ih]
    by_cases hr : r.nodeID = nodeID
    · subst hr
      simp [addRange, AList.lookup_insert, add_assoc]
    · simp [addRange, AList.lookup_insert_ne (Ne.symm hr), hr]

theorem load_eq_sum (m : VNodeManager) (nodeID : String) :
    ((loadLoop m.getTokenRanges).1.lookup nodeID).getD 0 =
      ((m.getNodeTokenRanges nodeID).map rangeSize).sum := by
  rw [loadLoop, lookup_foldl_addRange]
  simp [getNodeTokenRanges, AList.lookup_empty]

end VNodeManager

open VNodeManager

/-- **Token ranges agree with placement.** On a ring reached from `NewHashRing` with at least one
token and no two tokens of one hash, `GetTokenRanges` gives one range per token; read round the
circle from `StartToken` to `EndToken`, the ranges partition the `2^64` hashes, and the range that
holds a key's hash is the one whose node `GetNode` answers for the key. -/
theorem token_ranges_partition {hash : String → UInt64} (s : SortByHash) (virtualNodes : Int)
    {ops : List HashRing.Op} {r : HashRing}
    (hr : HashRing.run hash s (HashRing.new virtualNodes) ops = some r) (hne : r.vnodes ≠ [])
    (hd : (r.vnodes.map VNode.hash).Nodup) :
    (VNodeManager.new r).getTokenRanges.length = r.vnodes.length ∧
      (∀ h : UInt64, (VNodeManager.new r).getTokenRanges.countP (·.contains h) = 1) ∧
      ((VNodeManager.new r).getTokenRanges.map TokenRange.size).sum = 2 ^ 64 ∧
      ∀ key, ∀ t ∈ (VNodeManager.new r).getTokenRanges, t.contains (hash key) = true →
        HashRing.getNode hash r key = .ok t.nodeID := by
  have hs := sorted_lt_of_nodup (HashRing.canonical_of_run hr).1.sorted hd
  refine ⟨by simp [getTokenRanges_eq, VNodeManager.new], fun h => ?_, ?_,
    fun key t ht hc => getNode_eq_of_contains hs ht hc⟩
  · rw [getTokenRanges_eq]; exact countP_contains hs hne h
  · rw [getTokenRanges_eq]; exact sum_size hs hne

/-- The ring of `a` and `b`, one token each. -/
theorem token_ranges_two_nodes :
    ∃ r, HashRing.run HashRing.headHash HashRing.insertionSortByHash (HashRing.new 1)
        [.addNode "a", .addNode "b"] = some r ∧ r.vnodes ≠ [] ∧ (r.vnodes.map VNode.hash).Nodup ∧
      (VNodeManager.new r).getTokenRanges.length = r.vnodes.length ∧
      (∀ h : UInt64, (VNodeManager.new r).getTokenRanges.countP (·.contains h) = 1) ∧
      ((VNodeManager.new r).getTokenRanges.map TokenRange.size).sum = 2 ^ 64 ∧
      ∀ key, ∀ t ∈ (VNodeManager.new r).getTokenRanges, t.contains (HashRing.headHash key) = true →
        HashRing.getNode HashRing.headHash r key = .ok t.nodeID := by
  obtain ⟨r, hr⟩ : ∃ r, HashRing.run HashRing.headHash HashRing.insertionSortByHash (HashRing.new 1)
      [.addNode "a", .addNode "b"] = some r := ⟨_, rfl⟩
  have hne : r.vnodes ≠ [] := by cases hr; decide
  have hd : (r.vnodes.map VNode.hash).Nodup := by cases hr; decide
  exact ⟨r, hr, hne, hd, token_ranges_partition HashRing.insertionSortByHash 1 hr hne hd⟩

/-- **The load total wraps to zero.** For every ring, `CalculateLoadDistribution`'s `uint64`
`totalSpace` is 0, and every share it returns is `float64(load) / float64(0) * 100`. -/
theorem load_total_wraps_to_zero (m : VNodeManager) :
    (loadLoop m.getTokenRanges).2 = 0 ∧
      m.calculateLoadDistribution =
        if m.getTokenRanges = [] then none else some (shares (loadLoop m.getTokenRanges).1 0) := by
  have h0 : (loadLoop m.getTokenRanges).2 = 0 := by
    rw [loadLoop, snd_foldl_addRange, getTokenRanges_eq, sum_rangeSize]
    rfl
  refine ⟨h0, ?_⟩
  unfold calculateLoadDistribution
  dsimp only
  rw [h0]
  simp only [List.length_eq_zero]

end MiniDynamo.Ring
