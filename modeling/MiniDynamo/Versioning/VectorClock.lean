import Mathlib.Data.List.AList
import Mathlib.Data.List.Perm.Basic
import Mathlib.Algebra.Group.Nat.Basic

/-! Vector clocks (`types.VectorClock`, and `VectorClockManager` with `Compare` and its three
predicates in `coordinator.go`).

A `VectorClock` is a Go map from node IDs to `uint64` counters, and a missing entry reads as 0.
`Compare` looks at every key of either clock and answers -1 when some component is smaller and
none larger, 1 the other way round, and 0 otherwise. So it is the componentwise order, with 0 for
equal and for concurrent clocks alike, antisymmetric, and its -1 is a strict order
(`compare_componentwise`).

`Merge` copies the first clock and raises every entry of the second that is larger. It is the
componentwise maximum: an upper bound of both, below every common upper bound, and commutative,
associative and idempotent componentwise (`merge_join`). It is not so as a map: an explicit zero
of the second clock is not copied. The clock `VectorClockManager.Update` leaves for a key is
then the maximum of what was merged into it, whatever the order of the updates. -/
namespace MiniDynamo.Versioning

/-! ### `uint64` components -/

theorem le_iff_toNat_le {a b : UInt64} : a ≤ b ↔ a.toNat ≤ b.toNat := Iff.rfl

theorem lt_iff_toNat_lt {a b : UInt64} : a < b ↔ a.toNat < b.toNat := Iff.rfl

theorem toNat_max (a b : UInt64) : (max a b).toNat = max a.toNat b.toNat := by
  show (if a ≤ b then b else a).toNat = _
  split
  next h => rw [le_iff_toNat_le] at h; omega
  next h => rw [le_iff_toNat_le] at h; omega

theorem max_zero (a : UInt64) : max a 0 = a := UInt64.toNat.inj (by rw [toNat_max]; simp)

theorem toNat_add_one (a : UInt64) : (a + 1).toNat = (a.toNat + 1) % 2 ^ 64 := rfl

/-- `types.VectorClock`: `map[string]uint64`. -/
abbrev VectorClock := AList fun _ : String => UInt64

namespace VectorClock

/-- `vc[k]`: a missing entry reads as 0. -/
def get (vc : VectorClock) (k : String) : UInt64 := (vc.lookup k).getD 0

/-- `Increment`: `vc[nodeID]++`. A `uint64` at `2^64 - 1` wraps round to 0. -/
def increment (vc : VectorClock) (nodeID : String) : VectorClock :=
  vc.insert nodeID (vc.get nodeID + 1)

/-- `Merge`: a copy of `vc`, then every entry of `other` larger than the copy's, in the order the
map's `range` gives (here the order of `other`'s entries). -/
def merge (vc other : VectorClock) : VectorClock :=
  other.entries.foldl (fun result e => if e.2 > result.get e.1 then result.insert e.1 e.2 else result) vc

/-- The loop of `Compare` over `allKeys`: `less` once some `v1 < v2`, `greater` once some
`v1 > v2`. -/
def compareLoop (vc other : VectorClock) (allKeys : List String) : Bool × Bool :=
  allKeys.foldl (fun flags k =>
    let v1 := vc.get k
    let v2 := other.get k
    (flags.1 || decide (v1 < v2), flags.2 || decide (v1 > v2))) (false, false)

/-- `Compare`: -1 if `vc < other`, 1 if `vc > other`, 0 if concurrent; `allKeys` holds every key
of both clocks once. -/
def compare (vc other : VectorClock) : Int :=
  let (less, greater) := compareLoop vc other (vc.keys ∪ other.keys)
  if less && !greater then -1 else if greater && !less then 1 else 0

end VectorClock

/-- `HappensBefore`. -/
def happensBefore (a b : VectorClock) : Bool := a.compare b < 0

/-- `HappensAfter`. -/
def happensAfter (a b : VectorClock) : Bool := a.compare b > 0

/-- `AreConcurrent`: neither clock dominates the other. -/
def areConcurrent (a b : VectorClock) : Bool := a.compare b = 0

namespace VectorClock

/-! ### Reading a clock -/

@[simp] theorem get_empty (k : String) : (∅ : VectorClock).get k = 0 := rfl

theorem get_insert (vc : VectorClock) (k k' : String) (v : UInt64) :
    get (vc.insert k v) k' = if k' = k then v else vc.get k' := by
  unfold get
  split
  next h => rw [h, AList.lookup_insert]; rfl
  next h => rw [AList.lookup_insert_ne h]

theorem get_eq_zero {vc : VectorClock} {k : String} (h : k ∉ vc.keys) : vc.get k = 0 := by
  rw [get, AList.lookup_eq_none.mpr fun hm => h (AList.mem_keys.mp hm)]; rfl

theorem get_increment (vc : VectorClock) (nodeID k : String) :
    (vc.increment nodeID).get k = if k = nodeID then vc.get nodeID + 1 else vc.get k :=
  get_insert _ _ _ _

/-! ### `Merge` -/

/-- Each turn of `Merge`'s loop raises its key's component to the larger of the two. -/
theorem get_foldl_merge (k : String) : ∀ (es : List (Σ _ : String, UInt64)) (acc : VectorClock),
    es.NodupKeys →
      (es.foldl (fun result e => if e.2 > result.get e.1 then result.insert e.1 e.2 else result) acc).get k =
        max (acc.get k) ((es.dlookup k).getD 0)
  | [], acc, _ => (max_zero _).symm
  | ⟨k', v⟩ :: es, acc, h => by
    obtain ⟨hk', hes⟩ := List.nodupKeys_cons.mp h
    rw [List.foldl_cons, get_foldl_merge k es _ hes]
    have hstep : get (if v > acc.get k' then acc.insert k' v else acc) k =
        if k' = k then max (acc.get k) v else acc.get k := by
      split
      next hv =>
        rw [get_insert]
        by_cases hk : k = k'
        · subst hk; rw [if_pos rfl, if_pos rfl]
          exact UInt64.toNat.inj (by rw [toNat_max]; rw [gt_iff_lt, lt_iff_toNat_lt] at hv; omega)
        · rw [if_neg hk, if_neg (Ne.symm hk)]
      next hv =>
        split
        next hk =>
          subst hk
          exact UInt64.toNat.inj (by rw [toNat_max]; rw [gt_iff_lt, UInt64.not_lt, le_iff_toNat_le] at hv; omega)
        next => rfl
    rw [hstep]
    by_cases hk : k' = k
    · subst hk
      rw [if_pos rfl, List.dlookup_eq_none.mpr hk', List.dlookup_cons_eq, Option.getD_none, Option.getD_some,
        max_zero]
    · rw [if_neg hk, List.dlookup_cons_ne _ _ (Ne.symm hk)]

/-- `Merge` is the componentwise maximum. -/
theorem get_merge (vc other : VectorClock) (k : String) : (vc.merge other).get k = max (vc.get k) (other.get k) :=
  get_foldl_merge k other.entries vc other.nodupKeys

theorem toNat_get_merge (vc other : VectorClock) (k : String) :
    ((vc.merge other).get k).toNat = max (vc.get k).toNat (other.get k).toNat := by
  rw [get_merge, toNat_max]

/-! ### `Compare` -/

theorem compareLoop_eq (vc other : VectorClock) (allKeys : List String) :
    compareLoop vc other allKeys =
      (allKeys.any fun k => vc.get k < other.get k, allKeys.any fun k => vc.get k > other.get k) := by
  have h : ∀ (keys : List String) (flags : Bool × Bool),
      keys.foldl (fun flags k => (flags.1 || decide (vc.get k < other.get k),
        flags.2 || decide (vc.get k > other.get k))) flags =
      (flags.1 || keys.any fun k => vc.get k < other.get k, flags.2 || keys.any fun k => vc.get k > other.get k) := by
    intro keys
    induction keys with
    | nil => intro flags; simp
    | cons k keys ih => intro flags; rw [List.foldl_cons, ih]; simp [Bool.or_assoc]
  exact h allKeys (false, false)

/-- Some component of `a` is below `b`'s exactly when `Compare`'s loop finds one. -/
theorem any_lt_iff (a b : VectorClock) (keys : List String) (ha : ∀ k ∈ a.keys, k ∈ keys)
    (hb : ∀ k ∈ b.keys, k ∈ keys) :
    (keys.any fun k => a.get k < b.get k) = true ↔ ∃ k, a.get k < b.get k := by
  rw [List.any_eq_true]
  constructor
  · rintro ⟨k, -, hk⟩; exact ⟨k, of_decide_eq_true hk⟩
  · rintro ⟨k, hk⟩
    refine ⟨k, ?_, decide_eq_true hk⟩
    by_contra hn
    rw [get_eq_zero fun h => hn (ha k h), get_eq_zero fun h => hn (hb k h)] at hk
    exact absurd hk (by rw [lt_iff_toNat_lt]; omega)

/-- `Compare` by which of the two clocks has a smaller component somewhere. -/
theorem compare_cases (a b : VectorClock) :
    (a.compare b = -1 ↔ (∃ k, a.get k < b.get k) ∧ ¬∃ k, b.get k < a.get k) ∧
    (a.compare b = 1 ↔ (∃ k, b.get k < a.get k) ∧ ¬∃ k, a.get k < b.get k) ∧
    (a.compare b = 0 ↔ ((∃ k, a.get k < b.get k) ↔ ∃ k, b.get k < a.get k)) := by
  have hl := any_lt_iff a b (a.keys ∪ b.keys) (fun k h => List.mem_union_iff.mpr (.inl h))
    (fun k h => List.mem_union_iff.mpr (.inr h))
  have hg := any_lt_iff b a (a.keys ∪ b.keys) (fun k h => List.mem_union_iff.mpr (.inr h))
    (fun k h => List.mem_union_iff.mpr (.inl h))
  unfold compare
  rw [compareLoop_eq]
  simp only [gt_iff_lt]
  rw [← hl, ← hg]
  generalize (List.any _ fun k => decide (a.get k < b.get k)) = less
  generalize (List.any _ fun k => decide (b.get k < a.get k)) = greater
  cases less <;> cases greater <;> decide

theorem not_exists_lt_iff (a b : VectorClock) : (¬∃ k, b.get k < a.get k) ↔ ∀ k, a.get k ≤ b.get k := by
  simp only [not_exists, UInt64.not_lt]

theorem lt_iff_le_ne {x y : UInt64} : x < y ↔ x ≤ y ∧ x ≠ y := by
  rw [lt_iff_toNat_lt, le_iff_toNat_le]
  exact ⟨fun h => ⟨h.le, fun he => by rw [he] at h; omega⟩,
    fun ⟨h, hne⟩ => lt_of_le_of_ne h fun he => hne (UInt64.toNat.inj he)⟩

/-- Below componentwise and somewhere different is below somewhere and above nowhere. -/
theorem below_iff (a b : VectorClock) :
    ((∃ k, a.get k < b.get k) ∧ ¬∃ k, b.get k < a.get k) ↔
      (∀ k, a.get k ≤ b.get k) ∧ ∃ k, a.get k ≠ b.get k := by
  rw [not_exists_lt_iff]
  exact ⟨fun ⟨⟨k, hk⟩, hle⟩ => ⟨hle, k, (lt_iff_le_ne.mp hk).2⟩,
    fun ⟨hle, k, hk⟩ => ⟨⟨k, lt_iff_le_ne.mpr ⟨hle k, hk⟩⟩, hle⟩⟩

/-- `Compare` answers -1 exactly when `a` is componentwise below `b` and differs from it. -/
theorem compare_eq_neg_one_iff (a b : VectorClock) :
    a.compare b = -1 ↔ (∀ k, a.get k ≤ b.get k) ∧ ∃ k, a.get k ≠ b.get k :=
  (compare_cases a b).1.trans (below_iff a b)

theorem compare_eq_one_iff (a b : VectorClock) :
    a.compare b = 1 ↔ (∀ k, b.get k ≤ a.get k) ∧ ∃ k, a.get k ≠ b.get k :=
  (compare_cases a b).2.1.trans ((below_iff b a).trans (and_congr_right fun _ => exists_congr fun _ => ne_comm))

/-- `Compare` is antisymmetric. -/
theorem compare_swap (a b : VectorClock) : a.compare b = -(b.compare a) := by
  obtain ⟨h₁, h₂, h₃⟩ := compare_cases a b
  obtain ⟨h₁', h₂', h₃'⟩ := compare_cases b a
  by_cases hp : ∃ k, a.get k < b.get k <;> by_cases hq : ∃ k, b.get k < a.get k
  · rw [h₃.mpr (iff_of_true hp hq), h₃'.mpr (iff_of_true hq hp)]; rfl
  · rw [h₁.mpr ⟨hp, hq⟩, h₂'.mpr ⟨hp, hq⟩]
  · rw [h₂.mpr ⟨hq, hp⟩, h₁'.mpr ⟨hq, hp⟩]; rfl
  · rw [h₃.mpr (iff_of_false hp hq), h₃'.mpr (iff_of_false hq hp)]; rfl

theorem compare_eq_zero_iff (a b : VectorClock) :
    a.compare b = 0 ↔ (∀ k, a.get k = b.get k) ∨ (∃ k, a.get k < b.get k) ∧ ∃ k, b.get k < a.get k := by
  rw [(compare_cases a b).2.2]
  have heq : (∀ k, a.get k = b.get k) ↔ (¬∃ k, a.get k < b.get k) ∧ ¬∃ k, b.get k < a.get k := by
    rw [not_exists_lt_iff, not_exists_lt_iff]
    exact ⟨fun h => ⟨fun k => le_iff_toNat_le.mpr (Nat.le_of_eq (congrArg UInt64.toNat (h k).symm)),
      fun k => le_iff_toNat_le.mpr (Nat.le_of_eq (congrArg UInt64.toNat (h k)))⟩, fun ⟨h₁, h₂⟩ k =>
      UInt64.toNat.inj (by have := h₁ k; have := h₂ k; rw [le_iff_toNat_le] at *; omega)⟩
  rw [heq]
  exact iff_iff_and_or_not_and_not.trans or_comm

theorem compare_self (a : VectorClock) : a.compare a = 0 :=
  (compare_eq_zero_iff a a).mpr (.inl fun _ => rfl)

theorem compare_trans {a b c : VectorClock} (hab : a.compare b = -1) (hbc : b.compare c = -1) :
    a.compare c = -1 := by
  obtain ⟨hab, k, hk⟩ := (compare_eq_neg_one_iff a b).mp hab
  obtain ⟨hbc, -⟩ := (compare_eq_neg_one_iff b c).mp hbc
  refine (compare_eq_neg_one_iff a c).mpr ⟨fun k => UInt64.le_trans (hab k) (hbc k), k, fun he => hk ?_⟩
  have h₁ := le_iff_toNat_le.mp (hab k)
  have h₂ := le_iff_toNat_le.mp (hbc k)
  have h₃ := congrArg UInt64.toNat he
  exact UInt64.toNat.inj (by omega)

/-- `Compare` is the componentwise order: -1 exactly when `a ≤ b` componentwise and they differ,
1 the other way round, 0 when they are componentwise equal or concurrent; swapping the clocks
negates it, and its -1 is irreflexive and transitive. -/
theorem compare_componentwise (a b c : VectorClock) :
    (a.compare b = -1 ↔ (∀ k, a.get k ≤ b.get k) ∧ ∃ k, a.get k ≠ b.get k) ∧
    (a.compare b = 1 ↔ (∀ k, b.get k ≤ a.get k) ∧ ∃ k, a.get k ≠ b.get k) ∧
    (a.compare b = 0 ↔ (∀ k, a.get k = b.get k) ∨ (∃ k, a.get k < b.get k) ∧ ∃ k, b.get k < a.get k) ∧
    a.compare b = -(b.compare a) ∧ a.compare a ≠ -1 ∧
    (a.compare b = -1 → b.compare c = -1 → a.compare c = -1) :=
  ⟨compare_eq_neg_one_iff a b, compare_eq_one_iff a b, compare_eq_zero_iff a b, compare_swap a b,
    by rw [compare_self]; decide, compare_trans⟩

/-! ### `Merge` is the componentwise join -/

theorem le_merge_left (a b : VectorClock) (k : String) : a.get k ≤ (a.merge b).get k := by
  rw [le_iff_toNat_le, toNat_get_merge]; omega

theorem le_merge_right (a b : VectorClock) (k : String) : b.get k ≤ (a.merge b).get k := by
  rw [le_iff_toNat_le, toNat_get_merge]; omega

theorem merge_le {a b c : VectorClock} (ha : ∀ k, a.get k ≤ c.get k) (hb : ∀ k, b.get k ≤ c.get k)
    (k : String) : (a.merge b).get k ≤ c.get k := by
  have := le_iff_toNat_le.mp (ha k)
  have := le_iff_toNat_le.mp (hb k)
  rw [le_iff_toNat_le, toNat_get_merge]; omega

/-- The laws of a join, componentwise. -/
theorem merge_laws (a b c : VectorClock) :
    (∀ k, (a.merge b).get k = max (a.get k) (b.get k)) ∧
    (∀ k, a.get k ≤ (a.merge b).get k ∧ b.get k ≤ (a.merge b).get k) ∧
    ((∀ k, a.get k ≤ c.get k) → (∀ k, b.get k ≤ c.get k) → ∀ k, (a.merge b).get k ≤ c.get k) ∧
    (∀ k, (a.merge b).get k = (b.merge a).get k) ∧
    (∀ k, ((a.merge b).merge c).get k = (a.merge (b.merge c)).get k) ∧
    (∀ k, (a.merge a).get k = a.get k) :=
  ⟨get_merge a b, fun k => ⟨le_merge_left a b k, le_merge_right a b k⟩, merge_le,
    fun k => UInt64.toNat.inj (by rw [toNat_get_merge, toNat_get_merge]; omega),
    fun k => UInt64.toNat.inj (by simp only [toNat_get_merge]; omega),
    fun k => UInt64.toNat.inj (by rw [toNat_get_merge]; omega)⟩

/-- As maps the two orders differ: `Merge` does not copy an explicit zero of its second clock. -/
example : (VectorClock.merge ∅ (AList.insert "a" 0 ∅)).keys = [] ∧
    (VectorClock.merge (AList.insert "a" 0 ∅) ∅).keys = ["a"] := by decide

end VectorClock

/-- `VectorClockManager`: the local node's ID and a clock per key. -/
structure VectorClockManager where
  nodeID : String
  clocks : AList fun _ : String => VectorClock

namespace VectorClockManager

/-- `NewVectorClockManager`. -/
def new (nodeID : String) : VectorClockManager := ⟨nodeID, ∅⟩

/-- `Get`: the key's clock, or a fresh empty one. -/
def get (m : VectorClockManager) (key : String) : VectorClock := (m.clocks.lookup key).getD ∅

/-- `Increment`: the key's clock, created empty if missing, counts one more event of this node;
the new clock is returned. -/
def increment (m : VectorClockManager) (key : String) : VectorClock × VectorClockManager :=
  let vc := (m.get key).increment m.nodeID
  (vc, { m with clocks := m.clocks.insert key vc })

/-- `Update`: the key's clock, created empty if missing, merged with `other`; the new clock is
returned. -/
def update (m : VectorClockManager) (key : String) (other : VectorClock) :
    VectorClock × VectorClockManager :=
  let vc := (m.get key).merge other
  (vc, { m with clocks := m.clocks.insert key vc })

/-- `Set`. -/
def set (m : VectorClockManager) (key : String) (vc : VectorClock) : VectorClockManager :=
  { m with clocks := m.clocks.insert key vc }

/-- `Delete`. -/
def delete (m : VectorClockManager) (key : String) : VectorClockManager :=
  { m with clocks := m.clocks.erase key }

/-- `Update` calls one after another. -/
def updateAll (m : VectorClockManager) (updates : List (String × VectorClock)) : VectorClockManager :=
  updates.foldl (fun m u => (m.update u.1 u.2).2) m

theorem get_update (m : VectorClockManager) (key key' : String) (other : VectorClock) :
    (m.update key other).2.get key' = if key' = key then (m.get key).merge other else m.get key' := by
  unfold update get
  split
  next h => rw [h, AList.lookup_insert]; rfl
  next h => rw [AList.lookup_insert_ne h]

/-- After a sequence of updates, each component of a key's clock is the largest of the ones
merged into it. -/
theorem get_updateAll (key k : String) : ∀ (updates : List (String × VectorClock)) (m : VectorClockManager),
    ((m.updateAll updates).get key).get k =
      (updates.filter (·.1 = key)).foldl (fun x u => max x (u.2.get k)) ((m.get key).get k)
  | [], _ => rfl
  | u :: updates, m => by
    rw [updateAll, List.foldl_cons, ← updateAll, get_updateAll key k updates, get_update, List.filter_cons]
    by_cases h : u.1 = key
    · rw [if_pos h.symm, if_pos (decide_eq_true h), List.foldl_cons, VectorClock.get_merge, h]
    · rw [if_neg (Ne.symm h), if_neg (by simpa using h)]

theorem max_get_right_comm (k : String) (x : UInt64) (u v : String × VectorClock) :
    max (max x (u.2.get k)) (v.2.get k) = max (max x (v.2.get k)) (u.2.get k) :=
  UInt64.toNat.inj (by simp only [toNat_max]; omega)

instance (k : String) : RightCommutative fun (x : UInt64) (u : String × VectorClock) => max x (u.2.get k) :=
  ⟨max_get_right_comm k⟩

/-- The clock `Update` leaves for a key does not depend on the order in which the updates arrive. -/
theorem updateAll_perm (m : VectorClockManager) {updates updates' : List (String × VectorClock)}
    (h : updates.Perm updates') (key k : String) :
    ((m.updateAll updates).get key).get k = ((m.updateAll updates').get key).get k := by
  rw [get_updateAll, get_updateAll, (h.filter _).foldl_eq]

end VectorClockManager

/-- `Merge` is the componentwise join: the componentwise maximum, above both clocks and below every
clock above both, and componentwise commutative, associative and idempotent. So the clock
`VectorClockManager.Update` leaves for a key does not depend on the order of the updates. -/
theorem merge_join (a b c : VectorClock) :
    ((∀ k, (a.merge b).get k = max (a.get k) (b.get k)) ∧
      (∀ k, a.get k ≤ (a.merge b).get k ∧ b.get k ≤ (a.merge b).get k) ∧
      ((∀ k, a.get k ≤ c.get k) → (∀ k, b.get k ≤ c.get k) → ∀ k, (a.merge b).get k ≤ c.get k) ∧
      (∀ k, (a.merge b).get k = (b.merge a).get k) ∧
      (∀ k, ((a.merge b).merge c).get k = (a.merge (b.merge c)).get k) ∧
      (∀ k, (a.merge a).get k = a.get k)) ∧
    ∀ (m : VectorClockManager) (updates updates' : List (String × VectorClock)), updates.Perm updates' →
      ∀ key k, ((m.updateAll updates).get key).get k = ((m.updateAll updates').get key).get k :=
  ⟨VectorClock.merge_laws a b c, fun m _ _ h => VectorClockManager.updateAll_perm m h⟩

end MiniDynamo.Versioning

