import MiniDynamo.Versioning.VectorClock
import MiniDynamo.Replication.Replica

/-! Conflict resolution (`versioning.Resolver` in `coordinator.go`).

`resolveByVectorClock` keeps the entries no other entry's version dominates and, when more than
one is left, lets the highest timestamp decide among them. Since `Compare`'s -1 is a strict order,
a finite list always has an entry nothing dominates: the candidates are never empty, so
`resolveByTimestamp` never indexes an empty slice, and `Resolve` answers with an entry of the list
that no entry strictly dominates (`resolve_maximal`).

`Merge` gives the winner the merge of every version, with one more event of `nodeID`. The merge
is above every version, and the increment puts it strictly above, unless it wraps: `Increment` is a
plain `uint64` `++`, so a component at `2^64 - 1` becomes 0, and the result no longer dominates an
entry holding that component (`merge_dominates`, `merge_wraps_at_max`). -/
namespace MiniDynamo.Versioning

open Replication

/-- A `types.KeyValueEntry` with its `Version`, which the resolver reads and `Merge` sets (the
coordinator's entries leave it nil). -/
structure VersionedEntry where
  entry : KeyValueEntry
  version : VectorClock

/-- `types.KeyValueEntry{}`. -/
def VersionedEntry.zero : VersionedEntry := ⟨⟨"", [], 0, false⟩, ∅⟩

/-- `ResolveStrategy`, an `int`. -/
abbrev ResolveStrategy := Int

/-- `LastWriteWins`. -/
def lastWriteWins : ResolveStrategy := 0

/-- `VectorClockBased`. -/
def vectorClockBased : ResolveStrategy := 1

/-- `Resolver`. -/
structure Resolver where
  strategy : ResolveStrategy

namespace Resolver

/-- `NewResolver`. -/
def new (strategy : ResolveStrategy) : Resolver := ⟨strategy⟩

/-- `resolveByTimestamp`: the first entry, replaced by each later one with a strictly higher
timestamp. `entries[0]` panics on an empty slice: then there is no result. -/
def resolveByTimestamp : List VersionedEntry → Option VersionedEntry
  | [] => none
  | winner :: rest => some (rest.foldl (fun winner e =>
      if e.entry.timestamp.toInt > winner.entry.timestamp.toInt then e else winner) winner)

/-- The candidates of `resolveByVectorClock`: each entry, at index `i`, that no entry at another
index `j` dominates. -/
def candidates (entries : List VersionedEntry) : List VersionedEntry :=
  (entries.enum.filter fun ie =>
    !(entries.enum.any fun je => ie.1 != je.1 && decide (ie.2.version.compare je.2.version < 0))).map Prod.snd

/-- `resolveByVectorClock`. -/
def resolveByVectorClock (entries : List VersionedEntry) : Option VersionedEntry :=
  let candidates := candidates entries
  if candidates.length = 1 then candidates.head? else resolveByTimestamp candidates

/-- `Resolve`: the zero entry for none, the entry itself for one, and otherwise the strategy's
choice, by timestamp for any strategy but `VectorClockBased`. -/
def resolve (r : Resolver) (entries : List VersionedEntry) : Option VersionedEntry :=
  if entries.length = 0 then some .zero
  else if entries.length = 1 then entries.head?
  else if r.strategy = lastWriteWins then resolveByTimestamp entries
  else if r.strategy = vectorClockBased then resolveByVectorClock entries
  else resolveByTimestamp entries

/-- `IsConcurrent`. -/
def isConcurrent (a b : VersionedEntry) : Bool :=
  a.version.compare b.version = 0 && a.entry.timestamp != b.entry.timestamp

/-- `Merge`: the winner, with the merge of every entry's version and one more event of `nodeID`. -/
def merge (r : Resolver) (entries : List VersionedEntry) (nodeID : String) : Option VersionedEntry :=
  if entries.length = 0 then some .zero else do
  let winner ← r.resolve entries
  let mergedClock := entries.foldl (fun mergedClock e => VectorClock.merge mergedClock e.version) ∅
  return { winner with version := VectorClock.increment mergedClock nodeID }

/-! ### The winner is one of the entries -/

theorem mem_of_resolveByTimestamp {entries : List VersionedEntry} {w : VersionedEntry}
    (h : resolveByTimestamp entries = some w) : w ∈ entries := by
  cases entries with
  | nil => cases h
  | cons first rest =>
    cases h
    have : ∀ (l : List VersionedEntry) (acc : VersionedEntry), acc ∈ first :: rest → (∀ e ∈ l, e ∈ first :: rest) →
        l.foldl (fun winner e =>
          if e.entry.timestamp.toInt > winner.entry.timestamp.toInt then e else winner) acc ∈ first :: rest := by
      intro l
      induction l with
      | nil => intro acc h _; exact h
      | cons e l ih =>
        intro acc hacc hl
        exact ih _ (by dsimp only; split; exacts [hl e (List.mem_cons_self _ _), hacc])
          fun e' he' => hl e' (List.mem_cons_of_mem _ he')
    exact this rest first (List.mem_cons_self _ _) fun e he => List.mem_cons_of_mem _ he

theorem resolveByTimestamp_isSome {entries : List VersionedEntry} (h : entries ≠ []) :
    (resolveByTimestamp entries).isSome := by
  cases entries with
  | nil => exact absurd rfl h
  | cons => rfl

/-! ### Undominated entries -/

theorem compare_lt_zero_iff (a b : VectorClock) : a.compare b < 0 ↔ a.compare b = -1 := by
  obtain ⟨h₁, h₂, h₃⟩ := VectorClock.compare_cases a b
  by_cases hp : ∃ k, a.get k < b.get k <;> by_cases hq : ∃ k, b.get k < a.get k
  · rw [h₃.mpr (iff_of_true hp hq)]; decide
  · rw [h₁.mpr ⟨hp, hq⟩]; decide
  · rw [h₂.mpr ⟨hq, hp⟩]; decide
  · rw [h₃.mpr (iff_of_false hp hq)]; decide

/-- A non-empty list has an entry whose version no entry's dominates. -/
theorem exists_undominated : ∀ {entries : List VersionedEntry}, entries ≠ [] →
    ∃ m ∈ entries, ∀ e ∈ entries, m.version.compare e.version ≠ -1
  | [], h => absurd rfl h
  | [a], _ => ⟨a, List.mem_singleton_self a, fun e he => by
      rw [List.mem_singleton.mp he, VectorClock.compare_self]; decide⟩
  | a :: b :: rest, _ => by
    obtain ⟨m, hm, hmax⟩ := exists_undominated (List.cons_ne_nil b rest)
    by_cases hma : m.version.compare a.version = -1
    · refine ⟨a, List.mem_cons_self _ _, fun e he => ?_⟩
      rcases List.mem_cons.mp he with rfl | he
      · rw [VectorClock.compare_self]; decide
      · exact fun hae => hmax e he (VectorClock.compare_trans hma hae)
    · refine ⟨m, List.mem_cons_of_mem _ hm, fun e he => ?_⟩
      rcases List.mem_cons.mp he with rfl | he
      · exact hma
      · exact hmax e he

/-- A candidate is an entry of the list at some index, dominated by no entry at another index. -/
theorem mem_candidates {entries : List VersionedEntry} {c : VersionedEntry} :
    c ∈ candidates entries ↔ ∃ i : Nat, entries[i]? = some c ∧
      ∀ (j : Nat) (e : VersionedEntry), entries[j]? = some e → i ≠ j → c.version.compare e.version ≠ -1 := by
  simp only [candidates, List.mem_map, List.mem_filter, List.mem_enum_iff_getElem?, Bool.not_eq_true',
    List.any_eq_false, Bool.and_eq_true, bne_iff_ne, ne_eq, decide_eq_true_eq, not_and, compare_lt_zero_iff,
    Prod.forall, Prod.exists]
  constructor
  · rintro ⟨i, c', ⟨hi, hdom⟩, rfl⟩
    exact ⟨i, hi, fun j e hj hij => hdom j e hj hij⟩
  · rintro ⟨i, hi, hdom⟩
    exact ⟨i, c, ⟨hi, fun j e hj hij => hdom j e hj hij⟩, rfl⟩

/-- So no entry of the list dominates a candidate. -/
theorem candidate_undominated {entries : List VersionedEntry} {c : VersionedEntry} (hc : c ∈ candidates entries) :
    c ∈ entries ∧ ∀ e ∈ entries, c.version.compare e.version ≠ -1 := by
  obtain ⟨i, hi, hdom⟩ := mem_candidates.mp hc
  refine ⟨List.mem_iff_getElem?.mpr ⟨i, hi⟩, fun e he => ?_⟩
  obtain ⟨j, hj⟩ := List.mem_iff_getElem?.mp he
  by_cases hij : i = j
  · rw [hij, hj, Option.some.injEq] at hi
    rw [hi, VectorClock.compare_self]; decide
  · exact hdom j e hj hij

/-- The candidates are never empty. -/
theorem candidates_ne_nil {entries : List VersionedEntry} (h : entries ≠ []) : candidates entries ≠ [] := by
  obtain ⟨m, hm, hmax⟩ := exists_undominated h
  obtain ⟨i, hi⟩ := List.mem_iff_getElem?.mp hm
  exact List.ne_nil_of_mem (mem_candidates.mpr ⟨i, hi, fun j e hj _ => hmax e (List.mem_iff_getElem?.mpr ⟨j, hj⟩)⟩)

theorem resolveByVectorClock_mem {entries : List VersionedEntry} (h : entries ≠ []) :
    ∃ w, resolveByVectorClock entries = some w ∧ w ∈ candidates entries := by
  have hc := candidates_ne_nil h
  unfold resolveByVectorClock
  dsimp only
  split
  · obtain ⟨c, rest, hcr⟩ := List.exists_cons_of_ne_nil hc
    rw [hcr]
    exact ⟨c, rfl, List.mem_cons_self _ _⟩
  · obtain ⟨w, hw⟩ := Option.isSome_iff_exists.mp (resolveByTimestamp_isSome hc)
    exact ⟨w, hw, mem_of_resolveByTimestamp hw⟩

/-- With `VectorClockBased`, `Resolve` answers every non-empty list with one of its entries that
no entry strictly dominates; the candidates it picks among are never empty. -/
theorem resolve_maximal {entries : List VersionedEntry} (hne : entries ≠ []) :
    candidates entries ≠ [] ∧ ∃ w, (new vectorClockBased).resolve entries = some w ∧ w ∈ entries ∧
      ∀ e ∈ entries, w.version.compare e.version ≠ -1 := by
  refine ⟨candidates_ne_nil hne, ?_⟩
  have hlen := List.length_pos_of_ne_nil hne
  unfold resolve
  rw [if_neg (by omega)]
  split
  next h1 =>
    obtain ⟨a, rfl⟩ := List.length_eq_one.mp h1
    exact ⟨a, rfl, List.mem_singleton_self a, fun e he => by
      rw [List.mem_singleton.mp he, VectorClock.compare_self]; decide⟩
  next =>
    rw [if_neg (show (new vectorClockBased).strategy ≠ lastWriteWins by decide),
      if_pos (show (new vectorClockBased).strategy = vectorClockBased from rfl)]
    obtain ⟨w, hw, hc⟩ := resolveByVectorClock_mem hne
    exact ⟨w, hw, candidate_undominated hc⟩

theorem resolve_maximal_concurrent :
    [VersionedEntry.mk ⟨"k", [1], 5, false⟩ (AList.insert "a" 1 ∅),
      VersionedEntry.mk ⟨"k", [2], 7, false⟩ (AList.insert "b" 1 ∅)] ≠ [] ∧
    (candidates [VersionedEntry.mk ⟨"k", [1], 5, false⟩ (AList.insert "a" 1 ∅),
      VersionedEntry.mk ⟨"k", [2], 7, false⟩ (AList.insert "b" 1 ∅)] ≠ [] ∧
    ∃ w, (new vectorClockBased).resolve [VersionedEntry.mk ⟨"k", [1], 5, false⟩ (AList.insert "a" 1 ∅),
      VersionedEntry.mk ⟨"k", [2], 7, false⟩ (AList.insert "b" 1 ∅)] = some w ∧
      w ∈ [VersionedEntry.mk ⟨"k", [1], 5, false⟩ (AList.insert "a" 1 ∅),
        VersionedEntry.mk ⟨"k", [2], 7, false⟩ (AList.insert "b" 1 ∅)] ∧
      ∀ e ∈ [VersionedEntry.mk ⟨"k", [1], 5, false⟩ (AList.insert "a" 1 ∅),
        VersionedEntry.mk ⟨"k", [2], 7, false⟩ (AList.insert "b" 1 ∅)], w.version.compare e.version ≠ -1) :=
  ⟨List.cons_ne_nil _ _, resolve_maximal (List.cons_ne_nil _ _)⟩

/-! ### The merged version -/

theorem resolve_isSome (r : Resolver) {entries : List VersionedEntry} (h : entries ≠ []) :
    (r.resolve entries).isSome := by
  unfold resolve
  split
  · rfl
  split
  next h1 => obtain ⟨a, rfl⟩ := List.length_eq_one.mp h1; rfl
  split
  · exact resolveByTimestamp_isSome h
  split
  · obtain ⟨w, hw, -⟩ := resolveByVectorClock_mem h
    rw [hw]; rfl
  · exact resolveByTimestamp_isSome h

/-- The merge of the versions is above each of them, and above the clock it starts from. -/
theorem le_foldl_merge (k : String) : ∀ (es : List VersionedEntry) (init : VectorClock),
    init.get k ≤ (es.foldl (fun m e => VectorClock.merge m e.version) init).get k ∧
      ∀ e ∈ es, e.version.get k ≤ (es.foldl (fun m e => VectorClock.merge m e.version) init).get k
  | [], init => ⟨UInt64.le_refl _, fun _ h => absurd h (List.not_mem_nil _)⟩
  | e :: es, init => by
    obtain ⟨h₁, h₂⟩ := le_foldl_merge k es (VectorClock.merge init e.version)
    refine ⟨UInt64.le_trans (VectorClock.le_merge_left _ _ k) h₁, fun e' he' => ?_⟩
    rcases List.mem_cons.mp he' with rfl | he'
    · exact UInt64.le_trans (VectorClock.le_merge_right _ _ k) h₁
    · exact h₂ e' he'

/-- The merge of the versions is below any bound of them all. -/
theorem foldl_merge_le (k : String) (bound : Nat) : ∀ (es : List VersionedEntry) (init : VectorClock),
    (init.get k).toNat ≤ bound → (∀ e ∈ es, (e.version.get k).toNat ≤ bound) →
      ((es.foldl (fun m e => VectorClock.merge m e.version) init).get k).toNat ≤ bound
  | [], _, hi, _ => hi
  | e :: es, init, hi, he =>
    foldl_merge_le k bound es _ (by rw [VectorClock.toNat_get_merge]; exact max_le hi (he e (List.mem_cons_self _ _)))
      fun e' he' => he e' (List.mem_cons_of_mem _ he')

theorem merge_eq (r : Resolver) {entries : List VersionedEntry} (h : entries ≠ []) (nodeID : String) :
    ∃ winner, r.resolve entries = some winner ∧ r.merge entries nodeID = some ⟨winner.entry,
      VectorClock.increment (entries.foldl (fun m e => VectorClock.merge m e.version) ∅) nodeID⟩ := by
  obtain ⟨winner, hw⟩ := Option.isSome_iff_exists.mp (r.resolve_isSome h)
  refine ⟨winner, hw, ?_⟩
  unfold merge
  rw [if_neg (by have := List.length_pos_of_ne_nil h; omega), hw]
  rfl

/-- Merged versions dominate their inputs, as long as the increment does not wrap: when no input
version holds `2^64 - 1` for `nodeID`, `Merge`'s version strictly dominates every input version. -/
theorem merge_dominates (r : Resolver) {entries : List VersionedEntry} (hne : entries ≠ []) (nodeID : String)
    (hmax : ∀ e ∈ entries, (e.version.get nodeID).toNat < 2 ^ 64 - 1) :
    ∃ w, r.merge entries nodeID = some w ∧ ∀ e ∈ entries, e.version.compare w.version = -1 := by
  obtain ⟨winner, -, hm⟩ := r.merge_eq hne nodeID
  refine ⟨_, hm, fun e he => (VectorClock.compare_eq_neg_one_iff _ _).mpr ?_⟩
  have hle := le_foldl_merge nodeID entries ∅
  have hb := foldl_merge_le nodeID (2 ^ 64 - 2) entries ∅ (by simp)
    fun e he => Nat.le_sub_one_of_lt (hmax e he)
  have hen := le_iff_toNat_le.mp (hle.2 e he)
  refine ⟨fun k => ?_, nodeID, fun he' => ?_⟩
  · dsimp only
    rw [VectorClock.get_increment]
    split
    next hk => subst hk; rw [le_iff_toNat_le, toNat_add_one]; omega
    next => exact (le_foldl_merge k entries ∅).2 e he
  · have := congrArg UInt64.toNat he'
    dsimp only at this
    rw [VectorClock.get_increment, if_pos rfl, toNat_add_one] at this
    omega

theorem merge_dominates_one_entry :
    [VersionedEntry.mk ⟨"k", [1], 5, false⟩ (AList.insert "n" 1 ∅)] ≠ [] ∧
    (∀ e ∈ [VersionedEntry.mk ⟨"k", [1], 5, false⟩ (AList.insert "n" 1 ∅)],
      (e.version.get "n").toNat < 2 ^ 64 - 1) ∧
    ∃ w, (new lastWriteWins).merge [VersionedEntry.mk ⟨"k", [1], 5, false⟩ (AList.insert "n" 1 ∅)] "n" = some w ∧
      ∀ e ∈ [VersionedEntry.mk ⟨"k", [1], 5, false⟩ (AList.insert "n" 1 ∅)], e.version.compare w.version = -1 := by
  have hmax : ∀ e ∈ [VersionedEntry.mk ⟨"k", [1], 5, false⟩ (AList.insert "n" 1 ∅)],
      (e.version.get "n").toNat < 2 ^ 64 - 1 := by decide
  exact ⟨List.cons_ne_nil _ _, hmax, merge_dominates (new lastWriteWins) (List.cons_ne_nil _ _) "n" hmax⟩

/-- At `2^64 - 1` the increment wraps: the merge of one entry whose version holds `2^64 - 1` for
`n` gets 0 there, and the input now compares as above the result. -/
theorem merge_wraps_at_max :
    (new lastWriteWins).merge [⟨⟨"k", [1], 5, false⟩, AList.insert "n" 0xFFFFFFFFFFFFFFFF ∅⟩] "n" =
      some ⟨⟨"k", [1], 5, false⟩, AList.insert "n" 0 ∅⟩ ∧
    VectorClock.compare (AList.insert "n" 0xFFFFFFFFFFFFFFFF ∅) (AList.insert "n" 0 ∅) = 1 :=
  ⟨rfl, by decide⟩

end Resolver

end MiniDynamo.Versioning
