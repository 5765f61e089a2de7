import Mathlib.Data.List.Rotate
import MiniDynamo.Ring.Canonical

/-! Preference lists (`GetNode`, `GetNodes`), and how they move when a node joins or leaves.

On a list sorted by hash, `sort.Search` finds the first token at or after a key's hash
(`startIdx_eq`), so `GetNodes` walks the ring clockwise from there and round once: the tokens at or
after the hash, then those before it (`rotate_firstAtOrAfter`). Its loop keeps their owners in the
order they are first met and stops at `n` (`getNodes_eq`). On a ring reached by `AddNode`s and
`RemoveNode`s every node has tokens, so the list has `min n m` nodes, starts with `GetNode`'s answer,
and only grows at its end as `n` grows (`preference_list_correct`).

When no two tokens share a hash, adding a node inserts its tokens among the others and keeps their
order, so each preference list with the new node taken out is the start of the one before
(`placement_moves_little`). -/
namespace MiniDynamo.Ring

/-! ### Order of first appearance -/

section FirstSeen

variable {α : Type} [DecidableEq α]

/-- The distinct elements of a list, in the order they first appear. -/
def firstSeen : List α → List α
  | [] => []
  | x :: l => x :: (firstSeen l).filter (· != x)

@[simp] theorem mem_firstSeen {y : α} : ∀ {l : List α}, y ∈ firstSeen l ↔ y ∈ l
  | [] => Iff.rfl
  | x :: l => by
    by_cases h : y = x <;> simp [firstSeen, mem_firstSeen, h]

theorem nodup_firstSeen : ∀ l : List α, (firstSeen l).Nodup
  | [] => List.nodup_nil
  | x :: l => List.nodup_cons.mpr ⟨by simp, (nodup_firstSeen l).filter _⟩

theorem head?_firstSeen : ∀ l : List α, (firstSeen l).head? = l.head?
  | [] => rfl
  | _ :: _ => rfl

/-- Taking elements out of a list takes them out of its order of first appearance. -/
theorem firstSeen_filter (p : α → Bool) : ∀ l : List α, firstSeen (l.filter p) = (firstSeen l).filter p
  | [] => rfl
  | x :: l => by
    rw [List.filter_cons]
    split
    next hx =>
      rw [firstSeen, firstSeen, List.filter_cons_of_pos hx, firstSeen_filter p l, List.filter_filter,
        List.filter_filter]
      simp only [Bool.and_comm]
    next hx =>
      rw [firstSeen, List.filter_cons_of_neg hx, firstSeen_filter p l, List.filter_filter]
      refine List.filter_congr fun y _ => ?_
      by_cases hy : p y <;> simp only [hy, Bool.true_and, Bool.false_and]
      exact (bne_iff_ne.mpr fun (he : y = x) => hx (he ▸ hy)).symm

end FirstSeen

/-- A list's first `n` elements with some taken out start the list with them taken out. -/
theorem filter_take_prefix_take {α : Type} (p : α → Bool) (l : List α) (n : Nat) :
    (l.take n).filter p <+: (l.filter p).take n := by
  have hpre : (l.take n).filter p <+: l.filter p := (List.take_prefix n l).filter p
  have hlen : ((l.take n).filter p).length ≤ n :=
    (List.length_filter_le p _).trans (List.length_take_le n l)
  rw [List.prefix_iff_eq_take.mp hpre]
  exact List.take_prefix_take_left _ hlen

/-! ### The loop of `GetNodes` -/

/-- One turn of `GetNodes`' loop: while fewer than `n` are collected, a node not yet collected is
appended. -/
def collect (n : Nat) (nodes : List String) (nodeID : String) : List String :=
  if nodes.length < n then (if nodeID ∈ nodes then nodes else nodes ++ [nodeID]) else nodes

/-- The loop collects the first `n` of the nodes in the order they are first met. -/
theorem foldl_collect (n : Nat) :
    ∀ (w acc : List String), acc.length ≤ n →
      w.foldl (collect n) acc = (acc ++ (firstSeen w).filter fun y => y ∉ acc).take n
  | [], acc, h => by simp [firstSeen, List.take_of_length_le h]
  | x :: w, acc, h => by
    rw [List.foldl_cons, collect]
    split
    next hlt =>
      split
      next hx =>
        rw [foldl_collect n w acc h, firstSeen, List.filter_cons_of_neg (by simpa using hx),
          List.filter_filter]
        congr 2
        refine List.filter_congr fun y _ => ?_
        by_cases hy : y ∈ acc
        · simp [hy]
        · simp [hy, show y ≠ x from fun h => hy (h ▸ hx)]
      next hx =>
        rw [foldl_collect n w _ (by simp; omega), firstSeen, List.filter_cons_of_pos (by simpa using hx),
          List.filter_filter, List.append_assoc, List.singleton_append]
        congr 3
        refine List.filter_congr fun y _ => ?_
        by_cases hy : y = x <;> simp [hy, hx]
    next hlt =>
      rw [foldl_collect n w acc h, List.take_left' (by omega), List.take_left' (by omega)]

namespace HashRing

/-! ### `sort.Search` -/

/-- Bisection with enough fuel on `[i, j)`, for a test that fails before `p` and holds from `p` on
below `n`, returns `p`. -/
theorem searchLoop_eq {f : Nat → Bool} {n p : Nat} (hf : ∀ k < n, f k = true ↔ p ≤ k) :
    ∀ fuel i j, j - i ≤ fuel → i ≤ p → p ≤ j → j ≤ n → searchLoop f fuel i j = p
  | 0, i, j, hfuel, hi, hj, _ => by rw [searchLoop]; omega
  | fuel + 1, i, j, hfuel, hi, hj, hn => by
    rw [searchLoop]
    split
    next hij =>
      have hmid := hf ((i + j) / 2) (by omega)
      dsimp only
      split
      next hm =>
        have : ¬p ≤ (i + j) / 2 := fun hp => by simp [hmid.mpr hp] at hm
        exact searchLoop_eq hf fuel _ _ (by omega) (by omega) hj hn
      next hm =>
        exact searchLoop_eq hf fuel _ _ (by omega) hi (hmid.mp (by simpa using hm)) (by omega)
    next => omega

/-! ### The walk round the ring -/

/-- Where the walk for a hash starts: the first token whose hash is at least it, or the first token
when there is none. -/
def firstAtOrAfter (vnodes : List VNode) (h : UInt64) : Nat :=
  let i := vnodes.findIdx fun v => decide (v.hash ≥ h)
  if i < vnodes.length then i else 0

/-- The owners of the tokens met walking the ring clockwise from `firstAtOrAfter`, round once. -/
def clockwise (vnodes : List VNode) (h : UInt64) : List String :=
  (vnodes.rotate (firstAtOrAfter vnodes h)).map VNode.nodeID

section Walk

variable {vnodes : List VNode}

/-- On a list sorted by hash, the tokens from the first at or after a hash on are those at or after
it, and the ones before are those below it. -/
theorem drop_take_findIdx (hs : vnodes.Sorted fun a b => a.hash ≤ b.hash) (h : UInt64) :
    vnodes.drop (vnodes.findIdx fun v => decide (v.hash ≥ h)) = vnodes.filter (fun v => decide (v.hash ≥ h)) ∧
      vnodes.take (vnodes.findIdx fun v => decide (v.hash ≥ h)) =
        vnodes.filter (fun v => !decide (v.hash ≥ h)) := by
  induction vnodes with
  | nil => exact ⟨rfl, rfl⟩
  | cons a l ih =>
    obtain ⟨ha, hl⟩ := List.sorted_cons.mp hs
    rw [List.findIdx_cons]
    by_cases hge : a.hash ≥ h
    · have hp : decide (a.hash ≥ h) = true := decide_eq_true hge
      have hall : ∀ b ∈ l, decide (b.hash ≥ h) = true := fun b hb =>
        decide_eq_true (UInt64.le_trans hge (ha b hb))
      simp only [hp, cond_true, List.drop_zero, List.take_zero, List.filter_cons, if_true, Bool.not_true,
        Bool.false_eq_true, if_false, List.filter_eq_self.mpr hall]
      exact ⟨trivial, (List.filter_eq_nil_iff.mpr fun b hb => by simp [hall b hb]).symm⟩
    · have hp : decide (a.hash ≥ h) = false := decide_eq_false hge
      obtain ⟨ihd, iht⟩ := ih hl
      simp only [hp, cond_false, List.drop_succ_cons, List.take_succ_cons, List.filter_cons, if_true,
        Bool.not_false, Bool.false_eq_true, if_false, ihd, iht]
      exact ⟨trivial, trivial⟩

/-- On a sorted list, the walk from `firstAtOrAfter` meets the tokens at or after the hash in
order, then the ones below it. -/
theorem rotate_firstAtOrAfter (hs : vnodes.Sorted fun a b => a.hash ≤ b.hash) (h : UInt64) :
    vnodes.rotate (firstAtOrAfter vnodes h) =
      vnodes.filter (fun v => decide (v.hash ≥ h)) ++ vnodes.filter fun v => !decide (v.hash ≥ h) := by
  obtain ⟨hd, ht⟩ := drop_take_findIdx hs h
  rw [← hd, ← ht, firstAtOrAfter]
  split
  next hlt => exact List.rotate_eq_drop_append_take hlt.le
  next hge =>
    rw [List.rotate_zero, List.drop_eq_nil_of_le (by omega), List.take_of_length_le (by omega)]
    rfl

theorem firstAtOrAfter_lt (hne : vnodes ≠ []) (h : UInt64) : firstAtOrAfter vnodes h < vnodes.length := by
  have := List.length_pos.mpr hne
  rw [firstAtOrAfter]
  split <;> omega

theorem mem_clockwise {h : UInt64} {id : String} :
    id ∈ clockwise vnodes h ↔ id ∈ vnodes.map VNode.nodeID :=
  ((List.rotate_perm _ _).map _).mem_iff

theorem head?_clockwise (hne : vnodes ≠ []) (h : UInt64) :
    (clockwise vnodes h).head? = some (vnodes.getD (firstAtOrAfter vnodes h) default).nodeID := by
  have hlt := firstAtOrAfter_lt hne h
  rw [clockwise, List.head?_map, List.head?_rotate hlt, List.getElem?_eq_getElem hlt,
    List.getD_eq_getElem?_getD, List.getElem?_eq_getElem hlt]
  rfl

/-- `GetNodes`' indices `(start + i) % len` for `i < len` read the list rotated to `start`. -/
theorem map_range_getD (l : List VNode) (start : Nat) :
    (List.range l.length).map (fun i => l.getD ((start + i) % l.length) default) = l.rotate start := by
  refine List.ext_getElem (by simp) fun i h₁ h₂ => ?_
  have hlen : 0 < l.length := by simp at h₁; omega
  rw [List.getElem_map, List.getElem_range, List.getElem_rotate, List.getD_eq_getElem?_getD,
    List.getElem?_eq_getElem (Nat.mod_lt _ hlen), Option.getD_some, Nat.add_comm]

end Walk

section Ring

variable {hash : String → UInt64} {r : HashRing}

/-- `GetNode` and `GetNodes` start where the walk does. -/
theorem startIdx_eq (hs : r.vnodes.Sorted fun a b => a.hash ≤ b.hash) (h : UInt64) :
    r.startIdx h = firstAtOrAfter r.vnodes h := by
  have hf : ∀ k < r.vnodes.length, decide ((r.vnodes.getD k default).hash ≥ h) = true ↔
      (r.vnodes.findIdx fun v => decide (v.hash ≥ h)) ≤ k := fun k hk => by
    rw [List.getD_eq_getElem?_getD, List.getElem?_eq_getElem hk, Option.getD_some]
    constructor
    · intro hk'
      refine Nat.le_of_not_lt fun hlt => ?_
      simp [List.not_of_lt_findIdx hlt] at hk'
    · intro hle
      have hi : (r.vnodes.findIdx fun v => decide (v.hash ≥ h)) < r.vnodes.length := by omega
      have hfirst := @List.findIdx_getElem _ _ _ hi
      rcases Nat.lt_or_eq_of_le hle with hlt | heq
      · simpa using UInt64.le_trans (by simpa using hfirst) (List.pairwise_iff_getElem.mp hs _ _ hi hk hlt)
      · simpa [heq] using hfirst
  unfold startIdx firstAtOrAfter search
  rw [searchLoop_eq hf _ 0 _ le_rfl (Nat.zero_le _) (List.findIdx_le_length _) le_rfl]
  dsimp only
  split <;> split <;> omega

/-- On a sorted list, `GetNodes` collects the first `n` owners met walking clockwise from the key's
position, in the order they are first met. -/
theorem getNodes_eq (hs : r.vnodes.Sorted fun a b => a.hash ≤ b.hash) (key : String) (n : Nat) :
    getNodes hash r key n = if r.vnodes.isEmpty then .error "no nodes in ring" else
      .ok ((firstSeen (clockwise r.vnodes (hash key))).take n) := by
  unfold getNodes
  split
  · rfl
  · rw [startIdx_eq hs]
    refine congrArg Except.ok ((List.foldl_map (fun i => (r.vnodes.getD
      ((firstAtOrAfter r.vnodes (hash key) + i) % r.vnodes.length) default).nodeID) (collect n) _ []).symm.trans ?_)
    rw [foldl_collect n _ [] (Nat.zero_le n), clockwise, ← map_range_getD, List.map_map]
    simp only [List.nil_append, List.not_mem_nil, not_false_eq_true, decide_True, List.filter_true]
    rfl

/-- On a sorted list, `GetNode` answers with the owner of the walk's first token. -/
theorem getNode_eq_ok (hs : r.vnodes.Sorted fun a b => a.hash ≤ b.hash) {key y : String} :
    getNode hash r key = .ok y ↔ (clockwise r.vnodes (hash key)).head? = some y := by
  unfold getNode
  split
  next he => simp [List.isEmpty_iff.mp he, clockwise]
  next he =>
    rw [startIdx_eq hs, head?_clockwise (fun h0 => he (List.isEmpty_iff.mpr h0))]
    simp

/-- A ring reached from `NewHashRing` is canonical, with at least one token per node. -/
theorem canonical_of_run {s : SortByHash} {virtualNodes : Int} {ops : List Op}
    (hr : run hash s (new virtualNodes) ops = some r) : Canonical hash r ∧ 0 < r.virtualCount := by
  obtain ⟨r', h', c, hV⟩ := (canonical_new virtualNodes).run s ops
  obtain rfl : r' = r := Option.some.inj (h'.symm.trans hr)
  refine ⟨c, ?_⟩
  rw [hV]
  show 0 < if virtualNodes < 1 then 150 else virtualNodes.toNat
  split <;> omega

/-- On a canonical ring with tokens for each node, the owners of the tokens are the map's nodes. -/
theorem Canonical.mem_owners (c : Canonical hash r) (hV : 0 < r.virtualCount) {id : String} :
    id ∈ r.vnodes.map VNode.nodeID ↔ id ∈ r.nodeVNodes := by
  rw [AList.mem_keys, List.mem_map]
  constructor
  · rintro ⟨v, hv, rfl⟩
    obtain ⟨k, hk, hv⟩ := List.mem_flatMap.mp (c.perm.subset hv)
    rwa [nodeID_of_mem_tokens hv]
  · intro hk
    exact ⟨_, c.perm.symm.subset (List.mem_flatMap.mpr ⟨id, hk, mem_tokens.mpr ⟨0, hV, rfl⟩⟩), rfl⟩

/-- So the walk meets every node: its order of first appearance lists them all. -/
theorem Canonical.length_firstSeen (c : Canonical hash r) (hV : 0 < r.virtualCount) (h : UInt64) :
    (firstSeen (clockwise r.vnodes h)).length = r.size := by
  have hperm : (firstSeen (clockwise r.vnodes h)).Perm r.nodeVNodes.keys :=
    (List.perm_ext_iff_of_nodup (nodup_firstSeen _) (nodup_keys r)).mpr fun id => by
      rw [mem_firstSeen, mem_clockwise, c.mem_owners hV, AList.mem_keys]
  rw [hperm.length_eq, size, AList.keys, List.keys, List.length_map]

/-- Preference lists on a ring reached from `NewHashRing` with at least one node: `GetNodes`
succeeds with `min n m` distinct nodes, the owners met walking clockwise from the first token at or
after the key's hash, in the order they are first met; the first is `GetNode`'s answer, and asking
for one node more only appends one. -/
theorem preference_list_correct (s : SortByHash) (virtualNodes : Int) {ops : List Op}
    (hr : run hash s (new virtualNodes) ops = some r) (hm : 1 ≤ r.size) (key : String) {n : Nat}
    (hn : 1 ≤ n) :
    ∃ nodes, getNodes hash r key n = .ok nodes ∧
      nodes = (firstSeen (clockwise r.vnodes (hash key))).take n ∧
      nodes.length = min n r.size ∧ nodes.Nodup ∧
      (∃ first, getNode hash r key = .ok first ∧ nodes.head? = some first) ∧
      ∃ more, getNodes hash r key (n + 1) = .ok more ∧ nodes <+: more := by
  obtain ⟨c, hV⟩ := canonical_of_run hr
  have hne : r.vnodes ≠ [] := fun h0 => by
    have := c.length_vnodes
    rw [h0, List.length_nil] at this
    exact absurd this.symm (Nat.mul_pos hV hm).ne'
  have hok : ∀ n, getNodes hash r key n = .ok ((firstSeen (clockwise r.vnodes (hash key))).take n) :=
    fun n => by rw [getNodes_eq c.sorted, if_neg (fun he => hne (List.isEmpty_iff.mp he))]
  have hfirst := head?_clockwise hne (hash key)
  refine ⟨_, hok n, rfl, ?_, (List.take_sublist _ _).nodup (nodup_firstSeen _),
    ⟨_, (getNode_eq_ok c.sorted).mpr hfirst, ?_⟩, _, hok (n + 1), List.take_prefix_take_left _ (Nat.le_succ n)⟩
  · rw [List.length_take, c.length_firstSeen hV]
  · rw [List.head?_take, if_neg (by omega), head?_firstSeen, hfirst]

/-- On the ring of `a` and `b`, the key `k` hashes past both tokens: its preference list wraps round
to the first. -/
theorem preference_list_two_nodes :
    ∃ r, run headHash insertionSortByHash (new 1) [.addNode "a", .addNode "b"] = some r ∧ 1 ≤ r.size ∧
      1 ≤ 2 ∧ ∃ nodes, getNodes headHash r "k" 2 = .ok nodes ∧
        nodes = (firstSeen (clockwise r.vnodes (headHash "k"))).take 2 ∧
        nodes.length = min 2 r.size ∧ nodes.Nodup ∧
        (∃ first, getNode headHash r "k" = .ok first ∧ nodes.head? = some first) ∧
        ∃ more, getNodes headHash r "k" (2 + 1) = .ok more ∧ nodes <+: more := by
  obtain ⟨r, hr⟩ : ∃ r, run headHash insertionSortByHash (new 1) [.addNode "a", .addNode "b"] = some r :=
    ⟨_, rfl⟩
  have hm : 1 ≤ r.size := by cases hr; decide
  exact ⟨r, hr, hm, by decide, preference_list_correct insertionSortByHash 1 hr hm "k" (by decide)⟩

/-! ### A node joins or leaves -/

/-- Adding a node whose tokens share no hash with the ring's leaves the ring's tokens in their
order: taking the new node's tokens out gives the ring's list back. -/
theorem Canonical.filter_addNode (c : Canonical hash r) (s : SortByHash) {x : String}
    (hx : x ∉ r.nodeVNodes) (hd : DistinctHashes hash r.virtualCount (x :: r.nodeVNodes.keys)) :
    (HashRing.addNode hash s r x).vnodes.filter (·.nodeID != x) = r.vnodes := by
  have hkeys : (HashRing.addNode hash s r x).nodeVNodes.keys = x :: r.nodeVNodes.keys := by
    unfold HashRing.addNode
    rw [if_neg hx]
    exact (AList.keys_insert _).trans (congrArg _ (List.erase_of_not_mem fun h => hx (AList.mem_keys.mpr h)))
  have : IsAntisymm VNode fun a b => a.hash.toNat < b.hash.toNat :=
    ⟨fun _ _ h₁ h₂ => absurd (h₁.trans h₂) (Nat.lt_irrefl _)⟩
  have hall : r.vnodes.filter (·.nodeID != x) = r.vnodes := List.filter_eq_self.mpr fun v hv => by
    obtain ⟨k, hk, hvk⟩ := List.mem_flatMap.mp (c.perm.subset hv)
    rw [nodeID_of_mem_tokens hvk]
    exact bne_iff_ne.mpr fun hkx => hx (AList.mem_keys.mpr (hkx ▸ hk))
  have hnone : (tokens hash r.virtualCount x).filter (·.nodeID != x) = [] :=
    List.filter_eq_nil_iff.mpr fun v hv => by simp [nodeID_of_mem_tokens hv]
  refine List.eq_of_perm_of_sorted ?_
    (((c.addNode s x).sorted_lt (by rw [hkeys, virtualCount_addNode]; exact hd)).filter _)
    (c.sorted_lt (hd.mono fun a ha => List.mem_cons_of_mem _ ha))
  unfold HashRing.addNode
  rw [if_neg hx]
  refine ((s.perm _).filter _).trans ?_
  rw [List.filter_append, hall, hnone, List.append_nil]

/-- With the new node taken out, the walk on the grown ring is the walk before. -/
theorem Canonical.clockwise_addNode (c : Canonical hash r) (s : SortByHash) {x : String}
    (hx : x ∉ r.nodeVNodes) (hd : DistinctHashes hash r.virtualCount (x :: r.nodeVNodes.keys))
    (h : UInt64) :
    (clockwise (HashRing.addNode hash s r x).vnodes h).filter (· != x) = clockwise r.vnodes h := by
  rw [clockwise, clockwise, rotate_firstAtOrAfter (c.addNode s x).sorted, rotate_firstAtOrAfter c.sorted,
    ← c.filter_addNode s hx hd]
  simp only [List.filter_map, List.filter_append, List.filter_filter, Function.comp_def, Bool.and_comm]

/-- The grown ring is not empty. -/
theorem Canonical.addNode_ne_nil (c : Canonical hash r) (hV : 0 < r.virtualCount) (s : SortByHash)
    (x : String) : (HashRing.addNode hash s r x).vnodes ≠ [] := fun h0 => by
  have hx := ((c.addNode s x).mem_owners (by rwa [virtualCount_addNode])).mpr
    ((mem_addNode s r x x).mpr (Or.inl rfl))
  rw [h0] at hx
  exact List.not_mem_nil _ hx

/-- Preference lists after adding `x`, with `x` taken out, start the ones before. On a ring with
no node, where `GetNodes` fails, Go's `nil` slice stands for the list before. -/
theorem Canonical.getNodes_addNode (c : Canonical hash r) (hV : 0 < r.virtualCount) (s : SortByHash)
    {x : String} (hx : x ∉ r.nodeVNodes) (hd : DistinctHashes hash r.virtualCount (x :: r.nodeVNodes.keys))
    (key : String) (n : Nat) :
    ∃ nodes', getNodes hash (HashRing.addNode hash s r x) key n = .ok nodes' ∧
      nodes'.filter (· != x) <+: (getNodes hash r key n).toOption.getD [] := by
  have hne := c.addNode_ne_nil hV s x
  refine ⟨_, by rw [getNodes_eq (c.addNode s x).sorted, if_neg fun he => hne (List.isEmpty_iff.mp he)], ?_⟩
  have hbefore : (getNodes hash r key n).toOption.getD [] = (firstSeen (clockwise r.vnodes (hash key))).take n := by
    rw [getNodes_eq c.sorted]
    split
    next he => simp [List.isEmpty_iff.mp he, clockwise, firstSeen, Except.toOption]
    next => rfl
  rw [hbefore, ← c.clockwise_addNode s hx hd, firstSeen_filter]
  exact filter_take_prefix_take _ _ _

/-- After adding `x`, a key's owner is `x` or the owner before. -/
theorem Canonical.getNode_addNode (c : Canonical hash r) (hV : 0 < r.virtualCount) (s : SortByHash)
    {x : String} (hx : x ∉ r.nodeVNodes) (hd : DistinctHashes hash r.virtualCount (x :: r.nodeVNodes.keys))
    (key : String) :
    getNode hash (HashRing.addNode hash s r x) key = .ok x ∨
      getNode hash (HashRing.addNode hash s r x) key = getNode hash r key := by
  obtain ⟨rest, hrest⟩ := List.head?_eq_some_iff.mp (head?_clockwise (c.addNode_ne_nil hV s x) (hash key))
  rw [(getNode_eq_ok (c.addNode s x).sorted).mpr (by rw [hrest]; rfl)]
  by_cases hy : (List.getD (HashRing.addNode hash s r x).vnodes
      (firstAtOrAfter (HashRing.addNode hash s r x).vnodes (hash key)) default).nodeID = x
  · exact .inl (congrArg _ hy)
  · refine .inr ((getNode_eq_ok c.sorted).mpr ?_).symm
    rw [← c.clockwise_addNode s hx hd, hrest, List.filter_cons, if_pos (bne_iff_ne.mpr hy)]
    rfl

/-- Removing `x` from a ring whose tokens share no hash moves only the keys `x` owned. -/
theorem Canonical.getNode_removeNode (c : Canonical hash r) (hV : 0 < r.virtualCount) (s : SortByHash)
    {x : String} (hx : x ∈ r.nodeVNodes) (hd : DistinctHashes hash r.virtualCount r.nodeVNodes.keys) :
    ∃ r', HashRing.removeNode r x = some r' ∧
      ∀ key, getNode hash r key ≠ .ok x → getNode hash r' key = getNode hash r key := by
  obtain ⟨r', hrm, c', hV'⟩ := c.removeNode x
  have hx' : x ∉ r'.nodeVNodes := fun h => ((mem_removeNode hrm).mp h).1 rfl
  have hd' : DistinctHashes hash r'.virtualCount (x :: r'.nodeVNodes.keys) :=
    hV' ▸ hd.mono fun a ha => by
      rcases List.mem_cons.mp ha with rfl | ha
      · exact AList.mem_keys.mp hx
      · exact AList.mem_keys.mp ((mem_removeNode hrm).mp (AList.mem_keys.mpr ha)).2
  have hv : r.vnodes = (HashRing.addNode hash s r' x).vnodes :=
    vnodes_eq_of_mem_iff c (c'.addNode s x) (by rw [virtualCount_addNode, hV']) (fun id => by
      rw [mem_addNode, mem_removeNode hrm]
      by_cases h : id = x <;> simp [h, hx]) hd
  refine ⟨r', hrm, fun key hk => ?_⟩
  rw [getNode_congr hv] at hk ⊢
  exact ((c'.getNode_addNode (hV' ▸ hV) s hx' hd' key).resolve_left hk).symm

end Ring

section Moves

variable (hash : String → UInt64) (s : SortByHash) (virtualNodes : Int)

/-- Adding a node disturbs placement little. On a ring reached from `NewHashRing` where no two
tokens share a hash, each preference list after adding `x`, with `x` taken out, is the start of the
one before, so a key's owner is then `x` or the owner before; and removing `x` moves only the keys
`x` owned. -/
theorem placement_moves_little :
    (∀ ops r x, run hash s (new virtualNodes) ops = some r → x ∉ r.nodeVNodes →
      DistinctHashes hash r.virtualCount (x :: r.nodeVNodes.keys) → ∀ key n,
        (∃ nodes', getNodes hash (addNode hash s r x) key n = .ok nodes' ∧
          nodes'.filter (· != x) <+: (getNodes hash r key n).toOption.getD []) ∧
        (getNode hash (addNode hash s r x) key = .ok x ∨
          getNode hash (addNode hash s r x) key = getNode hash r key)) ∧
    (∀ ops r x, run hash s (new virtualNodes) ops = some r → x ∈ r.nodeVNodes →
      DistinctHashes hash r.virtualCount r.nodeVNodes.keys →
      ∃ r', removeNode r x = some r' ∧
        ∀ key, getNode hash r key ≠ .ok x → getNode hash r' key = getNode hash r key) := by
  refine ⟨fun ops r x hr hx hd key n => ?_, fun ops r x hr hx hd => ?_⟩
  · obtain ⟨c, hV⟩ := canonical_of_run hr
    exact ⟨c.getNodes_addNode hV s hx hd key n, c.getNode_addNode hV s hx hd key⟩
  · obtain ⟨c, hV⟩ := canonical_of_run hr
    exact c.getNode_removeNode hV s hx hd

end Moves

/-- `b` joins the ring of `a`, and leaves the ring of `a` and `b`. -/
theorem placement_join_and_leave :
    ∃ r₁ r₂, run headHash insertionSortByHash (new 1) [.addNode "a"] = some r₁ ∧ "b" ∉ r₁.nodeVNodes ∧
      DistinctHashes headHash r₁.virtualCount ("b" :: r₁.nodeVNodes.keys) ∧
      ((∃ nodes', getNodes headHash (addNode headHash insertionSortByHash r₁ "b") "k" 2 = .ok nodes' ∧
          nodes'.filter (· != "b") <+: (getNodes headHash r₁ "k" 2).toOption.getD []) ∧
        (getNode headHash (addNode headHash insertionSortByHash r₁ "b") "k" = .ok "b" ∨
          getNode headHash (addNode headHash insertionSortByHash r₁ "b") "k" = getNode headHash r₁ "k")) ∧
      run headHash insertionSortByHash (new 1) [.addNode "a", .addNode "b"] = some r₂ ∧ "b" ∈ r₂.nodeVNodes ∧
      DistinctHashes headHash r₂.virtualCount r₂.nodeVNodes.keys ∧
      ∃ r', removeNode r₂ "b" = some r' ∧
        ∀ key, getNode headHash r₂ key ≠ .ok "b" → getNode headHash r' key = getNode headHash r₂ key := by
  obtain ⟨r₁, h₁⟩ : ∃ r, run headHash insertionSortByHash (new 1) [.addNode "a"] = some r := ⟨_, rfl⟩
  obtain ⟨r₂, h₂⟩ : ∃ r, run headHash insertionSortByHash (new 1) [.addNode "a", .addNode "b"] = some r :=
    ⟨_, rfl⟩
  have hx₁ : "b" ∉ r₁.nodeVNodes := by cases h₁; decide
  have hd₁ : DistinctHashes headHash r₁.virtualCount ("b" :: r₁.nodeVNodes.keys) := by
    cases h₁; unfold DistinctHashes; decide
  have hx₂ : "b" ∈ r₂.nodeVNodes := by cases h₂; decide
  have hd₂ : DistinctHashes headHash r₂.virtualCount r₂.nodeVNodes.keys := by
    cases h₂; unfold DistinctHashes; decide
  exact ⟨r₁, r₂, h₁, hx₁, hd₁,
    (placement_moves_little headHash insertionSortByHash 1).1 _ r₁ "b" h₁ hx₁ hd₁ "k" 2, h₂, hx₂, hd₂,
    (placement_moves_little headHash insertionSortByHash 1).2 _ r₂ "b" h₂ hx₂ hd₂⟩

end HashRing

end MiniDynamo.Ring
