import MiniDynamo.Ring.HashRing

/-! The ring's canonical form.

From `NewHashRing`, through any `AddNode`s and `RemoveNode`s, the ring is `Canonical`: its list is
sorted by hash and holds, up to order, exactly the tokens of the nodes in its map, each node's
entry being its tokens' hashes. So `RemoveNode` never panics on its capacity, `Size` is the number
of nodes and there are `virtualCount` tokens per node.

When no two tokens share a hash, a canonical ring is determined by its node set: its list is the
tokens sorted by hash (`vnodes_eq_of_mem_iff`), whatever order the nodes came and went in, and
`RemoveNode` undoes `AddNode`. -/
namespace MiniDynamo.Ring

namespace HashRing

variable (hash : String → UInt64)

/-- The ring holds exactly the tokens of the nodes in its map, sorted by hash. -/
structure Canonical (r : HashRing) : Prop where
  sorted : r.vnodes.Sorted fun a b => a.hash ≤ b.hash
  perm : r.vnodes.Perm (r.nodeVNodes.keys.flatMap (tokens hash r.virtualCount))
  hashes : ∀ nodeID hs, r.nodeVNodes.lookup nodeID = some hs →
    hs = (tokens hash r.virtualCount nodeID).map VNode.hash

/-! ### Tokens -/

section Tokens

variable {hash} {V : Nat} {nodeID : String}

@[simp] theorem length_tokens : (tokens hash V nodeID).length = V := by simp [tokens]

theorem mem_tokens {v : VNode} :
    v ∈ tokens hash V nodeID ↔ ∃ i < V, v = ⟨hash (vnodeKey nodeID i), nodeID, i⟩ := by
  simp [tokens, eq_comm]

theorem nodeID_of_mem_tokens {v : VNode} (h : v ∈ tokens hash V nodeID) : v.nodeID = nodeID := by
  obtain ⟨i, -, rfl⟩ := mem_tokens.mp h; rfl

theorem nodup_tokens : (tokens hash V nodeID).Nodup :=
  (List.nodup_range V).map fun _ _ h => congrArg VNode.vnodeIdx h

theorem nodup_flatMap_tokens {ids : List String} (h : ids.Nodup) : (ids.flatMap (tokens hash V)).Nodup :=
  List.nodup_flatMap.mpr ⟨fun _ _ => nodup_tokens, h.imp fun hne _ hv hv' =>
    hne ((nodeID_of_mem_tokens hv).symm.trans (nodeID_of_mem_tokens hv'))⟩

theorem length_flatMap_tokens (ids : List String) : (ids.flatMap (tokens hash V)).length = V * ids.length := by
  induction ids with
  | nil => rfl
  | cons id ids ih => simp [ih, Nat.mul_succ, Nat.add_comm]

/-- Filtering out one node's virtual nodes takes its tokens out of the list of tokens. -/
theorem filter_flatMap_tokens (ids : List String) :
    (ids.flatMap (tokens hash V)).filter (·.nodeID != nodeID) =
      (ids.filter (· != nodeID)).flatMap (tokens hash V) := by
  induction ids with
  | nil => rfl
  | cons id ids ih =>
    rw [List.flatMap_cons, List.filter_append, ih, List.filter_cons]
    by_cases h : id = nodeID
    · subst h
      simp
      exact fun _ hv => nodeID_of_mem_tokens hv
    · simp [h]
      exact fun _ hv => by rw [nodeID_of_mem_tokens hv]; exact h

end Tokens

/-! ### Each operation keeps the form -/

section Steps

variable {hash} (s : SortByHash) {r : HashRing}

theorem canonical_new (virtualNodes : Int) : Canonical hash (new virtualNodes) :=
  ⟨List.sorted_nil, by simp [new], fun _ _ h => by cases h⟩

theorem nodup_keys (r : HashRing) : r.nodeVNodes.keys.Nodup := r.nodeVNodes.nodupKeys

@[simp] theorem not_mem_new (virtualNodes : Int) (nodeID : String) :
    nodeID ∉ (new virtualNodes).nodeVNodes :=
  AList.not_mem_empty nodeID

@[simp] theorem mem_addNode (r : HashRing) (nodeID id : String) :
    id ∈ (addNode hash s r nodeID).nodeVNodes ↔ id = nodeID ∨ id ∈ r.nodeVNodes := by
  unfold HashRing.addNode
  split
  · constructor
    · exact Or.inr
    · rintro (rfl | h) <;> assumption
  · exact AList.mem_insert _

theorem mem_removeNode {r' : HashRing} {nodeID id : String} (h : removeNode r nodeID = some r') :
    id ∈ r'.nodeVNodes ↔ id ≠ nodeID ∧ id ∈ r.nodeVNodes := by
  unfold HashRing.removeNode at h
  split at h
  next hn =>
    cases h
    exact ⟨fun hm => ⟨fun he => hn (he ▸ hm), hm⟩, And.right⟩
  next =>
    split at h
    · cases h
    · cases h
      exact AList.mem_erase

theorem Canonical.addNode (c : Canonical hash r) (nodeID : String) :
    Canonical hash (addNode hash s r nodeID) := by
  unfold HashRing.addNode
  split
  · exact c
  next h =>
    refine ⟨s.sorted _, (s.perm _).trans ?_, fun id hs hl => ?_⟩
    · rw [AList.keys_insert, List.erase_of_not_mem h, List.flatMap_cons]
      exact (c.perm.append_right _).trans List.perm_append_comm
    · by_cases hid : id = nodeID
      · subst hid
        rw [AList.lookup_insert, Option.some.injEq] at hl
        exact hl.symm
      · rw [AList.lookup_insert_ne hid] at hl
        exact c.hashes id hs hl

theorem Canonical.removeNode (c : Canonical hash r) (nodeID : String) :
    ∃ r', removeNode r nodeID = some r' ∧ Canonical hash r' ∧ r'.virtualCount = r.virtualCount := by
  unfold HashRing.removeNode
  split
  · exact ⟨r, rfl, c, rfl⟩
  next h =>
    have hlen : r.virtualCount ≤ r.vnodes.length := by
      rw [c.perm.length_eq, length_flatMap_tokens]
      have : 0 < r.nodeVNodes.keys.length := List.length_pos_of_mem (AList.mem_keys.mp (not_not.mp h))
      exact Nat.le_mul_of_pos_right _ this
    rw [if_neg (by omega)]
    refine ⟨_, rfl, ⟨c.sorted.filter _, ?_, fun id hs hl => ?_⟩, rfl⟩
    · rw [AList.keys_erase, (nodup_keys r).erase_eq_filter, ← filter_flatMap_tokens]
      exact c.perm.filter _
    · by_cases hid : id = nodeID
      · subst hid; rw [AList.lookup_erase] at hl; cases hl
      · rw [AList.lookup_erase_ne hid] at hl
        exact c.hashes id hs hl

end Steps

/-! ### When no two tokens share a hash, the node set decides -/

/-- No two tokens of the nodes `ids` share a hash. -/
def DistinctHashes (V : Nat) (ids : List String) : Prop :=
  ∀ a ∈ ids, ∀ b ∈ ids, ∀ i < V, ∀ j < V,
    hash (vnodeKey a i) = hash (vnodeKey b j) → a = b ∧ i = j

section Distinct

variable {hash} {r r₁ r₂ : HashRing}

theorem DistinctHashes.mono {V : Nat} {ids ids' : List String} (h : DistinctHashes hash V ids)
    (hs : ∀ a ∈ ids', a ∈ ids) : DistinctHashes hash V ids' :=
  fun a ha b hb => h a (hs a ha) b (hs b hb)

/-- With distinct hashes, a canonical ring's list is strictly increasing in hash. -/
theorem Canonical.sorted_lt (c : Canonical hash r)
    (hd : DistinctHashes hash r.virtualCount r.nodeVNodes.keys) :
    r.vnodes.Sorted fun a b => a.hash.toNat < b.hash.toNat := by
  have hnd : r.vnodes.Nodup := c.perm.nodup_iff.mpr (nodup_flatMap_tokens (nodup_keys r))
  refine (c.sorted.and hnd).imp_of_mem fun {a b} ha hb ⟨hle, hne⟩ => ?_
  obtain ⟨x, hx, ha⟩ := List.mem_flatMap.mp (c.perm.subset ha)
  obtain ⟨y, hy, hb⟩ := List.mem_flatMap.mp (c.perm.subset hb)
  obtain ⟨i, hi, rfl⟩ := mem_tokens.mp ha
  obtain ⟨j, hj, rfl⟩ := mem_tokens.mp hb
  have hle : (hash (vnodeKey x i)).toNat ≤ (hash (vnodeKey y j)).toNat := BitVec.le_def.mp hle
  refine lt_of_le_of_ne hle fun heq => hne ?_
  obtain ⟨rfl, rfl⟩ := hd x hx y hy i hi j hj (UInt64.toNat.inj heq)
  rfl

/-- With distinct hashes, canonical rings of one size per node and with the same nodes hold the same
list. -/
theorem vnodes_eq_of_mem_iff (c₁ : Canonical hash r₁) (c₂ : Canonical hash r₂)
    (hV : r₁.virtualCount = r₂.virtualCount) (hk : ∀ id, id ∈ r₁.nodeVNodes ↔ id ∈ r₂.nodeVNodes)
    (hd : DistinctHashes hash r₁.virtualCount r₁.nodeVNodes.keys) : r₁.vnodes = r₂.vnodes := by
  have hkeys : r₁.nodeVNodes.keys.Perm r₂.nodeVNodes.keys :=
    (List.perm_ext_iff_of_nodup (nodup_keys r₁) (nodup_keys r₂)).mpr fun id => by
      simpa only [AList.mem_keys] using hk id
  have hd₂ : DistinctHashes hash r₂.virtualCount r₂.nodeVNodes.keys :=
    hV ▸ hd.mono fun id h => hkeys.symm.subset h
  have : IsAntisymm VNode fun a b => a.hash.toNat < b.hash.toNat :=
    ⟨fun _ _ h₁ h₂ => absurd (h₁.trans h₂) (Nat.lt_irrefl _)⟩
  refine List.eq_of_perm_of_sorted ?_ (c₁.sorted_lt hd) (c₂.sorted_lt hd₂)
  exact c₁.perm.trans ((hkeys.flatMap_right _).trans (hV ▸ c₂.perm.symm))

/-- Canonical rings of one size per node and with the same nodes have the same map. -/
theorem lookup_eq_of_mem_iff (c₁ : Canonical hash r₁) (c₂ : Canonical hash r₂)
    (hV : r₁.virtualCount = r₂.virtualCount) (hk : ∀ id, id ∈ r₁.nodeVNodes ↔ id ∈ r₂.nodeVNodes)
    (id : String) : r₁.nodeVNodes.lookup id = r₂.nodeVNodes.lookup id := by
  by_cases h : id ∈ r₁.nodeVNodes
  · obtain ⟨hs₁, h₁⟩ := Option.isSome_iff_exists.mp (AList.lookup_isSome.mpr h)
    obtain ⟨hs₂, h₂⟩ := Option.isSome_iff_exists.mp (AList.lookup_isSome.mpr ((hk id).mp h))
    rw [h₁, h₂, c₁.hashes id hs₁ h₁, c₂.hashes id hs₂ h₂, hV]
  · rw [AList.lookup_eq_none.mpr h, AList.lookup_eq_none.mpr (mt (hk id).mpr h)]

/-- With distinct hashes, removing a node just added gives the ring back. -/
theorem removeNode_addNode (s : SortByHash) (c : Canonical hash r) {nodeID : String}
    (hn : nodeID ∉ r.nodeVNodes) (hd : DistinctHashes hash r.virtualCount r.nodeVNodes.keys) :
    removeNode (addNode hash s r nodeID) nodeID = some r := by
  obtain ⟨r', hr', c', hV⟩ := (c.addNode s nodeID).removeNode nodeID
  have he : r'.nodeVNodes = r.nodeVNodes := by
    revert hr'
    simp only [HashRing.removeNode, HashRing.addNode, hn, if_false, AList.mem_insert, true_or,
      not_true_eq_false]
    split <;> intro hr' <;> cases hr'
    refine AList.ext ?_
    show List.kerase nodeID (AList.insert nodeID _ r.nodeVNodes).entries = r.nodeVNodes.entries
    rw [AList.insert_entries_of_neg hn]
    exact List.kerase_cons_eq rfl
  have hV : r'.virtualCount = r.virtualCount := by
    rw [hV]; unfold HashRing.addNode; rw [if_neg hn]
  have hv : r'.vnodes = r.vnodes :=
    vnodes_eq_of_mem_iff c' c hV (fun id => by rw [he]) (hV ▸ he ▸ hd)
  rw [hr']
  cases r'; cases r
  simp_all

end Distinct

/-! ### Runs from `NewHashRing` -/

section Runs

variable {hash} (s : SortByHash)

theorem virtualCount_addNode (r : HashRing) (nodeID : String) :
    (addNode hash s r nodeID).virtualCount = r.virtualCount := by
  unfold HashRing.addNode; split <;> rfl

/-- From a canonical ring, any calls run without panicking and leave it canonical. -/
theorem Canonical.run {r : HashRing} (c : Canonical hash r) (ops : List Op) :
    ∃ r', run hash s r ops = some r' ∧ Canonical hash r' ∧ r'.virtualCount = r.virtualCount := by
  induction ops generalizing r with
  | nil => exact ⟨r, rfl, c, rfl⟩
  | cons op ops ih =>
    cases op with
    | addNode nodeID =>
      obtain ⟨r', h, c', hV⟩ := ih (c.addNode s nodeID)
      exact ⟨r', h, c', hV.trans (virtualCount_addNode s r nodeID)⟩
    | removeNode nodeID =>
      obtain ⟨r₁, h₁, c₁, hV₁⟩ := c.removeNode nodeID
      obtain ⟨r', h, c', hV⟩ := ih c₁
      exact ⟨r', by simp [HashRing.run, h₁, h], c', hV.trans hV₁⟩

/-- A canonical ring holds `virtualCount` tokens per node. -/
theorem Canonical.length_vnodes {r : HashRing} (c : Canonical hash r) :
    r.vnodes.length = r.virtualCount * r.size := by
  rw [c.perm.length_eq, length_flatMap_tokens, size, AList.keys, List.keys, List.length_map]

theorem getNode_congr {r₁ r₂ : HashRing} (h : r₁.vnodes = r₂.vnodes) (key : String) :
    getNode hash r₁ key = getNode hash r₂ key := by
  simp [getNode, startIdx, h]

theorem getNodes_congr {r₁ r₂ : HashRing} (h : r₁.vnodes = r₂.vnodes) (key : String) (n : Nat) :
    getNodes hash r₁ key n = getNodes hash r₂ key n := by
  simp [getNodes, startIdx, h]

/-- `GetNodes` returns at most `n` nodes. -/
theorem length_getNodes_le {r : HashRing} {key : String} {n : Nat} {nodes : List String}
    (h : getNodes hash r key n = .ok nodes) : nodes.length ≤ n := by
  unfold getNodes at h
  split at h
  · cases h
  · cases h
    refine List.foldlRecOn (motive := fun nodes : List String => nodes.length ≤ n) _ _ _
      (Nat.zero_le n) fun acc hacc i _ => ?_
    dsimp only
    split_ifs with hlt
    · exact hacc
    · rw [List.length_append, List.length_singleton]
      omega
    · exact hacc

/-- `GetNodes` returns no node twice, so counting acknowledgements over its list, as the model
of `Put` does, counts what Go's map of results holds. -/
theorem nodup_getNodes {r : HashRing} {key : String} {n : Nat} {nodes : List String}
    (h : getNodes hash r key n = .ok nodes) : nodes.Nodup := by
  unfold getNodes at h
  split at h
  · cases h
  · cases h
    refine List.foldlRecOn (motive := fun nodes : List String => nodes.Nodup) _ _ _
      List.nodup_nil fun acc hacc i _ => ?_
    dsimp only
    split_ifs with hlt hmem
    · exact hacc
    · exact hacc.append (List.nodup_singleton _) (List.disjoint_singleton.mpr hmem)
    · exact hacc

end Runs

/-- The ring has a canonical form. From `NewHashRing`, any calls run without a panic and leave
the ring canonical, with `virtualCount` tokens per node and `RemoveNode`'s capacity non-negative;
adding a present node and removing an absent one change nothing; and when no two tokens share a
hash, the list, the map, `GetNode` and `GetNodes` depend only on the node set, and `RemoveNode`
undoes `AddNode`. -/
theorem ring_canonical (s : SortByHash) (virtualNodes : Int) :
    (∀ ops, ∃ r, run hash s (new virtualNodes) ops = some r ∧ Canonical hash r ∧
      r.virtualCount = (new virtualNodes).virtualCount ∧
      r.getRingTokens.length = r.virtualCount * r.size ∧
      ∀ nodeID ∈ r.nodeVNodes, 0 ≤ (r.vnodes.length : Int) - r.virtualCount) ∧
    (∀ r nodeID, nodeID ∈ r.nodeVNodes → addNode hash s r nodeID = r) ∧
    (∀ r nodeID, nodeID ∉ r.nodeVNodes → removeNode r nodeID = some r) ∧
    (∀ ops₁ ops₂ r₁ r₂, run hash s (new virtualNodes) ops₁ = some r₁ →
      run hash s (new virtualNodes) ops₂ = some r₂ →
      (∀ nodeID, nodeID ∈ r₁.nodeVNodes ↔ nodeID ∈ r₂.nodeVNodes) →
      DistinctHashes hash r₁.virtualCount r₁.nodeVNodes.keys →
      r₁.vnodes = r₂.vnodes ∧ (∀ nodeID, r₁.nodeVNodes.lookup nodeID = r₂.nodeVNodes.lookup nodeID) ∧
      ∀ key n, getNode hash r₁ key = getNode hash r₂ key ∧ getNodes hash r₁ key n = getNodes hash r₂ key n) ∧
    (∀ ops r nodeID, run hash s (new virtualNodes) ops = some r → nodeID ∉ r.nodeVNodes →
      DistinctHashes hash r.virtualCount r.nodeVNodes.keys →
      removeNode (addNode hash s r nodeID) nodeID = some r) := by
  have hrun : ∀ ops r, run hash s (new virtualNodes) ops = some r →
      Canonical hash r ∧ r.virtualCount = (new virtualNodes).virtualCount := fun ops r h => by
    obtain ⟨r', h', c', hV⟩ := (canonical_new virtualNodes).run s ops
    rw [h, Option.some.injEq] at h'
    exact h' ▸ ⟨c', hV⟩
  refine ⟨fun ops => ?_, fun r nodeID h => by simp [addNode, h],
    fun r nodeID h => by simp [removeNode, h], fun ops₁ ops₂ r₁ r₂ h₁ h₂ hk hd => ?_,
    fun ops r nodeID h hn hd => removeNode_addNode s (hrun ops r h).1 hn hd⟩
  · obtain ⟨r, h, c, hV⟩ := (canonical_new virtualNodes).run s ops
    refine ⟨r, h, c, hV, c.length_vnodes, fun nodeID hn => ?_⟩
    have : 0 < r.size := by
      simpa [size, AList.keys, List.keys] using List.length_pos_of_mem (AList.mem_keys.mp hn)
    rw [c.length_vnodes]
    have := Nat.le_mul_of_pos_right r.virtualCount this
    omega
  · obtain ⟨c₁, hV₁⟩ := hrun ops₁ r₁ h₁
    obtain ⟨c₂, hV₂⟩ := hrun ops₂ r₂ h₂
    have hv := vnodes_eq_of_mem_iff c₁ c₂ (hV₁.trans hV₂.symm) hk hd
    exact ⟨hv, lookup_eq_of_mem_iff c₁ c₂ (hV₁.trans hV₂.symm) hk,
      fun key n => ⟨getNode_congr hv key, getNodes_congr hv key n⟩⟩

/-- Insertion sort by hash meets `sort.Slice`'s contract. -/
def insertionSortByHash : SortByHash where
  sort l := l.insertionSort fun a b => a.hash ≤ b.hash
  perm l := List.perm_insertionSort _ l
  sorted l :=
    have : IsTotal VNode fun a b => a.hash ≤ b.hash := ⟨fun a b => UInt64.le_total a.hash b.hash⟩
    have : IsTrans VNode fun a b => a.hash ≤ b.hash := ⟨fun _ _ _ => UInt64.le_trans⟩
    List.sorted_insertionSort _ l

/-- A stand-in for MurmurHash3: the first character's code. -/
def headHash (s : String) : UInt64 := (s.data.headD 'x').toNat.toUInt64

/-- `NewHashRing(0)` falls back to 150 virtual nodes: one node gives 150 tokens, not 0. -/
theorem newHashRing_zero_tokens :
    ∃ r, run headHash insertionSortByHash (new 0) [.addNode "a"] = some r ∧
      r.getRingTokens.length = 150 ∧ r.getRingTokens.length ≠ 0 * r.size := by
  have c := (@canonical_new headHash 0).addNode insertionSortByHash "a"
  refine ⟨_, rfl, ?_, ?_⟩ <;> rw [getRingTokens, c.length_vnodes] <;> decide

theorem ring_canonical_two_orders :
    ∃ r₁ r₂, run headHash insertionSortByHash (new 1) [.addNode "a", .addNode "b"] = some r₁ ∧
      run headHash insertionSortByHash (new 1) [.addNode "b", .addNode "a"] = some r₂ ∧
      (∀ nodeID, nodeID ∈ r₁.nodeVNodes ↔ nodeID ∈ r₂.nodeVNodes) ∧
      DistinctHashes headHash r₁.virtualCount r₁.nodeVNodes.keys ∧
      r₁.vnodes = r₂.vnodes ∧ (∀ nodeID, r₁.nodeVNodes.lookup nodeID = r₂.nodeVNodes.lookup nodeID) ∧
      ∀ key n, getNode headHash r₁ key = getNode headHash r₂ key ∧
        getNodes headHash r₁ key n = getNodes headHash r₂ key n := by
  refine ⟨_, _, rfl, rfl, ?hk, ?hd,
    (ring_canonical headHash insertionSortByHash 1).2.2.2.1 [.addNode "a", .addNode "b"]
      [.addNode "b", .addNode "a"] _ _ rfl rfl ?hk ?hd⟩
  · intro nodeID
    simp [or_comm]
  · unfold DistinctHashes
    decide

end HashRing

end MiniDynamo.Ring
