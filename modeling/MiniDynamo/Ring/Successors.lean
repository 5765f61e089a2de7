import MiniDynamo.Ring.TokenRanges

/-! Neighbour lists (`GetSuccessorNodes` and `GetPredecessorNodes` in `vnode.go`).

Both find the node's first token and walk round the ring from it, clockwise or back, collecting
distinct nodes other than the node itself until `n` are collected or the walk is back at the
first token. So each returns the first `n` nodes other than the node met on that walk, in the
order they are first met. On a ring reached from `NewHashRing` that is `min n (size - 1)`
distinct nodes of the ring (`neighbours_correct`). Every negative `n` panics in `make`.

The successors of a node follow it in the preference list of a key only when the key falls in
the range of the node's first token (`getNodes_eq_cons_successors`). With several tokens per
node, a key in another of its ranges has other replicas (`successors_not_replicas`). -/
namespace MiniDynamo.Ring

namespace VNodeManager

/-- The index of the node's first token; `none` where the loop leaves `startIdx` at `-1`. -/
def firstToken (tokens : List VNode) (nodeID : String) : Option Nat :=
  let i := tokens.findIdx (·.nodeID == nodeID)
  if i < tokens.length then some i else none

/-- One turn of both loops: while fewer than `n` are collected, the node of the token visited is
appended unless it was seen, the node itself being seen from the start. -/
def visit (n : Nat) (nodeID : String) (nodes : List String) (next : String) : List String :=
  if nodes.length < n then (if next ∈ nodeID :: nodes then nodes else nodes ++ [next]) else nodes

/-- What both functions do, visiting for `i` from one to `len(tokens)` the token at
`index startIdx i`. `make([]string, 0, n)` panics (`none`) on a negative `n`, once the node's
token is found. -/
def walkFrom (tokens : List VNode) (nodeID : String) (n : Int) (index : Nat → Nat → Nat) :
    Option (List String) :=
  if tokens.isEmpty then some [] else
  match firstToken tokens nodeID with
  | none => some []
  | some startIdx =>
    if n < 0 then none else
    some ((List.range' 1 tokens.length).foldl
      (fun nodes i => visit n.toNat nodeID nodes (tokens.getD (index startIdx i) default).nodeID) [])

/-- `GetSuccessorNodes`: the token at `(startIdx + i) % len(tokens)`. -/
def getSuccessorNodes (m : VNodeManager) (nodeID : String) (n : Int) : Option (List String) :=
  walkFrom m.ring.getRingTokens nodeID n fun startIdx i => (startIdx + i) % m.ring.getRingTokens.length

/-- `GetPredecessorNodes`: the token at `(startIdx - i + len(tokens)) % len(tokens)`, written with
the addition first, as `i ≤ len(tokens)` keeps it a natural number. -/
def getPredecessorNodes (m : VNodeManager) (nodeID : String) (n : Int) : Option (List String) :=
  walkFrom m.ring.getRingTokens nodeID n fun startIdx i =>
    (startIdx + m.ring.getRingTokens.length - i) % m.ring.getRingTokens.length

/-! ### The loop -/

/-- With the node itself put in front, the loop is `GetNodes`' loop asking for one more. -/
theorem cons_foldl_visit (n : Nat) (nodeID : String) :
    ∀ (w nodes : List String),
      nodeID :: w.foldl (visit n nodeID) nodes = w.foldl (collect (n + 1)) (nodeID :: nodes)
  | [], _ => rfl
  | x :: w, nodes => by
    have hstep : nodeID :: visit n nodeID nodes x = collect (n + 1) (nodeID :: nodes) x := by
      unfold visit collect
      simp only [List.length_cons, Nat.add_lt_add_iff_right]
      split_ifs <;> rfl
    rw [List.foldl_cons, List.foldl_cons, ← hstep, cons_foldl_visit n nodeID w]

/-- So the loop collects the first `n` nodes other than the node itself, in the order met. -/
theorem foldl_visit (n : Nat) (nodeID : String) (w : List String) :
    w.foldl (visit n nodeID) [] = ((firstSeen w).filter (· != nodeID)).take n := by
  have h := cons_foldl_visit n nodeID w []
  rw [foldl_collect (n + 1) w [nodeID] (by simp), List.singleton_append, List.take_succ_cons] at h
  refine (List.cons.inj h).2.trans (congrArg (List.take n) (List.filter_congr fun y _ => ?_))
  by_cases hy : y = nodeID <;> simp [hy]

/-- The successor loop visits the tokens after the start, round to the start itself. -/
theorem map_range'_succ (l : List VNode) (s : Nat) :
    (List.range' 1 l.length).map (fun i => l.getD ((s + i) % l.length) default) = l.rotate (s + 1) := by
  refine List.ext_getElem (by simp) fun j h₁ h₂ => ?_
  have hlen : 0 < l.length := by simp at h₁; omega
  rw [List.getElem_map, List.getElem_range', List.getElem_rotate, List.getD_eq_getElem?_getD,
    List.getElem?_eq_getElem (Nat.mod_lt _ hlen), Option.getD_some]
  congr 2
  omega

/-- The predecessor loop visits the tokens before the start, back round to the start itself. -/
theorem map_range'_pred (l : List VNode) (s : Nat) :
    (List.range' 1 l.length).map (fun i => l.getD ((s + l.length - i) % l.length) default) =
      (l.rotate s).reverse := by
  refine List.ext_getElem (by simp) fun j h₁ h₂ => ?_
  have hlen : 0 < l.length := by simp at h₁; omega
  have hj : j < l.length := by simpa using h₁
  rw [List.getElem_map, List.getElem_range', List.getElem_reverse, List.getElem_rotate,
    List.getD_eq_getElem?_getD, List.getElem?_eq_getElem (Nat.mod_lt _ hlen), Option.getD_some]
  congr 2
  simp only [List.length_rotate]
  omega

/-- Both functions, once the node's first token is found: the first `n` nodes other than the
node on the walk the index function makes. -/
theorem walkFrom_eq {tokens : List VNode} {nodeID : String} {s : Nat}
    (hs : firstToken tokens nodeID = some s) {n : Int} (hn : 0 ≤ n) (index : Nat → Nat → Nat) :
    walkFrom tokens nodeID n index = some (((firstSeen ((List.range' 1 tokens.length).map fun i =>
      (tokens.getD (index s i) default).nodeID)).filter (· != nodeID)).take n.toNat) := by
  have hne : tokens.isEmpty = false := by
    dsimp only [firstToken] at hs
    split at hs
    · exact List.isEmpty_eq_false_iff_exists_mem.mpr ⟨_, List.getElem_mem ‹_›⟩
    · cases hs
  rw [walkFrom, hne, if_neg Bool.false_ne_true, hs]
  simp only [if_neg (not_lt.mpr hn), ← List.foldl_map, foldl_visit]

/-- The node's first token is the node's. -/
theorem nodeID_of_firstToken {tokens : List VNode} {nodeID : String} {s : Nat}
    (hs : firstToken tokens nodeID = some s) : ∃ h : s < tokens.length, tokens[s].nodeID = nodeID := by
  dsimp only [firstToken] at hs
  split at hs
  next hlt =>
    cases hs
    exact ⟨hlt, by simpa using List.findIdx_getElem (w := hlt)⟩
  · cases hs

theorem firstToken_isSome {tokens : List VNode} {nodeID : String}
    (h : nodeID ∈ tokens.map VNode.nodeID) : (firstToken tokens nodeID).isSome := by
  unfold firstToken
  rw [if_pos (List.findIdx_lt_length_of_exists (by simpa using h))]
  rfl

variable (m : VNodeManager) {nodeID : String} {s : Nat}

theorem getSuccessorNodes_eq (hs : firstToken m.ring.vnodes nodeID = some s) {n : Int} (hn : 0 ≤ n) :
    m.getSuccessorNodes nodeID n =
      some (((firstSeen ((m.ring.vnodes.rotate (s + 1)).map VNode.nodeID)).filter (· != nodeID)).take n.toNat) := by
  rw [getSuccessorNodes, HashRing.getRingTokens, walkFrom_eq hs hn, ← map_range'_succ, List.map_map]
  rfl

theorem getPredecessorNodes_eq (hs : firstToken m.ring.vnodes nodeID = some s) {n : Int} (hn : 0 ≤ n) :
    m.getPredecessorNodes nodeID n =
      some (((firstSeen ((m.ring.vnodes.rotate s).reverse.map VNode.nodeID)).filter (· != nodeID)).take n.toNat) := by
  rw [getPredecessorNodes, HashRing.getRingTokens, walkFrom_eq hs hn, ← map_range'_pred, List.map_map]
  rfl

/-! ### On a ring reached from `NewHashRing` -/

/-- What a neighbour list holds: distinct nodes of the ring other than the node itself, `n` of
them or all the others when there are fewer. -/
def Neighbours (r : HashRing) (nodeID : String) (n : Int) (nodes : List String) : Prop :=
  nodes.Nodup ∧ nodeID ∉ nodes ∧ (∀ y ∈ nodes, y ∈ r.nodeVNodes) ∧ nodes.length = min n.toNat (r.size - 1)

section Ring

variable {hash : String → UInt64} {r : HashRing} {nodeID : String}

/-- A walk over all the tokens, in any order, meets each node of a canonical ring; the first
meetings of the others are `size - 1` distinct nodes of the ring. -/
theorem neighbours_of_perm (c : HashRing.Canonical hash r) (hV : 0 < r.virtualCount)
    (hx : nodeID ∈ r.nodeVNodes) {w : List VNode} (hw : w.Perm r.vnodes) (n : Int) :
    Neighbours r nodeID n (((firstSeen (w.map VNode.nodeID)).filter (· != nodeID)).take n.toNat) := by
  have hperm : (firstSeen (w.map VNode.nodeID)).Perm r.nodeVNodes.keys :=
    (List.perm_ext_iff_of_nodup (nodup_firstSeen _) (HashRing.nodup_keys r)).mpr fun id => by
      rw [mem_firstSeen, (hw.map _).mem_iff, c.mem_owners hV, AList.mem_keys]
  have hlen : ((firstSeen (w.map VNode.nodeID)).filter (· != nodeID)).length = r.size - 1 := by
    rw [(hperm.filter _).length_eq, ← (HashRing.nodup_keys r).erase_eq_filter,
      List.length_erase_of_mem (AList.mem_keys.mpr hx)]
    simp [HashRing.size, AList.keys, List.keys]
  refine ⟨((nodup_firstSeen _).filter _).sublist (List.take_sublist _ _), fun h => ?_, fun y hy => ?_, ?_⟩
  · simpa using (List.mem_filter.mp (List.mem_of_mem_take h)).2
  · exact AList.mem_keys.mp (hperm.subset (List.mem_of_mem_filter (List.mem_of_mem_take hy)))
  · rw [List.length_take, hlen]

end Ring

/-- **Neighbour lists are correct.** On a ring reached from `NewHashRing`, for a node of the ring
and a count `n` from zero up, `GetSuccessorNodes` and `GetPredecessorNodes` return `min n
(size - 1)` distinct nodes of the ring other than the node: the first ones met walking from the
node's first token clockwise and back. Every negative count panics. -/
theorem neighbours_correct (hash : String → UInt64) (s : SortByHash) (virtualNodes : Int)
    {ops : List HashRing.Op} {r : HashRing} (hr : HashRing.run hash s (HashRing.new virtualNodes) ops = some r)
    {nodeID : String} (hx : nodeID ∈ r.nodeVNodes) :
    ∃ first, firstToken r.vnodes nodeID = some first ∧
      (∀ n : Int, 0 ≤ n →
        (new r).getSuccessorNodes nodeID n =
          some (((firstSeen ((r.vnodes.rotate (first + 1)).map VNode.nodeID)).filter (· != nodeID)).take n.toNat) ∧
        (new r).getPredecessorNodes nodeID n =
          some (((firstSeen ((r.vnodes.rotate first).reverse.map VNode.nodeID)).filter (· != nodeID)).take n.toNat) ∧
        Neighbours r nodeID n (((firstSeen ((r.vnodes.rotate (first + 1)).map VNode.nodeID)).filter (· != nodeID)).take n.toNat) ∧
        Neighbours r nodeID n (((firstSeen ((r.vnodes.rotate first).reverse.map VNode.nodeID)).filter (· != nodeID)).take n.toNat)) ∧
      ∀ n : Int, n < 0 →
        (new r).getSuccessorNodes nodeID n = none ∧ (new r).getPredecessorNodes nodeID n = none := by
  obtain ⟨c, hV⟩ := HashRing.canonical_of_run hr
  obtain ⟨first, hfirst⟩ := Option.isSome_iff_exists.mp
    (firstToken_isSome ((c.mem_owners hV).mpr hx) : (firstToken r.vnodes nodeID).isSome)
  have hne : r.vnodes.isEmpty = false := by
    obtain ⟨hlt, -⟩ := nodeID_of_firstToken hfirst
    exact List.isEmpty_eq_false_iff_exists_mem.mpr ⟨_, List.getElem_mem hlt⟩
  have hpanic : ∀ n : Int, n < 0 → ∀ index, walkFrom r.vnodes nodeID n index = none :=
    fun n hn index => by rw [walkFrom, hne, if_neg Bool.false_ne_true, hfirst]; exact if_pos hn
  exact ⟨first, hfirst, fun n hn => ⟨getSuccessorNodes_eq _ hfirst hn, getPredecessorNodes_eq _ hfirst hn,
    neighbours_of_perm c hV hx (List.rotate_perm _ _) n,
    neighbours_of_perm c hV hx ((List.reverse_perm _).trans (List.rotate_perm _ _)) n⟩,
    fun n hn => ⟨hpanic n hn _, hpanic n hn _⟩⟩

/-- A stand-in hash that puts the tokens of `a`, `b` and `c` round the ring as `a b a c b c`, the
key `j` before them all, and the key `k` between `b`'s first token and `a`'s second. -/
def tableHash (key : String) : UInt64 :=
  if key = "a#vnode0" then 10 else if key = "b#vnode0" then 20 else if key = "a#vnode1" then 30
  else if key = "c#vnode0" then 40 else if key = "b#vnode1" then 50 else if key = "c#vnode1" then 60
  else if key = "j" then 5 else 25

/-- The ring of `a`, `b` and `c`, two tokens each. -/
def threeNodes : HashRing :=
  ((((HashRing.new 2).addNode tableHash HashRing.insertionSortByHash "a").addNode tableHash
    HashRing.insertionSortByHash "b").addNode tableHash HashRing.insertionSortByHash "c")

/-- On the ring of `a`, `b` and `c`: `a`'s successor is `b` and its predecessor is `c`; asking for
`-2` of them panics. -/
theorem neighbours_three_nodes :
    HashRing.run tableHash HashRing.insertionSortByHash (HashRing.new 2) [.addNode "a", .addNode "b", .addNode "c"] =
        some threeNodes ∧ "a" ∈ threeNodes.nodeVNodes ∧
      (new threeNodes).getSuccessorNodes "a" 1 = some ["b"] ∧
      (new threeNodes).getPredecessorNodes "a" 1 = some ["c"] ∧
      (new threeNodes).getSuccessorNodes "a" (-2) = none := by
  have hr : HashRing.run tableHash HashRing.insertionSortByHash (HashRing.new 2)
      [.addNode "a", .addNode "b", .addNode "c"] = some threeNodes := rfl
  have hx : "a" ∈ threeNodes.nodeVNodes := by decide
  obtain ⟨first, hf, hpos, hneg⟩ := neighbours_correct tableHash HashRing.insertionSortByHash 2 hr hx
  obtain ⟨hs, hp, -⟩ := hpos 1 (by decide)
  have h0 : first = 0 := Option.some.inj (hf.symm.trans rfl)
  subst h0
  exact ⟨hr, hx, hs.trans rfl, hp.trans rfl, (hneg (-2) (by decide)).1⟩

/-! ### Successors and preference lists -/

/-- **A node's successors follow it in the preference lists of the keys in its first token's
range.** On a sorted ring, take a key whose walk starts at the node's first token, and any count
`n` from zero up. Then `GetNodes` for `n + 1` nodes returns the node followed by its
`GetSuccessorNodes`. -/
theorem getNodes_eq_cons_successors {hash : String → UInt64} {r : HashRing}
    (hs : r.vnodes.Sorted fun a b => a.hash ≤ b.hash) {nodeID : String} {first : Nat}
    (hf : firstToken r.vnodes nodeID = some first) {key : String}
    (hk : HashRing.firstAtOrAfter r.vnodes (hash key) = first) {n : Int} (hn : 0 ≤ n) :
    ∃ successors, (new r).getSuccessorNodes nodeID n = some successors ∧
      HashRing.getNodes hash r key (n.toNat + 1) = .ok (nodeID :: successors) := by
  obtain ⟨hlt, hid⟩ := nodeID_of_firstToken hf
  refine ⟨_, getSuccessorNodes_eq _ hf hn, ?_⟩
  have hne : r.vnodes ≠ [] := List.ne_nil_of_length_pos (by omega)
  obtain ⟨rest, hrot⟩ : ∃ rest, r.vnodes.rotate first = r.vnodes[first] :: rest :=
    ⟨_, by rw [List.rotate_eq_drop_append_take hlt.le, List.drop_eq_getElem_cons hlt, List.cons_append]⟩
  have hrot' : r.vnodes.rotate (first + 1) = rest ++ [r.vnodes[first]] := by
    rw [← List.rotate_rotate, hrot, List.rotate_cons_succ, List.rotate_zero]
  rw [HashRing.getNodes_eq hs, if_neg (fun he => hne (List.isEmpty_iff.mp he)), HashRing.clockwise, hk,
    hrot, hrot', List.map_cons, List.map_append, List.map_singleton, hid, firstSeen, List.take_succ_cons,
    ← firstSeen_filter, ← firstSeen_filter, List.filter_append]
  simp

/-- The key `j` falls in `a`'s first range: its replicas are `a` and `a`'s successor `b`. -/
theorem getNodes_eq_cons_successors_first_range :
    threeNodes.vnodes.Sorted (fun a b => a.hash ≤ b.hash) ∧ firstToken threeNodes.vnodes "a" = some 0 ∧
      HashRing.firstAtOrAfter threeNodes.vnodes (tableHash "j") = 0 ∧ (0 : Int) ≤ 1 ∧
      HashRing.getNodes tableHash threeNodes "j" 2 = .ok ["a", "b"] := by
  have hs : threeNodes.vnodes.Sorted (fun a b => a.hash ≤ b.hash) := by decide
  have hf : firstToken threeNodes.vnodes "a" = some 0 := rfl
  have hk : HashRing.firstAtOrAfter threeNodes.vnodes (tableHash "j") = 0 := rfl
  obtain ⟨successors, hsucc, hg⟩ := getNodes_eq_cons_successors hs hf hk (n := 1) (by decide)
  obtain rfl : successors = ["b"] := Option.some.inj (hsucc.symm.trans rfl)
  exact ⟨hs, hf, hk, by decide, hg⟩

/-- With two tokens a node, that fails for a key in another range of the node: on the ring of
`a`, `b` and `c`, the key `k` falls in `a`'s second range, so `GetNode` answers `a`. Its
replicas are `a` and `c`, while `a`'s successor is `b`. -/
theorem successors_not_replicas :
    (new threeNodes).getSuccessorNodes "a" 1 = some ["b"] ∧
      HashRing.getNode tableHash threeNodes "k" = .ok "a" ∧
      HashRing.getNodes tableHash threeNodes "k" 2 = .ok ["a", "c"] :=
  ⟨rfl, rfl, rfl⟩

end VNodeManager

end MiniDynamo.Ring
