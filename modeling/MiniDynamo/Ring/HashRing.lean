import Mathlib.Data.List.AList
import Mathlib.Data.List.Sort

/-! The consistent-hash ring (`hash_ring.go`).

The ring keeps its virtual nodes in a list sorted by hash, and for each physical node the hashes
of its virtual nodes. `AddNode` appends a node's `virtualCount` virtual nodes and sorts the list
again with `sort.Slice`; `RemoveNode` filters them out. `GetNode` and `GetNodes` binary-search the
list for a key's hash and walk clockwise from there.

Two things the code calls are parameters here: MurmurHash3 (`hash`), and `sort.Slice`
(`SortByHash`), of which only its contract is used: its result is a permutation of its input,
sorted by hash. The order it gives to virtual nodes of equal hash is the library's. -/
namespace MiniDynamo.Ring

/-- `VNode`: a virtual node's position on the ring, its physical node, and its index among that
node's virtual nodes. -/
structure VNode where
  hash : UInt64
  nodeID : String
  vnodeIdx : Nat
  deriving DecidableEq, Repr, Inhabited

/-- `sort.Slice(vnodes, by Hash)`, as far as the ring relies on it. -/
structure SortByHash where
  sort : List VNode → List VNode
  perm : ∀ l, (sort l).Perm l
  sorted : ∀ l, (sort l).Sorted fun a b => a.hash ≤ b.hash

/-- `HashRing`. -/
structure HashRing where
  vnodes : List VNode
  nodeVNodes : AList fun _ : String => List UInt64
  virtualCount : Nat

namespace HashRing

section Ops

variable (hash : String → UInt64)

/-- `NewHashRing`: fewer than one virtual node per node means the default, 150. -/
def new (virtualNodes : Int) : HashRing :=
  ⟨[], ∅, if virtualNodes < 1 then 150 else virtualNodes.toNat⟩

/-- The key `fmt.Sprintf("%s#vnode%d", nodeID, i)` hashes for a virtual node. -/
def vnodeKey (nodeID : String) (i : Nat) : String := nodeID ++ "#vnode" ++ toString i

/-- The virtual nodes `AddNode` creates for `nodeID`, in the order it creates them. -/
def tokens (virtualCount : Nat) (nodeID : String) : List VNode :=
  (List.range virtualCount).map fun i => ⟨hash (vnodeKey nodeID i), nodeID, i⟩

/-- `AddNode`: nothing for a node already there; otherwise its virtual nodes are appended and the
list sorted again. -/
def addNode (s : SortByHash) (r : HashRing) (nodeID : String) : HashRing :=
  if nodeID ∈ r.nodeVNodes then r else
  let vnodes := tokens hash r.virtualCount nodeID
  { r with vnodes := s.sort (r.vnodes ++ vnodes),
           nodeVNodes := r.nodeVNodes.insert nodeID (vnodes.map VNode.hash) }

/-- `RemoveNode`: nothing for a node not there; otherwise its virtual nodes are filtered out.
The new slice is made with capacity `len(vnodes) - virtualCount`, and `make` panics (`none`)
when that is negative. -/
def removeNode (r : HashRing) (nodeID : String) : Option HashRing :=
  if nodeID ∉ r.nodeVNodes then some r else
  if (r.vnodes.length : Int) - r.virtualCount < 0 then none else
  some { r with vnodes := r.vnodes.filter (·.nodeID != nodeID),
                nodeVNodes := r.nodeVNodes.erase nodeID }

/-- The loop of `sort.Search`: bisection on `[i, j)`, each turn shrinking it by at least one,
so `fuel ≥ j - i` turns always reach its end. -/
def searchLoop (f : Nat → Bool) : Nat → Nat → Nat → Nat
  | 0, i, _ => i
  | fuel + 1, i, j =>
    if i < j then
      let h := (i + j) / 2
      if !f h then searchLoop f fuel (h + 1) j else searchLoop f fuel i h
    else i

/-- `sort.Search(n, f)`: the least `i < n` with `f i`, found by bisection. -/
def search (f : Nat → Bool) (i j : Nat) : Nat := searchLoop f (j - i) i j

/-- Where `GetNode` and `GetNodes` start for a hash: the first virtual node at or after it,
wrapping round to the first. -/
def startIdx (r : HashRing) (h : UInt64) : Nat :=
  let idx := search (fun i => decide ((r.vnodes.getD i default).hash ≥ h)) 0 r.vnodes.length
  if idx ≥ r.vnodes.length then 0 else idx

/-- `GetNode`. -/
def getNode (r : HashRing) (key : String) : Except String String :=
  if r.vnodes.isEmpty then .error "no nodes in ring" else
  .ok (r.vnodes.getD (r.startIdx (hash key)) default).nodeID

/-- `GetNodes`: the first `n` distinct physical nodes clockwise from the key's position. -/
def getNodes (r : HashRing) (key : String) (n : Nat) : Except String (List String) :=
  if r.vnodes.isEmpty then .error "no nodes in ring" else
  let start := r.startIdx (hash key)
  .ok ((List.range r.vnodes.length).foldl (fun nodes i =>
    if nodes.length < n then
      let nodeID := (r.vnodes.getD ((start + i) % r.vnodes.length) default).nodeID
      if nodeID ∈ nodes then nodes else nodes ++ [nodeID]
    else nodes) [])

/-- A call that changes the ring. -/
inductive Op
  | addNode (nodeID : String)
  | removeNode (nodeID : String)
  deriving DecidableEq, Repr

/-- Calls one after another; a panic ends the run (`none`). -/
def run (s : SortByHash) : HashRing → List Op → Option HashRing
  | r, [] => some r
  | r, .addNode nodeID :: ops => run s (addNode hash s r nodeID) ops
  | r, .removeNode nodeID :: ops =>
    match removeNode r nodeID with
    | none => none
    | some r => run s r ops

end Ops

/-- `Size`. -/
def size (r : HashRing) : Nat := r.nodeVNodes.entries.length

/-- `HasNode`. -/
def hasNode (r : HashRing) (nodeID : String) : Bool := decide (nodeID ∈ r.nodeVNodes)

/-- `GetRingTokens`: a copy of the virtual nodes. -/
def getRingTokens (r : HashRing) : List VNode := r.vnodes

/-- `GetAllNodes`, in the map's iteration order. -/
def getAllNodes (r : HashRing) : List String := r.nodeVNodes.keys

/-- `IsEmpty`. -/
def isEmpty (r : HashRing) : Bool := r.vnodes.isEmpty

end HashRing

end MiniDynamo.Ring
