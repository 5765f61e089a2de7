import MiniDynamo.Gossip.Agreement

/-! The gossip protocol between nodes (`protocol.go`), and a cluster of nodes running it.

Each node runs the failure detector of `Detector`, one read or write of `checkMembers` at a time
(`Detector.checkStep`), and two loops of the protocol. The gossip loop
sends a peer the node's whole list, as `ToGossipFormat` renders it; the peers are the seed
addresses `main.go` gave it. The receive loop handles one message at a time (`handleMessage`):
the detector's `RecordHeartbeat` for the sender, then `Merge` of the gossiped members.

`RecordHeartbeat` calls the list's `RecordHeartbeat`, which makes the sender alive, and then
`Revive` when it had read the sender as not alive. These are two calls, and the detector can
run between them, so here they are two steps of the receive loop (`Receiving`). Taken together
and with nothing between them, they are the detector's heartbeat step (`hear_then_revive`).

A cluster is the nodes and every message ever sent. A message can be delivered to its target at
any time, any number of times or never, so the runs include every loss, duplication and
reordering of UDP datagrams. JSON encoding and decoding of a message is the identity: the
gossiped map comes back as a map, which `Merge` walks in an order of its own. -/
namespace MiniDynamo.Gossip

open Ring

/-- `NodeState.String`. -/
def NodeState.toString : NodeState → String
  | .alive => "alive"
  | .suspect => "suspect"
  | .dead => "dead"

/-- `Merge` reads back every state `ToGossipFormat` writes. -/
@[simp] theorem stateOf_toString (s : NodeState) : stateOf s.toString = s := by
  cases s <;> rfl

/-- `types.GossipMessage`: who sent it, and what it says of each member. Its `Timestamp` is
read by no one. -/
structure GossipMessage where
  fromNode : String
  members : AList fun _ : String => NodeInfo

namespace MembershipList

/-- `ToGossipFormat`: each member with its address, its state as text, and its heartbeat time
as `LastSeen`. -/
def toGossipFormat (ml : MembershipList) : AList fun _ : String => NodeInfo :=
  ⟨ml.members.entries.map fun e =>
      ⟨e.1, ⟨(ml.addresses.lookup e.1).getD "", e.2.state.toString, e.2.lastHeartbeat⟩⟩,
    by simpa [List.NodupKeys, List.keys, Function.comp_def] using ml.members.nodupKeys⟩

theorem mem_toGossipFormat {ml : MembershipList} {nodeID : String} :
    nodeID ∈ ml.toGossipFormat ↔ nodeID ∈ ml.members := by
  simp [toGossipFormat, AList.mem_keys, AList.keys, List.keys, Function.comp_def]

end MembershipList

/-! ### A node -/

/-- Where a node's receive loop is in `handleMessage`. -/
inductive Receiving
  /-- Waiting for the next datagram. -/
  | idle
  /-- The list has recorded the heartbeat of `nodeID` at `since`, and found it not alive before:
  `Revive` is next, then `Merge` of `members`. -/
  | revive (nodeID : String) (since : Int) (members : AList fun _ : String => NodeInfo)
  /-- `Merge` of `members` is next. -/
  | merge (members : AList fun _ : String => NodeInfo)

/-- The gossiped members the receive loop has still to merge. -/
def Receiving.members : Receiving → Option (AList fun _ : String => NodeInfo)
  | .idle => none
  | .revive _ _ members => some members
  | .merge members => some members

/-- A running node: its detector, membership list and ring, where `checkMembers` is, and its
receive loop. -/
structure Node where
  detector : Detector
  checking : Checking
  receiving : Receiving

/-- A step a node takes on its own. -/
inductive Node.Input
  /-- The detector's ticker fires (`checkMembers` starts). -/
  | tick (now : Int) (order : List String)
  /-- `checkMembers` takes its next step: a read of a member's state, or `UpdateState`. -/
  | check
  /-- The receive loop's `Revive`. -/
  | revive (now : Int)
  /-- The receive loop's `Merge`, walking the gossiped map in the order of `other`. -/
  | merge (other : AList fun _ : String => NodeInfo)

namespace Node

variable (w : Wiring)

/-- A node as `main.go` starts it at `t₀`: `NewMembershipList`, and a ring holding the node
alone, added by `RegisterNode` and again by `main`. -/
def start (virtualNodes : Int) (nodeID : String) (t₀ : Int) : Node :=
  ⟨⟨.new nodeID t₀,
      ((HashRing.new virtualNodes).addNode w.hash w.sort nodeID).addNode w.hash w.sort nodeID,
      t₀, t₀, []⟩, .next, .idle⟩

/-- A step of the node's own; `none` when it cannot be taken. A tick starts only once the last
one's loop is done. -/
def step (n : Node) : Input → Option Node
  | .tick now order =>
    if n.checking = .next then (n.detector.step w (.tick now order)).map fun d => { n with detector := d }
    else none
  | .check => (n.detector.checkStep w n.checking).map fun r => { n with detector := r.1, checking := r.2 }
  | .revive now =>
    match n.receiving with
    | .revive nodeID _ members =>
      (n.detector.step w (.revive nodeID now)).map fun d => { n with detector := d, receiving := .merge members }
    | _ => none
  | .merge other =>
    match n.receiving with
    | .merge members =>
      if other.entries.Perm members.entries then
        (n.detector.step w (.merge other)).map fun d => { n with detector := d, receiving := .idle }
      else none
    | _ => none

/-- The receive loop reads a message and `handleMessage` starts: the list's `RecordHeartbeat`
for the sender, which `Revive` follows if the sender was known and not alive. -/
def hear (n : Node) (msg : GossipMessage) (now : Int) : Option Node :=
  match n.receiving with
  | .idle =>
    if n.detector.clock ≤ now then
      some { n with
        detector := { n.detector with
          clock := now, membership := n.detector.membership.recordHeartbeat msg.fromNode now }
        receiving :=
          match n.detector.membership.getMember msg.fromNode with
          | some m => if m.state ≠ .alive then .revive msg.fromNode now msg.members else .merge msg.members
          | none => .merge msg.members }
    else none
  | _ => none

/-- A tick is prompt when, if the receive loop is between `RecordHeartbeat` and `Revive`, its
clock reading is at most `deadTimeout` after the heartbeat. -/
def prompt (n : Node) : Input → Bool
  | .tick now _ =>
    match n.receiving with
    | .revive _ since _ => decide (now ≤ since + w.deadTimeout)
    | _ => true
  | _ => true

/-! ### A node's runs -/

/-- What can happen at a node: a step of its own, or its receive loop reading a message. -/
inductive Event
  | input (input : Input)
  | hear (msg : GossipMessage) (now : Int)

/-- A tick starts a new pass of `checkMembers`. -/
def Event.isTick : Event → Bool
  | .input (.tick ..) => true
  | _ => false

/-- An event at the node; `none` when it cannot happen. -/
def exec (n : Node) : Event → Option Node
  | .input input => n.step w input
  | .hear msg now => n.hear msg now

/-- Events one after another. -/
def run : Node → List Event → Option Node
  | n, [] => some n
  | n, e :: es => (n.exec w e).bind fun n => run n es

variable {w}

section Inversion

variable {n n' : Node}

/-- What the receive loop's `Revive` can do: revive the member it was left to revive, and leave the
gossiped members to merge. -/
theorem step_revive_eq_some {now : Int} (h : n.step w (.revive now) = some n') :
    ∃ x since members d, n.receiving = .revive x since members ∧
      n.detector.step w (.revive x now) = some d ∧ n' = ⟨d, n.checking, .merge members⟩ := by
  simp only [step] at h
  split at h
  next x since members hx =>
    obtain ⟨d, hd, rfl⟩ := Option.map_eq_some'.mp h
    exact ⟨x, since, members, d, hx, hd, rfl⟩
  · cases h

/-- What the receive loop's `Merge` can do: merge the gossiped members, in an order of the map's
own, and go back to waiting. -/
theorem step_merge_eq_some {other : AList fun _ : String => NodeInfo}
    (h : n.step w (.merge other) = some n') :
    ∃ members d, n.receiving = .merge members ∧ other.entries.Perm members.entries ∧
      n.detector.step w (.merge other) = some d ∧ n' = ⟨d, n.checking, .idle⟩ := by
  simp only [step] at h
  split at h
  next members hx =>
    split at h
    next hperm =>
      obtain ⟨d, hd, rfl⟩ := Option.map_eq_some'.mp h
      exact ⟨members, d, hx, hperm, hd, rfl⟩
    · cases h
  · cases h

/-- What hearing a message can do: the list records the sender's heartbeat, and `Revive` is next
only if the sender was known and not alive; `Merge` of the members comes in either case. -/
theorem hear_eq_some {msg : GossipMessage} {now : Int} (h : n.hear msg now = some n') :
    n.receiving = .idle ∧ ∃ receiving,
      n' = ⟨{ n.detector with
          clock := now, membership := n.detector.membership.recordHeartbeat msg.fromNode now },
        n.checking, receiving⟩ ∧
      (receiving = .merge msg.members ∨ ∃ m, n.detector.membership.getMember msg.fromNode = some m ∧
        m.state ≠ .alive ∧ receiving = .revive msg.fromNode now msg.members) := by
  unfold hear at h
  split at h
  next hi =>
    split at h
    · cases h
      refine ⟨hi, _, rfl, ?_⟩
      split
      next m hm =>
        split
        next hs => exact .inr ⟨m, hm, hs, rfl⟩
        · exact .inl rfl
      · exact .inl rfl
    · cases h
  · cases h

end Inversion

/-- **The receive loop refines the detector's heartbeat.** With nothing run between them, the
list's `RecordHeartbeat` and the `Revive` after it do what the detector's `RecordHeartbeat`
does as one call, and leave the gossiped members to merge. -/
theorem hear_then_revive (n : Node) (msg : GossipMessage) (now : Int) (h : n.receiving = .idle) :
    ((n.hear msg now).bind fun n₁ =>
        match n₁.receiving with
        | .revive .. => n₁.step w (.revive now)
        | _ => some n₁) =
      (n.detector.step w (.heartbeat msg.fromNode now)).map fun d => ⟨d, n.checking, .merge msg.members⟩ := by
  obtain ⟨d, c, r⟩ := n
  cases h
  unfold hear
  by_cases hc : d.clock ≤ now
  · simp only [if_pos hc, Detector.step, FailureDetector.recordHeartbeat, Option.some_bind]
    cases hm : d.membership.getMember msg.fromNode with
    | none => simp [MembershipList.recordHeartbeat, hm, Detector.apply]
    | some m =>
      by_cases hs : m.state = .alive
      · simp [hs, Detector.apply]
      · simp [hs, step, Detector.step, Detector.apply]
  · simp [hc, Detector.step]

end Node

/-! ### The cluster -/

/-- The nodes, by id, and every message sent so far, with the node it was sent to. -/
structure Cluster where
  nodes : String → Node
  sent : List (String × GossipMessage)

/-- A step of the cluster. -/
inductive Cluster.Action
  /-- A node steps on its own. -/
  | step (node : String) (input : Node.Input)
  /-- The receive loop of `node` reads the `k`-th message sent, if it was sent to `node`. -/
  | deliver (node : String) (k : Nat) (now : Int)
  /-- `gossipToRandomPeer`: `node` sends its list to `target`. -/
  | gossip (node target : String)

namespace Cluster

variable (w : String → Wiring) (peers : String → List String)

/-- The cluster as `main.go` starts each node, before any message. -/
def start (virtualNodes t₀ : String → Int) : Cluster :=
  ⟨fun i => Node.start (w i) (virtualNodes i) i (t₀ i), []⟩

/-- The cluster with node `i` replaced. -/
def set (c : Cluster) (i : String) (n : Node) : Cluster :=
  { c with nodes := fun j => if j = i then n else c.nodes j }

/-- A step; `none` when it cannot be taken. A node gossips only to its peers, the nodes at its
seed addresses. -/
def step (c : Cluster) : Action → Option Cluster
  | .step i input => ((c.nodes i).step (w i) input).map (c.set i)
  | .deliver i k now =>
    match c.sent[k]? with
    | some (target, msg) => if target = i then ((c.nodes i).hear msg now).map (c.set i) else none
    | none => none
  | .gossip i target =>
    if target ∈ peers i then
      some { c with sent := c.sent ++ [(target, ⟨i, (c.nodes i).detector.membership.toGossipFormat⟩)] }
    else none

/-- Steps one after another. -/
def run : Cluster → List Action → Option Cluster
  | c, [] => some c
  | c, a :: as => (c.step w peers a).bind fun c => run c as

/-- Every tick of a run is prompt at the node it is taken at. -/
def Prompt : Cluster → List Action → Bool
  | _, [] => true
  | c, a :: as =>
    (match a with
      | .step i input => (c.nodes i).prompt (w i) input
      | _ => true) &&
    match c.step w peers a with
    | some c' => Prompt c' as
    | none => true

variable {w peers}

@[simp] theorem nodes_set (c : Cluster) (i : String) (n : Node) (j : String) :
    (c.set i n).nodes j = if j = i then n else c.nodes j := rfl

@[simp] theorem sent_set (c : Cluster) (i : String) (n : Node) : (c.set i n).sent = c.sent := rfl

/-- What a step can do: one node steps on its own, or hears a message sent to it, or a node
sends its list to one of its peers. -/
theorem step_cases {c c' : Cluster} {a : Action} (h : c.step w peers a = some c') :
    (∃ i input n, a = .step i input ∧ (c.nodes i).step (w i) input = some n ∧ c' = c.set i n) ∨
    (∃ i k now msg n, a = .deliver i k now ∧ c.sent[k]? = some (i, msg) ∧
      (c.nodes i).hear msg now = some n ∧ c' = c.set i n) ∨
    (∃ i target, a = .gossip i target ∧ target ∈ peers i ∧
      c' = { c with sent := c.sent ++ [(target, ⟨i, (c.nodes i).detector.membership.toGossipFormat⟩)] }) := by
  cases a with
  | step i input =>
    obtain ⟨n, hn, rfl⟩ := Option.map_eq_some'.mp h
    exact .inl ⟨i, input, n, rfl, hn, rfl⟩
  | deliver i k now =>
    simp only [step] at h
    split at h
    next target msg hk =>
      split at h
      next ht =>
        subst ht
        obtain ⟨n, hn, rfl⟩ := Option.map_eq_some'.mp h
        exact .inr (.inl ⟨target, k, now, msg, n, rfl, hk, hn, rfl⟩)
      · cases h
    · cases h
  | gossip i target =>
    simp only [step] at h
    split at h
    · exact .inr (.inr ⟨i, target, rfl, ‹_›, (Option.some.inj h).symm⟩)
    · cases h

end Cluster

end MiniDynamo.Gossip
