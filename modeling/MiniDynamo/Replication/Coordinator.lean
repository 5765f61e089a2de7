import MiniDynamo.Replication.Query
import MiniDynamo.Ring.HashRing

/-! The coordinator (`coordinator.go`) and the cluster it runs in.

Any node coordinates a request. `Put` stamps the value with the coordinator's clock, sends it to
the key's preference list (its first `N` nodes clockwise on the ring) and succeeds when enough of
them acknowledge; `Get` reads from the same list, a remote node reading the key its query parses
to (`fetch`), answers with the newest of the live versions it got, and leaves a read repair of
that version to every node of the list. `DELETE /kv/k` only writes a tombstone in the engine of
the node that takes it. The engines are the abstract `Store`, whose calls never fail.

`Cluster` holds every node's engine and the requests in flight: the replication requests whose
answer a `Put` did not wait for (they timed out, yet may still arrive) and the work of the read
repairs `Get` leaves to a goroutine. A step is a whole `Put`, `Get` or `DELETE`, or the handling
of one request in flight, in any order. -/
namespace MiniDynamo.Replication

open Storage Ring

/-- `types.ConsistencyLevel`; any other text behaves as `quorum`. -/
inductive Consistency
  | one
  | quorum
  | all
  deriving DecidableEq, Repr

/-- The fields of `config.Config` that `Validate` and the coordinator read. -/
structure Config where
  nodeID : String
  port : Int
  dataDir : String
  replicationFactor : Int
  readQuorum : Int
  writeQuorum : Int
  virtualNodes : Int
  deriving DecidableEq, Repr

/-- `Validate`: the first check that fails. `W + R ≤ N` is only warned about. -/
def Config.validate (c : Config) : Except String Unit :=
  if c.nodeID = "" then .error "node_id is required"
  else if c.port ≤ 0 ∨ c.port > 65535 then .error ("invalid port: " ++ toString c.port)
  else if c.dataDir = "" then .error "data_dir is required"
  else if c.replicationFactor < 1 then .error "replication_factor must be at least 1"
  else if c.readQuorum < 1 ∨ c.readQuorum > c.replicationFactor then
    .error "read_quorum must be between 1 and replication_factor"
  else if c.writeQuorum < 1 ∨ c.writeQuorum > c.replicationFactor then
    .error "write_quorum must be between 1 and replication_factor"
  else if c.virtualNodes < 1 then .error "virtual_nodes must be at least 1"
  else .ok ()

/-- `sort.Slice(responses, newest first)`, as far as `Get` relies on it: its result is a
permutation of its input, sorted by timestamp from the newest. -/
structure SortByTimestamp where
  sort : List KeyValueEntry → List KeyValueEntry
  perm : ∀ l, (sort l).Perm l
  sorted : ∀ l, (sort l).Sorted fun a b => b.timestamp.toInt ≤ a.timestamp.toInt

/-- The first of the sorted responses is the newest. -/
theorem SortByTimestamp.head_newest (σ : SortByTimestamp) {l rest : List KeyValueEntry}
    {latest : KeyValueEntry} (h : σ.sort l = latest :: rest) :
    latest ∈ l ∧ ∀ e ∈ l, e.timestamp.toInt ≤ latest.timestamp.toInt := by
  have hs := σ.sorted l
  rw [h, List.sorted_cons] at hs
  have hp : ∀ e, e ∈ latest :: rest ↔ e ∈ l := fun e => h ▸ (σ.perm l).mem_iff
  refine ⟨(hp latest).mp (.head _), fun e he => ?_⟩
  rcases List.mem_cons.mp ((hp e).mpr he) with rfl | he
  · exact le_refl _
  · exact hs.1 e he

/-- What every node's coordinator shares: MurmurHash3, the ring, the sort, and the
configuration (whose `NodeID` is each node's own). -/
structure Setup where
  hash : String → UInt64
  ring : HashRing
  sort : SortByTimestamp
  config : Config

/-- A request in flight. -/
inductive Message
  /-- `POST /internal/replicate` of an entry to a node. -/
  | replicate (target : String) (entry : KeyValueEntry)
  /-- The local branch of a read repair, still to run on its node. -/
  | repair (node : String) (latest : KeyValueEntry)
  deriving DecidableEq, Repr

namespace Message

/-- The node that handles a request. -/
def target : Message → String
  | .replicate target _ => target
  | .repair node _ => node

/-- What handling a request does to its node's engine. -/
def handle : Message → Store → Store
  | .replicate _ entry, s => handleReplication s entry
  | .repair _ latest, s => repairLocal s latest

/-- The entry a request carries. -/
def entry : Message → KeyValueEntry
  | .replicate _ entry => entry
  | .repair _ latest => latest

theorem handle_ne (m : Message) (s : Store) {k : Bytes} (hk : k ≠ keyBytes m.entry.key) :
    m.handle s k = s k := by
  cases m with
  | replicate _ e => exact handleReplication_ne s hk
  | repair _ e => exact repairLocal_ne s hk

/-- Under its own key a request for a value leaves what was there, or that value. -/
theorem handle_live (m : Message) (s : Store) (hd : m.entry.isDeleted = false) :
    m.handle s (keyBytes m.entry.key) = s (keyBytes m.entry.key) ∨
      m.handle s (keyBytes m.entry.key) = some ⟨m.entry.value, m.entry.timestamp, false⟩ := by
  cases m with
  | replicate _ e => exact .inr (handleReplication_live s hd)
  | repair _ e => exact repairLocal_at s e

end Message

/-- Every node's engine, and the requests in flight. -/
structure Cluster where
  stores : String → Store
  inflight : List Message

namespace Cluster

/-- A change to one node's engine. -/
def update (c : Cluster) (node : String) (f : Store → Store) : Cluster :=
  { c with stores := Function.update c.stores node (f (c.stores node)) }

@[simp] theorem inflight_update (c : Cluster) (node : String) (f : Store → Store) :
    (c.update node f).inflight = c.inflight := rfl

@[simp] theorem stores_update_self (c : Cluster) (node : String) (f : Store → Store) :
    (c.update node f).stores node = f (c.stores node) :=
  Function.update_same _ _ _

theorem stores_update_ne (c : Cluster) {node n : String} (f : Store → Store) (h : n ≠ node) :
    (c.update node f).stores n = c.stores n :=
  Function.update_noteq h _ _

variable (S : Setup)

/-- `GetNodes(key, ReplicationFactor)` on the ring. -/
def preferenceList (key : String) : Except String (List String) :=
  HashRing.getNodes S.hash S.ring key S.config.replicationFactor.toNat

/-- `getWriteQuorum`. -/
def getWriteQuorum : Consistency → Int
  | .one => 1
  | .all => S.config.replicationFactor
  | .quorum => S.config.writeQuorum

/-- `getReadQuorum`. -/
def getReadQuorum : Consistency → Int
  | .one => 1
  | .all => S.config.replicationFactor
  | .quorum => S.config.readQuorum

/-- `replicateToNodes` from `self`: its own engine is written at once; a remote node in `acked`
handles the request before the call returns; the requests to the others stay in flight. The
number of successes comes with the cluster. -/
def replicateToNodes (self : String) (acked : List String) (entry : KeyValueEntry) :
    List String → Cluster → Cluster × Nat
  | [], c => (c, 0)
  | nodeID :: nodes, c =>
    if nodeID = self then
      let r := replicateToNodes self acked entry nodes
        (c.update nodeID (·.put (keyBytes entry.key) entry.value entry.timestamp))
      (r.1, r.2 + 1)
    else if nodeID ∈ acked then
      let r := replicateToNodes self acked entry nodes (c.update nodeID (handleReplication · entry))
      (r.1, r.2 + 1)
    else replicateToNodes self acked entry nodes { c with inflight := c.inflight ++ [.replicate nodeID entry] }

/-- `Put` coordinated by `self`, at the coordinator's clock reading `timestamp`. -/
def put (c : Cluster) (self key : String) (value : Bytes) (timestamp : Timestamp)
    (consistency : Consistency) (acked : List String) : Except String Unit × Cluster :=
  match preferenceList S key with
  | .error err => (.error ("failed to get preference list: " ++ err), c)
  | .ok pref =>
    let r := c.replicateToNodes self acked ⟨key, value, timestamp, false⟩ pref
    if (r.2 : Int) < getWriteQuorum S consistency then
      (.error ("quorum not met: got " ++ toString r.2 ++ " acks, needed " ++
        toString (getWriteQuorum S consistency)), r.1)
    else (.ok (), r.1)

/-- What node `nodeID` answers `readFromNodes` from `self` with: the coordinator's own engine
reads the key; a remote node in `responders` answers `fetchFromNode` for it (`fetch`), and the
others time out. -/
def answer (c : Cluster) (self : String) (responders : List String) (key nodeID : String) :
    Option KeyValueEntry :=
  if nodeID = self then read (c.stores nodeID) key
  else if nodeID ∈ responders then fetch (c.stores nodeID) key else none

/-- `readFromNodes` from `self`: the answers of the nodes, in the order of the list. -/
def readFromNodes (c : Cluster) (self : String) (responders : List String) (key : String)
    (nodes : List String) : List (Option KeyValueEntry) :=
  nodes.map (c.answer self responders key)

/-- The work `readRepair` from `self` does, left in flight: the local branch for its own engine,
a replication request for every other node. -/
def readRepair (self : String) (nodes : List String) (latest : KeyValueEntry) : List Message :=
  nodes.map fun nodeID => if nodeID = self then .repair nodeID latest else .replicate nodeID latest

/-- `Get` coordinated by `self`. With no response to sort (a read quorum below one), indexing
the first one panics, and the server's recovery middleware fails the request. -/
def get (c : Cluster) (self key : String) (consistency : Consistency) (responders : List String) :
    Except String (Bytes × Timestamp) × Cluster :=
  match preferenceList S key with
  | .error err => (.error ("failed to get preference list: " ++ err), c)
  | .ok pref =>
    let successful := (c.readFromNodes self responders key pref).filterMap id
    if (successful.length : Int) < getReadQuorum S consistency then (.error "key not found", c)
    else
      match S.sort.sort successful with
      | [] => (.error "index out of range", c)
      | latest :: _ =>
        (.ok (latest.value, latest.timestamp),
          { c with inflight := c.inflight ++ readRepair self pref latest })

/-- `DELETE /kv/k` at `node`: a tombstone in its own engine. -/
def delete (c : Cluster) (node key : String) (timestamp : Timestamp) : Cluster :=
  c.update node (·.delete (keyBytes key) timestamp)

/-- The request in flight at position `i` is handled. -/
def deliver (c : Cluster) (i : Nat) : Option Cluster :=
  c.inflight[i]?.map fun m => { c.update m.target m.handle with inflight := c.inflight.eraseIdx i }

/-! ### What `Put` and a delivery do -/

section Write

variable {S : Setup} {c c' : Cluster} {self : String} {acked : List String}

/-- `replicateToNodes` of a live entry writes it to every node of the list that is the
coordinator or acknowledges; it touches no other node. -/
theorem replicateToNodes_stores {entry : KeyValueEntry} (hd : entry.isDeleted = false)
    (nodes : List String) (c : Cluster) (n : String) :
    (c.replicateToNodes self acked entry nodes).1.stores n =
      if n ∈ nodes ∧ (n = self ∨ n ∈ acked) then
        (c.stores n).put (keyBytes entry.key) entry.value entry.timestamp
      else c.stores n := by
  induction nodes generalizing c with
  | nil => simp [replicateToNodes]
  | cons node nodes ih =>
    unfold replicateToNodes
    by_cases hn : n = node
    · subst hn
      split_ifs <;> simp_all [update, handleReplication, Store.put]
    · split_ifs <;> simp_all [update, Function.update_noteq hn]

/-- It leaves a request in flight for each node of the list that neither is the coordinator
nor acknowledges, and counts the others. -/
theorem replicateToNodes_inflight (entry : KeyValueEntry) (nodes : List String) (c : Cluster) :
    (c.replicateToNodes self acked entry nodes).1.inflight =
        c.inflight ++ (nodes.filter fun n => ¬(n = self ∨ n ∈ acked)).map (.replicate · entry) ∧
      (c.replicateToNodes self acked entry nodes).2 =
        nodes.countP fun n => n = self ∨ n ∈ acked := by
  induction nodes generalizing c with
  | nil => simp [replicateToNodes]
  | cons node nodes ih =>
    unfold replicateToNodes
    split_ifs <;> simp_all [List.filter_cons, List.countP_cons]

/-- A `Put` that succeeds wrote its version to the nodes of the preference list that are the
coordinator or acknowledged, at least as many as the write quorum asks. -/
theorem put_eq_ok {key : String} {value : Bytes} {timestamp : Timestamp}
    {consistency : Consistency}
    (h : c.put S self key value timestamp consistency acked = (.ok (), c')) :
    ∃ pref, preferenceList S key = .ok pref ∧
      getWriteQuorum S consistency ≤ ((pref.countP fun n => n = self ∨ n ∈ acked : Nat) : Int) ∧
      c' = (c.replicateToNodes self acked ⟨key, value, timestamp, false⟩ pref).1 := by
  unfold put at h
  split at h
  · cases h
  next pref hpref =>
    dsimp only at h
    split at h
    · cases h
    next hW =>
      obtain ⟨-, rfl⟩ := Prod.mk.inj h
      refine ⟨pref, hpref, ?_, rfl⟩
      rw [(replicateToNodes_inflight _ pref c).2] at hW
      exact Int.not_lt.mp hW

/-- Whether or not it meets its quorum, a `Put` leaves the cluster as `replicateToNodes` left it,
or unchanged when there is no preference list. -/
theorem put_snd (c : Cluster) (self key : String) (value : Bytes) (timestamp : Timestamp)
    (consistency : Consistency) (acked : List String) :
    (c.put S self key value timestamp consistency acked).2 = c ∨
      ∃ pref, (c.put S self key value timestamp consistency acked).2 =
        (c.replicateToNodes self acked ⟨key, value, timestamp, false⟩ pref).1 := by
  unfold put
  split
  · exact .inl rfl
  · dsimp only
    split <;> exact .inr ⟨_, rfl⟩

theorem deliver_eq_some {i : Nat} (h : c.deliver i = some c') :
    ∃ m, c.inflight[i]? = some m ∧
      c' = { c.update m.target m.handle with inflight := c.inflight.eraseIdx i } := by
  obtain ⟨m, hm, rfl⟩ := Option.map_eq_some'.mp h
  exact ⟨m, hm, rfl⟩

end Write

/-! ### What `Get` answers -/

section Get

variable {S : Setup} {c c' : Cluster} {self key : String}

theorem mem_readFromNodes {responders nodes : List String} {e : KeyValueEntry} :
    e ∈ (c.readFromNodes self responders key nodes).filterMap id ↔
      ∃ n ∈ nodes, c.answer self responders key n = some e := by
  simp [readFromNodes, List.mem_filterMap]

/-- An answer names the key, or the key the remote parsed from the query as JSON carries it. -/
theorem key_of_answer {responders : List String} {n : String} {e : KeyValueEntry}
    (h : c.answer self responders key n = some e) :
    e.key = key ∨ ∃ p, parsedKey key = some p ∧ e.key = jsonString p := by
  unfold answer at h
  split_ifs at h
  · exact .inl ((read_eq_some _).mp h).1
  · obtain ⟨p, hp, -, hkey, -⟩ := fetch_eq_some.mp h
    exact .inr ⟨p, hp, hkey⟩

/-- For a URL-safe key every node that answers reads the key itself. -/
theorem answer_of_urlSafe (h : UrlSafe key) (responders : List String) (n : String) :
    c.answer self responders key n =
      if n = self ∨ n ∈ responders then read (c.stores n) key else none := by
  unfold answer
  by_cases hs : n = self <;> simp [hs, fetch_of_urlSafe _ h]

theorem mem_readFromNodes_of_urlSafe (h : UrlSafe key) {responders nodes : List String}
    {e : KeyValueEntry} :
    e ∈ (c.readFromNodes self responders key nodes).filterMap id ↔
      ∃ n ∈ nodes, (n = self ∨ n ∈ responders) ∧ read (c.stores n) key = some e := by
  simp only [mem_readFromNodes, answer_of_urlSafe h]
  refine exists_congr fun n => and_congr_right fun _ => ?_
  split <;> simp_all

/-- A `Get` that succeeds answers with a live version held by a node of the preference list that
answered, the newest of those, and leaves its read repair in flight. -/
theorem get_eq_ok {consistency : Consistency} {responders : List String} {value : Bytes}
    {timestamp : Timestamp}
    (h : c.get S self key consistency responders = (.ok (value, timestamp), c')) :
    ∃ pref latest, preferenceList S key = .ok pref ∧ latest.value = value ∧
      latest.timestamp = timestamp ∧ latest ∈ (c.readFromNodes self responders key pref).filterMap id ∧
      (∀ e ∈ (c.readFromNodes self responders key pref).filterMap id,
        e.timestamp.toInt ≤ timestamp.toInt) ∧
      getReadQuorum S consistency ≤ ((c.readFromNodes self responders key pref).filterMap id).length ∧
      c' = { c with inflight := c.inflight ++ readRepair self pref latest } := by
  unfold get at h
  split at h
  · cases h
  next pref hpref =>
    dsimp only at h
    split at h
    · cases h
    next hR =>
      split at h
      · cases h
      next latest rest hsort =>
        obtain ⟨hv, rfl⟩ := Prod.mk.inj h
        cases hv
        obtain ⟨hmem, hmax⟩ := S.sort.head_newest hsort
        exact ⟨pref, latest, hpref, rfl, rfl, hmem, hmax, Int.not_lt.mp hR, rfl⟩

/-- A `Get` changes the cluster only when it succeeds. -/
theorem get_snd (c : Cluster) (self key : String) (consistency : Consistency)
    (responders : List String) :
    (c.get S self key consistency responders).2 = c ∨
      ∃ value timestamp, c.get S self key consistency responders =
        (.ok (value, timestamp), (c.get S self key consistency responders).2) := by
  unfold get
  split
  · exact .inl rfl
  · dsimp only
    split
    · exact .inl rfl
    · split
      · exact .inl rfl
      · exact .inr ⟨_, _, rfl⟩

theorem entry_of_mem_readRepair {nodes : List String} {latest : KeyValueEntry} {m : Message}
    (h : m ∈ readRepair self nodes latest) : m.entry = latest := by
  obtain ⟨n, -, rfl⟩ := List.mem_map.mp h
  split <;> rfl

theorem length_readFromNodes_of_urlSafe (h : UrlSafe key) (responders nodes : List String) :
    ((c.readFromNodes self responders key nodes).filterMap id).length =
      nodes.countP fun n => (n = self ∨ n ∈ responders) ∧ (read (c.stores n) key).isSome := by
  rw [readFromNodes, List.filterMap_map, List.length_filterMap_eq_countP]
  congr 1
  funext n
  by_cases hr : n = self ∨ n ∈ responders <;> simp [hr, answer_of_urlSafe h]

end Get

end Cluster

/-- A step of the cluster. -/
inductive Event
  | put (self key : String) (value : Bytes) (timestamp : Timestamp) (consistency : Consistency)
      (acked : List String)
  | get (self key : String) (consistency : Consistency) (responders : List String)
  | delete (node key : String) (timestamp : Timestamp)
  | deliver (i : Nat)
  deriving DecidableEq, Repr

namespace Cluster

variable (S : Setup)

/-- A step; handling a request that is not in flight cannot happen. -/
def step (c : Cluster) : Event → Option Cluster
  | .put self key value timestamp consistency acked =>
    some (c.put S self key value timestamp consistency acked).2
  | .get self key consistency responders => some (c.get S self key consistency responders).2
  | .delete node key timestamp => some (c.delete node key timestamp)
  | .deliver i => c.deliver i

/-- Steps one after another. -/
def run : Cluster → List Event → Option Cluster
  | c, [] => some c
  | c, e :: es => (c.step S e).bind fun c => run c es

end Cluster

end MiniDynamo.Replication
