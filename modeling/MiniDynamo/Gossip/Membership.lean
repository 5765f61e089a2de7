import Mathlib.Data.List.AList

/-! The membership list (`membership.go`).

A node keeps, for every member it knows of, the state of that member's node and the time of its
last heartbeat. `UpdateState` sets a state, and a heartbeat time with it when the state is alive;
`RecordHeartbeat` sets the heartbeat time and makes the node alive; `Merge` takes what a gossip
message says: members it did not know of are added with the gossiped state and address, and for
the others only a later heartbeat time is taken, with its address, never a state. Nothing here
touches the entry of the node itself except `RecordHeartbeat` and `UpdateState` called for it.

Times are nanoseconds (`time.Time` as an integer). Of `MemberInfo` and `types.Node` the state
and the heartbeat time are kept in `members`, and the address, which only `Merge` writes, beside
them in `addresses`; the port, version and `LastSeen` of a member are read by none of the
functions modelled. -/
namespace MiniDynamo.Gossip

/-- `types.NodeState`. -/
inductive NodeState
  | alive
  | suspect
  | dead
  deriving DecidableEq, Repr

/-- A member's entry (`MemberInfo`): its node's state and its `LastHeartbeat`. -/
structure Member where
  state : NodeState
  lastHeartbeat : Int
  deriving DecidableEq, Repr

/-- What a gossip message says of a member (`types.NodeInfo`): its address, its state as text,
and when it was last heard from. -/
structure NodeInfo where
  address : String
  state : String
  lastSeen : Int
  deriving DecidableEq, Repr

/-- The state `Merge` gives a member it learns of: the gossiped text read back, alive by default. -/
def stateOf (state : String) : NodeState :=
  if state = "suspect" then .suspect else if state = "dead" then .dead else .alive

/-- `MembershipList`. -/
structure MembershipList where
  members : AList fun _ : String => Member
  selfID : String
  /-- Each member's `Node.Address`. -/
  addresses : AList fun _ : String => String

namespace MembershipList

/-- `NewMembershipList`: the node itself, alive, heard from now, with no address. -/
def new (selfID : String) (now : Int) : MembershipList :=
  ⟨(∅ : AList fun _ : String => Member).insert selfID ⟨.alive, now⟩, selfID,
    (∅ : AList fun _ : String => String).insert selfID ""⟩

/-- `GetMember`. -/
def getMember (ml : MembershipList) (nodeID : String) : Option Member :=
  ml.members.lookup nodeID

/-- Writing a member's entry, as each of the writers below does under the list's lock. -/
def set (ml : MembershipList) (nodeID : String) (m : Member) : MembershipList :=
  { ml with members := ml.members.insert nodeID m }

/-- Writing a member's `Node.Address`. -/
def setAddress (ml : MembershipList) (nodeID address : String) : MembershipList :=
  { ml with addresses := ml.addresses.insert nodeID address }

/-- `UpdateState`: nothing for an unknown node. -/
def updateState (ml : MembershipList) (nodeID : String) (state : NodeState) (now : Int) :
    MembershipList :=
  match ml.getMember nodeID with
  | none => ml
  | some m => ml.set nodeID ⟨state, if state = .alive then now else m.lastHeartbeat⟩

/-- `RecordHeartbeat`: the heartbeat time is now and the node alive. -/
def recordHeartbeat (ml : MembershipList) (nodeID : String) (now : Int) : MembershipList :=
  match ml.getMember nodeID with
  | none => ml
  | some _ => ml.set nodeID ⟨.alive, now⟩

/-- One turn of `Merge`'s loop. -/
def mergeOne (ml : MembershipList) (nodeID : String) (info : NodeInfo) : MembershipList :=
  if nodeID = ml.selfID then ml else
  match ml.getMember nodeID with
  | none => (ml.set nodeID ⟨stateOf info.state, info.lastSeen⟩).setAddress nodeID info.address
  | some m =>
    if info.lastSeen > m.lastHeartbeat then
      (ml.set nodeID { m with lastHeartbeat := info.lastSeen }).setAddress nodeID info.address
    else ml

/-- `Merge`, over the gossiped map in the order of its entries. -/
def merge (ml : MembershipList) (other : AList fun _ : String => NodeInfo) : MembershipList :=
  other.entries.foldl (fun ml e => ml.mergeOne e.1 e.2) ml

/-- What `GetAllMembers` copies, in the map's iteration order `order`: each member's id and
`LastHeartbeat`. Its state is not copied: the copy shares the node, whose state is read later. -/
def snapshot (ml : MembershipList) (order : List String) : List (String × Int) :=
  order.filterMap fun nodeID => (ml.getMember nodeID).map fun m => (nodeID, m.lastHeartbeat)

theorem mem_snapshot {ml : MembershipList} {order : List String} {copy : String × Int}
    (h : copy ∈ ml.snapshot order) : ∃ m, ml.getMember copy.1 = some m ∧ copy.2 = m.lastHeartbeat := by
  obtain ⟨nodeID, -, h⟩ := List.mem_filterMap.mp h
  obtain ⟨m, hm, rfl⟩ := Option.map_eq_some'.mp h
  exact ⟨m, hm, rfl⟩

theorem map_fst_snapshot (ml : MembershipList) (order : List String) :
    (ml.snapshot order).map Prod.fst = order.filter fun nodeID => (ml.getMember nodeID).isSome := by
  induction order with
  | nil => rfl
  | cons x order ih =>
    simp only [snapshot, List.filterMap_cons, List.filter_cons] at ih ⊢
    cases ml.getMember x <;> simp [ih]

/-! ### Effects -/

section Effects

variable (ml : MembershipList) {nodeID id : String}

@[simp] theorem getMember_set_self (m : Member) : (ml.set nodeID m).getMember nodeID = some m :=
  AList.lookup_insert _

@[simp] theorem getMember_set_ne (m : Member) (h : id ≠ nodeID) :
    (ml.set nodeID m).getMember id = ml.getMember id :=
  AList.lookup_insert_ne h

@[simp] theorem selfID_set (m : Member) : (ml.set nodeID m).selfID = ml.selfID := rfl

@[simp] theorem getMember_setAddress (address : String) :
    (ml.setAddress nodeID address).getMember id = ml.getMember id := rfl

@[simp] theorem selfID_setAddress (address : String) : (ml.setAddress nodeID address).selfID = ml.selfID := rfl

@[simp] theorem addresses_set (m : Member) : (ml.set nodeID m).addresses = ml.addresses := rfl

@[simp] theorem addresses_setAddress (address : String) :
    (ml.setAddress nodeID address).addresses = ml.addresses.insert nodeID address := rfl

@[simp] theorem selfID_updateState (state : NodeState) (now : Int) :
    (ml.updateState nodeID state now).selfID = ml.selfID := by
  unfold updateState; split <;> rfl

@[simp] theorem selfID_recordHeartbeat (now : Int) :
    (ml.recordHeartbeat nodeID now).selfID = ml.selfID := by
  unfold recordHeartbeat; split <;> rfl

theorem getMember_updateState_ne (state : NodeState) (now : Int) (h : id ≠ nodeID) :
    (ml.updateState nodeID state now).getMember id = ml.getMember id := by
  unfold updateState; split <;> simp [h]

theorem getMember_recordHeartbeat_ne (now : Int) (h : id ≠ nodeID) :
    (ml.recordHeartbeat nodeID now).getMember id = ml.getMember id := by
  unfold recordHeartbeat; split <;> simp [h]

/-- `UpdateState` on a member sets its state, and its heartbeat time when that state is alive. -/
theorem getMember_updateState {m : Member} (hm : ml.getMember nodeID = some m) (state : NodeState)
    (now : Int) : (ml.updateState nodeID state now).getMember nodeID =
      some ⟨state, if state = .alive then now else m.lastHeartbeat⟩ := by
  simp [updateState, hm]

theorem getMember_recordHeartbeat {m : Member} (hm : ml.getMember nodeID = some m) (now : Int) :
    (ml.recordHeartbeat nodeID now).getMember nodeID = some ⟨.alive, now⟩ := by
  simp [recordHeartbeat, hm]

end Effects

/-- `ml'` keeps the node's id and own entry, and every member of `ml` with its state. -/
structure Frame (ml ml' : MembershipList) : Prop where
  selfID : ml'.selfID = ml.selfID
  self : ml'.getMember ml.selfID = ml.getMember ml.selfID
  states : ∀ id m, ml.getMember id = some m → ∃ m', ml'.getMember id = some m' ∧ m'.state = m.state

theorem Frame.refl (ml : MembershipList) : Frame ml ml :=
  ⟨rfl, rfl, fun _ m hm => ⟨m, hm, rfl⟩⟩

theorem Frame.trans {ml₁ ml₂ ml₃ : MembershipList} (h₁ : Frame ml₁ ml₂) (h₂ : Frame ml₂ ml₃) :
    Frame ml₁ ml₃ where
  selfID := h₂.selfID.trans h₁.selfID
  self := by rw [← h₁.selfID, h₂.self, h₁.selfID, h₁.self]
  states id m hm :=
    let ⟨m₁, hm₁, hs₁⟩ := h₁.states id m hm
    let ⟨m₂, hm₂, hs₂⟩ := h₂.states id m₁ hm₁
    ⟨m₂, hm₂, hs₂.trans hs₁⟩

section Merge

variable (ml : MembershipList) {nodeID : String}

/-- `Merge` never writes the node's own entry, and never changes the state of a member it knew. -/
theorem mergeOne_frame (info : NodeInfo) : Frame ml (ml.mergeOne nodeID info) := by
  unfold mergeOne
  split
  · exact .refl ml
  next hs =>
    have hself : ml.selfID ≠ nodeID := Ne.symm hs
    split
    next hn =>
      refine ⟨rfl, by simp [hself], fun id m hm => ⟨m, ?_, rfl⟩⟩
      rwa [getMember_setAddress, getMember_set_ne _ _ fun h => by subst h; simp [hn] at hm]
    next m₀ hm₀ =>
      split
      · refine ⟨rfl, by simp [hself], fun id m hm => ?_⟩
        by_cases hid : id = nodeID
        · subst hid
          rw [hm₀] at hm; cases hm
          exact ⟨_, getMember_set_self _ _, rfl⟩
        · exact ⟨m, by simp [hid, hm], rfl⟩
      · exact .refl ml

theorem merge_frame (other : AList fun _ : String => NodeInfo) : Frame ml (ml.merge other) := by
  unfold merge
  induction other.entries generalizing ml with
  | nil => exact .refl ml
  | cons e es ih => exact (mergeOne_frame ml e.2).trans (ih _)

end Merge

end MembershipList

end MiniDynamo.Gossip
