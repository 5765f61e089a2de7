import MiniDynamo.Gossip.Detector

/-! Ring and membership agreement.

`main.go` subscribes the ring to the detector: a node marked dead is removed, a node revived
from dead is added again. The ring is then meant to hold a member exactly when the list does not
have it dead (`Agrees`). Every step keeps that (`Agrees.step`), and so every run does
(`agrees_run_without_heartbeat`), except for one step: a heartbeat from a
dead member. `FailureDetector.RecordHeartbeat` first calls the list's `RecordHeartbeat`, which
makes the member alive, and the `Revive` it calls next finds the member alive and fires nothing
(`recordHeartbeat_eq`). The member is alive again, and stays out of the ring
(`heartbeat_after_death_stays_out`). -/
namespace MiniDynamo.Gossip

open Ring FailureDetector

/-- The ring holds `nodeID` exactly when the list does not have it dead. -/
def Agrees (nodeID : String) (ml : MembershipList) (r : HashRing) : Prop :=
  ∃ m, ml.getMember nodeID = some m ∧ (nodeID ∈ r.nodeVNodes ↔ m.state ≠ .dead)

/-! ### The callback and the ring -/

section Callback

variable {w : Wiring} {r r' : HashRing} {c : Change}

theorem mem_onStateChange_ne {x : String} (h : onStateChange w r c = some r') (hx : x ≠ c.nodeID) :
    x ∈ r'.nodeVNodes ↔ x ∈ r.nodeVNodes := by
  unfold onStateChange at h
  split at h
  · simp [HashRing.mem_removeNode h, hx]
  · split at h <;> cases h
    · simp [hx]
    · rfl

theorem mem_onStateChange_self (h : onStateChange w r c = some r') :
    c.nodeID ∈ r'.nodeVNodes ↔
      c.new ≠ .dead ∧ (c.nodeID ∈ r.nodeVNodes ∨ c.old = .dead ∧ c.new = .alive) := by
  unfold onStateChange at h
  split at h
  next hd => simp [HashRing.mem_removeNode h, hd]
  next hd =>
    split at h <;> cases h
    next hr => simp [hd, hr.2, hr.1]
    next hr => exact ⟨fun hm => ⟨hd, .inl hm⟩, fun ⟨_, h'⟩ => h'.elim id fun h₂ => absurd h₂.symm hr⟩

end Callback

/-! ### Each call keeps agreement, but a heartbeat from the dead -/

section Calls

variable {w : Wiring} {r r' : HashRing} {ml ml' : MembershipList} {x : String}

/-- A callback for another node leaves this one where it was. -/
theorem Agrees.of_ne {c : Change} (ha : Agrees x ml r) (h : onStateChange w r c = some r')
    (hx : x ≠ c.nodeID) (hg : ml'.getMember x = ml.getMember x) : Agrees x ml' r' :=
  let ⟨m, hm, hr⟩ := ha
  ⟨m, hg.trans hm, (mem_onStateChange_ne h hx).trans hr⟩

/-- A callback that reports a node's move, from its state before to its state after, keeps the
node in agreement; a move from dead to suspect would not, and no call makes one. -/
theorem Agrees.of_change {nodeID : String} {old new : NodeState} {m m' : Member}
    (ha : Agrees nodeID ml r) (h : onStateChange w r ⟨nodeID, old, new⟩ = some r')
    (hm : ml.getMember nodeID = some m) (hold : m.state = old)
    (hm' : ml'.getMember nodeID = some m') (hnew : m'.state = new)
    (hc : old = .dead → new ≠ .suspect) : Agrees nodeID ml' r' := by
  obtain ⟨m₀, hm₀, hr⟩ := ha
  rw [hm] at hm₀
  cases hm₀
  refine ⟨m', hm', ?_⟩
  rw [mem_onStateChange_self h, hr, hold, hnew]
  cases old <;> cases new <;> simp_all

theorem Agrees.checkMember {now : Int} {copy : String × Int} (ha : Agrees x ml r)
    (h : notify w r (checkMember w.suspectTimeout w.deadTimeout ml now copy).2 = some r') :
    Agrees x (checkMember w.suspectTimeout w.deadTimeout ml now copy).1 r' := by
  rcases checkMember_cases ml now copy with he | ⟨m, state, -, hm, ht, he⟩ <;> rw [he] at h ⊢
  · cases h
    exact ha
  · rw [Detector.notify_singleton] at h
    by_cases hx : x = copy.1
    · subst hx
      refine ha.of_change h hm rfl (ml.getMember_updateState hm _ _) rfl fun hd => ?_
      rw [hd] at ht
      cases ht
    · exact ha.of_ne h hx (ml.getMember_updateState_ne _ _ hx)

theorem Agrees.revive {nodeID : String} {now : Int} (ha : Agrees x ml r)
    (h : notify w r (revive ml nodeID now).2 = some r') : Agrees x (revive ml nodeID now).1 r' := by
  rcases revive_cases ml nodeID now with he | ⟨m, hm, -, hself, hother, -, hcs⟩
  · rw [he] at h ⊢
    cases h
    exact ha
  · rw [hcs, Detector.notify_singleton] at h
    by_cases hx : x = nodeID
    · subst hx
      exact ha.of_change h hm rfl hself rfl fun _ => by decide
    · exact ha.of_ne h hx (hother x hx)

/-- A heartbeat fires nothing, so it keeps agreement as long as it does not bring back a dead
node. -/
theorem Agrees.recordHeartbeat {nodeID : String} {now : Int} (ha : Agrees x ml r)
    (hd : x = nodeID → ∀ m, ml.getMember x = some m → m.state ≠ .dead) :
    Agrees x (recordHeartbeat ml nodeID now).1 r := by
  obtain ⟨m, hm, hr⟩ := ha
  rw [recordHeartbeat_eq]
  by_cases hx : x = nodeID
  · subst hx
    exact ⟨_, ml.getMember_recordHeartbeat hm now, hr.trans (by simp [hd rfl m hm])⟩
  · exact ⟨m, (ml.getMember_recordHeartbeat_ne now hx).trans hm, hr⟩

theorem Agrees.merge {other : AList fun _ : String => NodeInfo} (ha : Agrees x ml r) :
    Agrees x (ml.merge other) r :=
  let ⟨m, hm, hr⟩ := ha
  let ⟨m', hm', hs⟩ := (ml.merge_frame other).states x m hm
  ⟨m', hm', hs ▸ hr⟩

end Calls

/-! ### Along runs -/

section Runs

variable {w : Wiring} {d d' : Detector} {x : String}

/-- Every step keeps a node in agreement, except a heartbeat from it while it is dead. -/
theorem Agrees.step {e : Event} (ha : Agrees x d.membership d.ring) (h : d.step w e = some d')
    (hb : ∀ now, e = .heartbeat x now → ∀ m, d.membership.getMember x = some m → m.state ≠ .dead) :
    Agrees x d'.membership d'.ring := by
  cases e with
  | tick now order =>
    rw [Detector.step_tick h]
    exact ha
  | check =>
    obtain ⟨copy, rest, -, h⟩ := Detector.step_check h
    obtain ⟨ring, hn, rfl⟩ := Detector.apply_eq_some.mp h
    exact ha.checkMember hn
  | heartbeat nodeID now =>
    obtain ⟨ring, hn, rfl⟩ := Detector.apply_eq_some.mp (Detector.step_heartbeat h)
    rw [recordHeartbeat_eq] at hn
    cases hn
    exact ha.recordHeartbeat fun hx => hb now (hx ▸ rfl)
  | merge other =>
    rw [Detector.step_merge h]
    exact ha.merge
  | revive nodeID now =>
    obtain ⟨ring, hn, rfl⟩ := Detector.apply_eq_some.mp (Detector.step_revive h)
    exact ha.revive hn

/-- Ticks, checks, revivals, gossip and heartbeats from other nodes keep a node in agreement,
along every run. -/
theorem agrees_run_without_heartbeat {es : List Event} (ha : Agrees x d.membership d.ring)
    (h : d.run w es = some d') (hb : ∀ e ∈ es, ∀ now, e ≠ .heartbeat x now) :
    Agrees x d'.membership d'.ring := by
  induction es generalizing d with
  | nil =>
    cases h
    exact ha
  | cons e es ih =>
    obtain ⟨d₁, h₁, h⟩ := Option.bind_eq_some.mp h
    exact ih (ha.step h₁ fun now he => absurd he (hb e (.head _) now)) h
      fun e' he' => hb e' (.tail _ he')

end Runs

/-! ### A heartbeat from the dead -/

/-- `main.go`'s default timeouts, five seconds to suspicion and thirty to death (in
nanoseconds), over a ring of one virtual node per node and a stand-in hash. -/
def defaults : Wiring :=
  ⟨HashRing.headHash, HashRing.insertionSortByHash, 5000000000, 30000000000⟩

/-- `node1` knows `node2`; both are alive, last heard from at time 0, and in the ring. -/
def twoNodes : Detector :=
  ⟨(MembershipList.new "node1" 0).set "node2" ⟨.alive, 0⟩,
    ((HashRing.new 1).addNode HashRing.headHash HashRing.insertionSortByHash "node1").addNode
      HashRing.headHash HashRing.insertionSortByHash "node2",
    0, 0, []⟩

/-- `node2` is silent for forty seconds, is marked suspect, then dead and taken out of the ring, and
is revived at 50 s; it is in agreement all along. -/
theorem agrees_run_death_and_revival :
    ∃ d, twoNodes.run defaults [.tick 6000000000 ["node2", "node1"], .check, .check,
        .tick 40000000000 ["node2", "node1"], .check, .check, .revive "node2" 50000000000] = some d ∧
      Agrees "node2" d.membership d.ring := by
  obtain ⟨d, hrun⟩ : ∃ d, twoNodes.run defaults [.tick 6000000000 ["node2", "node1"], .check, .check,
      .tick 40000000000 ["node2", "node1"], .check, .check, .revive "node2" 50000000000] = some d :=
    ⟨_, rfl⟩
  have ha : Agrees "node2" twoNodes.membership twoNodes.ring := ⟨_, rfl, by decide⟩
  exact ⟨d, hrun, agrees_run_without_heartbeat ha hrun (by simp)⟩

/-- `node2` is silent for forty seconds: two ticks mark it suspect, then dead, and take it out of
the ring. A heartbeat from it at 41 s makes it alive, and it stays out of the ring. -/
theorem heartbeat_after_death_stays_out :
    (twoNodes.membership.getMember "node2", twoNodes.ring.hasNode "node2") = (some ⟨.alive, 0⟩, true) ∧
    (twoNodes.run defaults [.tick 6000000000 ["node2", "node1"], .check, .check,
        .tick 40000000000 ["node2", "node1"], .check, .check]).map
      (fun d => (d.membership.getMember "node2", d.ring.hasNode "node2")) = some (some ⟨.dead, 0⟩, false) ∧
    (twoNodes.run defaults [.tick 6000000000 ["node2", "node1"], .check, .check,
        .tick 40000000000 ["node2", "node1"], .check, .check, .heartbeat "node2" 41000000000]).map
      (fun d => (d.membership.getMember "node2", d.ring.hasNode "node2")) =
      some (some ⟨.alive, 41000000000⟩, false) := by
  decide

end MiniDynamo.Gossip
