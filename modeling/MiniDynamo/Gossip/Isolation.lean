import MiniDynamo.Gossip.Suspicion
import MiniDynamo.Gossip.Merge
import MiniDynamo.Ring.Placement

/-! No node joins another's ring, and membership flows only towards seeds.

`main.go` puts a node in its own ring at startup, and from then on only `onStateChange` changes
the ring: a node reported dead is removed, and a node reported alive after dead is added. Two
callers report so. `Revive`, whose one caller is the detector's `RecordHeartbeat`, calls it after
the list's `RecordHeartbeat` has made the sender alive, so it finds the sender dead only if a check
marks it dead between the two calls: after a copy taken before the heartbeat had it suspect, by a
tick more than `deadTimeout` after the heartbeat. No tick comes that late along a prompt run
(`Cluster.Prompt`). `checkMembers` reports a change when its reads of the member's state differ,
and they differ from dead to alive only if a heartbeat lands between them. No message is delivered
while its target checks its sender along a calm run (`Cluster.Calm`). Along every prompt, calm run
each node's ring stays as it started, holding only the node, so every preference list a node
computes holds only that node (`ring_stays_alone`). Without promptness the ring can grow
(`ring_joined_by_stalled_revive`), and so it can without calm (`ring_joined_by_heartbeat_in_check`).

Gossip goes from a node only to its seeds, so membership flows along seed links: a node knows
another node only if a chain of seed links leads from that node to it (`known_along_seeds`).
With the cluster script's seeds, every node but the first knows only itself
(`script_nodes_know_only_themselves`). -/
namespace MiniDynamo.Gossip

open Ring FailureDetector

/-! ### The ring callback -/

/-- The callback leaves a ring alone when it is not asked to remove a node the ring holds, and
not asked to add back, from dead, a node the ring lacks. -/
theorem onStateChange_eq_self {w : Wiring} {r : HashRing} {c : Change}
    (hd : c.new = .dead → c.nodeID ∉ r.nodeVNodes)
    (ha : c.new = .alive → c.old = .dead → c.nodeID ∈ r.nodeVNodes) : onStateChange w r c = some r := by
  unfold onStateChange
  split
  next h => simp [HashRing.removeNode, hd h]
  next h =>
    split
    next h' => simp [HashRing.addNode, ha h'.1 h'.2]
    · rfl

/-- On a canonical ring holding one node, every preference list is that node. -/
theorem getNodes_single {hash : String → UInt64} {r : HashRing} {i : String}
    (c : HashRing.Canonical hash r) (hV : 0 < r.virtualCount) (hi : i ∈ r.nodeVNodes)
    (hr : ∀ x ∈ r.nodeVNodes, x = i) (key : String) {n : Nat} (hn : 1 ≤ n) :
    HashRing.getNodes hash r key n = .ok [i] := by
  have hsize : r.size = 1 := by
    have hsub : List.Subperm r.nodeVNodes.keys [i] := List.subperm_of_subset (HashRing.nodup_keys r) fun x hx =>
      List.mem_singleton.mpr (hr x (AList.mem_keys.mp hx))
    have hpos := List.length_pos_of_mem (AList.mem_keys.mpr hi)
    have hle := hsub.length_le
    simp only [HashRing.size, AList.keys, List.keys, List.length_map, List.length_singleton] at hpos hle ⊢
    omega
  have hne : r.vnodes ≠ [] := fun h0 => by
    have := c.length_vnodes
    rw [h0, hsize] at this
    simp at this
    omega
  have hone : firstSeen (HashRing.clockwise r.vnodes (hash key)) = [i] :=
    List.eq_replicate_iff.mpr ⟨(c.length_firstSeen hV _).trans hsize, fun x hx =>
      hr x ((c.mem_owners hV).mp (HashRing.mem_clockwise.mp (mem_firstSeen.mp hx)))⟩
  rw [HashRing.getNodes_eq c.sorted, if_neg (fun he => hne (List.isEmpty_iff.mp he)), hone,
    List.take_of_length_le (by simpa using hn)]

namespace Node

/-- The ring `main.go` starts a node with. -/
theorem start_ring (w : Wiring) (virtualNodes : Int) (i : String) (t₀ : Int) :
    HashRing.run w.hash w.sort (HashRing.new virtualNodes) [.addNode i, .addNode i] =
      some (start w virtualNodes i t₀).detector.ring := rfl

theorem mem_start_ring {w : Wiring} {virtualNodes : Int} {i : String} {t₀ : Int} {x : String} :
    x ∈ (start w virtualNodes i t₀).detector.ring.nodeVNodes ↔ x = i := by
  simp [start, HashRing.mem_addNode]

end Node

/-! ### A node's ring along prompt, calm runs -/

/-- The receive loop's `Revive` of `x`, heard from at `since`, will not find it dead: `x` is
known, not dead, and heard from no earlier than `since`; no `UpdateState` is to mark it dead; and
while it is suspect, every copy of it the tick has still to check is no older than `since`, the
tick read the clock at most `deadTimeout` after `since`, and a copy of it the switch is to judge
is at most `deadTimeout` old. -/
def Reviving (w : Wiring) (x : String) (since : Int) (n : Node) : Prop :=
  ∃ m, n.detector.membership.getMember x = some m ∧ since ≤ m.lastHeartbeat ∧ m.state ≠ .dead ∧
    (∀ old, n.checking ≠ .update x old .dead) ∧
    (m.state = .suspect →
      (∀ last, (x, last) ∈ n.detector.pending → since ≤ last ∧ n.detector.now ≤ since + w.deadTimeout) ∧
      ∀ elapsed old, n.checking = .switch x elapsed old → elapsed ≤ w.deadTimeout)

/-- What `Reviving` asks survives a step that leaves the member's entry, the clock reading and,
up to a suffix, the copies still to check alone, and moves the check to no switch and no
`UpdateState` to dead of the member. -/
theorem Reviving.keep {w : Wiring} {x : String} {since : Int} {n n' : Node}
    (hv : Reviving w x since n)
    (hm : n'.detector.membership.getMember x = n.detector.membership.getMember x)
    (hnow : n'.detector.now = n.detector.now) (hp : n'.detector.pending <:+ n.detector.pending)
    (hc : ∀ elapsed old, n'.checking ≠ .switch x elapsed old)
    (hu : ∀ old, n'.checking ≠ .update x old .dead) : Reviving w x since n' := by
  obtain ⟨m, hmx, hsince, hdead, -, hsus⟩ := hv
  exact ⟨m, hm.trans hmx, hsince, hdead, hu, fun hsu =>
    ⟨fun last hl => hnow ▸ (hsus hsu).1 last (hp.subset hl), fun e o h => absurd h (hc e o)⟩⟩

/-- What holds of node `i` along prompt, calm runs: it is `i` and its ring is `r`; the member a
check is on is not `i` and has no copy still pending, and the pending copies are of distinct
members; an `UpdateState` to come marks its member suspect or dead; a check that read its member
as dead finds it dead throughout and writes nothing; and a pending `Revive` will not find its
member dead. -/
structure Steady (w : Wiring) (i : String) (r : HashRing) (n : Node) : Prop where
  selfID : n.detector.membership.selfID = i
  ring : n.detector.ring = r
  nodup : ((n.checking.member?.map Prod.fst).toList ++ n.detector.pending.map Prod.fst).Nodup
  checked : ∀ x old, n.checking.member? = some (x, old) → x ≠ i
  update : ∀ x old state, n.checking = .update x old state → state ≠ .alive
  dead : ∀ x, n.checking.member? = some (x, .dead) →
    (∃ m, n.detector.membership.getMember x = some m ∧ m.state = .dead) ∧
      ∀ state, n.checking ≠ .update x .dead state
  reviving : ∀ x since members, n.receiving = .revive x since members → Reviving w x since n

namespace Node

/-- A message is heard calmly when the check in progress is not of its sender. -/
def calm (n : Node) (msg : GossipMessage) : Bool :=
  (n.checking.member?.map Prod.fst) != some msg.fromNode

end Node

namespace Steady

variable {w : Wiring} {i : String} {r : HashRing} {n n' : Node}

/-- Between copies a node is steady when it is `i` with ring `r`, its copies still to check are
of distinct members, and its pending `Revive` will not find its member dead. -/
theorem of_next (hc : n.checking = .next) (hself : n.detector.membership.selfID = i)
    (hring : n.detector.ring = r) (hnd : (n.detector.pending.map Prod.fst).Nodup)
    (hrev : ∀ x since members, n.receiving = .revive x since members → Reviving w x since n) :
    Steady w i r n :=
  ⟨hself, hring, by simpa [hc, Checking.member?] using hnd,
    (fun _ _ h => by simp [hc, Checking.member?] at h), (fun _ _ _ h => nomatch hc.symm.trans h),
    (fun _ h => by simp [hc, Checking.member?] at h), hrev⟩

/-- A step that only moves the check of a member on, to neither a switch nor an `UpdateState`,
keeps the node steady. -/
theorem advance {x : String} {old : NodeState} {c : Checking} (hs : Steady w i r n)
    (hm : n.checking.member? = some (x, old)) (hc : c.member? = some (x, old))
    (hsw : ∀ y elapsed old, c ≠ .switch y elapsed old) (hu : ∀ y old state, c ≠ .update y old state) :
    Steady w i r { n with checking := c } where
  selfID := hs.selfID
  ring := hs.ring
  nodup := by have hnd := hs.nodup; rwa [hm, ← hc] at hnd
  checked x' old' h := hs.checked x' old' (hm.trans (hc.symm.trans h))
  update _ _ _ h := absurd h (hu _ _ _)
  dead x' h := ⟨(hs.dead x' (hm.trans (hc.symm.trans h))).1, fun _ h' => absurd h' (hu _ _ _)⟩
  reviving y since members hy := (hs.reviving y since members hy).keep rfl rfl (List.suffix_refl _)
    (hsw y) fun _ => hu _ _ _

theorem start (virtualNodes t₀ : Int) :
    Steady w i (Node.start w virtualNodes i t₀).detector.ring (Node.start w virtualNodes i t₀) :=
  ⟨rfl, rfl, List.nodup_nil, (fun _ _ h => nomatch h), (fun _ _ _ h => nomatch h),
    (fun _ h => nomatch h), fun _ _ _ h => nomatch h⟩

/-- A tick keeps the node steady when it is prompt. -/
theorem tick {now : Int} {order : List String} (hs : Steady w i r n)
    (hp : n.prompt w (.tick now order) = true) (h : n.exec w (.input (.tick now order)) = some n') :
    Steady w i r n' := by
  obtain ⟨hc, rfl⟩ := Node.exec_tick h
  have hperm : order.Perm n.detector.membership.members.keys := by
    simp only [Node.exec, Node.step, hc, if_true, Detector.step] at h
    split at h
    · exact ‹_ ∧ _ ∧ _›.2.2
    · cases h
  refine of_next hc hs.selfID hs.ring ?_ fun x since members hx => ?_
  · simp only [MembershipList.map_fst_snapshot]
    exact (hperm.nodup_iff.mpr n.detector.membership.members.nodupKeys).filter _
  · obtain ⟨m, hm, hsince, hdead, -, -⟩ := hs.reviving x since members hx
    have hnow : now ≤ since + w.deadTimeout := by
      rw [Node.prompt, show n.receiving = .revive x since members from hx] at hp
      simpa using hp
    refine ⟨m, hm, hsince, hdead, (fun _ h => nomatch hc.symm.trans h),
      fun _ => ⟨fun last hl => ?_, fun _ _ h => nomatch hc.symm.trans h⟩⟩
    obtain ⟨m', hm', rfl⟩ := MembershipList.mem_snapshot hl
    rw [hm] at hm'
    cases hm'
    exact ⟨hsince, hnow⟩

/-! #### The steps of a check -/

section Check

variable {d : Detector} {c : Checking}

/-- Taking the next copy keeps the node steady: a copy pending is of a member other than `i`, and
one a pending `Revive` waits for, while it is suspect, is at most `deadTimeout` old. -/
theorem next (hs : Steady w i r n) (hc : n.checking = .next)
    (hd : n.detector.checkStep w .next = some (d, c)) :
    Steady w i r { n with detector := d, checking := c } := by
  obtain ⟨copy, rest, hp, rfl, hc' | ⟨m, hself, hm, rfl⟩⟩ := Detector.checkStep_next hd
  · have hnd := hs.nodup
    simp only [hc, hp, Checking.member?, Option.map_none', Option.toList_none, List.nil_append,
      List.map_cons, List.nodup_cons] at hnd
    subst hc'
    exact of_next rfl hs.selfID hs.ring hnd.2 fun x since members hx =>
      (hs.reviving x since members hx).keep rfl rfl (hp ▸ List.suffix_cons _ _)
        (fun _ _ h => nomatch h) fun _ h => nomatch h
  · have hnd := hs.nodup
    simp only [hc, hp, Checking.member?, Option.map_none', Option.toList_none, List.nil_append] at hnd
    refine ⟨hs.selfID, hs.ring, by simpa [Checking.member?] using hnd,
      fun x old h => ?_, (fun _ _ _ h => nomatch h), fun x h => ?_, fun x since members hx => ?_⟩
    · simp only [Checking.member?, Option.some.injEq, Prod.mk.injEq] at h
      exact h.1 ▸ hs.selfID ▸ hself
    · simp only [Checking.member?, Option.some.injEq, Prod.mk.injEq] at h
      obtain ⟨rfl, hmd⟩ := h
      exact ⟨⟨m, hm, hmd⟩, fun _ h => nomatch h⟩
    · obtain ⟨mx, hmx, hsince, hdead, -, hsus⟩ := hs.reviving x since members hx
      refine ⟨mx, hmx, hsince, hdead, (fun _ h => nomatch h), fun hsu =>
        ⟨fun last hl => (hsus hsu).1 last (hp ▸ .tail _ hl), fun elapsed old he => ?_⟩⟩
      cases he
      obtain ⟨h₁, h₂⟩ := (hsus hsu).1 copy.2 (hp ▸ .head _)
      show n.detector.now - copy.2 ≤ _
      omega

/-- The switch keeps the node steady: it chooses no `UpdateState` for a member read dead, nor
marks dead a member a pending `Revive` waits for. -/
theorem switch {x : String} {elapsed : Int} {old : NodeState} (hs : Steady w i r n)
    (hc : n.checking = .switch x elapsed old)
    (hd : n.detector.checkStep w (.switch x elapsed old) = some (d, c)) :
    Steady w i r { n with detector := d, checking := c } := by
  obtain ⟨rfl, rfl | ⟨m, state, hm, ht, rfl⟩⟩ := Detector.checkStep_switch hd
  · exact hs.advance (by rw [hc]; rfl) rfl (fun _ _ _ h => nomatch h) fun _ _ _ h => nomatch h
  · have hold : old ≠ .dead := fun hold => by
      obtain ⟨⟨m', hm', hd'⟩, -⟩ := hs.dead x (by simp [hc, Checking.member?, hold])
      rw [hm] at hm'
      cases hm'
      rw [hd'] at ht
      cases ht
    refine ⟨hs.selfID, hs.ring, by simpa [hc, Checking.member?] using hs.nodup,
      fun x' old' h => hs.checked x' old' (by simpa [hc, Checking.member?] using h),
      fun _ _ _ h => ?_, fun x' h => ?_, fun y since members hy => ?_⟩
    · cases h
      rcases transition_eq_some.mp ht with ⟨-, rfl, -⟩ | ⟨-, rfl, -⟩ <;> decide
    · simp only [Checking.member?, Option.some.injEq, Prod.mk.injEq] at h
      exact absurd h.2 hold
    · obtain ⟨my, hmy, hsince, hdead, -, hsus⟩ := hs.reviving y since members hy
      refine ⟨my, hmy, hsince, hdead, fun old' hu => ?_, fun hsu => ⟨(hsus hsu).1, fun _ _ h => nomatch h⟩⟩
      cases hu
      rw [hm] at hmy
      cases hmy
      obtain ⟨hsu, -, hel⟩ := (transition_eq_some.mp ht).resolve_left fun ⟨h, _⟩ => by simp_all
      have := (hsus hsu).2 elapsed old hc
      omega

/-- `UpdateState` keeps the node steady: it marks its member, not `i`, suspect or dead, and a
member a pending `Revive` waits for only suspect. -/
theorem write {x : String} {old state : NodeState} (hs : Steady w i r n)
    (hc : n.checking = .update x old state)
    (hd : n.detector.checkStep w (.update x old state) = some (d, c)) :
    Steady w i r { n with detector := d, checking := c } := by
  obtain ⟨rfl, rfl⟩ := Detector.checkStep_update hd
  have hold : old ≠ .dead := fun hold => (hs.dead x (by simp [hc, Checking.member?, hold])).2 state (hold ▸ hc)
  have hx : x ≠ i := hs.checked x old (by simp [hc, Checking.member?])
  refine ⟨by simpa using hs.selfID, hs.ring, by simpa [hc, Checking.member?] using hs.nodup,
    fun x' old' h => hs.checked x' old' (by simpa [hc, Checking.member?] using h),
    (fun _ _ _ h => nomatch h), fun x' h => ?_, fun y since members hy => ?_⟩
  · simp only [Checking.member?, Option.some.injEq, Prod.mk.injEq] at h
    exact absurd h.2 hold
  obtain ⟨my, hmy, hsince, hdead, hupd, hsus⟩ := hs.reviving y since members hy
  by_cases hyx : y = x
  · subst hyx
    have hsd : state ≠ .dead := fun h => hupd old (h ▸ hc)
    have hsa := hs.update y old state hc
    refine ⟨_, MembershipList.getMember_updateState _ hmy _ _, by simpa [hsa] using hsince,
      hsd, (fun _ h => nomatch h), fun _ => ⟨fun last hl => ?_, fun _ _ h => nomatch h⟩⟩
    have hnd := hs.nodup
    simp only [hc, Checking.member?, Option.map_some', Option.toList_some, List.singleton_append,
      List.nodup_cons] at hnd
    exact absurd (List.mem_map_of_mem Prod.fst hl) hnd.1
  · exact (hs.reviving y since members hy).keep (MembershipList.getMember_updateState_ne _ _ _ hyx)
      rfl (List.suffix_refl _) (fun _ _ h => nomatch h) fun _ h => nomatch h

/-- The `if` keeps the node steady. -/
theorem compare {x : String} {old : NodeState} (hs : Steady w i r n) (hc : n.checking = .compare x old)
    (hd : n.detector.checkStep w (.compare x old) = some (d, c)) :
    Steady w i r { n with detector := d, checking := c } := by
  obtain ⟨rfl, ⟨rfl, -⟩ | rfl⟩ := Detector.checkStep_compare hd
  · have hnd := hs.nodup
    simp only [hc, Checking.member?, Option.map_some', Option.toList_some, List.singleton_append,
      List.nodup_cons] at hnd
    exact of_next rfl hs.selfID hs.ring hnd.2 fun y since members hy =>
      (hs.reviving y since members hy).keep rfl rfl (List.suffix_refl _) (fun _ _ h => nomatch h)
        fun _ h => nomatch h
  · exact hs.advance (by rw [hc]; rfl) rfl (fun _ _ _ h => nomatch h) fun _ _ _ h => nomatch h

/-- The callback keeps the node steady: it can remove only its member, not `i`, which the ring
does not hold, and it adds nothing, as a member read dead is still dead. -/
theorem notify {x : String} {old : NodeState} (hr : ∀ x ∈ r.nodeVNodes, x = i) (hs : Steady w i r n)
    (hc : n.checking = .notify x old)
    (hd : n.detector.checkStep w (.notify x old) = some (d, c)) :
    Steady w i r { n with detector := d, checking := c } := by
  obtain ⟨rfl, hring⟩ := Detector.checkStep_notify hd
  have hring' : d.ring = r := by
    rcases hring with rfl | ⟨m, ring, hm, hon, rfl⟩
    · exact hs.ring
    · rw [hs.ring, onStateChange_eq_self (fun _ hx' => hs.checked x old (by simp [hc, Checking.member?])
        (hr x hx')) fun hal hold => ?_] at hon
      · exact (Option.some.inj hon).symm
      · obtain ⟨⟨m', hm', hd'⟩, -⟩ := hs.dead x (by simp [hc, Checking.member?, show old = .dead from hold])
        rw [hm] at hm'
        cases hm'
        cases hal.symm.trans hd'
  have hdet : { n.detector with ring := d.ring } = d := by
    rcases hring with rfl | ⟨m, ring, -, -, rfl⟩ <;> rfl
  rw [← hdet]
  have hnd := hs.nodup
  simp only [hc, Checking.member?, Option.map_some', Option.toList_some, List.singleton_append,
    List.nodup_cons] at hnd
  exact of_next rfl hs.selfID hring' hnd.2 fun y since members hy =>
    (hs.reviving y since members hy).keep rfl rfl (List.suffix_refl _) (fun _ _ h => nomatch h)
      fun _ h => nomatch h

end Check

/-- A step of `checkMembers` keeps the node steady. -/
theorem check (hr : ∀ x ∈ r.nodeVNodes, x = i) (hs : Steady w i r n)
    (h : n.exec w (.input .check) = some n') : Steady w i r n' := by
  obtain ⟨⟨d, c⟩, hd, rfl⟩ := Option.map_eq_some'.mp h
  cases hc : n.checking <;> rw [hc] at hd
  · exact hs.next hc hd
  · exact hs.switch hc hd
  · exact hs.write hc hd
  · exact hs.compare hc hd
  · exact hs.notify hr hc hd

/-- The receive loop's `Revive` keeps the node steady: its member is not dead, so the callback
it fires adds nothing, and a check that read its member as dead is of another member. -/
theorem revive {now : Int} (hs : Steady w i r n) (h : n.exec w (.input (.revive now)) = some n') :
    Steady w i r n' := by
  obtain ⟨x, since, members, d, hx, hd, rfl⟩ := Node.step_revive_eq_some h
  obtain ⟨ring, hring, rfl⟩ := Detector.apply_eq_some.mp (Detector.step_revive hd)
  obtain ⟨m, hm, -, hdead, -⟩ := hs.reviving x since members hx
  refine ⟨?_, ?_, hs.nodup, hs.checked, hs.update, fun y hy => ?_, fun _ _ _ h => by cases h⟩
  · rcases revive_cases n.detector.membership x now with he | ⟨-, -, -, -, -, he, -⟩
    · rw [he]; exact hs.selfID
    · exact he.trans hs.selfID
  · rcases revive_cases n.detector.membership x now with he | ⟨m', hm', -, -, -, -, he⟩
    · rw [he] at hring
      exact (Option.some.inj hring).symm.trans hs.ring
    · rw [he, Detector.notify_singleton, onStateChange_eq_self (by simp)
        (fun _ hd => (hdead (by rwa [Option.some.inj (hm.symm.trans hm')])).elim)] at hring
      exact (Option.some.inj hring).symm.trans hs.ring
  · obtain ⟨⟨my, hmy, hyd⟩, hu⟩ := hs.dead y hy
    have hyx : y ≠ x := by
      rintro rfl
      rw [hm] at hmy
      cases hmy
      exact hdead hyd
    refine ⟨⟨my, ?_, hyd⟩, hu⟩
    show (revive n.detector.membership x now).1.getMember y = some my
    rcases revive_cases n.detector.membership x now with he | ⟨-, -, -, -, hother, -, -⟩
    · rw [he]; exact hmy
    · exact (hother y hyx).trans hmy

/-- The receive loop's `Merge` keeps the node steady. -/
theorem merge {other : AList fun _ : String => NodeInfo} (hs : Steady w i r n)
    (h : n.exec w (.input (.merge other)) = some n') : Steady w i r n' := by
  obtain ⟨-, d, -, -, hd, rfl⟩ := Node.step_merge_eq_some h
  rw [Detector.step_merge hd]
  refine ⟨(n.detector.membership.merge_frame other).selfID.trans hs.selfID, hs.ring, hs.nodup,
    hs.checked, hs.update, fun y hy => ?_, fun _ _ _ h => by cases h⟩
  obtain ⟨⟨my, hmy, hyd⟩, hu⟩ := hs.dead y hy
  obtain ⟨m', hm', hst⟩ := (n.detector.membership.merge_frame other).states y my hmy
  exact ⟨⟨m', hm', hst.trans hyd⟩, hu⟩

theorem step (hr : ∀ x ∈ r.nodeVNodes, x = i) (hs : Steady w i r n) {a : Node.Input}
    (hp : n.prompt w a = true) (h : n.step w a = some n') : Steady w i r n' := by
  cases a with
  | tick => exact hs.tick hp h
  | check => exact hs.check hr h
  | revive => exact hs.revive h
  | merge => exact hs.merge h

/-- Hearing a message calmly keeps the node steady: the sender, if a `Revive` of it is pending,
was just made alive, and no check is on it. -/
theorem hear {msg : GossipMessage} {now : Int} (hs : Steady w i r n) (hq : n.calm msg = true)
    (h : n.hear msg now = some n') : Steady w i r n' := by
  obtain ⟨-, receiving, rfl, hr⟩ := Node.hear_eq_some h
  have hcalm : ∀ old, n.checking.member? ≠ some (msg.fromNode, old) := fun old h => by
    simp [Node.calm, h] at hq
  refine ⟨by simpa using hs.selfID, hs.ring, hs.nodup, hs.checked, hs.update, fun y hy => ?_,
    fun x since members hx => ?_⟩
  · obtain ⟨⟨my, hmy, hyd⟩, hu⟩ := hs.dead y hy
    have hyx : y ≠ msg.fromNode := fun hyx => hcalm .dead (hyx ▸ hy)
    exact ⟨⟨my, (MembershipList.getMember_recordHeartbeat_ne _ _ hyx).trans hmy, hyd⟩, hu⟩
  · rcases hr with rfl | ⟨m, hm, -, rfl⟩ <;> cases hx
    refine ⟨_, MembershipList.getMember_recordHeartbeat _ hm _, le_rfl, by simp,
      fun old hu => hcalm old (by rw [hu]; rfl), by simp⟩

end Steady

namespace Cluster

variable (w : String → Wiring) (peers : String → List String)

/-- Every message of a run is delivered calmly: not while its target checks its sender. -/
def Calm : Cluster → List Action → Bool
  | _, [] => true
  | c, a :: as =>
    (match a with
      | .deliver i k _ => (c.sent[k]?).all fun sent => (c.nodes i).calm sent.2
      | _ => true) &&
    match c.step w peers a with
    | some c' => Calm c' as
    | none => true

variable {w peers} {rings : String → HashRing}

/-- Every node is steady with its ring. -/
def AllSteady (w : String → Wiring) (rings : String → HashRing) (c : Cluster) : Prop :=
  ∀ i, Steady (w i) i (rings i) (c.nodes i)

theorem AllSteady.set {c : Cluster} {i : String} {n : Node} (hc : AllSteady w rings c)
    (hn : Steady (w i) i (rings i) n) : AllSteady w rings (c.set i n) := fun j => by
  by_cases hj : j = i
  · subst hj; simpa using hn
  · simpa [hj] using hc j

theorem AllSteady.run (hr : ∀ i, ∀ x ∈ (rings i).nodeVNodes, x = i) {as : List Action} {c c' : Cluster}
    (hc : AllSteady w rings c) (hp : c.Prompt w peers as = true) (hq : c.Calm w peers as = true)
    (h : c.run w peers as = some c') : AllSteady w rings c' := by
  induction as generalizing c with
  | nil => cases h; exact hc
  | cons a as ih =>
    obtain ⟨c₁, h₁, h⟩ := Option.bind_eq_some.mp h
    simp only [Prompt, h₁, Bool.and_eq_true] at hp
    simp only [Calm, h₁, Bool.and_eq_true] at hq
    refine ih ?_ hp.2 hq.2 h
    rcases step_cases h₁ with ⟨i, input, n, rfl, hn, rfl⟩ | ⟨i, k, now, msg, n, rfl, hk, hn, rfl⟩ |
      ⟨i, target, rfl, -, rfl⟩
    · exact hc.set ((hc i).step (hr i) hp.1 hn)
    · have hq₁ := hq.1
      simp only [hk, Option.all_some] at hq₁
      exact hc.set ((hc i).hear hq₁ hn)
    · exact hc

end Cluster

/-- **No node joins another's ring along prompt, calm runs.** From startup, along every run of
the cluster in which no tick comes more than `deadTimeout` after a heartbeat whose `Revive` is
still pending, and no message is delivered while its target checks its sender, whatever the
timeouts, seeds, clock readings, gossip targets, deliveries, losses, duplicates and orders: every
node's ring is the one it started with, and every preference list a node computes, for any key and
any count from one up, is the node alone. -/
theorem ring_stays_alone (w : String → Wiring) (peers : String → List String)
    (virtualNodes t₀ : String → Int) {as : List Cluster.Action} {c : Cluster}
    (hp : (Cluster.start w virtualNodes t₀).Prompt w peers as = true)
    (hq : (Cluster.start w virtualNodes t₀).Calm w peers as = true)
    (h : (Cluster.start w virtualNodes t₀).run w peers as = some c) (i : String) :
    (c.nodes i).detector.ring = ((Cluster.start w virtualNodes t₀).nodes i).detector.ring ∧
      ∀ key n, 1 ≤ n → HashRing.getNodes (w i).hash (c.nodes i).detector.ring key n = .ok [i] := by
  have hs : Steady (w i) i ((Cluster.start w virtualNodes t₀).nodes i).detector.ring (c.nodes i) :=
    Cluster.AllSteady.run (fun i x hx => Node.mem_start_ring.mp hx)
      (show Cluster.AllSteady w (fun i => ((Cluster.start w virtualNodes t₀).nodes i).detector.ring)
        (Cluster.start w virtualNodes t₀) from fun i => Steady.start (virtualNodes i) (t₀ i)) hp hq h i
  refine ⟨hs.ring, fun key n hn => ?_⟩
  obtain ⟨hc, hV⟩ := HashRing.canonical_of_run (Node.start_ring (w i) (virtualNodes i) i (t₀ i))
  rw [hs.ring]
  exact getNodes_single hc hV (Node.mem_start_ring.mpr rfl) (fun x hx => Node.mem_start_ring.mp hx) key hn

/-- The seeds the cluster script gives: none to the first node, the first node to every other. -/
def scriptPeers (nodeID : String) : List String := if nodeID = "node1" then [] else ["node1"]

/-- `node1`'s detector taking `k` steps of `checkMembers`. -/
def checks (k : Nat) : List Cluster.Action := List.replicate k (.step "node1" .check)

/-- `node2` gossips to `node1`, which learns of it, marks it suspect, starts a second tick, and
hears from it again: the heartbeat makes it alive and a `Revive` is pending. The tick's check,
judging by the copy taken before the heartbeat, marks it suspect again. -/
def raceRun (revivedAt : Int) : List Cluster.Action :=
  [.gossip "node2" "node1", .deliver "node1" 0 1000000000,
    .step "node1" (.merge (MembershipList.new "node2" 0).toGossipFormat),
    .step "node1" (.tick 6000000000 ["node1", "node2"])] ++ checks 6 ++
  [.step "node1" (.tick 7000000000 ["node1", "node2"]), .deliver "node1" 0 8000000000] ++ checks 6 ++
  (if revivedAt ≤ 38000000000 then [] else
    .step "node1" (.tick revivedAt ["node1", "node2"]) :: checks 6) ++
  [.step "node1" (.revive revivedAt)]

/-- When the receive loop runs its `Revive` promptly, `node2` is alive at `node1` and still out
of its ring, and every preference list there is `node1` alone. -/
theorem ring_stays_alone_prompt_revive :
    ∃ c, (Cluster.start (fun _ => defaults) (fun _ => 1) (fun _ => 0)).Prompt (fun _ => defaults)
        scriptPeers (raceRun 9000000000) = true ∧
      (Cluster.start (fun _ => defaults) (fun _ => 1) (fun _ => 0)).Calm (fun _ => defaults)
        scriptPeers (raceRun 9000000000) = true ∧
      (Cluster.start (fun _ => defaults) (fun _ => 1) (fun _ => 0)).run (fun _ => defaults) scriptPeers
        (raceRun 9000000000) = some c ∧
      (c.nodes "node1").detector.membership.getMember "node2" = some ⟨.alive, 9000000000⟩ ∧
      HashRing.getNodes HashRing.headHash (c.nodes "node1").detector.ring "k" 3 = .ok ["node1"] := by
  obtain ⟨c, h⟩ : ∃ c, (Cluster.start (fun _ => defaults) (fun _ => 1) (fun _ => 0)).run
      (fun _ => defaults) scriptPeers (raceRun 9000000000) = some c := ⟨_, rfl⟩
  have hp : (Cluster.start (fun _ => defaults) (fun _ => 1) (fun _ => 0)).Prompt (fun _ => defaults)
      scriptPeers (raceRun 9000000000) = true := by decide
  have hq : (Cluster.start (fun _ => defaults) (fun _ => 1) (fun _ => 0)).Calm (fun _ => defaults)
      scriptPeers (raceRun 9000000000) = true := by decide
  refine ⟨c, hp, hq, h, ?_, (ring_stays_alone _ _ _ _ hp hq h "node1").2 "k" 3 (by decide)⟩
  cases h
  decide

/-- **A stalled `Revive` lets a node into the ring.** If the receive loop is held up between
`RecordHeartbeat` and `Revive` while a tick more than `deadTimeout` after the heartbeat marks the
sender dead, the `Revive` finds it dead and adds it to the ring. -/
theorem ring_joined_by_stalled_revive :
    (Cluster.start (fun _ => defaults) (fun _ => 1) (fun _ => 0)).Prompt (fun _ => defaults)
        scriptPeers (raceRun 39000000000) = false ∧
      ((Cluster.start (fun _ => defaults) (fun _ => 1) (fun _ => 0)).run (fun _ => defaults) scriptPeers
        (raceRun 39000000000)).map (fun c => (c.nodes "node1").detector.ring.hasNode "node2") = some true := by
  decide

/-- `node2` gossips to `node1`, which learns of it and marks it suspect at 6 s and dead at 40 s.
A tick at 41 s reads `node2`'s `oldState` as dead, and the switch reads it dead too; then the
gossip is delivered again and makes `node2` alive before the `if` reads the state. -/
def heardInCheck : List Cluster.Action :=
  [.gossip "node2" "node1", .deliver "node1" 0 1000000000,
    .step "node1" (.merge (MembershipList.new "node2" 0).toGossipFormat),
    .step "node1" (.tick 6000000000 ["node1", "node2"])] ++ checks 6 ++
  .step "node1" (.tick 40000000000 ["node1", "node2"]) :: checks 6 ++
  .step "node1" (.tick 41000000000 ["node1", "node2"]) :: checks 3 ++
  .deliver "node1" 0 41500000000 :: checks 2

/-- **A heartbeat inside a check lets a node into the ring.** With every `Revive` prompt, a
message delivered while `checkMembers` is between its reads of the sender's state makes the `if`
see a change from dead to alive, and the callback adds the sender to the ring. -/
theorem ring_joined_by_heartbeat_in_check :
    (Cluster.start (fun _ => defaults) (fun _ => 1) (fun _ => 0)).Prompt (fun _ => defaults)
        scriptPeers heardInCheck = true ∧
      (Cluster.start (fun _ => defaults) (fun _ => 1) (fun _ => 0)).Calm (fun _ => defaults)
        scriptPeers heardInCheck = false ∧
      ((Cluster.start (fun _ => defaults) (fun _ => 1) (fun _ => 0)).run (fun _ => defaults) scriptPeers
        heardInCheck).map (fun c => (c.nodes "node1").detector.ring.hasNode "node2") = some true := by
  decide

/-! ### Membership flows along seed links -/

/-- A chain of seed links leads from `j` to `i`: gossip from `j` can reach `i`. -/
def Reaches (peers : String → List String) (j i : String) : Prop :=
  Relation.ReflTransGen (fun a b => b ∈ peers a) j i

namespace MembershipList

variable {ml : MembershipList} {nodeID j : String}

/-- Writing the entry of a known member adds no member. -/
theorem mem_set_of_getMember {m m' : Member} (hm : ml.getMember nodeID = some m) :
    j ∈ (ml.set nodeID m').members ↔ j ∈ ml.members := by
  have hx : nodeID ∈ ml.members := AList.lookup_isSome.mp (Option.isSome_iff_exists.mpr ⟨m, hm⟩)
  simp only [set, AList.mem_insert]
  exact or_iff_right_of_imp fun h => h ▸ hx

theorem mem_updateState {state : NodeState} {now : Int} :
    j ∈ (ml.updateState nodeID state now).members ↔ j ∈ ml.members := by
  unfold updateState
  split
  · rfl
  next m hm => exact mem_set_of_getMember hm

theorem mem_recordHeartbeat {now : Int} :
    j ∈ (ml.recordHeartbeat nodeID now).members ↔ j ∈ ml.members := by
  unfold recordHeartbeat
  split
  · rfl
  next m hm => exact mem_set_of_getMember hm

/-- `Merge` adds only members the message names. -/
theorem mem_merge {other : AList fun _ : String => NodeInfo} (h : j ∈ (ml.merge other).members) :
    j ∈ ml.members ∨ j ∈ other := by
  refine or_iff_not_imp_right.mpr fun ho => ?_
  have hg : (ml.merge other).getMember j = ml.getMember j := by
    by_cases hs : j = ml.selfID
    · subst hs
      exact (ml.merge_frame other).self
    · have := ml.view_merge other hs
      rw [AList.lookup_eq_none.mpr ho] at this
      exact congrArg Prod.fst this
  have hs := AList.lookup_isSome.mpr h
  rw [show (ml.merge other).members.lookup j = ml.members.lookup j from hg] at hs
  exact AList.lookup_isSome.mp hs

end MembershipList

namespace FailureDetector

variable {ml : MembershipList} {nodeID j : String} {now : Int}

theorem mem_revive : j ∈ (revive ml nodeID now).1.members ↔ j ∈ ml.members := by
  unfold revive
  split
  · rfl
  · split
    · exact MembershipList.mem_recordHeartbeat.trans MembershipList.mem_updateState
    · rfl

end FailureDetector

namespace Node

variable {w : Wiring} {n n' : Node} {j : String}

/-- The members a node knows of: those in its list, and those in gossip its receive loop has
still to merge. -/
def Knows (n : Node) (j : String) : Prop :=
  j ∈ n.detector.membership.members ∨ ∃ members, n.receiving.members = some members ∧ j ∈ members

/-- A node's own steps learn of no one: a member it knows of after was known before. -/
theorem Knows.of_step {a : Input} (h : n.step w a = some n') (hk : n'.Knows j) : n.Knows j := by
  cases a with
  | tick now order => rwa [(exec_tick h).2] at hk
  | check =>
    obtain ⟨⟨d, c⟩, hd, rfl⟩ := Option.map_eq_some'.mp h
    obtain ⟨-, -, hml | ⟨_, _, _, -, hml⟩⟩ := Detector.checkStep_frame hd
    · exact hk.imp_left fun hj => hml ▸ hj
    · exact hk.imp_left fun hj => MembershipList.mem_updateState.mp (hml ▸ hj)
  | revive now =>
    obtain ⟨x, since, members, d, hx, hd, rfl⟩ := step_revive_eq_some h
    obtain ⟨ring, -, rfl⟩ := Detector.apply_eq_some.mp (Detector.step_revive hd)
    refine hk.imp FailureDetector.mem_revive.mp fun ⟨members', hm, hj⟩ => ⟨members', ?_, hj⟩
    cases hm
    simp [hx, Receiving.members]
  | merge other =>
    obtain ⟨members, d, hx, hperm, hd, rfl⟩ := step_merge_eq_some h
    rw [Detector.step_merge hd] at hk
    rcases hk with hk | ⟨_, hm, -⟩
    · refine (MembershipList.mem_merge hk).imp id fun ho => ⟨members, by simp [hx, Receiving.members], ?_⟩
      exact AList.mem_keys.mp ((hperm.map Sigma.fst).mem_iff.mp (AList.mem_keys.mpr ho))
    · cases hm

/-- Hearing a message learns of no one but the members it names. -/
theorem Knows.of_hear {msg : GossipMessage} {now : Int} (h : n.hear msg now = some n')
    (hk : n'.Knows j) : n.Knows j ∨ j ∈ msg.members := by
  obtain ⟨-, receiving, rfl, hr⟩ := hear_eq_some h
  rcases hk with hk | ⟨members, hm, hj⟩
  · exact .inl (.inl (MembershipList.mem_recordHeartbeat.mp hk))
  · rcases hr with rfl | ⟨-, -, -, rfl⟩ <;> (cases hm; exact .inr hj)

theorem knows_start {virtualNodes t₀ : Int} {i : String} (hk : (start w virtualNodes i t₀).Knows j) :
    j = i := by
  rcases hk with hk | ⟨_, hm, -⟩
  · have hk' : j ∈ (∅ : AList fun _ : String => Member).insert i ⟨.alive, t₀⟩ := hk
    rw [AList.mem_insert] at hk'
    exact hk'.resolve_right (AList.not_mem_empty j)
  · cases hm

end Node

namespace Cluster

variable {w : String → Wiring} {peers : String → List String}

/-- Where what a node knows can have come from: every member a node knows of reaches it by seed
links, and every message went to a seed of its sender and names only members reaching the
sender. -/
structure Flows (peers : String → List String) (c : Cluster) : Prop where
  knows : ∀ i j, (c.nodes i).Knows j → Reaches peers j i
  sent : ∀ target msg, (target, msg) ∈ c.sent →
    target ∈ peers msg.fromNode ∧ ∀ j ∈ msg.members, Reaches peers j msg.fromNode

theorem Flows.start (virtualNodes t₀ : String → Int) : Flows peers (Cluster.start w virtualNodes t₀) :=
  ⟨fun _ _ hk => Node.knows_start hk ▸ .refl, fun _ _ h => by cases h⟩

theorem Flows.set {c : Cluster} {i : String} {n : Node} (hc : Flows peers c)
    (hn : ∀ j, n.Knows j → Reaches peers j i) : Flows peers (c.set i n) :=
  ⟨fun i' j hk => by
    by_cases hi : i' = i
    · subst hi; exact hn j (by simpa using hk)
    · exact hc.knows i' j (by simpa [hi] using hk), hc.sent⟩

theorem Flows.step {c c' : Cluster} {a : Action} (hc : Flows peers c) (h : c.step w peers a = some c') :
    Flows peers c' := by
  rcases step_cases h with ⟨i, input, n, rfl, hn, rfl⟩ | ⟨i, k, now, msg, n, rfl, hk, hn, rfl⟩ |
    ⟨i, target, rfl, ht, rfl⟩
  · exact hc.set fun j hj => hc.knows i j (hj.of_step hn)
  · obtain ⟨hi, hm⟩ := hc.sent i msg (List.getElem?_mem hk)
    exact hc.set fun j hj => (hj.of_hear hn).elim (hc.knows i j) fun hj => .tail (hm j hj) hi
  · refine ⟨hc.knows, fun target' msg hm => ?_⟩
    rcases List.mem_append.mp hm with hm | hm
    · exact hc.sent target' msg hm
    · cases List.mem_singleton.mp hm
      exact ⟨ht, fun j hj => hc.knows i j (.inl (MembershipList.mem_toGossipFormat.mp hj))⟩

theorem Flows.run {as : List Action} {c c' : Cluster} (hc : Flows peers c) (h : c.run w peers as = some c') :
    Flows peers c' := by
  induction as generalizing c with
  | nil => cases h; exact hc
  | cons a as ih =>
    obtain ⟨c₁, h₁, h⟩ := Option.bind_eq_some.mp h
    exact ih (hc.step h₁) h

end Cluster

/-- **Membership flows only towards seeds.** From startup, along every run of the cluster, in
every interleaving and with any losses, duplicates and reorderings: a node knows of another only
if a chain of seed links leads from that node to it. -/
theorem known_along_seeds (w : String → Wiring) (peers : String → List String)
    (virtualNodes t₀ : String → Int) {as : List Cluster.Action} {c : Cluster}
    (h : (Cluster.start w virtualNodes t₀).run w peers as = some c) {i j : String}
    (hj : j ∈ (c.nodes i).detector.membership.members) : Reaches peers j i :=
  ((Cluster.Flows.start virtualNodes t₀).run h).knows i j (.inl hj)

/-- `node2` gossips to `node1` and `node1` learns of it: `node2` is its seed. -/
theorem known_along_seeds_node2 :
    ∃ c, (Cluster.start (fun _ => defaults) (fun _ => 1) (fun _ => 0)).run (fun _ => defaults) scriptPeers
        ((raceRun 9000000000).take 3) = some c ∧
      "node2" ∈ (c.nodes "node1").detector.membership.members ∧ Reaches scriptPeers "node2" "node1" := by
  obtain ⟨c, h⟩ : ∃ c, (Cluster.start (fun _ => defaults) (fun _ => 1) (fun _ => 0)).run
      (fun _ => defaults) scriptPeers ((raceRun 9000000000).take 3) = some c := ⟨_, rfl⟩
  have hj : "node2" ∈ (c.nodes "node1").detector.membership.members := by
    cases h
    decide
  exact ⟨c, h, hj, known_along_seeds _ _ _ _ h hj⟩

/-- In the cluster script every node seeds the first and the first seeds none, so nothing reaches
a node but the first, except itself. -/
theorem reaches_scriptPeers {i j : String} (hi : i ≠ "node1") (h : Reaches scriptPeers j i) : j = i := by
  rcases Relation.ReflTransGen.cases_tail h with rfl | ⟨b, -, hb⟩
  · rfl
  · unfold scriptPeers at hb
    split at hb
    · cases hb
    · exact absurd (List.mem_singleton.mp hb) hi

/-- **With the cluster script's seeds, every node but the first knows only itself.** From
startup, along every run of a cluster wired as the script wires it: the nodes other than `node1`
never learn of any other node. -/
theorem script_nodes_know_only_themselves (w : String → Wiring) (virtualNodes t₀ : String → Int)
    {as : List Cluster.Action} {c : Cluster}
    (h : (Cluster.start w virtualNodes t₀).run w scriptPeers as = some c) {i j : String}
    (hi : i ≠ "node1") (hj : j ∈ (c.nodes i).detector.membership.members) : j = i :=
  reaches_scriptPeers hi (((Cluster.Flows.start virtualNodes t₀).run h).knows i j (.inl hj))

/-- `node2` knows itself, after a run in which it gossips. -/
theorem script_node2_knows_itself :
    ∃ c, (Cluster.start (fun _ => defaults) (fun _ => 1) (fun _ => 0)).run (fun _ => defaults) scriptPeers
        (raceRun 9000000000) = some c ∧
      ("node2" : String) ≠ "node1" ∧ "node2" ∈ (c.nodes "node2").detector.membership.members ∧
      ("node2" : String) = "node2" := by
  obtain ⟨c, h⟩ : ∃ c, (Cluster.start (fun _ => defaults) (fun _ => 1) (fun _ => 0)).run
      (fun _ => defaults) scriptPeers (raceRun 9000000000) = some c := ⟨_, rfl⟩
  have hj : "node2" ∈ (c.nodes "node2").detector.membership.members := by
    cases h
    decide
  exact ⟨c, h, by decide, hj, script_nodes_know_only_themselves _ _ _ h (by decide) hj⟩

end MiniDynamo.Gossip
