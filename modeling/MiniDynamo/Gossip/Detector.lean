import MiniDynamo.Gossip.Membership
import MiniDynamo.Ring.Canonical

/-! The failure detector (`failure_detector.go`), wired to the ring as `main.go` wires it.

Each second `checkMembers` copies the list (`GetAllMembers`), reads the clock once, and walks the
copies: a member other than the node itself that is alive and whose copied heartbeat time is more
than `suspectTimeout` old is marked suspect, one that is suspect and more than `deadTimeout` old is
marked dead, and a change fires `onStateChange`, which takes a dead node out of the ring and puts a
node revived from dead back. `RecordHeartbeat` runs for the sender of every gossip message, and
`Revive` marks a suspect or dead member alive and fires the callback.

The detector goroutine, the gossip receiver and callers of `Revive` run concurrently, each call
taking the list's lock on its own. `Detector.step` is one step of that system: a tick starts
(the copy and the clock), the tick checks its next member, a heartbeat is recorded, a gossip
message is merged, or a node is revived. The copies a tick works through share each member's node
with the list, so a member's state is read when it is checked, while its heartbeat time is the
copied one. In `step` each member's check is one step (`checkMember`): its state read, transition
and callback happen together.

They do not in `checkMembers`: it reads the shared state four times without the lock
(`oldState`, the `switch`, the `if` after it, and the callback's argument), and only
`transitionTo`'s `UpdateState` takes it. `checkStep` is one of these reads or the write, with
`Checking` saying which comes next; a node runs its detector by these steps (`Protocol.lean`).
Run back to back with nothing between them they are `step`'s check (`checkThrough_eq_step`), so
every run of `step` is a run of the node, with no other call inside a check. -/
namespace MiniDynamo.Gossip

open Ring

/-- A call of the `onStateChange` callback. -/
structure Change where
  nodeID : String
  old : NodeState
  new : NodeState
  deriving DecidableEq, Repr

namespace FailureDetector

section Check

variable (suspectTimeout deadTimeout : Int)

/-- The `switch` of `checkMembers`: the state a member in `state` is moved to, `elapsed` after
its heartbeat. Dead nodes stay dead until revived. -/
def transition : NodeState → Int → Option NodeState
  | .alive, elapsed => if elapsed > suspectTimeout then some .suspect else none
  | .suspect, elapsed => if elapsed > deadTimeout then some .dead else none
  | .dead, _ => none

/-- One turn of `checkMembers`' loop, for the copy `(nodeID, lastHeartbeat)`. The callback fires
exactly when the member was moved, as the state it reads back is the one just written. -/
def checkMember (ml : MembershipList) (now : Int) (copy : String × Int) :
    MembershipList × List Change :=
  if copy.1 = ml.selfID then (ml, []) else
  match ml.getMember copy.1 with
  | none => (ml, [])
  | some m =>
    match transition suspectTimeout deadTimeout m.state (now - copy.2) with
    | none => (ml, [])
    | some state => (ml.updateState copy.1 state now, [⟨copy.1, m.state, state⟩])

end Check

/-- `Revive`: a suspect or dead member is made alive, heard from now, and the callback fires. -/
def revive (ml : MembershipList) (nodeID : String) (now : Int) : MembershipList × List Change :=
  match ml.getMember nodeID with
  | none => (ml, [])
  | some m =>
    if m.state = .dead ∨ m.state = .suspect then
      ((ml.updateState nodeID .alive now).recordHeartbeat nodeID now, [⟨nodeID, m.state, .alive⟩])
    else (ml, [])

/-- `RecordHeartbeat`: the list records the heartbeat, then a member that was not alive is
revived. -/
def recordHeartbeat (ml : MembershipList) (nodeID : String) (now : Int) :
    MembershipList × List Change :=
  match ml.getMember nodeID with
  | none => (ml, [])
  | some m =>
    let ml := ml.recordHeartbeat nodeID now
    if m.state ≠ .alive then revive ml nodeID now else (ml, [])

/-! ### What each call does -/

section Calls

variable {suspectTimeout deadTimeout : Int} (ml : MembershipList) (nodeID : String) (now : Int)

theorem transition_eq_some {state state' : NodeState} {elapsed : Int} :
    transition suspectTimeout deadTimeout state elapsed = some state' ↔
      state = .alive ∧ state' = .suspect ∧ elapsed > suspectTimeout ∨
        state = .suspect ∧ state' = .dead ∧ elapsed > deadTimeout := by
  cases state <;> simp [transition, eq_comm, and_comm]

/-- The switch always changes the state it moves. -/
theorem transition_ne {state state' : NodeState} {elapsed : Int}
    (h : transition suspectTimeout deadTimeout state elapsed = some state') : state' ≠ state := by
  rcases transition_eq_some.mp h with ⟨rfl, rfl, -⟩ | ⟨rfl, rfl, -⟩ <;> decide

/-- A check either leaves the list alone and fires nothing, or makes the switch's transition for
a member other than the node itself and fires the callback for it. -/
theorem checkMember_cases (copy : String × Int) :
    checkMember suspectTimeout deadTimeout ml now copy = (ml, []) ∨
      ∃ m state, copy.1 ≠ ml.selfID ∧ ml.getMember copy.1 = some m ∧
        transition suspectTimeout deadTimeout m.state (now - copy.2) = some state ∧
        checkMember suspectTimeout deadTimeout ml now copy =
          (ml.updateState copy.1 state now, [⟨copy.1, m.state, state⟩]) := by
  unfold checkMember
  split
  · exact .inl rfl
  split
  · exact .inl rfl
  next m hm =>
    split
    · exact .inl rfl
    next state ht => exact .inr ⟨m, state, ‹_›, hm, ht, rfl⟩

/-- `Revive` either does nothing, or makes a suspect or dead member alive and fires the
callback for it. -/
theorem revive_cases :
    revive ml nodeID now = (ml, []) ∨
      ∃ m, ml.getMember nodeID = some m ∧ m.state ≠ .alive ∧
        (revive ml nodeID now).1.getMember nodeID = some ⟨.alive, now⟩ ∧
        (∀ id, id ≠ nodeID → (revive ml nodeID now).1.getMember id = ml.getMember id) ∧
        (revive ml nodeID now).1.selfID = ml.selfID ∧
        (revive ml nodeID now).2 = [⟨nodeID, m.state, .alive⟩] := by
  unfold revive
  split
  · exact .inl rfl
  next m hm =>
    split
    next hs =>
      refine .inr ⟨m, hm, by rcases hs with hs | hs <;> rw [hs] <;> decide, ?_, fun id hid => ?_,
        by simp, rfl⟩
      · exact MembershipList.getMember_recordHeartbeat _ (ml.getMember_updateState hm _ _) _
      · rw [MembershipList.getMember_recordHeartbeat_ne _ _ hid,
          MembershipList.getMember_updateState_ne _ _ _ hid]
    · exact .inl rfl

/-- `RecordHeartbeat` is the list's `RecordHeartbeat` and fires no callback: that call has
already made the member alive when the `Revive` after it reads the member's state. -/
theorem recordHeartbeat_eq :
    recordHeartbeat ml nodeID now = (ml.recordHeartbeat nodeID now, []) := by
  unfold recordHeartbeat
  split
  next hm => simp [MembershipList.recordHeartbeat, hm]
  next m hm =>
    dsimp only
    split
    · simp [revive, MembershipList.getMember_recordHeartbeat _ hm]
    · rfl

end Calls

end FailureDetector

/-- What `main.go` fixes: the ring's hash and sort, and the detector's two timeouts. -/
structure Wiring where
  hash : String → UInt64
  sort : SortByHash
  suspectTimeout : Int
  deadTimeout : Int

/-- `onStateChange` in `main.go`: a node marked dead leaves the ring, a node revived from dead
joins it again. `RemoveNode` may panic (`none`). -/
def onStateChange (w : Wiring) (r : HashRing) (c : Change) : Option HashRing :=
  if c.new = .dead then r.removeNode c.nodeID
  else if c.new = .alive ∧ c.old = .dead then some (r.addNode w.hash w.sort c.nodeID)
  else some r

/-- The callbacks a call fired, run in order. -/
def notify (w : Wiring) (r : HashRing) : List Change → Option HashRing
  | [] => some r
  | c :: cs => (onStateChange w r c).bind fun r => notify w r cs

/-- The detector's side of a node: its membership list, the ring `onStateChange` drives, the
latest clock reading, and the tick in progress: its `time.Now()` and the copies it has still
to check. -/
structure Detector where
  membership : MembershipList
  ring : HashRing
  clock : Int
  now : Int
  pending : List (String × Int)

/-- One step of the node's detector side. -/
inductive Event
  /-- The ticker fires: `GetAllMembers` in the map's iteration order `order`, then `time.Now()`. -/
  | tick (now : Int) (order : List String)
  /-- `checkMembers` handles its next copy. -/
  | check
  /-- `handleMessage`: `FailureDetector.RecordHeartbeat` for the sender. -/
  | heartbeat (nodeID : String) (now : Int)
  /-- `handleMessage`: `Merge` of the gossiped members. -/
  | merge (other : AList fun _ : String => NodeInfo)
  /-- `Revive`. -/
  | revive (nodeID : String) (now : Int)

/-- Where `checkMembers` is in its check of one copy: the step it takes next. -/
inductive Checking
  /-- Take the next copy, pass over it if it is the node itself, and read `oldState`. -/
  | next
  /-- The `switch` reads the state, for the copy of `nodeID`, `elapsed` after its copied
  heartbeat time, whose `oldState` was read as `old`. -/
  | switch (nodeID : String) (elapsed : Int) (old : NodeState)
  /-- `transitionTo(nodeID, state)`: the locked `UpdateState`. -/
  | update (nodeID : String) (old state : NodeState)
  /-- `oldState != member.Node.State` reads the state. -/
  | compare (nodeID : String) (old : NodeState)
  /-- The callback reads its argument, the state, and `onStateChange` runs. -/
  | notify (nodeID : String) (old : NodeState)
  deriving DecidableEq, Repr

/-- The member whose check is in progress, with its `oldState`. -/
def Checking.member? : Checking → Option (String × NodeState)
  | .next => none
  | .switch nodeID _ old | .update nodeID old _ | .compare nodeID old | .notify nodeID old =>
    some (nodeID, old)

/-- A tick starts a new pass; every other step belongs to a pass already started or to gossip. -/
def Event.isTick : Event → Bool
  | .tick .. => true
  | _ => false

namespace Detector

variable (w : Wiring)

/-- The list and callbacks a call returned, applied to the node. -/
def apply (d : Detector) (r : MembershipList × List Change) : Option Detector :=
  (notify w d.ring r.2).map fun ring => { d with membership := r.1, ring }

/-- A step: `none` when it cannot happen (a tick while one is in progress, a clock going back,
no copy left to check) or when the ring panics. -/
def step (d : Detector) : Event → Option Detector
  | .tick now order =>
    if d.pending = [] ∧ d.clock ≤ now ∧ order.Perm d.membership.members.keys then
      some { d with clock := now, now, pending := d.membership.snapshot order }
    else none
  | .check =>
    match d.pending with
    | [] => none
    | copy :: rest =>
      apply w { d with pending := rest }
        (FailureDetector.checkMember w.suspectTimeout w.deadTimeout d.membership d.now copy)
  | .heartbeat nodeID now =>
    if d.clock ≤ now then
      apply w { d with clock := now } (FailureDetector.recordHeartbeat d.membership nodeID now)
    else none
  | .merge other => some { d with membership := d.membership.merge other }
  | .revive nodeID now =>
    if d.clock ≤ now then
      apply w { d with clock := now } (FailureDetector.revive d.membership nodeID now)
    else none

/-- Steps one after another. -/
def run : Detector → List Event → Option Detector
  | d, [] => some d
  | d, e :: es => (step w d e).bind fun d => run d es

/-- One step of `checkMembers`' loop, for the tick in progress: `none` when no copy is left, or
when the ring panics. A member once listed stays listed, so the reads after `oldState` find it. -/
def checkStep (d : Detector) : Checking → Option (Detector × Checking)
  | .next =>
    match d.pending with
    | [] => none
    | copy :: rest =>
      if copy.1 = d.membership.selfID then some ({ d with pending := rest }, .next) else
      match d.membership.getMember copy.1 with
      | none => some ({ d with pending := rest }, .next)
      | some m => some ({ d with pending := rest }, .switch copy.1 (d.now - copy.2) m.state)
  | .switch nodeID elapsed old =>
    match (d.membership.getMember nodeID).bind fun m =>
        FailureDetector.transition w.suspectTimeout w.deadTimeout m.state elapsed with
    | some state => some (d, .update nodeID old state)
    | none => some (d, .compare nodeID old)
  | .update nodeID old state =>
    some ({ d with membership := d.membership.updateState nodeID state d.now }, .compare nodeID old)
  | .compare nodeID old =>
    if (d.membership.getMember nodeID).map Member.state = some old then some (d, .next)
    else some (d, .notify nodeID old)
  | .notify nodeID old =>
    match d.membership.getMember nodeID with
    | none => some (d, .next)
    | some m => (onStateChange w d.ring ⟨nodeID, old, m.state⟩).map fun ring => ({ d with ring }, .next)

/-- The steps of one check with nothing between them, until the loop is back between copies. -/
def checkThrough : Nat → Detector → Checking → Option Detector
  | 0, _, _ => none
  | fuel + 1, d, c =>
    (checkStep w d c).bind fun r => if r.2 = .next then some r.1 else checkThrough fuel r.1 r.2

/-! ### What each step does -/

section Steps

variable {w} {d d' : Detector} {nodeID : String} {now : Int}

@[simp] theorem notify_nil (r : HashRing) : notify w r [] = some r := rfl

@[simp] theorem notify_singleton (r : HashRing) (c : Change) :
    notify w r [c] = onStateChange w r c := by
  simp [notify]

theorem apply_eq_some {r : MembershipList × List Change} :
    apply w d r = some d' ↔
      ∃ ring, notify w d.ring r.2 = some ring ∧ { d with membership := r.1, ring } = d' :=
  Option.map_eq_some'

theorem step_tick {order : List String} (h : step w d (.tick now order) = some d') :
    d' = { d with clock := now, now, pending := d.membership.snapshot order } := by
  simp only [step] at h
  split at h
  · exact (Option.some.inj h).symm
  · cases h

theorem step_check (h : step w d .check = some d') :
    ∃ copy rest, d.pending = copy :: rest ∧ apply w { d with pending := rest }
      (FailureDetector.checkMember w.suspectTimeout w.deadTimeout d.membership d.now copy) = some d' := by
  simp only [step] at h
  split at h
  · cases h
  · exact ⟨_, _, ‹_›, h⟩

theorem step_heartbeat (h : step w d (.heartbeat nodeID now) = some d') :
    apply w { d with clock := now } (FailureDetector.recordHeartbeat d.membership nodeID now) = some d' := by
  simp only [step] at h
  split at h
  · exact h
  · cases h

theorem step_merge {other : AList fun _ : String => NodeInfo} (h : step w d (.merge other) = some d') :
    d' = { d with membership := d.membership.merge other } :=
  (Option.some.inj h).symm

theorem step_revive (h : step w d (.revive nodeID now) = some d') :
    apply w { d with clock := now } (FailureDetector.revive d.membership nodeID now) = some d' := by
  simp only [step] at h
  split at h
  · exact h
  · cases h

end Steps

/-! ### What each step of a check does -/

section Checks

variable {w} {d d' : Detector} {c' : Checking} {nodeID : String} {old : NodeState}

/-- Taking the next copy: it leaves the pending copies, and the check goes on to the `switch`
unless the copy is the node itself. -/
theorem checkStep_next (h : d.checkStep w .next = some (d', c')) :
    ∃ copy rest, d.pending = copy :: rest ∧ d' = { d with pending := rest } ∧
      (c' = .next ∨ ∃ m, copy.1 ≠ d.membership.selfID ∧ d.membership.getMember copy.1 = some m ∧
        c' = .switch copy.1 (d.now - copy.2) m.state) := by
  simp only [checkStep] at h
  split at h
  · cases h
  next copy rest hp =>
    split at h
    · cases h
      exact ⟨copy, rest, hp, rfl, .inl rfl⟩
    split at h
    · cases h
      exact ⟨copy, rest, hp, rfl, .inl rfl⟩
    next m hm =>
      cases h
      exact ⟨copy, rest, hp, rfl, .inr ⟨m, ‹_›, hm, rfl⟩⟩

/-- The `switch` writes nothing: it chooses `UpdateState` by the state it reads now. -/
theorem checkStep_switch {elapsed : Int} (h : d.checkStep w (.switch nodeID elapsed old) = some (d', c')) :
    d' = d ∧ (c' = .compare nodeID old ∨ ∃ m state, d.membership.getMember nodeID = some m ∧
      FailureDetector.transition w.suspectTimeout w.deadTimeout m.state elapsed = some state ∧
      c' = .update nodeID old state) := by
  simp only [checkStep] at h
  split at h
  next state hs =>
    cases h
    obtain ⟨m, hm, ht⟩ := Option.bind_eq_some.mp hs
    exact ⟨rfl, .inr ⟨m, state, hm, ht, rfl⟩⟩
  · cases h
    exact ⟨rfl, .inl rfl⟩

theorem checkStep_update {state : NodeState} (h : d.checkStep w (.update nodeID old state) = some (d', c')) :
    d' = { d with membership := d.membership.updateState nodeID state d.now } ∧ c' = .compare nodeID old := by
  cases h
  exact ⟨rfl, rfl⟩

/-- The `if` writes nothing: the check ends when the state it reads is still `oldState`. -/
theorem checkStep_compare (h : d.checkStep w (.compare nodeID old) = some (d', c')) :
    d' = d ∧ (c' = .next ∧ (d.membership.getMember nodeID).map Member.state = some old ∨
      c' = .notify nodeID old) := by
  simp only [checkStep] at h
  split at h <;> cases h
  · exact ⟨rfl, .inl ⟨rfl, ‹_›⟩⟩
  · exact ⟨rfl, .inr rfl⟩

/-- The callback changes only the ring, for the state it reads now. -/
theorem checkStep_notify (h : d.checkStep w (.notify nodeID old) = some (d', c')) :
    c' = .next ∧ (d' = d ∨ ∃ m ring, d.membership.getMember nodeID = some m ∧
      onStateChange w d.ring ⟨nodeID, old, m.state⟩ = some ring ∧ d' = { d with ring }) := by
  simp only [checkStep] at h
  split at h
  · cases h
    exact ⟨rfl, .inl rfl⟩
  next m hm =>
    obtain ⟨ring, hr, h⟩ := Option.map_eq_some'.mp h
    cases h
    exact ⟨rfl, .inr ⟨m, ring, hm, hr, rfl⟩⟩

/-- A step of a check keeps the tick's clock reading, takes copies only off the front of those
pending, and writes the list only at `UpdateState`. -/
theorem checkStep_frame {c : Checking} (h : d.checkStep w c = some (d', c')) :
    d'.now = d.now ∧ d'.pending <:+ d.pending ∧ (d'.membership = d.membership ∨
      ∃ nodeID old state, c = .update nodeID old state ∧
        d'.membership = d.membership.updateState nodeID state d.now) := by
  cases c with
  | next =>
    obtain ⟨copy, rest, hp, rfl, -⟩ := checkStep_next h
    exact ⟨rfl, hp ▸ List.suffix_cons _ _, .inl rfl⟩
  | switch =>
    obtain ⟨rfl, -⟩ := checkStep_switch h
    exact ⟨rfl, List.suffix_refl _, .inl rfl⟩
  | update nodeID old state =>
    obtain ⟨rfl, -⟩ := checkStep_update h
    exact ⟨rfl, List.suffix_refl _, .inr ⟨nodeID, old, state, rfl, rfl⟩⟩
  | compare =>
    obtain ⟨rfl, -⟩ := checkStep_compare h
    exact ⟨rfl, List.suffix_refl _, .inl rfl⟩
  | notify =>
    obtain ⟨-, rfl | ⟨m, ring, -, -, rfl⟩⟩ := checkStep_notify h <;>
      exact ⟨rfl, List.suffix_refl _, .inl rfl⟩

/-- The check a step goes on to is of the member it was of, or, from between copies, of the
member of a copy other than the node itself. -/
theorem checkStep_member {c : Checking} {x : String} (h : d.checkStep w c = some (d', c'))
    (hx : c'.member? = some (x, old)) :
    (∃ old', c.member? = some (x, old')) ∨ c = .next ∧ x ≠ d.membership.selfID := by
  cases c with
  | next =>
    obtain ⟨copy, rest, -, -, rfl | ⟨m, hs, -, rfl⟩⟩ := checkStep_next h
    · cases hx
    · cases hx
      exact .inr ⟨rfl, hs⟩
  | switch y elapsed o =>
    obtain ⟨-, rfl | ⟨m, state, -, -, rfl⟩⟩ := checkStep_switch h <;> (cases hx; exact .inl ⟨_, rfl⟩)
  | update y o state =>
    obtain ⟨-, rfl⟩ := checkStep_update h
    cases hx
    exact .inl ⟨_, rfl⟩
  | compare y o =>
    obtain ⟨-, ⟨rfl, -⟩ | rfl⟩ := checkStep_compare h
    · cases hx
    · cases hx
      exact .inl ⟨_, rfl⟩
  | notify y o =>
    obtain ⟨rfl, -⟩ := checkStep_notify h
    cases hx

/-- **A check run without interruption is `checkMember`.** From between copies, the steps of one
check with no other call between them end, within five steps, exactly as `step`'s check. -/
theorem checkThrough_eq_step (d : Detector) : checkThrough w 5 d .next = d.step w .check := by
  simp only [step]
  rcases hp : d.pending with _ | ⟨copy, rest⟩
  · simp [checkThrough, checkStep, hp]
  unfold FailureDetector.checkMember
  by_cases hs : copy.1 = d.membership.selfID
  · simp [checkThrough, checkStep, hp, hs, apply]
  rcases hm : d.membership.getMember copy.1 with _ | m
  · simp [checkThrough, checkStep, hp, hs, hm, apply]
  rcases ht : FailureDetector.transition w.suspectTimeout w.deadTimeout m.state (d.now - copy.2) with
    _ | state
  · simp [checkThrough, checkStep, hp, hs, hm, ht, apply]
  · simp [checkThrough, checkStep, hp, hs, hm, ht, apply, MembershipList.getMember_updateState _ hm,
      FailureDetector.transition_ne ht]
    cases onStateChange w d.ring ⟨copy.1, m.state, state⟩ <;> rfl

end Checks

end Detector

end MiniDynamo.Gossip
