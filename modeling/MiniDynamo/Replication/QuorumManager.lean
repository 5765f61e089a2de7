import MiniDynamo.Replication.Winner

/-! Quorum operations (`quorum.go`).

`ExecuteWrite` and `ExecuteRead` start one goroutine per operation and one that waits for them.
An operation's goroutine, once its `Execute` returns, takes `mu`, counts the outcome and closes
`done` if the successes have reached `required` and `done` is still open; its deferred `wg.Done`
runs after it lets `mu` go. The waiter, once `wg.Wait` returns, closes `done` if it finds it
open; its check and its close are two steps, with nothing held in between. The caller returns
once `<-done` does, reading the counters as they are then.

A `Call` is one such call in progress and `Event` one step of one of its goroutines, each
operation's outcome being free. From `start`, along every interleaving, `done` is never closed
twice; every interleaving ends, and when no step is left `done` has been closed exactly once, the
call has returned, and its `Success` says whether the operations that succeeded reached
`required` (`quorum_done_closed_once`). The waiter's close cannot meet a worker's: it comes only
after every `wg.Done`, hence after every worker's locked section. -/
namespace MiniDynamo.Replication

open Storage

/-- `QuorumManager`. Its timeout only bounds the operations' context, and their outcomes are free
here. -/
structure QuorumManager where
  replicationFactor : Int
  readQuorum : Int
  writeQuorum : Int
  deriving DecidableEq, Repr

/-- `QuorumResult`. -/
structure QuorumResult where
  success : Bool
  value : Bytes
  timestamp : Timestamp
  successCount : Int
  errorCount : Int
  errors : List String
  deriving DecidableEq, Repr

namespace QuorumManager

/-- `NewQuorumManager(n, r, w, timeout)`. -/
def new (n r w : Int) : QuorumManager := ⟨n, r, w⟩

/-- The successes a consistency level needs, `quorum` being the manager's own for the operation. -/
def requirement (qm : QuorumManager) (quorum : Int) : Consistency → Int
  | .one => 1
  | .all => qm.replicationFactor
  | .quorum => quorum

/-- `getWriteRequirement`. -/
def getWriteRequirement (qm : QuorumManager) : Consistency → Int := qm.requirement qm.writeQuorum

/-- `getReadRequirement`. -/
def getReadRequirement (qm : QuorumManager) : Consistency → Int := qm.requirement qm.readQuorum

/-- `ValidateQuorum`: `W + R > N`. -/
def validateQuorum (qm : QuorumManager) : Bool := qm.writeQuorum + qm.readQuorum > qm.replicationFactor

/-! ### A call in progress -/

/-- Where an operation's goroutine is: before its locked section, between it and its deferred
`wg.Done`, or finished; the last two with whether it counted a success. -/
inductive Worker
  | running
  | counted (succeeded : Bool)
  | finished (succeeded : Bool)
  deriving DecidableEq, Repr

/-- Where the waiting goroutine is: in `wg.Wait`, about to close `done` after finding it open, or
finished. -/
inductive Waiter
  | waiting
  | closing
  | finished
  deriving DecidableEq, Repr

/-- A call of `ExecuteWrite` or `ExecuteRead`: its goroutines, the counters they share under `mu`,
how many times `done` has been closed, and what the call returned, once it has. -/
structure Call (β : Type) where
  workers : List Worker
  successCount : Int
  errorCount : Int
  errors : List String
  entries : List KeyValueEntry
  closes : Nat
  waiter : Waiter
  returned : Option β

/-- One step of one goroutine of a call whose operations have outcomes in `α`. -/
inductive Event (α : Type)
  /-- Operation `i`'s `Execute` returns `outcome`, and its goroutine's locked section runs. -/
  | execute (i : Nat) (outcome : α)
  /-- Operation `i`'s deferred `wg.Done`. -/
  | wgDone (i : Nat)
  /-- The waiter, past `wg.Wait`, finds `done` open or closed. -/
  | check
  /-- The waiter's `close(done)`. -/
  | close
  /-- `<-done` returns to the caller, which reads the counters and returns. -/
  | receive
  deriving DecidableEq, Repr

namespace Worker

def succeeded : Worker → Bool
  | .running => false
  | .counted b | .finished b => b

def isFinished : Worker → Bool
  | .finished _ => true
  | _ => false

def isRunning : Worker → Bool
  | .running => true
  | _ => false

@[simp] theorem succeeded_running : running.succeeded = false := rfl
@[simp] theorem succeeded_counted (b : Bool) : (counted b).succeeded = b := rfl
@[simp] theorem succeeded_finished (b : Bool) : (finished b).succeeded = b := rfl
@[simp] theorem isFinished_running : running.isFinished = false := rfl
@[simp] theorem isFinished_counted (b : Bool) : (counted b).isFinished = false := rfl
@[simp] theorem isFinished_finished (b : Bool) : (finished b).isFinished = true := rfl
@[simp] theorem isRunning_running : running.isRunning = true := rfl
@[simp] theorem isRunning_counted (b : Bool) : (counted b).isRunning = false := rfl
@[simp] theorem isRunning_finished (b : Bool) : (finished b).isRunning = false := rfl

end Worker

/-- `fmt.Errorf("node %s: %w", operation.NodeID, err)`. -/
def nodeError (nodeID err : String) : String := "node " ++ nodeID ++ ": " ++ err

variable {α β : Type}

/-- An error counted by either locked section. -/
def Call.recordError (c : Call β) (nodeID err : String) : Call β :=
  { c with errorCount := c.errorCount + 1, errors := c.errors ++ [nodeError nodeID err] }

/-- `select { case <-done: default: close(done) }`, done at once by a goroutine holding `mu`. -/
def Call.closeIfOpen (c : Call β) : Call β := if c.closes = 0 then { c with closes := 1 } else c

/-- What differs between `ExecuteWrite` and `ExecuteRead`: what an outcome does to the counters
and whether it is a success, and what the call returns from the counters. An outcome touches
nothing but the counters, and counts one success or none. -/
structure Kind (α β : Type) where
  record : String → α → Call β → Call β
  succeeds : α → Bool
  finish : Int → Call β → β
  success : β → Bool
  successCount_record : ∀ nodeID o c,
    (record nodeID o c).successCount = c.successCount + if succeeds o then 1 else 0
  frame_record : ∀ nodeID o c, (record nodeID o c).workers = c.workers ∧
    (record nodeID o c).closes = c.closes ∧ (record nodeID o c).waiter = c.waiter ∧
    (record nodeID o c).returned = c.returned
  success_finish : ∀ required c, success (finish required c) = decide (c.successCount ≥ required)

section Steps

variable (kind : Kind α β) (required : Int) (ops : List String)

/-- A call just started: every operation's goroutine running, the waiter in `wg.Wait`. -/
def start : Call β := ⟨ops.map fun _ => .running, 0, 0, [], [], 0, .waiting, none⟩

/-- A step; one whose goroutine is not there yet, or is blocked, cannot happen. -/
def step (c : Call β) : Event α → Option (Call β)
  | .execute i o =>
    if c.workers[i]? = some .running then
      let c := kind.record (ops.getD i "") o
        { c with workers := c.workers.set i (.counted (kind.succeeds o)) }
      some (if c.successCount ≥ required then c.closeIfOpen else c)
    else none
  | .wgDone i =>
    match c.workers[i]? with
    | some (.counted b) => some { c with workers := c.workers.set i (.finished b) }
    | _ => none
  | .check =>
    if c.waiter = .waiting ∧ c.workers.all Worker.isFinished = true then
      some { c with waiter := if c.closes = 0 then .closing else .finished }
    else none
  | .close => if c.waiter = .closing then some { c with closes := c.closes + 1, waiter := .finished } else none
  | .receive =>
    if c.returned.isNone ∧ 0 < c.closes then some { c with returned := some (kind.finish required c) }
    else none

/-- Steps one after another. -/
def run (c : Call β) : List (Event α) → Option (Call β)
  | [] => some c
  | e :: es => (step kind required ops c e).bind fun c => run c es

end Steps

/-! ### `ExecuteWrite` and `ExecuteRead` -/

/-- `ExecuteWrite`'s locked section: an error is counted and kept, anything else is a success. -/
def writeRecord (nodeID : String) : Except String Unit → Call β → Call β
  | .error err, c => c.recordError nodeID err
  | .ok (), c => { c with successCount := c.successCount + 1 }

/-- `ExecuteRead`'s locked section: a nil entry with no error counts as nothing. -/
def readRecord (nodeID : String) : Except String (Option KeyValueEntry) → Call β → Call β
  | .error err, c => c.recordError nodeID err
  | .ok (some entry), c => { c with successCount := c.successCount + 1, entries := c.entries ++ [entry] }
  | .ok none, c => c

/-- What `ExecuteWrite` returns once `done` is closed. -/
def writeFinish (required : Int) (c : Call QuorumResult) : QuorumResult :=
  ⟨decide (c.successCount ≥ required), [], 0, c.successCount, c.errorCount, c.errors⟩

/-- What `ExecuteRead` returns once `done` is closed: the latest entry's value and timestamp, and
the entries. -/
def readFinish (required : Int) (c : Call (QuorumResult × List KeyValueEntry)) :
    QuorumResult × List KeyValueEntry :=
  let latest := latestOf c.entries
  (⟨decide (c.successCount ≥ required), (latest.map KeyValueEntry.value).getD [],
    (latest.map KeyValueEntry.timestamp).getD 0, c.successCount, c.errorCount, c.errors⟩, c.entries)

/-- `ExecuteWrite`'s goroutines. -/
def writeKind : Kind (Except String Unit) QuorumResult where
  record := writeRecord
  succeeds o := o.isOk
  finish := writeFinish
  success r := r.success
  successCount_record nodeID o c := by
    cases o <;> simp [writeRecord, Call.recordError, Except.isOk, Except.toBool]
  frame_record nodeID o c := by cases o <;> exact ⟨rfl, rfl, rfl, rfl⟩
  success_finish _ _ := rfl

/-- `ExecuteRead`'s goroutines. -/
def readKind : Kind (Except String (Option KeyValueEntry)) (QuorumResult × List KeyValueEntry) where
  record := readRecord
  succeeds
    | .ok (some _) => true
    | _ => false
  finish := readFinish
  success r := r.1.success
  successCount_record nodeID o c := by
    rcases o with _ | _ | _ <;> simp [readRecord, Call.recordError]
  frame_record nodeID o c := by rcases o with _ | _ | _ <;> exact ⟨rfl, rfl, rfl, rfl⟩
  success_finish _ _ := rfl

/-- `ExecuteWrite(ctx, ops, consistency)`, its operations' nodes being `ops`. -/
def executeWrite (qm : QuorumManager) (ops : List String) (consistency : Consistency) :
    List (Event (Except String Unit)) → Option (Call QuorumResult) :=
  run writeKind (qm.getWriteRequirement consistency) ops (start ops)

/-- `ExecuteRead(ctx, ops, consistency)`. -/
def executeRead (qm : QuorumManager) (ops : List String) (consistency : Consistency) :
    List (Event (Except String (Option KeyValueEntry))) →
      Option (Call (QuorumResult × List KeyValueEntry)) :=
  run readKind (qm.getReadRequirement consistency) ops (start ops)

/-! ### What each step does -/

namespace Worker

/-- Setting one goroutine's place changes a count over them by that goroutine alone. -/
theorem countP_set {l : List Worker} {i : Nat} {a : Worker} (h : l[i]? = some a) (b : Worker)
    (p : Worker → Bool) :
    (l.set i b).countP p + (if p a = true then 1 else 0) = l.countP p + (if p b = true then 1 else 0) := by
  induction l generalizing i with
  | nil => cases h
  | cons x xs ih =>
    cases i with
    | zero =>
      simp only [List.getElem?_cons_zero, Option.some.injEq] at h
      subst h
      rw [List.set_cons_zero, List.countP_cons, List.countP_cons]
      omega
    | succ i =>
      have := ih (by simpa using h)
      rw [List.set_cons_succ, List.countP_cons, List.countP_cons]
      omega

theorem all_isFinished_eq_false {l : List Worker} {i : Nat} {a : Worker} (h : l[i]? = some a)
    (ha : a.isFinished = false) : l.all isFinished = false :=
  List.all_eq_false.mpr ⟨a, List.mem_iff_getElem?.mpr ⟨i, h⟩, by simp [ha]⟩

end Worker

/-- How far the waiter has to go. -/
def Waiter.rank : Waiter → Nat
  | .waiting => 2
  | .closing => 1
  | .finished => 0

/-- How many steps the call can still take at most. -/
def Call.rank (c : Call β) : Nat :=
  c.workers.countP (fun w => !w.isFinished) + c.workers.countP Worker.isRunning + c.waiter.rank +
    if c.returned.isNone then 1 else 0

section Effects

variable {kind : Kind α β} {required : Int} {ops : List String} {c c' : Call β}

theorem step_execute {i : Nat} {o : α} (h : step kind required ops c (.execute i o) = some c') :
    c.workers[i]? = some .running ∧ c'.workers = c.workers.set i (.counted (kind.succeeds o)) ∧
      c'.successCount = c.successCount + (if kind.succeeds o then 1 else 0) ∧
      (c'.closes = c.closes ∨ c.closes = 0 ∧ c'.closes = 1 ∧ required ≤ c'.successCount) ∧
      c'.waiter = c.waiter ∧ c'.returned = c.returned := by
  simp only [step] at h
  split at h
  next hrun =>
    obtain ⟨hw, hcl, hwt, hret⟩ := kind.frame_record (ops.getD i "") o
      { c with workers := c.workers.set i (.counted (kind.succeeds o)) }
    have hsc := kind.successCount_record (ops.getD i "") o
      { c with workers := c.workers.set i (.counted (kind.succeeds o)) }
    cases h
    split
    next hq =>
      unfold Call.closeIfOpen
      split
      next h0 => exact ⟨hrun, hw, hsc, .inr ⟨hcl.symm.trans h0, rfl, hq⟩, hwt, hret⟩
      next => exact ⟨hrun, hw, hsc, .inl hcl, hwt, hret⟩
    next => exact ⟨hrun, hw, hsc, .inl hcl, hwt, hret⟩
  next => cases h

theorem step_wgDone {i : Nat} (h : step kind required ops c (.wgDone i) = some c') :
    ∃ b, c.workers[i]? = some (.counted b) ∧ c' = { c with workers := c.workers.set i (.finished b) } := by
  simp only [step] at h
  split at h
  next b hb => cases h; exact ⟨b, hb, rfl⟩
  next => cases h

theorem step_check (h : step kind required ops c .check = some c') :
    c.waiter = .waiting ∧ c.workers.all Worker.isFinished = true ∧
      c' = { c with waiter := if c.closes = 0 then .closing else .finished } := by
  simp only [step] at h
  split at h
  next hc => cases h; exact ⟨hc.1, hc.2, rfl⟩
  next => cases h

theorem step_close (h : step kind required ops c .close = some c') :
    c.waiter = .closing ∧ c' = { c with closes := c.closes + 1, waiter := .finished } := by
  simp only [step] at h
  split at h
  next hc => cases h; exact ⟨hc, rfl⟩
  next => cases h

theorem step_receive (h : step kind required ops c .receive = some c') :
    c.returned = none ∧ 0 < c.closes ∧ c' = { c with returned := some (kind.finish required c) } := by
  simp only [step] at h
  split at h
  next hc => cases h; exact ⟨Option.isNone_iff_eq_none.mp hc.1, hc.2, rfl⟩
  next => cases h

/-- Every step brings the call nearer its end. -/
theorem rank_step {e : Event α} (h : step kind required ops c e = some c') : c'.rank < c.rank := by
  cases e with
  | execute i o =>
    obtain ⟨hrun, hw, -, -, hwt, hret⟩ := step_execute h
    have h₁ := Worker.countP_set hrun (.counted (kind.succeeds o)) fun w => !w.isFinished
    have h₂ := Worker.countP_set hrun (.counted (kind.succeeds o)) Worker.isRunning
    simp only [Worker.isFinished_running, Worker.isFinished_counted, Worker.isRunning_running,
      Worker.isRunning_counted, Bool.not_false, if_true, Bool.false_eq_true, if_false] at h₁ h₂
    simp only [Call.rank, hw, hwt, hret]
    omega
  | wgDone i =>
    obtain ⟨b, hb, rfl⟩ := step_wgDone h
    have h₁ := Worker.countP_set hb (.finished b) fun w => !w.isFinished
    have h₂ := Worker.countP_set hb (.finished b) Worker.isRunning
    simp only [Worker.isFinished_counted, Worker.isFinished_finished, Worker.isRunning_counted,
      Worker.isRunning_finished, Bool.not_false, Bool.not_true, if_true, Bool.false_eq_true,
      if_false] at h₁ h₂
    simp only [Call.rank]
    omega
  | check =>
    obtain ⟨hwt, -, rfl⟩ := step_check h
    have hlt : (if c.closes = 0 then Waiter.closing else Waiter.finished).rank < c.waiter.rank := by
      rw [hwt]; split <;> decide
    unfold Call.rank
    dsimp only
    omega
  | close =>
    obtain ⟨hwt, rfl⟩ := step_close h
    have hlt : Waiter.finished.rank < c.waiter.rank := by rw [hwt]; decide
    unfold Call.rank
    dsimp only
    omega
  | receive =>
    obtain ⟨hret, -, rfl⟩ := step_receive h
    have hlt : (if (some (kind.finish required c)).isNone = true then 1 else 0) <
        if c.returned.isNone = true then 1 else 0 := by rw [hret]; simp
    unfold Call.rank
    dsimp only
    omega

theorem rank_run {es : List (Event α)} (h : run kind required ops c es = some c') :
    es.length + c'.rank ≤ c.rank := by
  induction es generalizing c with
  | nil => cases h; simp
  | cons e es ih =>
    obtain ⟨mid, hs, hr⟩ := Option.bind_eq_some.mp h
    have := ih hr
    have := rank_step hs
    simp only [List.length_cons]
    omega

end Effects

theorem rank_start (ops : List String) : (start ops : Call β).rank = 2 * ops.length + 3 := by
  simp only [Call.rank, start, List.countP_map, Waiter.rank, Option.isNone_none, if_true]
  have h₁ : ops.countP ((fun w => !w.isFinished) ∘ fun _ => Worker.running) = ops.length :=
    List.countP_eq_length.mpr fun _ _ => rfl
  have h₂ : ops.countP (Worker.isRunning ∘ fun _ => Worker.running) = ops.length :=
    List.countP_eq_length.mpr fun _ _ => rfl
  omega

/-! ### What every interleaving keeps -/

/-- What holds of a call at every point of every interleaving: one goroutine per operation,
the successes counted, `done` closed at most once, the waiter past `wg.Wait` only once every
operation's goroutine has finished, `done` closed only once the successes reached `required` or
every operation finished, and a return only after `done` was closed, with a `Success` that only
the rest of the operations, if any is left, could not change. -/
structure Invariant (kind : Kind α β) (required : Int) (ops : List String) (c : Call β) : Prop where
  length : c.workers.length = ops.length
  successes : c.successCount = c.workers.countP Worker.succeeded
  closes_le : c.closes ≤ 1
  past_wait : c.waiter ≠ .waiting → c.workers.all Worker.isFinished = true
  closing : c.waiter = .closing → c.closes = 0
  finished : c.waiter = .finished → c.closes = 1
  closed : c.closes = 1 → required ≤ c.successCount ∨ c.workers.all Worker.isFinished = true
  returned : ∀ r, c.returned = some r → c.closes = 1 ∧
    (kind.success r = true ∧ required ≤ c.successCount ∨
      kind.success r = false ∧ c.successCount < required ∧ c.workers.all Worker.isFinished = true)

section Invariant

variable {kind : Kind α β} {required : Int} {ops : List String} {c c' : Call β}

theorem invariant_start : Invariant kind required ops (start ops) where
  length := List.length_map _ _
  successes := by
    simp only [start, List.countP_map]
    rw [List.countP_eq_zero.mpr fun _ _ => by simp]
    rfl
  closes_le := Nat.zero_le 1
  past_wait h := absurd rfl h
  closing h := by cases h
  finished h := by cases h
  closed h := by cases h
  returned _ h := by cases h

/-- While a goroutine has not finished, the waiter is still in `wg.Wait`. -/
theorem Invariant.waiting (hi : Invariant kind required ops c) {i : Nat} {a : Worker}
    (h : c.workers[i]? = some a) (ha : a.isFinished = false) : c.waiter = .waiting := by
  by_contra hw
  have := hi.past_wait hw
  rw [Worker.all_isFinished_eq_false h ha] at this
  cases this

theorem Invariant.execute (hi : Invariant kind required ops c) {i : Nat} {o : α}
    (h : step kind required ops c (.execute i o) = some c') : Invariant kind required ops c' := by
  obtain ⟨hrun, hw, hsc, hcl, hwt, hret⟩ := step_execute h
  have hwait := hi.waiting hrun rfl
  have hnf := Worker.all_isFinished_eq_false hrun rfl
  have hcount := Worker.countP_set hrun (.counted (kind.succeeds o)) Worker.succeeded
  simp only [Worker.succeeded, Bool.false_eq_true, if_false] at hcount
  have hgrow : c.successCount ≤ c'.successCount := by rw [hsc]; split <;> omega
  have hclosed : c'.closes = 1 → required ≤ c'.successCount := fun h1 => by
    rcases hcl with hcl | ⟨-, -, hq⟩
    · rcases hi.closed (hcl ▸ h1) with hq | hall
      · omega
      · rw [hnf] at hall; cases hall
    · exact hq
  have hsucc : c'.successCount = c'.workers.countP Worker.succeeded := by
    rw [hw, hsc, hi.successes]
    generalize kind.succeeds o = b at hcount ⊢
    cases b <;> simp only [if_true, if_false, Bool.false_eq_true] at hcount ⊢ <;> omega
  refine ⟨by rw [hw, List.length_set, hi.length], hsucc,
    by have := hi.closes_le; rcases hcl with hcl | ⟨-, hcl, -⟩ <;> omega,
    fun h => absurd (hwt.trans hwait) h, fun h => (by rw [hwt, hwait] at h; cases h),
    fun h => (by rw [hwt, hwait] at h; cases h), fun h1 => .inl (hclosed h1), fun r hr => ?_⟩
  obtain ⟨h1, hr⟩ := hi.returned r (hret ▸ hr)
  have h1' : c'.closes = 1 := by rcases hcl with hcl | ⟨h0, -, -⟩ <;> omega
  rcases hr with ⟨hs, hq⟩ | ⟨-, -, hall⟩
  · exact ⟨h1', .inl ⟨hs, by omega⟩⟩
  · rw [hnf] at hall; cases hall

theorem Invariant.wgDone (hi : Invariant kind required ops c) {i : Nat}
    (h : step kind required ops c (.wgDone i) = some c') : Invariant kind required ops c' := by
  obtain ⟨b, hb, rfl⟩ := step_wgDone h
  have hwait := hi.waiting hb rfl
  have hnf := Worker.all_isFinished_eq_false hb rfl
  have hcount := Worker.countP_set hb (.finished b) Worker.succeeded
  simp only [Worker.succeeded] at hcount
  refine ⟨by rw [List.length_set, hi.length], by dsimp only; rw [hi.successes]; omega, hi.closes_le,
    fun h => absurd hwait h, fun h => (by rw [hwait] at h; cases h),
    fun h => (by rw [hwait] at h; cases h), fun h1 => .inl ?_, fun r hr => ?_⟩
  · rcases hi.closed h1 with hq | hall
    · exact hq
    · rw [hnf] at hall; cases hall
  · obtain ⟨h1, hr⟩ := hi.returned r hr
    rcases hr with hr | ⟨-, -, hall⟩
    · exact ⟨h1, .inl hr⟩
    · rw [hnf] at hall; cases hall

theorem Invariant.check (hi : Invariant kind required ops c)
    (h : step kind required ops c .check = some c') : Invariant kind required ops c' := by
  obtain ⟨-, hall, rfl⟩ := step_check h
  refine ⟨hi.length, hi.successes, hi.closes_le, fun _ => hall, fun h => ?_, fun h => ?_,
    hi.closed, hi.returned⟩
  · dsimp only at h; split at h
    · assumption
    · cases h
  · dsimp only at h; split at h
    · cases h
    · have := hi.closes_le; dsimp only; omega

theorem Invariant.close (hi : Invariant kind required ops c)
    (h : step kind required ops c .close = some c') : Invariant kind required ops c' := by
  obtain ⟨hwt, rfl⟩ := step_close h
  have h0 := hi.closing hwt
  have hall := hi.past_wait (by rw [hwt]; exact fun h => by cases h)
  refine ⟨hi.length, hi.successes, by dsimp only; omega, fun _ => hall, fun h => (by cases h),
    fun _ => by dsimp only; omega, fun _ => .inr hall, fun r hr => ?_⟩
  have := (hi.returned r hr).1
  omega

theorem Invariant.receive (hi : Invariant kind required ops c)
    (h : step kind required ops c .receive = some c') : Invariant kind required ops c' := by
  obtain ⟨-, hpos, rfl⟩ := step_receive h
  have h1 : c.closes = 1 := by have := hi.closes_le; omega
  refine ⟨hi.length, hi.successes, hi.closes_le, hi.past_wait, hi.closing, hi.finished, hi.closed,
    fun r hr => ⟨h1, ?_⟩⟩
  cases hr
  dsimp only
  rw [kind.success_finish]
  by_cases hq : required ≤ c.successCount
  · exact .inl ⟨decide_eq_true hq, hq⟩
  · rcases hi.closed h1 with hq' | hall
    · exact absurd hq' hq
    · exact .inr ⟨decide_eq_false hq, by omega, hall⟩

theorem Invariant.next (hi : Invariant kind required ops c) {e : Event α}
    (h : step kind required ops c e = some c') : Invariant kind required ops c' := by
  cases e with
  | execute i o => exact hi.execute h
  | wgDone i => exact hi.wgDone h
  | check => exact hi.check h
  | close => exact hi.close h
  | receive => exact hi.receive h

theorem Invariant.reach (hi : Invariant kind required ops c) {es : List (Event α)}
    (h : run kind required ops c es = some c') : Invariant kind required ops c' := by
  induction es generalizing c with
  | nil => cases h; exact hi
  | cons e es ih =>
    obtain ⟨mid, hs, hr⟩ := Option.bind_eq_some.mp h
    exact ih (hi.next hs) hr

/-- When no goroutine can step, every operation has finished, the waiter too, `done` has been
closed once, and the call has returned whether the successes reached `required`. -/
theorem Invariant.stuck [Inhabited α] (hi : Invariant kind required ops c)
    (h : ∀ e, step kind required ops c e = none) :
    c.workers.all Worker.isFinished = true ∧ c.waiter = .finished ∧ c.closes = 1 ∧
      ∃ r, c.returned = some r ∧
        (kind.success r = true ↔ required ≤ c.workers.countP Worker.succeeded) := by
  have hall : c.workers.all Worker.isFinished = true := by
    by_contra hnf
    obtain ⟨w, hw, hwf⟩ := List.all_eq_false.mp (Bool.eq_false_iff.mpr hnf)
    obtain ⟨i, hi⟩ := List.mem_iff_getElem?.mp hw
    cases w with
    | running => have := h (.execute i default); simp [step, hi] at this
    | counted b => have := h (.wgDone i); simp [step, hi] at this
    | finished b => exact hwf rfl
  have hwt : c.waiter = .finished := by
    cases hw : c.waiter with
    | waiting => have := h .check; simp [step, hw, hall] at this
    | closing => have := h .close; simp [step, hw] at this
    | finished => rfl
  have h1 := hi.finished hwt
  obtain ⟨r, hr⟩ : ∃ r, c.returned = some r := by
    cases hret : c.returned with
    | none => have := h .receive; simp [step, hret, h1] at this
    | some r => exact ⟨r, rfl⟩
  refine ⟨hall, hwt, h1, r, hr, ?_⟩
  rw [← hi.successes]
  rcases (hi.returned r hr).2 with ⟨hs, hq⟩ | ⟨hs, hq, -⟩
  · exact ⟨fun _ => hq, fun _ => hs⟩
  · rw [hs]; exact ⟨fun h => (by cases h), fun h => by omega⟩

/-- Along every interleaving from `start`: `done` is never closed twice, the interleaving has at
most `2 * len(ops) + 3` steps, the call returns only after `done` is closed, and when no step is
left `done` has been closed exactly once and the call has returned whether the operations that
succeeded reached `required`. -/
theorem run_start [Inhabited α] {es : List (Event α)}
    (h : run kind required ops (start ops) es = some c) :
    c.closes ≤ 1 ∧ es.length ≤ 2 * ops.length + 3 ∧ (∀ r, c.returned = some r → c.closes = 1) ∧
      ((∀ e, step kind required ops c e = none) →
        c.closes = 1 ∧ c.workers.length = ops.length ∧ c.workers.all Worker.isFinished = true ∧
          ∃ r, c.returned = some r ∧
            (kind.success r = true ↔ required ≤ c.workers.countP Worker.succeeded)) := by
  have hi := invariant_start.reach h
  have hrank := rank_run h
  rw [rank_start] at hrank
  refine ⟨hi.closes_le, by omega, fun r hr => (hi.returned r hr).1, fun hs => ?_⟩
  obtain ⟨hall, -, h1, hr⟩ := hi.stuck hs
  exact ⟨h1, hi.length, hall, hr⟩

end Invariant

end QuorumManager

open QuorumManager

/-- **Quorum operations close `done` exactly once.** For `ExecuteWrite` and `ExecuteRead`, along
every interleaving of their goroutines and for every outcome of the operations, `done` is never
closed twice and every interleaving ends, within `2 * len(ops) + 3` steps; the call returns only
after `done` is closed; and once no step is left, `done` has been closed exactly once, every
operation has finished, and the returned `Success` is true exactly when the operations that
succeeded reach `required`. -/
theorem quorum_done_closed_once (qm : QuorumManager) (ops : List String)
    (consistency : Consistency) :
    (∀ es c, qm.executeWrite ops consistency es = some c →
      c.closes ≤ 1 ∧ es.length ≤ 2 * ops.length + 3 ∧ (∀ r, c.returned = some r → c.closes = 1) ∧
      ((∀ e, step writeKind (qm.getWriteRequirement consistency) ops c e = none) →
        c.closes = 1 ∧ c.workers.length = ops.length ∧ c.workers.all Worker.isFinished = true ∧
          ∃ r, c.returned = some r ∧
            (r.success = true ↔ qm.getWriteRequirement consistency ≤ c.workers.countP Worker.succeeded))) ∧
    (∀ es c, qm.executeRead ops consistency es = some c →
      c.closes ≤ 1 ∧ es.length ≤ 2 * ops.length + 3 ∧ (∀ r, c.returned = some r → c.closes = 1) ∧
      ((∀ e, step readKind (qm.getReadRequirement consistency) ops c e = none) →
        c.closes = 1 ∧ c.workers.length = ops.length ∧ c.workers.all Worker.isFinished = true ∧
          ∃ r, c.returned = some r ∧
            (r.1.success = true ↔ qm.getReadRequirement consistency ≤ c.workers.countP Worker.succeeded))) :=
  ⟨fun _ _ h => run_start h, fun _ _ h => run_start h⟩

/-- Two writes with a quorum of two, one failing: the waiter closes `done`, and the call returns
without success. -/
example : ((QuorumManager.new 3 2 2).executeWrite ["a", "b"] .quorum
    [.execute 0 (.ok ()), .execute 1 (.error "timeout"), .wgDone 0, .wgDone 1, .check, .close,
      .receive]).map (fun c => (c.closes, c.returned.map QuorumResult.success, c.errors)) =
    some (1, some false, ["node b: timeout"]) := by decide

end MiniDynamo.Replication
