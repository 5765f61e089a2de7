import MiniDynamo.Replication.Coordinator
import Mathlib.Algebra.Order.Ring.Nat

/-! Hinted handoff (`handoff.go`).

A `HintedHandoffStore` keeps, for each target node, its hints oldest first: entries to be replayed
to it. `Store` appends one, after dropping the oldest when the target already has `maxSize`;
`cleanup` drops the hints that have reached the age limit. `RemoveHint` and `IncrementAttempts`
find hints by their key alone: the first removes every hint of the key, the second counts an
attempt on the first of them.

`HandoffManager.deliverPendingHandoffs` takes the targets, and for each target it finds alive
takes a copy of its hints and tries each in turn: on success it calls `RemoveHint` with the hint's
key, on failure `IncrementAttempts`, and then `RemoveHint` too if the copy had more than ten
attempts. Every call on the store takes its lock afresh, so `Store` and `cleanup`, from other
goroutines, can come between any two of them: a step of `Handoff.System` is one such call, or one
`sendReplication`, with the answers of the network and the liveness of the targets free.

A hint is known by its entry and creation time (`stamp`), since its attempts change. A hint leaves
its target's queue only at the age limit, as the oldest of a full queue, or by a `RemoveHint` of
its key after a hint of the same target and key was delivered or given up (`leaves_by_key`). That
hint need not be the one that leaves: of two hints of one key, delivering the first removes the
second, which is then tried from the copy, fails, and is gone without ever being delivered. -/
namespace MiniDynamo.Replication

/-- `types.HintedHandoff`; `CreatedAt` is in nanoseconds. -/
structure HintedHandoff where
  targetNode : String
  entry : KeyValueEntry
  createdAt : Int
  attempts : Nat
  deriving DecidableEq, Repr

/-- What a hint is known by while its attempts are counted. -/
def HintedHandoff.stamp (h : HintedHandoff) : KeyValueEntry × Int := (h.entry, h.createdAt)

/-- `HintedHandoffStore`: the hints of each target node, oldest first (a target with none has no
entry), the age limit in nanoseconds and the bound per target. -/
structure HintedHandoffStore where
  hints : AList fun _ : String => List HintedHandoff
  maxAge : Int
  maxSize : Int

namespace HintedHandoffStore

/-- `NewHintedHandoffStore`; the goroutine it starts is the `cleanup` step. -/
def new (maxAge maxSize : Int) : HintedHandoffStore := ⟨∅, maxAge, maxSize⟩

/-- `GetHints`: a copy of the target's hints, nil for a target with none. -/
def getHints (s : HintedHandoffStore) (targetNode : String) : List HintedHandoff :=
  (s.hints.lookup targetNode).getD []

/-- `Count`: the lengths of the targets' hints, added up over the map. -/
def count (s : HintedHandoffStore) : Nat :=
  s.hints.entries.foldl (fun count e => count + e.2.length) 0

/-- The target's remaining hints written back, or its entry deleted when none remain, as
`RemoveHint` and `cleanup` do. -/
def setHints (s : HintedHandoffStore) (targetNode : String) (newHints : List HintedHandoff) :
    HintedHandoffStore :=
  if newHints.length = 0 then { s with hints := s.hints.erase targetNode }
  else { s with hints := s.hints.insert targetNode newHints }

/-- `Store` at time `now`: a target holding `maxSize` hints loses its oldest first. `hints[1:]`
panics on an empty queue, which a `maxSize ≤ 0` reaches: then there is no result. -/
def store (s : HintedHandoffStore) (targetNode : String) (entry : KeyValueEntry) (now : Int) :
    Option HintedHandoffStore := do
  let hint : HintedHandoff := ⟨targetNode, entry, now, 0⟩
  let hints := s.getHints targetNode
  let hints ← if s.maxSize ≤ hints.length then hints.tail? else some hints
  return { s with hints := s.hints.insert targetNode (hints ++ [hint]) }

/-- `RemoveHint`: every hint of the key goes. -/
def removeHint (s : HintedHandoffStore) (targetNode key : String) : HintedHandoffStore :=
  s.setHints targetNode ((s.getHints targetNode).filter fun h => h.entry.key ≠ key)

/-- The first hint of the key, with one more attempt. -/
def bumpFirst (key : String) : List HintedHandoff → List HintedHandoff
  | [] => []
  | h :: hints =>
    if h.entry.key = key then { h with attempts := h.attempts + 1 } :: hints
    else h :: bumpFirst key hints

/-- `IncrementAttempts`, in the slice the map holds; nothing for a target with no hints. -/
def incrementAttempts (s : HintedHandoffStore) (targetNode key : String) : HintedHandoffStore :=
  match s.hints.lookup targetNode with
  | none => s
  | some hints => { s with hints := s.hints.insert targetNode (bumpFirst key hints) }

/-- Whether `cleanup` at time `now` keeps a hint: `now.Sub(h.CreatedAt) < s.maxAge`. -/
def keeps (s : HintedHandoffStore) (now : Int) (h : HintedHandoff) : Bool :=
  now - h.createdAt < s.maxAge

/-- `cleanup` at time `now`, over the targets in the map's order. -/
def cleanup (s : HintedHandoffStore) (now : Int) : HintedHandoffStore :=
  s.hints.keys.foldl (fun acc target => acc.setHints target ((s.getHints target).filter (s.keeps now))) s

/-- How many of the target's hints are `h`, whatever their attempts. -/
def copies (s : HintedHandoffStore) (targetNode : String) (h : HintedHandoff) : Nat :=
  (s.getHints targetNode).countP fun h' => h'.stamp = h.stamp

/-! ### What each call does to a target's hints -/

section Calls

variable (s : HintedHandoffStore) {targetNode t : String}

@[simp] theorem maxAge_setHints (l : List HintedHandoff) : (s.setHints targetNode l).maxAge = s.maxAge := by
  unfold setHints; split <;> rfl

@[simp] theorem maxSize_setHints (l : List HintedHandoff) : (s.setHints targetNode l).maxSize = s.maxSize := by
  unfold setHints; split <;> rfl

@[simp] theorem maxSize_incrementAttempts (key : String) :
    (s.incrementAttempts targetNode key).maxSize = s.maxSize := by
  unfold incrementAttempts; split <;> rfl

@[simp] theorem maxSize_cleanup (now : Int) : (s.cleanup now).maxSize = s.maxSize := by
  suffices ∀ (targets : List String) (acc : HintedHandoffStore), (targets.foldl
      (fun acc target => acc.setHints target ((s.getHints target).filter (s.keeps now))) acc).maxSize =
        acc.maxSize from this _ _
  intro targets
  induction targets with
  | nil => intro; rfl
  | cons _ _ ih => intro acc; rw [List.foldl_cons, ih, maxSize_setHints]

theorem getHints_insert (l : List HintedHandoff) :
    (⟨s.hints.insert targetNode l, s.maxAge, s.maxSize⟩ : HintedHandoffStore).getHints t =
      if t = targetNode then l else s.getHints t := by
  unfold getHints
  split
  · subst t; rw [AList.lookup_insert]; rfl
  · rw [AList.lookup_insert_ne ‹_›]

theorem lookup_setHints (l : List HintedHandoff) :
    (s.setHints targetNode l).hints.lookup t =
      if t = targetNode then (if l.length = 0 then none else some l) else s.hints.lookup t := by
  unfold setHints
  by_cases ht : t = targetNode
  · subst ht
    split <;> simp [AList.lookup_erase, AList.lookup_insert, *]
  · split <;> simp only [AList.lookup_erase_ne ht, AList.lookup_insert_ne ht, ht, if_false]

theorem getHints_setHints (l : List HintedHandoff) :
    (s.setHints targetNode l).getHints t = if t = targetNode then l else s.getHints t := by
  unfold setHints getHints
  by_cases ht : t = targetNode
  · subst ht
    rw [if_pos (rfl : t = t)]
    split
    next hl => rw [AList.lookup_erase, List.eq_nil_of_length_eq_zero hl]; rfl
    next => rw [AList.lookup_insert]; rfl
  · split <;> simp only [AList.lookup_erase_ne ht, AList.lookup_insert_ne ht, ht, if_false]

theorem getHints_removeHint (key : String) :
    (s.removeHint targetNode key).getHints t =
      if t = targetNode then (s.getHints t).filter fun h => h.entry.key ≠ key else s.getHints t := by
  rw [removeHint, getHints_setHints]
  split <;> simp_all

/-- Counting an attempt keeps every hint. -/
theorem countP_bumpFirst (key : String) (p : KeyValueEntry × Int → Prop) [DecidablePred p]
    (l : List HintedHandoff) :
    (bumpFirst key l).countP (fun h => p h.stamp) = l.countP fun h => p h.stamp := by
  induction l with
  | nil => rfl
  | cons h l ih =>
    unfold bumpFirst
    split
    · simp only [List.countP_cons]; rfl
    · simp only [List.countP_cons, ih]

@[simp] theorem length_bumpFirst (key : String) (l : List HintedHandoff) :
    (bumpFirst key l).length = l.length := by
  induction l with
  | nil => rfl
  | cons h l ih => unfold bumpFirst; split <;> simp [ih]

/-- Counting an attempt keeps every hint where it was. -/
theorem map_stamp_bumpFirst (key : String) (l : List HintedHandoff) :
    (bumpFirst key l).map HintedHandoff.stamp = l.map HintedHandoff.stamp := by
  induction l with
  | nil => rfl
  | cons h l ih => unfold bumpFirst; split <;> simp [ih, HintedHandoff.stamp]

theorem lookup_incrementAttempts (key : String) :
    (s.incrementAttempts targetNode key).hints.lookup t =
      if t = targetNode then (s.hints.lookup t).map (bumpFirst key) else s.hints.lookup t := by
  unfold incrementAttempts
  by_cases ht : t = targetNode
  · subst ht; split <;> simp [AList.lookup_insert, *]
  · split <;> simp [AList.lookup_insert_ne ht, ht]

theorem getHints_incrementAttempts (key : String) :
    (s.incrementAttempts targetNode key).getHints t =
      if t = targetNode then bumpFirst key (s.getHints t) else s.getHints t := by
  unfold getHints
  rw [lookup_incrementAttempts]
  split
  · cases s.hints.lookup t <;> rfl
  · rfl

/-- `cleanup` filters every target's hints, and deletes the targets left with none. -/
theorem lookup_cleanup (now : Int) :
    (s.cleanup now).hints.lookup t = (s.hints.lookup t).bind fun hints =>
      if (hints.filter (s.keeps now)).length = 0 then none else some (hints.filter (s.keeps now)) := by
  have fold : ∀ (targets : List String) (acc : HintedHandoffStore),
      (targets.foldl (fun acc target => acc.setHints target ((s.getHints target).filter (s.keeps now)))
        acc).hints.lookup t = if t ∈ targets then
          (if ((s.getHints t).filter (s.keeps now)).length = 0 then none
            else some ((s.getHints t).filter (s.keeps now))) else acc.hints.lookup t := by
    intro targets
    induction targets with
    | nil => simp
    | cons target targets ih =>
      intro acc
      rw [List.foldl_cons, ih, lookup_setHints]
      by_cases h₁ : t ∈ targets <;> by_cases h₂ : t = target <;> simp [h₁, h₂]
  rw [cleanup, fold]
  rcases hl : s.hints.lookup t with _ | hints
  · rw [if_neg (by rwa [← AList.mem_keys, ← AList.lookup_eq_none])]; rfl
  · rw [if_pos (AList.mem_keys.mp (AList.lookup_isSome.mp (by rw [hl]; rfl)))]
    simp only [getHints, hl, Option.getD_some, Option.some_bind]

theorem getHints_cleanup (now : Int) : (s.cleanup now).getHints t = (s.getHints t).filter (s.keeps now) := by
  have fold : ∀ (targets : List String) (acc : HintedHandoffStore),
      (targets.foldl (fun acc target => acc.setHints target ((s.getHints target).filter (s.keeps now)))
        acc).getHints t = if t ∈ targets then (s.getHints t).filter (s.keeps now) else acc.getHints t := by
    intro targets
    induction targets with
    | nil => simp
    | cons target targets ih =>
      intro acc
      rw [List.foldl_cons, ih, getHints_setHints]
      by_cases h₁ : t ∈ targets <;> by_cases h₂ : t = target <;> simp [h₁, h₂]
  rw [cleanup, fold]
  split
  · rfl
  · have : s.hints.lookup t = none := AList.lookup_eq_none.mpr ‹_›
    simp [getHints, this]

/-- `Store` appends the new hint to the target's hints, or to all but the oldest of a full queue. -/
theorem store_eq_some {entry : KeyValueEntry} {now : Int} {s' : HintedHandoffStore}
    (h : s.store targetNode entry now = some s') :
    ∃ kept, (kept = s.getHints targetNode ∨
        s.maxSize ≤ (s.getHints targetNode).length ∧ ∃ oldest, s.getHints targetNode = oldest :: kept) ∧
      s' = { s with hints := s.hints.insert targetNode (kept ++ [⟨targetNode, entry, now, 0⟩]) } := by
  simp only [store, Option.bind_eq_bind, Option.pure_def] at h
  split at h
  · rcases hq : s.getHints targetNode with _ | ⟨oldest, kept⟩ <;> simp only [hq, List.tail?] at h
    · cases h
    · simp only [Option.some_bind, Option.some.injEq] at h
      exact ⟨kept, .inr ⟨by rwa [← hq], oldest, rfl⟩, h.symm⟩
  · simp only [Option.some_bind, Option.some.injEq] at h
    exact ⟨_, .inl rfl, h.symm⟩

/-- With a positive bound `Store` never panics: the new hint goes after the target's hints, less
the oldest when there are `maxSize` of them or more. -/
theorem store_of_pos (hpos : 0 < s.maxSize) (entry : KeyValueEntry) (now : Int) :
    s.store targetNode entry now = some ⟨s.hints.insert targetNode
      ((if s.maxSize ≤ (s.getHints targetNode).length then (s.getHints targetNode).tail
        else s.getHints targetNode) ++ [⟨targetNode, entry, now, 0⟩]), s.maxAge, s.maxSize⟩ := by
  rcases hq : s.getHints targetNode with _ | ⟨oldest, kept⟩
  · have hnot : ¬ s.maxSize ≤ 0 := by omega
    simp [store, hq, hnot]
  · by_cases hfull : s.maxSize ≤ (kept.length : Int) + 1 <;> simp [store, hq, hfull]

/-- `Count` is the sum of the targets' queue lengths. -/
theorem count_eq_sum : s.count = (s.hints.keys.map fun t => (s.getHints t).length).sum := by
  have hmap : (s.hints.keys.map fun t => (s.getHints t).length) =
      s.hints.entries.map fun e => e.2.length := by
    rw [AList.keys, List.keys, List.map_map]
    refine List.map_congr_left fun e he => ?_
    have hl : s.hints.lookup e.1 = some e.2 := AList.mem_lookup_iff.mpr he
    simp [getHints, hl]
  have hfold : ∀ (l : List (Σ _ : String, List HintedHandoff)) (n : Nat),
      l.foldl (fun count e => count + e.2.length) n = n + (l.map fun e => e.2.length).sum := by
    intro l
    induction l with
    | nil => simp
    | cons e l ih => intro n; simp only [List.foldl_cons, ih, List.map_cons, List.sum_cons]; omega
  rw [count, hfold, hmap, Nat.zero_add]

end Calls

/-! ### What each call does to the copies of a hint -/

section Copies

variable (s : HintedHandoffStore) {targetNode t : String} (h : HintedHandoff)

theorem copies_removeHint (key : String) :
    (s.removeHint targetNode key).copies t h =
      if t = targetNode ∧ h.entry.key = key then 0 else s.copies t h := by
  unfold copies
  rw [getHints_removeHint]
  by_cases ht : t = targetNode
  · rw [if_pos ht, List.countP_filter]
    by_cases hk : h.entry.key = key
    · rw [if_pos ⟨ht, hk⟩, List.countP_eq_zero]
      intro h' _
      simp only [Bool.and_eq_true, decide_eq_true_eq, not_and]
      intro hs
      rw [← hk, show h'.entry = h.entry from congrArg Prod.fst hs]
      exact not_not_intro rfl
    · rw [if_neg (fun h => hk h.2)]
      refine List.countP_congr fun h' _ => ?_
      simp only [Bool.and_eq_true, decide_eq_true_eq, and_iff_left_iff_imp]
      intro hs
      rwa [show h'.entry = h.entry from congrArg Prod.fst hs]
  · rw [if_neg ht, if_neg fun h => ht h.1]

theorem copies_incrementAttempts (key : String) : (s.incrementAttempts targetNode key).copies t h = s.copies t h := by
  unfold incrementAttempts
  split
  · rfl
  next hints hl =>
    unfold copies getHints
    by_cases ht : t = targetNode
    · subst ht
      rw [AList.lookup_insert, hl]
      exact countP_bumpFirst key (· = h.stamp) hints
    · rw [AList.lookup_insert_ne ht]

theorem copies_cleanup (now : Int) : (s.cleanup now).copies t h = if s.keeps now h then s.copies t h else 0 := by
  unfold copies
  rw [getHints_cleanup, List.countP_filter]
  have hk : ∀ h', h'.stamp = h.stamp → s.keeps now h' = s.keeps now h := fun h' hs => by
    rw [keeps, keeps, show h'.createdAt = h.createdAt from congrArg Prod.snd hs]
  split
  next hkeep =>
    refine List.countP_congr fun h' _ => ?_
    simp only [Bool.and_eq_true, decide_eq_true_eq, and_iff_left_iff_imp]
    intro hs; rw [hk h' hs]; exact hkeep
  next hkeep =>
    rw [List.countP_eq_zero]
    intro h' _
    simp only [Bool.and_eq_true, decide_eq_true_eq, not_and]
    intro hs; rw [hk h' hs]; exact hkeep

/-- A `Store` takes copies of a hint away only as the oldest of the target's full queue. -/
theorem evicted_of_store {entry : KeyValueEntry} {now : Int} {s' : HintedHandoffStore}
    (hs : s.store targetNode entry now = some s') (hc : s'.copies t h < s.copies t h) :
    t = targetNode ∧ s.maxSize ≤ (s.getHints targetNode).length ∧
      ∃ oldest rest, s.getHints targetNode = oldest :: rest ∧ oldest.stamp = h.stamp := by
  obtain ⟨kept, hkept, rfl⟩ := s.store_eq_some hs
  unfold copies getHints at hc
  by_cases ht : t = targetNode
  · subst ht
    rw [AList.lookup_insert, Option.getD_some, List.countP_append] at hc
    rcases hkept with rfl | ⟨hfull, oldest, hq⟩
    · exact absurd hc (by unfold getHints; omega)
    · refine ⟨rfl, hfull, oldest, kept, hq, ?_⟩
      unfold getHints at hq
      by_contra hne
      have hr : (oldest :: kept).countP (fun h' => h'.stamp = h.stamp) =
          kept.countP fun h' => h'.stamp = h.stamp := by
        simp [List.countP_cons, hne]
      rw [hq, hr] at hc
      omega
  · rw [AList.lookup_insert_ne ht] at hc
    exact absurd hc (lt_irrefl _)

end Copies

end HintedHandoffStore

namespace Handoff

open HintedHandoffStore

/-- Where `deliverPendingHandoffs` is. -/
inductive Phase
  /-- Between two calls. -/
  | idle
  /-- The targets still to visit. -/
  | targets (targets : List String)
  /-- Trying the copied hints `hints` of `targetNode`, then the other targets. -/
  | hints (targetNode : String) (hints : List HintedHandoff) (targets : List String)
  /-- `hint` was delivered: its `RemoveHint` is next. -/
  | delivered (targetNode : String) (hint : HintedHandoff) (hints : List HintedHandoff) (targets : List String)
  /-- `hint`'s delivery failed: its `IncrementAttempts` is next. -/
  | failed (targetNode : String) (hint : HintedHandoff) (hints : List HintedHandoff) (targets : List String)
  /-- `hint` had more than ten attempts: its `RemoveHint` is next. -/
  | giveUp (targetNode : String) (hint : HintedHandoff) (hints : List HintedHandoff) (targets : List String)
  deriving DecidableEq, Repr

/-- The store, the handoff manager, and the replication requests of the hints delivered. -/
structure System where
  store : HintedHandoffStore
  phase : Phase
  sent : List Message

/-- The manager has no `RemoveHint` pending. -/
def Phase.quiet : Phase → Bool
  | .delivered .. | .giveUp .. => false
  | _ => true

/-- A step: one locked call on the store, or one `sendReplication`. -/
inductive Event
  /-- `Store`, from another goroutine, at time `now`. -/
  | store (targetNode : String) (entry : KeyValueEntry) (now : Int)
  /-- A tick of `cleanupLoop` at time `now`. -/
  | cleanup (now : Int)
  /-- A tick of `deliveryLoop`: `GetAllTargets`, in the map's order `targets`. -/
  | tick (targets : List String)
  /-- The next target, `alive` or not among the coordinator's nodes; `GetHints` if it is. -/
  | visit (alive : Bool)
  /-- `sendReplication` of the next hint, and whether it succeeded within its deadline. -/
  | send (success : Bool)
  /-- `RemoveHint` of the hint's key, after its delivery or when giving up. -/
  | remove
  /-- `IncrementAttempts` of the hint's key after a failed delivery. -/
  | increment
  /-- One of `deliverPendingHandoffs`' loops runs out. -/
  | next
  deriving DecidableEq, Repr

namespace System

/-- A step; one that is not the manager's next cannot happen. -/
def step (sys : System) : Event → Option System
  | .store targetNode entry now => (sys.store.store targetNode entry now).map fun s => { sys with store := s }
  | .cleanup now => some { sys with store := sys.store.cleanup now }
  | .tick targets =>
    match sys.phase with
    | .idle => if targets.Perm sys.store.hints.keys then some { sys with phase := .targets targets } else none
    | _ => none
  | .visit alive =>
    match sys.phase with
    | .targets (targetNode :: targets) =>
      some { sys with phase := if alive then .hints targetNode (sys.store.getHints targetNode) targets
                               else .targets targets }
    | _ => none
  | .send success =>
    match sys.phase with
    | .hints targetNode (hint :: hints) targets =>
      if success then
        some { sys with phase := .delivered targetNode hint hints targets,
                        sent := sys.sent ++ [.replicate targetNode hint.entry] }
      else some { sys with phase := .failed targetNode hint hints targets }
    | _ => none
  | .remove =>
    match sys.phase with
    | .delivered targetNode hint hints targets | .giveUp targetNode hint hints targets =>
      some { sys with store := sys.store.removeHint targetNode hint.entry.key,
                      phase := .hints targetNode hints targets }
    | _ => none
  | .increment =>
    match sys.phase with
    | .failed targetNode hint hints targets =>
      some { sys with store := sys.store.incrementAttempts targetNode hint.entry.key,
                      phase := if hint.attempts > 10 then .giveUp targetNode hint hints targets
                               else .hints targetNode hints targets }
    | _ => none
  | .next =>
    match sys.phase with
    | .targets [] => some { sys with phase := .idle }
    | .hints _ [] targets => some { sys with phase := .targets targets }
    | _ => none

/-- Steps one after another. -/
def run : System → List Event → Option System
  | sys, [] => some sys
  | sys, ev :: evs => (sys.step ev).bind fun sys => run sys evs

/-! ### Why a hint leaves -/

variable {sys sys' : System} {ev : Event} {targetNode : String} {h : HintedHandoff}

/-- What the manager's phase says happened: a hint it is to remove after delivery was sent, and a
hint it gives up had more than ten attempts in the copy. -/
structure Consistent (sys : System) : Prop where
  delivered : ∀ {targetNode hint hints targets}, sys.phase = .delivered targetNode hint hints targets →
    Message.replicate targetNode hint.entry ∈ sys.sent
  giveUp : ∀ {targetNode hint hints targets}, sys.phase = .giveUp targetNode hint hints targets →
    hint.attempts > 10

theorem consistent_of_quiet (hq : sys.phase.quiet) : sys.Consistent :=
  ⟨(fun hp => by rw [hp] at hq; cases hq), fun hp => by rw [hp] at hq; cases hq⟩

theorem Consistent.step (hc : sys.Consistent) (hs : sys.step ev = some sys') : sys'.Consistent := by
  cases ev with
  | store targetNode entry now =>
    obtain ⟨s, -, rfl⟩ := Option.map_eq_some'.mp hs
    exact ⟨hc.delivered, hc.giveUp⟩
  | cleanup now => cases hs; exact ⟨hc.delivered, hc.giveUp⟩
  | tick targets =>
    simp only [step] at hs
    split at hs <;> [split at hs; cases hs] <;> cases hs
    exact consistent_of_quiet rfl
  | visit alive =>
    simp only [step] at hs
    split at hs <;> cases hs
    exact consistent_of_quiet (by split <;> rfl)
  | send success =>
    simp only [step] at hs
    split at hs <;> [split at hs; cases hs] <;> cases hs
    · exact ⟨fun hp => by cases hp; exact List.mem_append_right _ (List.mem_singleton_self _),
        fun hp => by cases hp⟩
    · exact consistent_of_quiet rfl
  | remove =>
    simp only [step] at hs
    split at hs <;> cases hs <;> exact consistent_of_quiet rfl
  | increment =>
    simp only [step] at hs
    split at hs <;> cases hs
    next targetNode hint hints targets hp =>
    split
    next ha => exact ⟨(fun hp => by cases hp), fun hp => by cases hp; exact ha⟩
    next => exact consistent_of_quiet rfl
  | next =>
    simp only [step] at hs
    split at hs <;> cases hs <;> exact consistent_of_quiet rfl

theorem Consistent.run {evs : List Event} (hc : sys.Consistent) (hr : sys.run evs = some sys') :
    sys'.Consistent := by
  induction evs generalizing sys with
  | nil => cases hr; exact hc
  | cons ev evs ih =>
    obtain ⟨mid, hs, hr⟩ := Option.bind_eq_some.mp hr
    exact ih (hc.step hs) hr

/-- Why a step can take copies of `h` out of `targetNode`'s hints. -/
inductive Removes (sys : System) (targetNode : String) (h : HintedHandoff) : Event → Prop
  /-- `cleanup` at a time when `h` has reached the age limit. -/
  | expired {now : Int} : sys.store.keeps now h = false → Removes sys targetNode h (.cleanup now)
  /-- `Store` to the target drops the oldest of its full queue, which is `h`. -/
  | evicted {entry : KeyValueEntry} {now : Int} {oldest : HintedHandoff} {rest : List HintedHandoff} :
      sys.store.maxSize ≤ (sys.store.getHints targetNode).length →
      sys.store.getHints targetNode = oldest :: rest → oldest.stamp = h.stamp →
      Removes sys targetNode h (.store targetNode entry now)
  /-- `RemoveHint` after the delivery of `hint`, of the same target and key, whose request was sent. -/
  | delivered {hint : HintedHandoff} {hints : List HintedHandoff} {targets : List String} :
      sys.phase = .delivered targetNode hint hints targets → hint.entry.key = h.entry.key →
      Message.replicate targetNode hint.entry ∈ sys.sent → Removes sys targetNode h .remove
  /-- `RemoveHint` giving up `hint`, of the same target and key, which had more than ten attempts. -/
  | gaveUp {hint : HintedHandoff} {hints : List HintedHandoff} {targets : List String} :
      sys.phase = .giveUp targetNode hint hints targets → hint.entry.key = h.entry.key →
      hint.attempts > 10 → Removes sys targetNode h .remove

/-- A step that takes copies of a hint away `Removes` them. -/
theorem removes_of_step (hc : sys.Consistent) (hs : sys.step ev = some sys')
    (hlt : sys'.store.copies targetNode h < sys.store.copies targetNode h) : Removes sys targetNode h ev := by
  cases ev with
  | store t entry now =>
    obtain ⟨s, hst, rfl⟩ := Option.map_eq_some'.mp hs
    obtain ⟨rfl, hfull, oldest, rest, hq, hstamp⟩ := sys.store.evicted_of_store h hst hlt
    exact .evicted hfull hq hstamp
  | cleanup now =>
    cases hs
    rw [copies_cleanup] at hlt
    split at hlt
    · exact absurd hlt (lt_irrefl _)
    next hk => exact .expired (Bool.eq_false_iff.mpr hk)
  | remove =>
    simp only [step] at hs
    split at hs <;> cases hs <;> rw [copies_removeHint] at hlt <;> split at hlt <;>
      first | exact absurd hlt (lt_irrefl _) | skip
    next hp hk => obtain ⟨rfl, hk⟩ := hk; exact .delivered hp hk.symm (hc.delivered hp)
    next hp hk => obtain ⟨rfl, hk⟩ := hk; exact .gaveUp hp hk.symm (hc.giveUp hp)
  | increment =>
    simp only [step] at hs
    split at hs <;> cases hs
    rw [copies_incrementAttempts] at hlt
    exact absurd hlt (lt_irrefl _)
  | tick | visit | send | next =>
    simp only [step] at hs
    repeat' split at hs
    all_goals cases hs
    all_goals exact absurd hlt (lt_irrefl _)

/-- Along a run from a consistent state, copies of a hint leave only at a step that `Removes`
them. -/
theorem leaves_by_key {evs : List Event} (hc : sys.Consistent) (hr : sys.run evs = some sys')
    (hlt : sys'.store.copies targetNode h < sys.store.copies targetNode h) :
    ∃ pre ev post mid, evs = pre ++ ev :: post ∧ sys.run pre = some mid ∧ Removes mid targetNode h ev := by
  induction evs generalizing sys with
  | nil => cases hr; exact absurd hlt (lt_irrefl _)
  | cons ev evs ih =>
    obtain ⟨mid, hs, hr⟩ := Option.bind_eq_some.mp hr
    by_cases hmid : mid.store.copies targetNode h < sys.store.copies targetNode h
    · exact ⟨[], ev, evs, sys, rfl, rfl, removes_of_step hc hs hmid⟩
    · obtain ⟨pre, ev', post, mid', rfl, hpre, hrem⟩ := ih (hc.step hs) hr (by omega)
      exact ⟨ev :: pre, ev', post, mid', rfl, by simp only [run, hs, Option.some_bind, hpre], hrem⟩

end System

/-! ### Two hints of one key -/

/-- Two hints of one key for `n2`: delivering the first removes both; the second is then tried from
the copy, fails, and the call ends with no hint left for `n2`, only the first entry sent, and the
second never expired, evicted, nor tried more than once. -/
theorem second_hint_lost :
    let e₁ : KeyValueEntry := ⟨"k", [1], 1, false⟩
    let e₂ : KeyValueEntry := ⟨"k", [2], 2, false⟩
    let stored := System.run ⟨.new 86400000000000 1000, .idle, []⟩ [.store "n2" e₁ 1, .store "n2" e₂ 2]
    stored.map (fun sys => sys.store.getHints "n2") = some [⟨"n2", e₁, 1, 0⟩, ⟨"n2", e₂, 2, 0⟩] ∧
      (stored.bind fun sys => sys.run [.tick ["n2"], .visit true, .send true, .remove, .send false,
        .increment, .next, .next]).map (fun sys => (sys.store.getHints "n2", sys.phase, sys.sent)) =
        some ([], .idle, [.replicate "n2" e₁]) := by
  decide

/-- Along the same delivery, the second hint leaves at a step that `Removes` it. -/
theorem leaves_by_key_second_hint :
    let start := (System.run ⟨.new 86400000000000 1000, .idle, []⟩
      [.store "n2" ⟨"k", [1], 1, false⟩ 1, .store "n2" ⟨"k", [2], 2, false⟩ 2]).getD ⟨.new 0 0, .idle, []⟩
    let evs : List Event := [.tick ["n2"], .visit true, .send true, .remove, .send false, .increment, .next, .next]
    ∃ pre ev post mid, evs = pre ++ ev :: post ∧ start.run pre = some mid ∧
      System.Removes mid "n2" ⟨"n2", ⟨"k", [2], 2, false⟩, 2, 0⟩ ev := by
  intro start evs
  have hr : start.run evs = some ((start.run evs).getD ⟨.new 0 0, .idle, []⟩) := rfl
  exact System.leaves_by_key (System.consistent_of_quiet rfl) hr (by decide)

end Handoff

end MiniDynamo.Replication
