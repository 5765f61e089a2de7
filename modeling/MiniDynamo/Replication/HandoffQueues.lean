import MiniDynamo.Replication.Handoff

/-! The handoff queues' bound (`handoff.go`).

Any goroutine may call `Store`, `RemoveHint`, `IncrementAttempts`, or let `cleanup` run, in any
order; a `Call` is one of them and `run` makes them one after another. With a positive `maxSize`
none of them panics. Every target in the map then holds between one and `maxSize` hints
(`Bounded`, kept by every call), in the order they were stored: a target's hints, by entry and
creation time, are a sublist of those stored for it. A `Store` into a full queue evicts its
oldest hint, and `Count` adds up the queue lengths (`handoff_queues_bounded`). The handoff
manager's steps are such calls too, so the bound holds along every run of `Handoff.System`
(`System.bounded_run`). -/
namespace MiniDynamo.Replication

namespace HintedHandoffStore

/-- A call on the store, from whichever goroutine makes it. -/
inductive Call
  | store (targetNode : String) (entry : KeyValueEntry) (now : Int)
  | removeHint (targetNode key : String)
  | incrementAttempts (targetNode key : String)
  | cleanup (now : Int)
  deriving DecidableEq, Repr

/-- A call; only `Store` can panic. -/
def exec (s : HintedHandoffStore) : Call → Option HintedHandoffStore
  | .store targetNode entry now => s.store targetNode entry now
  | .removeHint targetNode key => some (s.removeHint targetNode key)
  | .incrementAttempts targetNode key => some (s.incrementAttempts targetNode key)
  | .cleanup now => some (s.cleanup now)

/-- Calls one after another; a panic ends them (`none`). -/
def run : HintedHandoffStore → List Call → Option HintedHandoffStore
  | s, [] => some s
  | s, call :: calls => (s.exec call).bind fun s => run s calls

/-- The hints the calls store for `t`, in order, by what they are known by. -/
def stored (t : String) : List Call → List (KeyValueEntry × Int)
  | [] => []
  | .store targetNode entry now :: calls =>
    if targetNode = t then (entry, now) :: stored t calls else stored t calls
  | _ :: calls => stored t calls

theorem stored_cons (t : String) (call : Call) (calls : List Call) :
    stored t (call :: calls) = stored t [call] ++ stored t calls := by
  cases call <;> simp only [stored, List.nil_append]
  split <;> rfl

/-- Every target in the map has between one and `maxSize` hints. -/
def Bounded (s : HintedHandoffStore) : Prop :=
  ∀ t hints, s.hints.lookup t = some hints → 1 ≤ hints.length ∧ (hints.length : Int) ≤ s.maxSize

/-! ### The bound -/

section Bounds

variable {s : HintedHandoffStore}

theorem bounded_new (maxAge maxSize : Int) : (new maxAge maxSize).Bounded := fun t _ h => by
  simp [new, AList.lookup_empty] at h

theorem Bounded.length_le (hb : s.Bounded) (hpos : 0 ≤ s.maxSize) (t : String) :
    ((s.getHints t).length : Int) ≤ s.maxSize := by
  unfold getHints
  rcases hl : s.hints.lookup t with _ | hints
  · simpa using hpos
  · exact (hb t hints hl).2

/-- Writing back no more hints than the target had keeps the bound. -/
theorem Bounded.setHints (hb : s.Bounded) (hpos : 0 ≤ s.maxSize) {targetNode : String}
    {l : List HintedHandoff} (hl : l.length ≤ (s.getHints targetNode).length) :
    (s.setHints targetNode l).Bounded := by
  intro t hints h
  rw [lookup_setHints] at h
  rw [maxSize_setHints]
  split at h
  next ht =>
    split at h
    · cases h
    next hne =>
      cases h
      have hle := hb.length_le hpos targetNode
      exact ⟨by omega, by omega⟩
  next => exact hb t hints h

theorem Bounded.store (hb : s.Bounded) (hpos : 0 < s.maxSize) (targetNode : String)
    (entry : KeyValueEntry) (now : Int) :
    ∃ s', s.store targetNode entry now = some s' ∧ s'.Bounded ∧ s'.maxSize = s.maxSize := by
  refine ⟨_, store_of_pos s hpos entry now, fun t hints h => ?_, rfl⟩
  by_cases ht : t = targetNode
  · subst ht
    rw [AList.lookup_insert, Option.some.injEq] at h
    subst h
    have hle := hb.length_le hpos.le t
    split <;> simp only [List.length_append, List.length_tail, List.length_singleton] <;> omega
  · exact hb t hints (by rwa [AList.lookup_insert_ne ht] at h)

theorem Bounded.incrementAttempts (hb : s.Bounded) (targetNode key : String) :
    (s.incrementAttempts targetNode key).Bounded := by
  intro t hints h
  rw [lookup_incrementAttempts] at h
  rw [maxSize_incrementAttempts]
  split at h
  · obtain ⟨old, hl, rfl⟩ := Option.map_eq_some'.mp h
    rw [length_bumpFirst]
    exact hb t old hl
  · exact hb t hints h

theorem Bounded.cleanup (hb : s.Bounded) (now : Int) : (s.cleanup now).Bounded := by
  intro t hints h
  rw [lookup_cleanup] at h
  rw [maxSize_cleanup]
  rcases hl : s.hints.lookup t with _ | old
  · rw [hl] at h; cases h
  · rw [hl, Option.some_bind] at h
    split at h
    · cases h
    next hne =>
      cases h
      have hle := List.length_filter_le (s.keeps now) old
      have hold := (hb t old hl).2
      exact ⟨by omega, by omega⟩

/-- With a positive bound every call succeeds and keeps every queue between one hint and
`maxSize`. -/
theorem Bounded.exec (hb : s.Bounded) (hpos : 0 < s.maxSize) (call : Call) :
    ∃ s', s.exec call = some s' ∧ s'.Bounded ∧ s'.maxSize = s.maxSize := by
  cases call with
  | store targetNode entry now => exact hb.store hpos targetNode entry now
  | removeHint targetNode key =>
    exact ⟨_, rfl, hb.setHints hpos.le (List.length_filter_le _ _), maxSize_setHints _ _⟩
  | incrementAttempts targetNode key =>
    exact ⟨_, rfl, hb.incrementAttempts targetNode key, maxSize_incrementAttempts _ _⟩
  | cleanup now => exact ⟨_, rfl, hb.cleanup now, maxSize_cleanup _ _⟩

theorem Bounded.run (hb : s.Bounded) (hpos : 0 < s.maxSize) (calls : List Call) :
    ∃ s', s.run calls = some s' ∧ s'.Bounded ∧ s'.maxSize = s.maxSize := by
  induction calls generalizing s with
  | nil => exact ⟨s, rfl, hb, rfl⟩
  | cons call calls ih =>
    obtain ⟨mid, hm, hbm, hsm⟩ := hb.exec hpos call
    obtain ⟨s', hr, hb', hs'⟩ := ih hbm (hsm ▸ hpos)
    exact ⟨s', by rw [run, hm, Option.some_bind, hr], hb', hs'.trans hsm⟩

end Bounds

/-! ### The order of the hints -/

section Order

variable {s s' : HintedHandoffStore}

/-- A call keeps the order of every target's hints: they are a sublist of those it had and the
one the call stored. -/
theorem exec_sublist {call : Call} (h : s.exec call = some s') (t : String) :
    ((s'.getHints t).map HintedHandoff.stamp).Sublist
      ((s.getHints t).map HintedHandoff.stamp ++ stored t [call]) := by
  cases call with
  | store targetNode entry now =>
    obtain ⟨kept, hkept, rfl⟩ := s.store_eq_some h
    have hsub : kept.Sublist (s.getHints targetNode) := by
      rcases hkept with rfl | ⟨-, oldest, hq⟩
      · exact List.Sublist.refl _
      · rw [hq]; exact List.sublist_cons_self _ _
    rw [getHints_insert]
    by_cases ht : t = targetNode
    · subst ht
      simp only [if_true, stored, List.map_append, List.map_singleton]
      exact (hsub.map _).append_right _
    · simp only [ht, if_false, stored, Ne.symm ht, List.append_nil]
      exact List.Sublist.refl _
  | removeHint targetNode key =>
    cases h
    rw [getHints_removeHint]
    simp only [stored, List.append_nil]
    split
    · exact (List.filter_sublist _).map _
    · exact List.Sublist.refl _
  | incrementAttempts targetNode key =>
    cases h
    rw [getHints_incrementAttempts]
    simp only [stored, List.append_nil]
    split
    · rw [map_stamp_bumpFirst]
    · exact List.Sublist.refl _
  | cleanup now =>
    cases h
    rw [getHints_cleanup]
    simp only [stored, List.append_nil]
    exact (List.filter_sublist _).map _

theorem run_sublist {calls : List Call} (h : s.run calls = some s') (t : String) :
    ((s'.getHints t).map HintedHandoff.stamp).Sublist
      ((s.getHints t).map HintedHandoff.stamp ++ stored t calls) := by
  induction calls generalizing s with
  | nil => cases h; simp [stored]
  | cons call calls ih =>
    obtain ⟨mid, hm, hr⟩ := Option.bind_eq_some.mp h
    rw [stored_cons, ← List.append_assoc]
    exact (ih hr).trans ((exec_sublist hm t).append_right _)

end Order

/-- **Handoff queues stay bounded.** With `maxSize ≥ 1`, no sequence of calls on a new store
panics, and after it every target in the map has between one and `maxSize` hints, in the order
they were stored. A `Store` into a full queue then evicts exactly its oldest hint, and nothing
of another target; and `Count` is the sum of the queue lengths. -/
theorem handoff_queues_bounded (maxAge maxSize : Int) (hpos : 1 ≤ maxSize) (calls : List Call) :
    ∃ s, (new maxAge maxSize).run calls = some s ∧
      (∀ t hints, s.hints.lookup t = some hints →
        1 ≤ hints.length ∧ (hints.length : Int) ≤ maxSize) ∧
      (∀ t, ((s.getHints t).map HintedHandoff.stamp).Sublist (stored t calls)) ∧
      (∀ targetNode entry now, ((s.getHints targetNode).length : Int) = maxSize →
        ∃ s', s.store targetNode entry now = some s' ∧
          s'.getHints targetNode = (s.getHints targetNode).tail ++ [⟨targetNode, entry, now, 0⟩] ∧
          ∀ t, t ≠ targetNode → s'.getHints t = s.getHints t) ∧
      s.count = (s.hints.keys.map fun t => (s.getHints t).length).sum := by
  obtain ⟨s, hr, hb, hm⟩ := (bounded_new maxAge maxSize).run (show 0 < maxSize by omega) calls
  have hm : s.maxSize = maxSize := hm
  refine ⟨s, hr, fun t hints h => hm ▸ hb t hints h, fun t => ?_,
    fun targetNode entry now hfull => ?_, count_eq_sum s⟩
  · simpa [getHints, new, AList.lookup_empty] using run_sublist hr t
  · refine ⟨_, store_of_pos s (by omega) entry now, ?_, fun t ht => ?_⟩
    · rw [getHints_insert, if_pos rfl, if_pos (by omega)]
    · rw [getHints_insert, if_neg ht]

/-- Two hints for `n2` with room for one: the second evicts the first. -/
theorem handoff_queue_evicts_first :
    (1 : Int) ≤ 1 ∧ ∃ s, (new 60 1).run [.store "n2" ⟨"k", [1], 1, false⟩ 1,
      .store "n2" ⟨"k", [2], 2, false⟩ 2] = some s ∧
        s.getHints "n2" = [⟨"n2", ⟨"k", [2], 2, false⟩, 2, 0⟩] := by
  obtain ⟨s, hr, -⟩ := handoff_queues_bounded 60 1 (by decide)
    [.store "n2" ⟨"k", [1], 1, false⟩ 1, .store "n2" ⟨"k", [2], 2, false⟩ 2]
  have hq : ((new 60 1).run [.store "n2" ⟨"k", [1], 1, false⟩ 1,
      .store "n2" ⟨"k", [2], 2, false⟩ 2]).map (·.getHints "n2") =
        some [⟨"n2", ⟨"k", [2], 2, false⟩, 2, 0⟩] := by decide
  rw [hr, Option.map_some'] at hq
  exact ⟨by decide, s, hr, Option.some.inj hq⟩

end HintedHandoffStore

namespace Handoff.System

open HintedHandoffStore

/-- Each step of the delivery system leaves the store as it is or makes one call on it. -/
theorem store_of_step {sys sys' : System} {ev : Event} (h : sys.step ev = some sys') :
    sys'.store = sys.store ∨ ∃ call, sys.store.exec call = some sys'.store := by
  cases ev with
  | store targetNode entry now =>
    obtain ⟨s, hs, rfl⟩ := Option.map_eq_some'.mp h
    exact .inr ⟨.store targetNode entry now, hs⟩
  | cleanup now => cases h; exact .inr ⟨.cleanup now, rfl⟩
  | remove =>
    simp only [step] at h
    split at h <;> cases h <;> exact .inr ⟨.removeHint _ _, rfl⟩
  | increment =>
    simp only [step] at h
    split at h <;> cases h
    exact .inr ⟨.incrementAttempts _ _, rfl⟩
  | tick | visit | send | next =>
    simp only [step] at h
    repeat' split at h
    all_goals cases h
    all_goals exact .inl rfl

/-- With a positive bound the store stays bounded along every run of the delivery system, the
manager's calls and the other goroutines' interleaved. -/
theorem bounded_run {sys sys' : System} {evs : List Event} (hb : sys.store.Bounded)
    (hpos : 0 < sys.store.maxSize) (h : sys.run evs = some sys') : sys'.store.Bounded := by
  induction evs generalizing sys with
  | nil => cases h; exact hb
  | cons ev evs ih =>
    obtain ⟨mid, hs, hr⟩ := Option.bind_eq_some.mp h
    rcases store_of_step hs with heq | ⟨call, hc⟩
    · exact ih (heq ▸ hb) (heq ▸ hpos) hr
    · obtain ⟨s', he, hb', hm⟩ := hb.exec hpos call
      rw [hc, Option.some.injEq] at he
      exact ih (he ▸ hb') (he ▸ hm ▸ hpos) hr

end Handoff.System

end MiniDynamo.Replication
