import MiniDynamo.Storage.Compaction

/-! The Bitcask refines a map.

A run is a sequence of successful `Put`, `Delete` and `Compact` calls; each `Compact` visits the
index in some order of `range`, which the run chooses. Along a run the engine holds a log whose
map is what the calls do to a map (`Runs.holds`), so `Get`, `Has` and `Keys` answer from the last
write to each key (`get_of_lastWrite`): its value and timestamp after a `Put`, not found or deleted
after a `Delete`, not found if the key was never written; `Keys`, when it answers, lists the keys
last written by a `Put`, each once. It does not always answer: `Keys` sizes its slice by
`stats.active`, which a `Put` over a tombstone leaves one short (`Counters.lean`), so after `Put`,
`Delete`, `Put`, `Delete` of one key `make` gets capacity `-1` and panics
(`keys_panic_after_put_delete_put_delete`). -/
namespace MiniDynamo.Storage

/-- A call on the engine. -/
inductive Call
  | put (key value : Bytes) (timestamp : Timestamp)
  | delete (key : Bytes) (timestamp : Timestamp)
  | compact
  deriving DecidableEq, Repr

namespace Call

/-- The data model's bound: key and value lengths fit in 32 bits. -/
def Fits : Call → Prop
  | put key value _ => Storage.Fits key value
  | delete key _ => Storage.Fits key []
  | compact => True

/-- What the call writes to `key`, if anything: a value or a tombstone, with its timestamp. -/
def write? (key : Bytes) : Call → Option Version
  | put k value timestamp => if k = key then some ⟨value, timestamp, false⟩ else none
  | delete k timestamp => if k = key then some ⟨[], timestamp, true⟩ else none
  | compact => none

/-- A call that succeeds, taking the engine from `bc` to `bc'`. -/
inductive Step : Bitcask → Call → Bitcask → Prop
  | put {bc bc' : Bitcask} {key value : Bytes} {timestamp : Timestamp} :
      bc.put key value timestamp = (.ok (), bc') → Step bc (put key value timestamp) bc'
  | delete {bc bc' : Bitcask} {key : Bytes} {timestamp : Timestamp} :
      bc.delete key timestamp = (.ok (), bc') → Step bc (delete key timestamp) bc'
  | compact {bc bc' : Bitcask} (visit : List (Bytes × IndexEntry)) :
      visit.Perm bc.index.all → bc.compact visit = (.ok (), bc') → Step bc compact bc'

end Call

/-- A run of successful calls. -/
inductive Runs : Bitcask → List Call → Bitcask → Prop
  | nil (bc : Bitcask) : Runs bc [] bc
  | snoc {bc bc' bc'' : Bitcask} {calls : List Call} {c : Call} :
      Runs bc calls bc' → Call.Step bc' c bc'' → Runs bc (calls ++ [c]) bc''

/-- What a call does to the map. -/
def Store.call (s : Store) : Call → Store
  | .put key value timestamp => s.put key value timestamp
  | .delete key timestamp => s.delete key timestamp
  | .compact => s.compact

/-- The last write to `key` among `calls`. -/
def lastWrite (key : Bytes) (calls : List Call) : Option Version :=
  calls.foldl (fun last c => (c.write? key).or last) none

/-! ### The engine along a run -/

/-- A successful call on an open engine that holds a log leaves it open and holding a log whose
map is the call applied to the old one. -/
theorem Call.Step.holds {bc bc' : Bitcask} {c : Call} (hs : Call.Step bc c bc') {log : List Record}
    (h : Holds bc log) (hc : bc.closed = false) (hf : c.Fits) :
    ∃ log', Holds bc' log' ∧ storeOf log' = (storeOf log).call c ∧ bc'.closed = false := by
  cases hs with
  | put hp =>
    obtain rfl : bc' = (bc.put _ _ _).2 := by rw [hp]
    exact ⟨_, h.put hc hf _, by simp [storeOf, Store.apply, Store.call],
      (Bitcask.closed_of_put _ _ _ _ hp).2⟩
  | delete hp =>
    obtain rfl : bc' = (bc.delete _ _).2 := by rw [hp]
    exact ⟨_, h.delete hc hf _, by simp [storeOf, Store.apply, Store.call],
      (Bitcask.closed_of_delete _ _ _ hp).2⟩
  | compact visit hv hp =>
    obtain ⟨-, hh, hc'⟩ := h.compact hc hv
    rw [hp] at hh hc'
    exact ⟨_, hh, storeOf_compactLog h.agrees hv, hc'⟩

/-- Along a run from an open engine that holds a log, the engine stays open and holds a log whose
map is what the calls do to the first one. -/
theorem Runs.holds {bc0 bc : Bitcask} {calls : List Call} (hr : Runs bc0 calls bc)
    {log0 : List Record} (h0 : Holds bc0 log0) (hc0 : bc0.closed = false)
    (hf : ∀ c ∈ calls, c.Fits) :
    ∃ log, Holds bc log ∧ storeOf log = calls.foldl Store.call (storeOf log0) ∧ bc.closed = false := by
  induction hr with
  | nil => exact ⟨log0, h0, rfl, hc0⟩
  | snoc _ hs ih =>
    obtain ⟨log, h, hs', hc⟩ := ih fun c hc => hf c (List.mem_append_left _ hc)
    obtain ⟨log', h', hs'', hc'⟩ := hs.holds h hc (hf _ (List.mem_append_right _ (List.mem_singleton_self _)))
    exact ⟨log', h', by rw [hs'', hs', List.foldl_append]; rfl, hc'⟩

/-! ### The last write decides -/

/-- What a map says about `key` when `last` is the last write to it: nothing if there was none,
the written version after a `Put`, at most a tombstone after a `Delete`. -/
def Reflects (key : Bytes) (s : Store) : Option Version → Prop
  | none => s key = none
  | some v => if v.isDeleted then ∀ u, s key = some u → u.isDeleted = true else s key = some v

theorem Reflects.congr {key : Bytes} {s s' : Store} {last : Option Version}
    (h : Reflects key s last) (he : s' key = s key) : Reflects key s' last := by
  cases last <;> simp_all [Reflects]

theorem Reflects.compact {key : Bytes} {s : Store} {last : Option Version}
    (h : Reflects key s last) : Reflects key s.compact last := by
  unfold Store.compact
  rcases last with _ | ⟨value, timestamp, _ | _⟩ <;>
    simp only [Reflects, Bool.false_eq_true, if_false, if_true] at h ⊢
  · simp [h]
  · simp [h]
  · intro u hu
    rcases hs : s key with _ | w <;> simp_all

theorem Reflects.call {key : Bytes} {s : Store} {last : Option Version} (h : Reflects key s last)
    (c : Call) : Reflects key (s.call c) ((c.write? key).or last) := by
  cases c with
  | put k value timestamp =>
    by_cases hk : k = key
    · subst hk; simp [Reflects, Call.write?, Store.call]
    · simpa [Call.write?, hk] using h.congr (Store.put_ne s (Ne.symm hk) value timestamp)
  | delete k timestamp =>
    by_cases hk : k = key
    · subst hk
      obtain ⟨v, hv, hd⟩ := Store.delete_self s k timestamp
      simp [Reflects, Call.write?, Store.call, hv, hd]
    · simpa [Call.write?, hk] using h.congr (Store.delete_ne s (Ne.symm hk) timestamp)
  | compact => simpa [Call.write?, Store.call] using h.compact

theorem reflects_lastWrite (key : Bytes) (calls : List Call) :
    Reflects key (calls.foldl Store.call Store.empty) (lastWrite key calls) := by
  suffices ∀ (s : Store) (last : Option Version), Reflects key s last →
      Reflects key (calls.foldl Store.call s) (calls.foldl (fun last c => (c.write? key).or last) last) from
    this _ _ rfl
  induction calls with
  | nil => exact fun _ _ h => h
  | cons c calls ih => exact fun s last h => ih _ _ (h.call c)

/-! ### What the map answers -/

section Answers

variable {key : Bytes} {s : Store}

theorem Reflects.of_none (h : Reflects key s none) :
    s.get key = .error .keyNotFound ∧ s.has key = false := by
  simp only [Reflects] at h
  simp [Store.get, Store.has, h]

theorem Reflects.of_put {value : Bytes} {timestamp : Timestamp}
    (h : Reflects key s (some ⟨value, timestamp, false⟩)) :
    s.get key = .ok (value, timestamp) ∧ s.has key = true := by
  simp only [Reflects, Bool.false_eq_true, if_false] at h
  simp [Store.get, Store.has, h]

theorem Reflects.of_delete {value : Bytes} {timestamp : Timestamp}
    (h : Reflects key s (some ⟨value, timestamp, true⟩)) :
    (s.get key = .error .keyDeleted ∨ s.get key = .error .keyNotFound) ∧ s.has key = false := by
  simp only [Reflects, if_true] at h
  unfold Store.get Store.has
  rcases hs : s key with _ | u
  · simp
  · simp [h u hs]

end Answers

/-- The Bitcask refines a map: after any run of successful calls from an engine opened on an empty
directory, `Get`, `Has` and `Keys` (when it does not panic) answer from the last write to each
key. -/
theorem get_of_lastWrite {syncWrite : Bool} {bc0 bc : Bitcask} {calls : List Call}
    (h0 : Bitcask.open_ [] syncWrite = .ok bc0) (hr : Runs bc0 calls bc)
    (hf : ∀ c ∈ calls, c.Fits) (key : Bytes) :
    (match lastWrite key calls with
      | some ⟨value, timestamp, false⟩ => (bc.get key).1 = .ok (value, timestamp) ∧ bc.has key = true
      | some ⟨_, _, true⟩ =>
        ((bc.get key).1 = .error .keyDeleted ∨ (bc.get key).1 = .error .keyNotFound) ∧
          bc.has key = false
      | none => (bc.get key).1 = .error .keyNotFound) ∧
    ∀ ks, bc.keys = some ks →
      (key ∈ ks ↔ ∃ value timestamp, lastWrite key calls = some ⟨value, timestamp, false⟩) ∧
      ks.Nodup := by
  obtain ⟨h0, hc0⟩ := @holds_of_open [] (fun _ h => nomatch h) syncWrite bc0 h0
  obtain ⟨log, h, hs, hc⟩ := hr.holds h0 hc0 hf
  have ha := (reflects_lastWrite key calls).congr (congrFun hs key)
  have hkeys : ∀ ks, bc.keys = some ks → (key ∈ ks ↔ (storeOf log).has key = true) ∧ ks.Nodup := by
    intro ks hk
    obtain rfl := Index.eq_liveKeys_of_keys (by rwa [Bitcask.keys, hc, if_neg Bool.false_ne_true] at hk)
    exact ⟨h.mem_liveKeys hc key, Index.nodup_liveKeys _⟩
  rw [h.get_eq hc, h.has_eq hc]
  rcases hw : lastWrite key calls with _ | ⟨value, timestamp, _ | _⟩ <;> rw [hw] at ha
  · obtain ⟨hg, hh⟩ := ha.of_none
    exact ⟨hg, fun ks hk => ⟨by simp [(hkeys ks hk).1, hh], (hkeys ks hk).2⟩⟩
  · obtain ⟨hg, hh⟩ := ha.of_put
    exact ⟨⟨hg, hh⟩, fun ks hk => ⟨by simp [(hkeys ks hk).1, hh], (hkeys ks hk).2⟩⟩
  · obtain ⟨hg, hh⟩ := ha.of_delete
    exact ⟨⟨hg, hh⟩, fun ks hk => ⟨by simp [(hkeys ks hk).1, hh], (hkeys ks hk).2⟩⟩

/-- `Put k`, `Delete k`, `Put k`, `Delete k` on an engine opened on an empty directory: all four
succeed and `Get` and `Has` answer from the last `Delete`, but `Keys()` panics. -/
theorem keys_panic_after_put_delete_put_delete :
    ∃ bc0 bc, Bitcask.open_ [] false = .ok bc0 ∧
      Runs bc0 [.put [107] [1] 1, .delete [107] 2, .put [107] [2] 3, .delete [107] 4] bc ∧
      (bc.get [107]).1 = .error .keyDeleted ∧ bc.has [107] = false ∧ bc.keys = none := by
  have hr : Runs ⟨[], [], 0, Index.empty, 0, false, false, 0, 0⟩ ([] ++ [.put [107] [1] 1] ++
      [.delete [107] 2] ++ [.put [107] [2] 3] ++ [.delete [107] 4]) _ :=
    .snoc (.snoc (.snoc (.snoc (.nil _) (.put rfl)) (.delete rfl)) (.put rfl)) (.delete rfl)
  exact ⟨_, _, rfl, hr, rfl, rfl, rfl⟩

end MiniDynamo.Storage
