import MiniDynamo.Replication.Quorum

/-! Which response a read answers with (`Coordinator.Get`, `QuorumManager.ExecuteRead`).

`Get` sorts the live responses newest first with `sort.Slice` and answers with the first. On the
responses of one key, no more than `N` and far below the twelve where Go's sort stops being an
insertion sort, `sort.Slice` is an insertion sort, which moves a response ahead only of older ones.
So `Get` answers with the first of the newest responses in the order of the preference list
(`get_answers_first_newest`). `ExecuteRead` keeps the first entry and replaces it only by a strictly
newer one: the first of the newest in the order the entries arrived (`latestOf_first_newest`).
Neither compares values, and `Get` never sees a tombstone, which a replica answers as not found:
a tie goes to the replica listed first, and a live version beats a newer delete. -/
namespace MiniDynamo.Replication

open Storage

/-- `w` is the first of the newest entries of `l`: newer than every entry before it, and at least
as new as every entry after it. -/
def FirstNewest (l : List KeyValueEntry) (w : KeyValueEntry) : Prop :=
  ∃ pre post, l = pre ++ w :: post ∧ (∀ e ∈ pre, e.timestamp.toInt < w.timestamp.toInt) ∧
    ∀ e ∈ post, e.timestamp.toInt ≤ w.timestamp.toInt

theorem FirstNewest.le {l : List KeyValueEntry} {w : KeyValueEntry} (h : FirstNewest l w) :
    ∀ e ∈ l, e.timestamp.toInt ≤ w.timestamp.toInt := by
  obtain ⟨pre, post, rfl, hpre, hpost⟩ := h
  intro e he
  rcases List.mem_append.mp he with he | he
  · exact le_of_lt (hpre e he)
  · rcases List.mem_cons.mp he with rfl | he
    · exact le_refl _
    · exact hpost e he

/-- The head of the insertion sort, newest first, is the first of the newest. -/
theorem firstNewest_insertionSort {l rest : List KeyValueEntry} {w : KeyValueEntry}
    (h : insertionSortByTimestamp.sort l = w :: rest) : FirstNewest l w := by
  induction l generalizing w rest with
  | nil => cases h
  | cons a l ih =>
    change List.orderedInsert _ a (insertionSortByTimestamp.sort l) = w :: rest at h
    rcases hl : insertionSortByTimestamp.sort l with _ | ⟨b, sorted⟩
    · obtain rfl : l = [] := (hl ▸ (insertionSortByTimestamp.perm l).symm : l.Perm []).eq_nil
      rw [hl] at h
      cases h
      exact ⟨[], [], rfl, by simp, by simp⟩
    · have hb := ih hl
      rw [hl, List.orderedInsert] at h
      split at h
      next hab =>
        cases h
        exact ⟨[], l, rfl, by simp, fun e he => le_trans (hb.le e he) hab⟩
      next hab =>
        cases h
        obtain ⟨pre, post, hlp, hpre, hpost⟩ := hb
        refine ⟨a :: pre, post, by rw [hlp]; rfl, fun e he => ?_, hpost⟩
        rcases List.mem_cons.mp he with rfl | he
        · exact lt_of_not_le hab
        · exact hpre e he

variable {S : Setup} {c c' : Cluster} {self key : String} {consistency : Consistency}
  {responders : List String} {value : Bytes} {timestamp : Timestamp}

/-- With `sort.Slice` the insertion sort it is on so few responses, a `Get` that succeeds answers
with the first of the newest live responses, in the order of the preference list. -/
theorem get_answers_first_newest (hS : S.sort = insertionSortByTimestamp)
    (h : c.get S self key consistency responders = (.ok (value, timestamp), c')) :
    ∃ pref latest, Cluster.preferenceList S key = .ok pref ∧
      FirstNewest ((c.readFromNodes self responders key pref).filterMap id) latest ∧
      latest.value = value ∧ latest.timestamp = timestamp := by
  unfold Cluster.get at h
  split at h
  · cases h
  next pref hpref =>
    dsimp only at h
    split at h
    · cases h
    · split at h
      · cases h
      next latest rest hsort =>
        cases h
        exact ⟨pref, latest, hpref, firstNewest_insertionSort (hS ▸ hsort), rfl, rfl⟩

/-- `ExecuteRead`'s choice among the entries in the order they arrived: the first, replaced in the
loop over all of them by each strictly newer one. -/
def latestOf : List KeyValueEntry → Option KeyValueEntry
  | [] => none
  | first :: rest =>
    some ((first :: rest).foldl
      (fun latest e => if e.timestamp.toInt > latest.timestamp.toInt then e else latest) first)

theorem firstNewest_foldl (es : List KeyValueEntry) :
    ∀ (p : List KeyValueEntry) (acc : KeyValueEntry), FirstNewest p acc →
      FirstNewest (p ++ es) (es.foldl
        (fun latest e => if e.timestamp.toInt > latest.timestamp.toInt then e else latest) acc) := by
  induction es with
  | nil => intro p acc h; simpa using h
  | cons e es ih =>
    intro p acc h
    rw [List.foldl_cons, show p ++ e :: es = (p ++ [e]) ++ es by simp]
    apply ih
    split
    next hgt => exact ⟨p, [], rfl, fun x hx => lt_of_le_of_lt (h.le x hx) hgt, by simp⟩
    next hle =>
      obtain ⟨pre, post, rfl, hpre, hpost⟩ := h
      refine ⟨pre, post ++ [e], by simp, hpre, fun x hx => ?_⟩
      rcases List.mem_append.mp hx with hx | hx
      · exact hpost x hx
      · rw [List.mem_singleton.mp hx]; exact le_of_not_lt hle

/-- `ExecuteRead` picks the first of the newest entries in the order they arrived. -/
theorem latestOf_first_newest (entries : List KeyValueEntry) :
    ∀ w, latestOf entries = some w → FirstNewest entries w := by
  intro w h
  cases entries with
  | nil => cases h
  | cons first rest =>
    cases h
    rw [List.foldl_cons, if_neg (lt_irrefl _)]
    exact firstNewest_foldl rest [first] first ⟨[], [], rfl, by simp, by simp⟩

/-- Two entries of one time: `ExecuteRead` keeps the one that arrived first. -/
theorem latestOf_tie_keeps_first :
    latestOf [⟨"k", [1], 5, false⟩, ⟨"k", [2], 5, false⟩] = some ⟨"k", [1], 5, false⟩ ∧
      FirstNewest [⟨"k", [1], 5, false⟩, ⟨"k", [2], 5, false⟩] ⟨"k", [1], 5, false⟩ :=
  ⟨rfl, latestOf_first_newest _ _ rfl⟩

/-! ### Equal times on `threeNodes` -/

/-- `a` and `b` hold versions `first` and `second` of `k`, written at the same time 5, and `c` a
tombstone of time 9 over an older version. -/
def tied (first second : Bytes) : Cluster :=
  ⟨fun n => if n = "a" then Store.empty.put (keyBytes "k") first 5
    else if n = "b" then Store.empty.put (keyBytes "k") second 5
    else (Store.empty.put (keyBytes "k") [3] 1).delete (keyBytes "k") 9, []⟩

/-- A quorum `Get` at `a` that hears from `b` and `c` answers with `a`'s version, and, with the two
versions swapped, again with `a`'s: the tie goes to the replica listed first, not to the larger
value, and the newer tombstone at `c` is not seen. -/
theorem get_tie_goes_to_first_replica :
    ((tied [1] [2]).get threeNodes "a" "k" .quorum ["b", "c"]).1.toOption = some ([1], 5) ∧
      ((tied [2] [1]).get threeNodes "a" "k" .quorum ["b", "c"]).1.toOption = some ([2], 5) := by
  decide

/-- A `Get` at `a` on `tied [1] [2]` answers with the first of the newest. -/
theorem get_answers_first_newest_tied :
    ∃ pref latest, Cluster.preferenceList threeNodes "k" = .ok pref ∧
      FirstNewest (((tied [1] [2]).readFromNodes "a" ["b", "c"] "k" pref).filterMap id) latest ∧
      latest.value = [1] ∧ latest.timestamp = 5 :=
  get_answers_first_newest rfl (Prod.ext rfl rfl :
    (tied [1] [2]).get threeNodes "a" "k" .quorum ["b", "c"] =
      (.ok ([1], 5), ((tied [1] [2]).get threeNodes "a" "k" .quorum ["b", "c"]).2))

end MiniDynamo.Replication
