import MiniDynamo.Replication.Quorum

/-! Deletes.

`DELETE /kv/k` does not go through the coordinator: the node that takes it writes a tombstone in
its own engine and tells no one. A `Get` hears nothing from a tombstone, as the engine's `Get`
fails on it, so it answers with a live version another replica holds, whatever the tombstone's
timestamp; and the read repair it leaves writes that version over the tombstone
(`delete_undone_by_get`, for a key the remotes read as it is). So the last write does not win: a
value written before a delete is read again after it, and put back
(`get_after_delete_answers_older`). -/
namespace MiniDynamo.Replication

open Storage

theorem read_delete_self (s : Store) (key : String) (t : Timestamp) :
    read (s.delete (keyBytes key) t) key = none := by
  obtain ⟨v, hv, hd⟩ := s.delete_self (keyBytes key) t
  simp [read, Store.get, hv, hd]

/-- A delete writes a tombstone in its node's engine only and sends nothing. A `Get` of a URL-safe
key that succeeds afterwards answers with a live version that a node of the preference list
other than the deleting one holds and answered with; and if the deleting node is in the list, the
read repair the `Get` leaves for it writes that version over the tombstone. -/
theorem delete_undone_by_get (S : Setup) (c : Cluster) (node key : String) (t : Timestamp)
    (hs : UrlSafe key) :
    (c.delete node key t).inflight = c.inflight ∧
    (∀ n, n ≠ node → (c.delete node key t).stores n = c.stores n) ∧
    ∀ self consistency responders value timestamp c',
      (c.delete node key t).get S self key consistency responders = (.ok (value, timestamp), c') →
      ∃ pref, Cluster.preferenceList S key = .ok pref ∧
        (∃ n ∈ pref, n ≠ node ∧ (n = self ∨ n ∈ responders) ∧
          (c.stores n).get (keyBytes key) = .ok (value, timestamp)) ∧
        (node ∈ pref → ∃ m ∈ c'.inflight, m.target = node ∧
          m.handle ((c.delete node key t).stores node) (keyBytes key) = some ⟨value, timestamp, false⟩) := by
  refine ⟨rfl, fun n hn => c.stores_update_ne _ hn, fun self consistency responders value timestamp c' h => ?_⟩
  obtain ⟨pref, latest, hpref, rfl, rfl, hmem, -, -, rfl⟩ := Cluster.get_eq_ok h
  obtain ⟨n, hn, hresp, hread⟩ := (Cluster.mem_readFromNodes_of_urlSafe hs).mp hmem
  have hnode : n ≠ node := by
    rintro rfl
    rw [Cluster.delete, Cluster.stores_update_self, read_delete_self] at hread
    cases hread
  rw [Cluster.delete, c.stores_update_ne _ hnode] at hread
  obtain ⟨rfl, hlive, hget⟩ := (read_eq_some _).mp hread
  refine ⟨pref, hpref, ⟨n, hn, hnode, hresp, hget⟩, fun hin =>
    ⟨_, List.mem_append_right _ (List.mem_map_of_mem _ hin), by split <;> rfl, ?_⟩⟩
  split
  · obtain ⟨v, hv, hd⟩ := (c.stores node).delete_self (keyBytes latest.key) t
    exact repairLocal_tombstone _ (by simpa [Cluster.delete] using hv) hd
  · exact handleReplication_live _ hlive

/-- `DELETE /kv/k` at `a` at time 5 over version `[1]` of time 1 everywhere leaves a tombstone at
`a` only. A quorum `Get` at `a` that hears from `b` and `c` answers `[1]` of time 1, and its
repair puts `[1]` back in `a`'s engine. -/
theorem get_after_delete_answers_older :
    (settled.delete "a" "k" 5).stores "a" (keyBytes "k") = some ⟨[1], 5, true⟩ ∧
    (settled.run threeNodes [.delete "a" "k" 5]).map
      (fun c => (c.get threeNodes "a" "k" .quorum ["b", "c"]).1.toOption) = some (some ([1], 1)) ∧
    (settled.run threeNodes [.delete "a" "k" 5, .get "a" "k" .quorum ["b", "c"], .deliver 0]).map
      (fun c => c.stores "a" (keyBytes "k")) = some (some ⟨[1], 1, false⟩) := by
  decide

end MiniDynamo.Replication
