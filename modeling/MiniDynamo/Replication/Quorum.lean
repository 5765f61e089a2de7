import MiniDynamo.Replication.Coordinator
import MiniDynamo.Ring.Canonical

/-! Quorum reads after quorum writes.

A `Put` at quorum reaches `W` nodes of the key's preference list and a `Get` at quorum hears
from `R` of them; when `W + R > N` some node is in both, and it answers with the written
version unless something replaced it since. What can replace it is a step that writes the key's
bytes: another `Put` or `DELETE`, or a request in flight that carries an older version, since
replicas replace versions unconditionally (`replica_keeps_last_delivered`). When none is in
flight at the `Put` and the run after it writes no other version, every overlapping `Get`
answers the `Put`'s version (`get_after_put`): the version stays `Written`, as each step keeps
it. Read repairs run late, though: a repair launched by a `Get` before the `Put` still carries
the old version, and when it lands on the nodes that acknowledged the `Put`, a later quorum `Get`
that does not hear from the others answers with the old version
(`quorum_read_misses_acked_write`). -/
namespace MiniDynamo.Replication

open Storage Ring

/-! ### A written version stays readable -/

/-- Two sets of elements of a list that together outnumber it share an element. -/
theorem exists_mem_of_length_lt_countP_add {α : Type} {p q : α → Bool} {l : List α}
    (h : l.length < l.countP p + l.countP q) : ∃ a ∈ l, p a ∧ q a := by
  by_contra hn
  have hq : l.countP q ≤ l.countP fun a => ¬p a :=
    List.countP_mono_left fun a ha hqa => decide_eq_true fun hpa => hn ⟨a, ha, hpa, hqa⟩
  have := l.length_eq_countP_add_countP p
  omega

/-- The bytes of the keys a `Get` of `k` can answer under: `k`'s own, from the coordinator's
engine, and those of the key a remote's entry names, the key it parsed from the query as JSON
carries it back. -/
def AnswersUnder (k : String) (b : Bytes) : Prop :=
  keyBytes k = b ∨ ∃ p, parsedKey k = some p ∧ keyBytes (jsonString p) = b

/-- A step that leaves the version of `key` alone: it puts and deletes no key with the same
bytes, and a `Get` that can answer under them reads `key` itself, at a read quorum that overlaps
`w` writes. -/
def Event.Quiet (S : Setup) (w : Int) (key : String) : Event → Prop
  | .put _ k _ _ _ _ => keyBytes k ≠ keyBytes key
  | .delete _ k _ => keyBytes k ≠ keyBytes key
  | .get _ k consistency _ =>
    AnswersUnder k (keyBytes key) →
      k = key ∧ S.config.replicationFactor < w + Cluster.getReadQuorum S consistency
  | .deliver _ => True

/-- The live version `e` is written at `w`: at least `w` nodes of its key's preference list hold
it, no node holds a live version of the key that is newer, or as new and another, and every
request in flight for the key's bytes carries `e`. -/
structure Written (S : Setup) (w : Int) (e : KeyValueEntry) (c : Cluster) : Prop where
  live : e.isDeleted = false
  holders : ∃ pref, Cluster.preferenceList S e.key = .ok pref ∧
    w ≤ ((pref.countP fun n => read (c.stores n) e.key = some e : Nat) : Int)
  older : ∀ n e', read (c.stores n) e.key = some e' →
    e'.timestamp.toInt < e.timestamp.toInt ∨ e' = e
  inflight : ∀ m ∈ c.inflight, keyBytes m.entry.key = keyBytes e.key → m.entry = e

/-- Under the bytes of `e`'s key, `c'` differs from `c` at most by nodes that now hold `e` and
by requests that carry it. -/
structure Keeps (e : KeyValueEntry) (c c' : Cluster) : Prop where
  stores : ∀ n, read (c'.stores n) e.key = read (c.stores n) e.key ∨
    read (c'.stores n) e.key = some e
  inflight : ∀ m ∈ c'.inflight, m ∈ c.inflight ∨ keyBytes m.entry.key ≠ keyBytes e.key ∨
    m.entry = e

section Written

variable {S : Setup} {w : Int} {e : KeyValueEntry} {c c' : Cluster}

theorem Keeps.of_frame (hs : ∀ n, c'.stores n (keyBytes e.key) = c.stores n (keyBytes e.key))
    (hm : ∀ m ∈ c'.inflight, m ∈ c.inflight ∨ keyBytes m.entry.key ≠ keyBytes e.key) :
    Keeps e c c' :=
  ⟨fun n => .inl (read_congr _ (hs n)), fun m h => (hm m h).imp_right .inl⟩

theorem Written.keeps (hw : Written S w e c) (hk : Keeps e c c') : Written S w e c' where
  live := hw.live
  holders := by
    obtain ⟨pref, hpref, hW⟩ := hw.holders
    refine ⟨pref, hpref, hW.trans (Int.ofNat_le.mpr
      (List.countP_mono_left fun n _ h => decide_eq_true ?_))⟩
    rcases hk.stores n with h' | h'
    · exact h'.trans (of_decide_eq_true h)
    · exact h'
  older n e' h := by
    rcases hk.stores n with h' | h'
    · exact hw.older n e' (h'.symm.trans h)
    · exact .inr (Option.some.inj (h.symm.trans h'))
  inflight m hm hkb := by
    rcases hk.inflight m hm with h | h | h
    · exact hw.inflight m h hkb
    · exact absurd hkb h
    · exact h

/-- A `Get` of a URL-safe key whose read quorum overlaps the `w` holders hears from one of them,
and answers `e`. -/
theorem Written.get_eq_ok (hw : Written S w e c) (hs : UrlSafe e.key) {self : String}
    {consistency : Consistency} {responders : List String} {value : Bytes} {timestamp : Timestamp}
    (hq : S.config.replicationFactor < w + Cluster.getReadQuorum S consistency)
    (h : c.get S self e.key consistency responders = (.ok (value, timestamp), c')) :
    value = e.value ∧ timestamp = e.timestamp := by
  obtain ⟨pref, latest, hpref, rfl, rfl, hmem, hmax, hR, -⟩ := Cluster.get_eq_ok h
  obtain ⟨pref', hpref', hW⟩ := hw.holders
  cases Except.ok.inj (hpref'.symm.trans hpref)
  have hlen := HashRing.length_getNodes_le hpref
  have hpos := List.length_pos_of_mem hmem
  rw [Cluster.length_readFromNodes_of_urlSafe hs] at hR hpos
  obtain ⟨n, hn, hheld, hans⟩ := exists_mem_of_length_lt_countP_add (by omega :
    pref.length < (pref.countP fun n => read (c.stores n) e.key = some e) +
      pref.countP fun n => (n = self ∨ n ∈ responders) ∧ (read (c.stores n) e.key).isSome)
  have hle := hmax e ((Cluster.mem_readFromNodes_of_urlSafe hs).mpr
    ⟨n, hn, (of_decide_eq_true hans).1, of_decide_eq_true hheld⟩)
  obtain ⟨n', -, -, hn'⟩ := (Cluster.mem_readFromNodes_of_urlSafe hs).mp hmem
  rcases hw.older n' latest hn' with hlt | rfl
  · omega
  · exact ⟨rfl, rfl⟩

/-! ### Each step keeps it -/

theorem keeps_put {self key : String} {value : Bytes} {timestamp : Timestamp}
    {consistency : Consistency} {acked : List String} (hk : keyBytes key ≠ keyBytes e.key) :
    Keeps e c (c.put S self key value timestamp consistency acked).2 := by
  rcases @Cluster.put_snd S c self key value timestamp consistency acked with h | ⟨pref, h⟩ <;>
    rw [h]
  · exact .of_frame (fun _ => rfl) fun m hm => .inl hm
  · refine .of_frame (fun n => ?_) fun m hm => ?_
    · rw [Cluster.replicateToNodes_stores rfl]
      split_ifs
      · exact Store.put_ne _ (Ne.symm hk) _ _
      · rfl
    · rw [(Cluster.replicateToNodes_inflight _ pref c).1, List.mem_append] at hm
      rcases hm with hm | hm
      · exact .inl hm
      · obtain ⟨n, -, rfl⟩ := List.mem_map.mp hm
        exact .inr hk

theorem keeps_delete {node key : String} {timestamp : Timestamp}
    (hk : keyBytes key ≠ keyBytes e.key) : Keeps e c (c.delete node key timestamp) := by
  refine .of_frame (fun n => ?_) fun m hm => .inl hm
  by_cases hn : n = node
  · subst hn
    simp only [Cluster.delete, Cluster.stores_update_self]
    exact Store.delete_ne _ (Ne.symm hk) _
  · exact congrFun (Cluster.stores_update_ne c _ hn) _

/-- A `Get` adds only read repairs of the version it answers with, which is under another key's
bytes unless the `Get` reads `e`'s key at an overlapping quorum, and then is `e`. -/
theorem Written.keeps_get (hw : Written S w e c) (hs : UrlSafe e.key) {self key : String}
    {consistency : Consistency} {responders : List String} (hq : AnswersUnder key (keyBytes e.key) →
      key = e.key ∧ S.config.replicationFactor < w + Cluster.getReadQuorum S consistency) :
    Keeps e c (c.get S self key consistency responders).2 := by
  rcases @Cluster.get_snd S c self key consistency responders with h | ⟨value, timestamp, h⟩
  · rw [h]
    exact .of_frame (fun _ => rfl) fun m hm => .inl hm
  obtain ⟨pref, latest, -, rfl, rfl, hmem, -, -, hc'⟩ := Cluster.get_eq_ok h
  rw [hc']
  refine ⟨fun n => .inl rfl, fun m hm => ?_⟩
  rcases List.mem_append.mp hm with hm | hm
  · exact .inl hm
  rw [Cluster.entry_of_mem_readRepair hm]
  by_cases hb : AnswersUnder key (keyBytes e.key)
  · obtain ⟨rfl, hR⟩ := hq hb
    obtain ⟨n, -, -, hn⟩ := (Cluster.mem_readFromNodes_of_urlSafe hs).mp hmem
    obtain ⟨hkey, hd, -⟩ := (read_eq_some _).mp hn
    obtain ⟨hv, ht⟩ := hw.get_eq_ok hs hR h
    exact .inr (.inr (KeyValueEntry.ext hkey hv ht (hd.trans hw.live.symm)))
  · obtain ⟨n, -, hn⟩ := Cluster.mem_readFromNodes.mp hmem
    refine .inr (.inl fun hkb => hb ?_)
    rcases Cluster.key_of_answer hn with hkey | ⟨p, hp, hkey⟩
    · exact .inl (hkey ▸ hkb)
    · exact .inr ⟨p, hp, hkey ▸ hkb⟩

/-- A delivery writes the key's bytes only with a request that carries `e`, which leaves the
node holding what it held or `e`. -/
theorem Written.keeps_deliver (hw : Written S w e c) {i : Nat} (h : c.deliver i = some c') :
    Keeps e c c' := by
  obtain ⟨m, hm, rfl⟩ := Cluster.deliver_eq_some h
  refine ⟨fun n => ?_, fun m' hm' => .inl (List.mem_of_mem_eraseIdx hm')⟩
  show read ((c.update m.target m.handle).stores n) e.key = _ ∨ _
  by_cases hn : n = m.target
  · subst hn
    rw [Cluster.stores_update_self]
    by_cases hb : keyBytes m.entry.key = keyBytes e.key
    · have he := hw.inflight m (List.getElem?_mem hm) hb
      rcases m.handle_live (c.stores m.target) (he ▸ hw.live) with h' | h' <;> rw [he] at h'
      · exact .inl (read_congr _ h')
      · exact .inr ((read_of_live _ h').trans (congrArg some
          (KeyValueEntry.ext rfl rfl rfl hw.live.symm)))
    · exact .inl (read_congr _ (m.handle_ne _ (Ne.symm hb)))
  · exact .inl (by rw [Cluster.stores_update_ne c _ hn])

theorem Written.step (hw : Written S w e c) (hs : UrlSafe e.key) {ev : Event}
    (hq : ev.Quiet S w e.key)
    (h : c.step S ev = some c') : Written S w e c' := by
  cases ev with
  | put self key value timestamp consistency acked =>
    cases h
    exact hw.keeps (keeps_put hq)
  | get self key consistency responders =>
    cases h
    exact hw.keeps (hw.keeps_get hs hq)
  | delete node key timestamp =>
    cases h
    exact hw.keeps (keeps_delete hq)
  | deliver i => exact hw.keeps (hw.keeps_deliver h)

theorem Written.run (hw : Written S w e c) (hs : UrlSafe e.key) {es : List Event}
    (hq : ∀ ev ∈ es, ev.Quiet S w e.key)
    (h : c.run S es = some c') : Written S w e c' := by
  induction es generalizing c with
  | nil =>
    cases h
    exact hw
  | cons ev es ih =>
    obtain ⟨c₁, h₁, h⟩ := Option.bind_eq_some.mp h
    exact ih (hw.step hs (hq ev (.head _)) h₁) (fun ev' h' => hq ev' (.tail _ h')) h

/-- A `Put` that succeeds, made when every live version of the key is older and no request for
the key's bytes is in flight, leaves its version written at its write quorum. -/
theorem written_put {self key : String} {value : Bytes} {timestamp : Timestamp}
    {consistency : Consistency} {acked : List String}
    (hold : ∀ n e', read (c.stores n) key = some e' → e'.timestamp.toInt < timestamp.toInt)
    (hnone : ∀ m ∈ c.inflight, keyBytes m.entry.key ≠ keyBytes key)
    (h : c.put S self key value timestamp consistency acked = (.ok (), c')) :
    Written S (Cluster.getWriteQuorum S consistency) ⟨key, value, timestamp, false⟩ c' := by
  obtain ⟨pref, hpref, hW, rfl⟩ := Cluster.put_eq_ok h
  have hput : ∀ n, read ((c.stores n).put (keyBytes key) value timestamp) key =
      some ⟨key, value, timestamp, false⟩ := fun n => read_of_live _ (by simp [Store.put])
  refine ⟨rfl, ⟨pref, hpref, hW.trans (Int.ofNat_le.mpr
      (List.countP_mono_left fun n hn ha => decide_eq_true ?_))⟩, fun n e' he' => ?_,
    fun m hm hkb => ?_⟩
  · rw [Cluster.replicateToNodes_stores rfl, if_pos ⟨hn, of_decide_eq_true ha⟩]
    exact hput n
  · rw [Cluster.replicateToNodes_stores rfl] at he'
    split_ifs at he'
    · exact .inr (Option.some.inj ((hput n).symm.trans he')).symm
    · exact .inl (hold n e' he')
  · rw [(Cluster.replicateToNodes_inflight _ pref c).1, List.mem_append] at hm
    rcases hm with hm | hm
    · exact absurd hkb (hnone m hm)
    · obtain ⟨n, -, rfl⟩ := List.mem_map.mp hm
      rfl

end Written

/-- Read your quorum write. Take a `Put` of a URL-safe key that succeeds, made when every live
version of the key is older and no request for the key's bytes is in flight. Along any run after
it that puts and deletes no key with the same bytes, and whose `Get`s that can answer under them
read the key itself at a quorum that overlaps the `Put`'s write quorum, a `Get` of the key whose
read quorum overlaps the write quorum answers the `Put`'s value and timestamp. -/
theorem get_after_put {S : Setup} {c c₁ c₂ c₃ : Cluster} {self self' key : String}
    {value value' : Bytes} {timestamp timestamp' : Timestamp} {cp cg : Consistency}
    {acked responders : List String} {es : List Event} (hsafe : UrlSafe key)
    (hold : ∀ n e', read (c.stores n) key = some e' → e'.timestamp.toInt < timestamp.toInt)
    (hnone : ∀ m ∈ c.inflight, keyBytes m.entry.key ≠ keyBytes key)
    (hput : c.put S self key value timestamp cp acked = (.ok (), c₁))
    (hes : ∀ ev ∈ es, ev.Quiet S (Cluster.getWriteQuorum S cp) key) (hrun : c₁.run S es = some c₂)
    (hq : S.config.replicationFactor < Cluster.getWriteQuorum S cp + Cluster.getReadQuorum S cg)
    (hget : c₂.get S self' key cg responders = (.ok (value', timestamp'), c₃)) :
    value' = value ∧ timestamp' = timestamp :=
  ((written_put hold hnone hput).run hsafe hes hrun).get_eq_ok hsafe hq hget

/-! ### Three nodes -/

/-- Insertion sort, newest first, meets `sort.Slice`'s contract. -/
def insertionSortByTimestamp : SortByTimestamp where
  sort l := l.insertionSort fun a b => b.timestamp.toInt ≤ a.timestamp.toInt
  perm l := List.perm_insertionSort _ l
  sorted l :=
    have : IsTotal KeyValueEntry fun a b => b.timestamp.toInt ≤ a.timestamp.toInt :=
      ⟨fun _ _ => le_total _ _⟩
    have : IsTrans KeyValueEntry fun a b => b.timestamp.toInt ≤ a.timestamp.toInt :=
      ⟨fun _ _ _ h₁ h₂ => le_trans h₂ h₁⟩
    List.sorted_insertionSort _ l

/-- Nodes `a`, `b` and `c` on a ring of one virtual node each, `N = 3`, `R = W = 2`, as
`DefaultConfig` has them; node `a`'s configuration. -/
def threeNodes : Setup :=
  ⟨HashRing.headHash,
    (((HashRing.new 1).addNode HashRing.headHash HashRing.insertionSortByHash "a").addNode
      HashRing.headHash HashRing.insertionSortByHash "b").addNode HashRing.headHash
      HashRing.insertionSortByHash "c",
    insertionSortByTimestamp,
    ⟨"a", 8080, "./data", 3, 2, 2, 1⟩⟩

/-- Every node holds version `[1]` of `k`, written at time 1; nothing is in flight. -/
def settled : Cluster := ⟨fun _ => Store.empty.put (keyBytes "k") [1] 1, []⟩

/-- From `settled`, a quorum `Put` of `[2]` at time 2 acknowledged by `b` alone succeeds; after a
quorum `Get` at `b` and the delivery of the request left for `c`, a quorum `Get` at `c` that hears
from `b` answers `[2]`. -/
theorem get_after_put_settled :
    (settled.put threeNodes "a" "k" [2] 2 .quorum ["b"]).1.toOption = some () ∧
    ∃ c₂ value timestamp c₃,
      (settled.put threeNodes "a" "k" [2] 2 .quorum ["b"]).2.run threeNodes
        [.get "b" "k" .quorum ["a"], .deliver 0] = some c₂ ∧
      c₂.get threeNodes "c" "k" .quorum ["b"] = (.ok (value, timestamp), c₃) ∧
      value = [2] ∧ timestamp = 2 := by
  have hold : ∀ n e', read (settled.stores n) "k" = some e' →
      e'.timestamp.toInt < (2 : Timestamp).toInt := fun n e' h => by
    obtain rfl := Option.some.inj ((by decide : read (Store.empty.put (keyBytes "k") [1] 1) "k" =
      some ⟨"k", [1], 1, false⟩).symm.trans h)
    decide
  have hput : settled.put threeNodes "a" "k" [2] 2 .quorum ["b"] =
      (.ok (), (settled.put threeNodes "a" "k" [2] 2 .quorum ["b"]).2) := Prod.ext rfl rfl
  have hes : ∀ ev ∈ [Event.get "b" "k" .quorum ["a"], .deliver 0],
      ev.Quiet threeNodes (Cluster.getWriteQuorum threeNodes .quorum) "k" := by
    simp only [List.mem_cons, List.mem_singleton, List.not_mem_nil, or_false]
    rintro ev (rfl | rfl)
    · exact fun _ => ⟨rfl, by decide⟩
    · trivial
  obtain ⟨c₂, hrun⟩ : ∃ c₂, (settled.put threeNodes "a" "k" [2] 2 .quorum ["b"]).2.run threeNodes
      [.get "b" "k" .quorum ["a"], .deliver 0] = some c₂ := ⟨_, rfl⟩
  have hget : c₂.get threeNodes "c" "k" .quorum ["b"] =
      (.ok ([2], 2), (c₂.get threeNodes "c" "k" .quorum ["b"]).2) := by
    cases hrun
    rfl
  exact ⟨by decide, c₂, _, _, _, hrun, hget, get_after_put (by decide) hold
    (fun m hm => absurd hm (List.not_mem_nil m)) hput hes hrun (by decide) hget⟩

/-- A quorum `Get` at `a` answers `[1]` and leaves read repairs of it in flight. A quorum `Put`
of `[2]` at time 2 is acknowledged by all three nodes. The two repairs then reach `b` and `c`,
and a quorum `Get` at `b` that hears from `c` only answers `[1]`, not `[2]`. -/
theorem quorum_read_misses_acked_write :
    threeNodes.config.validate.toOption = some () ∧
    threeNodes.config.writeQuorum + threeNodes.config.readQuorum >
      threeNodes.config.replicationFactor ∧
    (settled.get threeNodes "a" "k" .quorum ["b", "c"]).1.toOption = some ([1], 1) ∧
    (settled.run threeNodes [.get "a" "k" .quorum ["b", "c"]]).map
      (fun c => (c.put threeNodes "a" "k" [2] 2 .quorum ["b", "c"]).1.toOption) = some (some ()) ∧
    (settled.run threeNodes [.get "a" "k" .quorum ["b", "c"], .put "a" "k" [2] 2 .quorum ["b", "c"],
        .deliver 1, .deliver 1]).map (fun c => (c.get threeNodes "b" "k" .quorum ["c"]).1.toOption) =
      some (some ([1], 1)) := by
  decide

end MiniDynamo.Replication
