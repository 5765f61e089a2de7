import MiniDynamo.Gossip.Membership

/-! What a sequence of gossip messages leaves in the membership list (`Merge`).

`Merge` writes a member's entry and address from what the message says of that member alone. So
after any sequence of messages a member's entry and address are the per-member rule
(`mergeEntry`) folded over the messages that mention it, in the order they were merged
(`view_foldl_merge`). From that, for every member but the node itself (`merge_gossip`): the
heartbeat time is the largest of the one it had and those gossiped, in whatever order they come;
a member the list knew keeps its state, and a member it learns of keeps the state of the first
message that mentions it; the address is the one that came with the largest time, the first such
in the order merged. So the order of the messages decides a new member's state, and its address
on equal times. -/
namespace MiniDynamo.Gossip

namespace MembershipList

/-- A member's entry and address. -/
def view (ml : MembershipList) (nodeID : String) : Option Member × Option String :=
  (ml.getMember nodeID, ml.addresses.lookup nodeID)

/-- What `Merge` does to one member's entry and address, given what a message says of it. -/
def mergeEntry : Option Member × Option String → NodeInfo → Option Member × Option String
  | (none, _), info => (some ⟨stateOf info.state, info.lastSeen⟩, some info.address)
  | (some m, address), info =>
    if info.lastSeen > m.lastHeartbeat then
      (some { m with lastHeartbeat := info.lastSeen }, some info.address)
    else (some m, address)

/-! ### One member at a time -/

section PerMember

variable (ml : MembershipList) {nodeID id : String}

theorem view_mergeOne_ne (info : NodeInfo) (h : id ≠ nodeID) :
    (ml.mergeOne nodeID info).view id = ml.view id := by
  unfold mergeOne view
  split
  · rfl
  · split
    · simp [h]
    · split <;> simp [h]

theorem view_mergeOne_self (info : NodeInfo) (h : nodeID ≠ ml.selfID) :
    (ml.mergeOne nodeID info).view nodeID = mergeEntry (ml.view nodeID) info := by
  unfold mergeOne view
  rw [if_neg h]
  split
  next hn => simp [hn, mergeEntry]
  next m hm =>
    simp only [hm, mergeEntry]
    split <;> simp [hm]

/-- One message: a member's entry and address change only by what the message says of it. -/
theorem view_merge (other : AList fun _ : String => NodeInfo) (h : id ≠ ml.selfID) :
    (ml.merge other).view id = (other.lookup id).elim (ml.view id) (mergeEntry (ml.view id)) := by
  obtain ⟨entries, hnd⟩ := other
  unfold merge AList.lookup
  dsimp only
  induction entries generalizing ml with
  | nil => rfl
  | cons e entries ih =>
    obtain ⟨k, info⟩ := e
    obtain ⟨hk, hnd⟩ := List.nodupKeys_cons.mp hnd
    have hs : id ≠ (ml.mergeOne k info).selfID := by rwa [(mergeOne_frame ml info).selfID]
    rw [List.foldl_cons, ih _ hs hnd]
    by_cases hid : id = k
    · subst hid
      rw [List.dlookup_eq_none.mpr hk, List.dlookup_cons_eq, view_mergeOne_self _ _ (Ne.symm (Ne.symm h))]
      rfl
    · rw [List.dlookup_cons_ne _ _ hid, view_mergeOne_ne _ _ hid]

/-- Any sequence of messages: the per-member rule over those that mention the member. -/
theorem view_foldl_merge (others : List (AList fun _ : String => NodeInfo)) (h : id ≠ ml.selfID) :
    (others.foldl merge ml).view id =
      (others.filterMap fun other => other.lookup id).foldl mergeEntry (ml.view id) := by
  induction others generalizing ml with
  | nil => rfl
  | cons other others ih =>
    rw [List.foldl_cons, ih _ (by rwa [(merge_frame ml other).selfID]), view_merge _ _ h,
      List.filterMap_cons]
    cases other.lookup id <;> rfl

end PerMember

/-! ### The per-member rule over a sequence of messages -/

section Rule

variable (l : List NodeInfo)

/-- The largest of a list of times does not depend on its order. -/
theorem max?_perm {l l' : List Int} (h : l.Perm l') : l.max? = l'.max? := by
  have : Std.Antisymm fun x y : Int => x ≤ y := ⟨Int.le_antisymm⟩
  rcases hl : l'.max? with _ | a
  · rw [List.max?_eq_none_iff] at hl ⊢
    subst hl; exact h.eq_nil
  · rw [List.max?_eq_some_iff Int.le_refl (fun a b => by omega) (fun _ _ _ => Int.max_le)] at hl ⊢
    simpa only [h.mem_iff] using hl

theorem state_mergeEntry (v : Option Member × Option String) (info : NodeInfo) :
    (mergeEntry v info).1.map (·.state) = (v.1.map (·.state)).or (some (stateOf info.state)) := by
  rcases v with ⟨_ | m, address⟩
  · rfl
  · simp only [mergeEntry]; split <;> rfl

theorem heartbeat_mergeEntry (v : Option Member × Option String) (info : NodeInfo) :
    (mergeEntry v info).1.map (·.lastHeartbeat) =
      some ((v.1.map (·.lastHeartbeat)).elim info.lastSeen (max · info.lastSeen)) := by
  rcases v with ⟨_ | m, address⟩
  · rfl
  · simp only [mergeEntry]
    split
    · simp only [Option.map_some', Option.elim, Option.some.injEq]; omega
    · simp only [Option.map_some', Option.elim, Option.some.injEq]; omega

/-- A known member keeps its state, a new one has the first message's. -/
theorem state_foldl (v : Option Member × Option String) :
    (l.foldl mergeEntry v).1.map (·.state) =
      (v.1.map (·.state)).or (l.head?.map fun info => stateOf info.state) := by
  induction l generalizing v with
  | nil => simp
  | cons info l ih =>
    rw [List.foldl_cons, ih, state_mergeEntry]
    cases v.1 <;> rfl

/-- The heartbeat time is the largest of the one it had and those gossiped. -/
theorem heartbeat_foldl (v : Option Member × Option String) :
    (l.foldl mergeEntry v).1.map (·.lastHeartbeat) =
      ((v.1.map (·.lastHeartbeat)).toList ++ l.map (·.lastSeen)).max? := by
  induction l generalizing v with
  | nil => rcases v with ⟨_ | m, address⟩ <;> rfl
  | cons info l ih =>
    rw [List.foldl_cons, ih, heartbeat_mergeEntry]
    cases v.1 <;> rfl

/-- The candidates for a member's address: its entry's, then each message's, with their times. -/
def offers (v : Option Member × Option String) : List (Int × Option String) :=
  (v.1.map fun m => (m.lastHeartbeat, v.2)).toList ++ l.map fun info => (info.lastSeen, some info.address)

theorem map_fst_offers (v : Option Member × Option String) :
    (offers l v).map (·.1) = (v.1.map (·.lastHeartbeat)).toList ++ l.map (·.lastSeen) := by
  rcases v with ⟨_ | m, address⟩ <;> simp [offers]

/-- A candidate carries the largest time. -/
theorem find?_max_isSome {ps : List (Int × Option String)} {M : Int} (h : (ps.map (·.1)).max? = some M) :
    (ps.find? fun p => some p.1 = some M).isSome := by
  obtain ⟨p, hp, rfl⟩ := List.mem_map.mp (List.max?_mem (fun a b => by omega) h)
  exact List.find?_isSome.mpr ⟨p, hp, by simp⟩

/-- The address is the first of the candidates to carry the largest time. -/
theorem address_foldl (v : Option Member × Option String) :
    (l.foldl mergeEntry v).2 =
      (((offers l v).find? fun p => some p.1 = ((offers l v).map (·.1)).max?).map (·.2)).getD v.2 := by
  induction l generalizing v with
  | nil => rcases v with ⟨_ | m, address⟩ <;> simp [offers]
  | cons info l ih =>
    have hH : ((offers l (mergeEntry v info)).map (·.1)).max? = ((offers (info :: l) v).map (·.1)).max? := by
      rw [map_fst_offers, map_fst_offers, ← heartbeat_foldl, ← heartbeat_foldl]; rfl
    have hin : info.lastSeen ∈ (offers (info :: l) v).map (·.1) := by
      rw [map_fst_offers]; exact List.mem_append_right _ (List.mem_cons_self _ _)
    obtain ⟨M, hM⟩ := Option.isSome_iff_exists.mp (List.isSome_max?_of_mem hin)
    have hle : ∀ p ∈ offers (info :: l) v, p.1 ≤ M := fun p hp =>
      (List.max?_le_iff (fun _ _ _ => Int.max_le) hM).1 (Int.le_refl M) p.1 (List.mem_map_of_mem _ hp)
    have hsome := find?_max_isSome hM
    rw [List.foldl_cons, ih, hH, hM]
    generalize hP : (fun p : Int × Option String => decide (some p.1 = some M)) = P at hsome ⊢
    have hPe : ∀ t a, P (t, a) = decide (t = M) := fun t a => by rw [← hP]; simp
    rcases v with ⟨_ | m, address⟩
    · obtain ⟨p, hp⟩ := Option.isSome_iff_exists.mp hsome
      rw [show offers l (mergeEntry (none, address) info) = offers (info :: l) (none, address) from rfl, hp]
      rfl
    · have hm : m.lastHeartbeat ≤ M := hle _ (List.mem_cons_self _ _)
      have hi : info.lastSeen ≤ M := hle _ (.tail _ (List.mem_cons_self _ _))
      simp only [mergeEntry]
      split
      next hgt =>
        rw [show offers (info :: l) (some m, address) = (m.lastHeartbeat, address) ::
          offers l (some { m with lastHeartbeat := info.lastSeen }, some info.address) from rfl,
          List.find?_cons_of_neg _ (by rw [hPe]; simp; omega)] at hsome ⊢
        obtain ⟨p, hp⟩ := Option.isSome_iff_exists.mp hsome
        rw [hp]; rfl
      next hle' =>
        rw [show offers (info :: l) (some m, address) = (m.lastHeartbeat, address) ::
          (info.lastSeen, some info.address) :: offers l (none, none) from rfl,
          show offers l (some m, address) = (m.lastHeartbeat, address) :: offers l (none, none) from rfl]
        by_cases heq : m.lastHeartbeat = M
        · have hpos : P (m.lastHeartbeat, address) := by rw [hPe]; simpa using heq
          rw [List.find?_cons_of_pos _ hpos, List.find?_cons_of_pos _ hpos]
        · have hne : ¬P (m.lastHeartbeat, address) := by rw [hPe]; simpa using heq
          rw [List.find?_cons_of_neg _ hne, List.find?_cons_of_neg _ hne,
            List.find?_cons_of_neg _ (by rw [hPe]; simp; omega)]

end Rule

/-! ### Any sequence of messages -/

theorem foldl_merge_frame (ml : MembershipList) (others : List (AList fun _ : String => NodeInfo)) :
    Frame ml (others.foldl merge ml) := by
  induction others generalizing ml with
  | nil => exact .refl ml
  | cons other others ih => exact (merge_frame ml other).trans (ih _)

theorem heartbeat_foldl_merge (ml : MembershipList) (others : List (AList fun _ : String => NodeInfo))
    {id : String} (hid : id ≠ ml.selfID) :
    ((others.foldl merge ml).getMember id).map (·.lastHeartbeat) =
      (((ml.getMember id).map (·.lastHeartbeat)).toList ++
        (others.filterMap fun other => other.lookup id).map (·.lastSeen)).max? := by
  rw [show (others.foldl merge ml).getMember id = ((others.foldl merge ml).view id).1 from rfl,
    view_foldl_merge ml others hid, heartbeat_foldl]
  rfl

/-- After any sequence of gossip messages the node's own entry is as it was, and for every other
member: its heartbeat time is the largest of the one it had and those gossiped for it, the same in
every order of the messages; a member the list knew keeps its state, and one it learns of has the
state of the first message to mention it; its address is that of the first candidate, its prior
entry and then each message in the order merged, to carry that largest time. -/
theorem merge_gossip (ml : MembershipList) (others : List (AList fun _ : String => NodeInfo))
    {id : String} (hid : id ≠ ml.selfID) :
    let ml' := others.foldl merge ml
    let heard := others.filterMap fun other => other.lookup id
    ml'.getMember ml.selfID = ml.getMember ml.selfID ∧
    (ml'.getMember id).map (·.lastHeartbeat) =
      (((ml.getMember id).map (·.lastHeartbeat)).toList ++ heard.map (·.lastSeen)).max? ∧
    (∀ others' : List (AList fun _ : String => NodeInfo), others'.Perm others →
      ((others'.foldl merge ml).getMember id).map (·.lastHeartbeat) =
        (ml'.getMember id).map (·.lastHeartbeat)) ∧
    (ml'.getMember id).map (·.state) =
      ((ml.getMember id).map (·.state)).or (heard.head?.map fun info => stateOf info.state) ∧
    ml'.addresses.lookup id = (((offers heard (ml.view id)).find? fun p =>
      some p.1 = ((offers heard (ml.view id)).map (·.1)).max?).map (·.2)).getD (ml.addresses.lookup id) := by
  intro ml' heard
  have hv : ml'.view id = heard.foldl mergeEntry (ml.view id) := view_foldl_merge ml others hid
  refine ⟨(foldl_merge_frame ml others).self, heartbeat_foldl_merge ml others hid, fun others' hp => ?_, ?_, ?_⟩
  · rw [heartbeat_foldl_merge ml others' hid, heartbeat_foldl_merge ml others hid]
    exact max?_perm (((hp.filterMap _).map _).append_left _)
  · rw [show ml'.getMember id = (ml'.view id).1 from rfl, hv, state_foldl]
    rfl
  · rw [show ml'.addresses.lookup id = (ml'.view id).2 from rfl, hv, address_foldl]
    rfl

/-- A node first heard of as dead, then as alive at a later time, stays dead; in the other order
it is alive. On equal times its address is the first message's. -/
theorem merge_order_matters :
    let dead := (∅ : AList fun _ : String => NodeInfo).insert "X" ⟨"10.0.0.1", "dead", 1⟩
    let alive := (∅ : AList fun _ : String => NodeInfo).insert "X" ⟨"10.0.0.2", "alive", 2⟩
    let moved := (∅ : AList fun _ : String => NodeInfo).insert "X" ⟨"10.0.0.3", "alive", 2⟩
    let ml := MembershipList.new "self" 0
    ([dead, alive].foldl merge ml).getMember "X" = some ⟨.dead, 2⟩ ∧
      ([alive, dead].foldl merge ml).getMember "X" = some ⟨.alive, 2⟩ ∧
      ([alive, moved].foldl merge ml).addresses.lookup "X" = some "10.0.0.2" ∧
      ([moved, alive].foldl merge ml).addresses.lookup "X" = some "10.0.0.3" := by
  decide

/-- Two messages about `X`: dead at time 1, then alive at time 2. -/
theorem merge_gossip_dead_then_alive :
    let ml := MembershipList.new "self" 0
    let others := [(∅ : AList fun _ : String => NodeInfo).insert "X" ⟨"10.0.0.1", "dead", 1⟩,
      (∅ : AList fun _ : String => NodeInfo).insert "X" ⟨"10.0.0.2", "alive", 2⟩]
    let ml' := others.foldl merge ml
    let heard := others.filterMap fun other => other.lookup "X"
    "X" ≠ ml.selfID ∧
    ml'.getMember ml.selfID = ml.getMember ml.selfID ∧
    (ml'.getMember "X").map (·.lastHeartbeat) =
      (((ml.getMember "X").map (·.lastHeartbeat)).toList ++ heard.map (·.lastSeen)).max? ∧
    (∀ others' : List (AList fun _ : String => NodeInfo), others'.Perm others →
      ((others'.foldl merge ml).getMember "X").map (·.lastHeartbeat) =
        (ml'.getMember "X").map (·.lastHeartbeat)) ∧
    (ml'.getMember "X").map (·.state) =
      ((ml.getMember "X").map (·.state)).or (heard.head?.map fun info => stateOf info.state) ∧
    ml'.addresses.lookup "X" = (((offers heard (ml.view "X")).find? fun p =>
      some p.1 = ((offers heard (ml.view "X")).map (·.1)).max?).map (·.2)).getD (ml.addresses.lookup "X") :=
  ⟨by decide, merge_gossip _ _ (by decide)⟩

end MembershipList

end MiniDynamo.Gossip
