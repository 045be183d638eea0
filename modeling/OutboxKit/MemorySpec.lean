import OutboxKit.Memory

/-! The in-process store refines the outbox model, and what that gives over every
run: the order and completeness of `fetch_due`, the counts, and the identifiers
that never leave. -/
namespace OutboxKit.Memory
open Std Machine Ordered Trace

def entry (s : Inner) : Outbox := fun id =>
  match s.events[id]? with
  | some (stamp, e) => .live stamp e
  | none => if id ∈ s.dispatched then .dispatched else .absent

theorem entry_live_iff {s : Inner} {id : EventId} {stamp : UInt64} {e : OutboxEvent} :
    entry s id = .live stamp e ↔ s.events[id]? = some (stamp, e) := by
  unfold entry
  split
  · rename_i h
    simp [h]
  · rename_i h
    simp only [h, reduceCtorEq, iff_false]
    split <;> simp

theorem entry_absent_iff {s : Inner} {id : EventId} :
    entry s id = .absent ↔ id ∉ s.events ∧ id ∉ s.dispatched := by
  unfold entry
  rw [mem_events_iff]
  split
  · rename_i h
    simp [h]
  · rename_i h
    simp [h]

theorem entry_dispatched_iff {s : Inner} (hv : Valid s) {id : EventId} :
    entry s id = .dispatched ↔ id ∈ s.dispatched := by
  unfold entry
  split
  · rename_i h
    simpa using hv.disjoint id (mem_events_iff.mpr ⟨_, h⟩)
  · simp

theorem entry_new (id : EventId) : entry new id = .absent := by
  simp [entry, new]

theorem filed_entry {s : Inner} (hv : Valid s) : (entry s).Filed :=
  fun id stamp e h => hv.filed id stamp e (entry_live_iff.mp h)

theorem entry_append {s : Inner} {e : OutboxEvent} (ht : topicValid e.topic = true) :
    entry (append e s).2 = (entry s).append e.createdAt e := by
  rcases append_cases s ht with ⟨hknown, h⟩ | ⟨hev, hd, h⟩
  · have hne : entry s e.id ≠ .absent := fun ha =>
      hknown.elim (entry_absent_iff.mp ha).1 (entry_absent_iff.mp ha).2
    rw [h, Outbox.append_known hne]
  · rw [h, Outbox.append_absent (entry_absent_iff.mpr ⟨hev, hd⟩)]
    funext id
    by_cases hid : e.id = id
    · subst hid
      simp [entry]
    · simp [entry, ExtTreeMap.getElem?_insert, hid, Function.update_of_ne (Ne.symm hid)]

theorem entry_markDispatched (s : Inner) (id : EventId) :
    entry (markDispatched id s).2 = (entry s).markDispatched id := by
  funext k
  unfold markDispatched Outbox.markDispatched
  by_cases hk : id = k
  · subst hk
    cases hget : s.events[id]? with
    | none => simp [entry, hget]
    | some x => simp [entry]
  · cases hget : s.events[id]? with
    | none => simp [entry, hk, Function.update_of_ne (Ne.symm hk)]
    | some x => simp [entry, hk, ExtTreeMap.getElem?_erase, Function.update_of_ne (Ne.symm hk)]

theorem entry_markFailed (s : Inner) (id : EventId) (error : String) (retryAt : UInt64) :
    entry (markFailed id error retryAt s).2 = (entry s).markFailed id error retryAt := by
  unfold markFailed
  cases hget : s.events[id]? with
  | none =>
    refine (Outbox.markFailed_not_live (fun t e h => ?_) error retryAt).symm
    rw [entry_live_iff, hget] at h
    cases h
  | some x =>
    rw [Outbox.markFailed_live (entry_live_iff.mpr hget)]
    funext k
    by_cases hk : id = k
    · subst hk
      simp [entry]
    · simp [entry, ExtTreeMap.getElem?_insert, hk, Function.update_of_ne (Ne.symm hk)]

def dueEntries (now : UInt64) (s : Inner) : List (UInt64 × OutboxEvent) :=
  (dueKeys now s).filterMap fun x => s.events[x.2]?

theorem mem_dueKeys {s : Inner} {now : UInt64} {x : UInt64 × EventId} :
    x ∈ dueKeys now s ↔ x ∈ s.queue ∧ x.1 ≤ now ∧ x.1 ≠ never := by
  simp [dueKeys]

/-- Every index key finds its own stamp and event: the lookup drops nothing. -/
theorem lookup_dueKey {s : Inner} (hv : Valid s) {now : UInt64} {x : UInt64 × EventId}
    (hx : x ∈ dueKeys now s) : ∃ e, s.events[x.2]? = some (x.1, e) ∧ e.id = x.2 := by
  obtain ⟨e, he⟩ := (hv.queue_iff x.1 x.2).mp (mem_dueKeys.mp hx).1
  exact ⟨e, he, hv.filed _ _ _ he⟩

theorem fetchDue_eq {s : Inner} (hv : Valid s) (limit now : UInt64) :
    fetchDue limit now s = .ok (((dueEntries now s).take limit.toNat).map (·.2)) := by
  rw [fetchDue, dueEntries, take_filterMap (fun x : UInt64 × EventId => s.events[x.2]?)]
  intro x hx
  obtain ⟨e, he, -⟩ := lookup_dueKey hv hx
  rw [he]
  rfl

theorem length_dueEntries {s : Inner} (hv : Valid s) (now : UInt64) :
    (dueEntries now s).length = (dueKeys now s).length := by
  refine List.filterMap_length_eq_length.mpr fun x hx => ?_
  obtain ⟨e, he, -⟩ := lookup_dueKey hv hx
  rw [he]
  rfl

theorem dueList_dueEntries {s : Inner} (hv : Valid s) (now : UInt64) :
    (entry s).DueList now (dueEntries now s) where
  sorted := by
    rw [dueEntries, List.pairwise_filterMap]
    have hsorted : (dueKeys now s).Pairwise fun x y => pairCmp x y = .lt :=
      List.Pairwise.filter _ ExtTreeSet.ordered_toList
    refine hsorted.imp_of_mem ?_
    intro x y hx hy hlt a ha b hb
    obtain ⟨e, he, hid⟩ := lookup_dueKey hv hx
    obtain ⟨f, hf, hid'⟩ := lookup_dueKey hv hy
    rw [he] at ha
    rw [hf] at hb
    cases ha
    cases hb
    rw [hid, hid']
    exact hlt
  mem_iff stamp e := by
    simp only [dueEntries, List.mem_filterMap, mem_dueKeys, entry_live_iff]
    constructor
    · rintro ⟨⟨t, id⟩, ⟨hq, hnow, hne⟩, hget⟩
      obtain ⟨f, hf⟩ := (hv.queue_iff t id).mp hq
      rw [hf] at hget
      cases hget
      rw [hv.filed _ _ _ hf]
      exact ⟨hf, hnow, hne⟩
    · rintro ⟨hget, hnow, hne⟩
      exact ⟨(stamp, e.id), ⟨(hv.queue_iff _ _).mpr ⟨e, hget⟩, hnow, hne⟩, hget⟩

def liveWhere (p : UInt64 → Bool) (s : Inner) : List (UInt64 × OutboxEvent) :=
  (s.events.toList.filter fun kv => p kv.2.1).map (·.2)

theorem tally_liveWhere {s : Inner} (hv : Valid s) (p : UInt64 → Bool) :
    (entry s).Tally (fun t => p t = true) (liveWhere p s) where
  nodup := by
    refine List.Nodup.map_on ?_ (List.Nodup.filter _ ?_)
    · rintro ⟨id, t, e⟩ hx ⟨id', t', e'⟩ hy he
      have hx' := ExtTreeMap.mem_toList_iff_getElem?_eq_some.mp (List.mem_filter.mp hx).1
      have hy' := ExtTreeMap.mem_toList_iff_getElem?_eq_some.mp (List.mem_filter.mp hy).1
      cases he
      rw [← hv.filed _ _ _ hx', ← hv.filed _ _ _ hy']
    · exact nodup_of_pairwise (fun kv : EventId × UInt64 × OutboxEvent => kv.1)
        ExtTreeMap.ordered_keys_toList
  mem_iff stamp e := by
    rw [entry_live_iff]
    simp only [liveWhere, List.mem_map, List.mem_filter, Prod.exists,
      ExtTreeMap.mem_toList_iff_getElem?_eq_some, Prod.mk.injEq]
    constructor
    · rintro ⟨id, t, f, ⟨hget, hp⟩, rfl, rfl⟩
      rw [hv.filed _ _ _ hget]
      exact ⟨hget, hp⟩
    · rintro ⟨hget, hp⟩
      exact ⟨e.id, stamp, e, ⟨hget, hp⟩, rfl, rfl⟩

theorem countWhere_eq (p : UInt64 → Bool) (s : Inner) :
    Reply.count (countWhere p s) = Outbox.countReply (liveWhere p s).length := by
  rw [countWhere, Outbox.countReply, liveWhere, List.length_map]

/-- The in-process store is a faithful outbox: it keeps stamps and envelopes as
given and never runs out of room. -/
def refinement : Refinement store where
  Valid := Valid
  entry := entry
  stamp := id
  norm := id
  Accepts e := topicValid e.topic = true
  Room _ _ _ := True
  norm_id _ := rfl
  filed _ := filed_entry
  append_ok s e hv ht := by
    refine ⟨?_, valid_append e hv, entry_append ht⟩
    rcases append_cases s ht with ⟨-, h⟩ | ⟨-, -, h⟩ <;> exact congrArg Prod.fst h
  append_invalid s e ht := append_invalid s ht
  fetchDue_ok s limit now hv :=
    ⟨dueEntries now s, limit.toNat, dueList_dueEntries hv now, Or.inl rfl,
      fetchDue_eq hv limit now⟩
  markDispatched_ok s clock id hv _ := by
    refine ⟨?_, valid_markDispatched id hv, entry_markDispatched s id⟩
    change (markDispatched id s).1 = _
    unfold markDispatched
    split <;> rfl
  markFailed_ok s id error retryAt hv _ := by
    refine ⟨?_, valid_markFailed id error retryAt hv, entry_markFailed s id error retryAt⟩
    change (markFailed id error retryAt s).1 = _
    unfold markFailed
    split <;> rfl
  pendingCount_ok s hv := by
    refine ⟨liveWhere (· != never) s, ?_, countWhere_eq (· != never) s⟩
    simpa using tally_liveWhere hv (· != never)
  parkedCount_ok s hv := by
    refine ⟨liveWhere (· == never) s, ?_, countWhere_eq (· == never) s⟩
    simpa using tally_liveWhere hv (· == never)

theorem refinement_total : refinement.Total where
  append_refused s _ h := ⟨_, append_invalid s (by simpa [refinement] using h)⟩
  markFailed_refused _ _ _ _ _ h := absurd trivial h

def runs : System Inner Call := store.runs new

theorem valid_reach {s t : Inner} (h : runs.Reach (fun _ _ => True) s t) (hv : Valid s) :
    Valid t := by
  refine h.invariant (I := Valid) (fun s c t hs _ hstep => ?_) hv
  cases hstep
  exact valid_call c hs

theorem dispatched_call {s : Inner} {id : EventId} (c : Call) (h : id ∈ s.dispatched) :
    id ∈ (store.call c s).2.dispatched := by
  cases c with
  | append e =>
    change id ∈ (append e s).2.dispatched
    unfold append
    repeat' split
    all_goals exact h
  | markDispatched clock k =>
    change id ∈ (markDispatched k s).2.dispatched
    unfold markDispatched
    split <;> exact ExtTreeSet.mem_insert.mpr (Or.inr h)
  | markFailed k error retryAt =>
    change id ∈ (markFailed k error retryAt s).2.dispatched
    unfold markFailed
    split <;> exact h
  | fetchDue | pendingCount | parkedCount | deadLetter | deadLetters => exact h

theorem known_call {s : Inner} {id : EventId} (c : Call)
    (h : id ∈ s.events ∨ id ∈ s.dispatched) :
    id ∈ (store.call c s).2.events ∨ id ∈ (store.call c s).2.dispatched := by
  rcases h with h | h
  · cases c with
    | append e =>
      left
      change id ∈ (append e s).2.events
      unfold append
      repeat' split
      all_goals first | exact h | exact ExtTreeMap.mem_insert.mpr (Or.inr h)
    | markDispatched clock k =>
      change id ∈ (markDispatched k s).2.events ∨ id ∈ (markDispatched k s).2.dispatched
      unfold markDispatched
      split
      · by_cases hk : k = id
        · exact Or.inr (ExtTreeSet.mem_insert.mpr (Or.inl (by simp [hk])))
        · exact Or.inl (ExtTreeMap.mem_erase.mpr ⟨by simp [hk], h⟩)
      · exact Or.inl h
    | markFailed k error retryAt =>
      left
      change id ∈ (markFailed k error retryAt s).2.events
      unfold markFailed
      split
      · exact ExtTreeMap.mem_insert.mpr (Or.inr h)
      · exact h
    | fetchDue | pendingCount | parkedCount | deadLetter | deadLetters => exact Or.inl h
  · exact Or.inr (dispatched_call c h)

theorem known_reach {s t : Inner} (h : runs.Reach (fun _ _ => True) s t) (id : EventId) :
    ((id ∈ s.events ∨ id ∈ s.dispatched) → (id ∈ t.events ∨ id ∈ t.dispatched)) ∧
    (id ∈ s.dispatched → id ∈ t.dispatched) := by
  constructor
  · refine h.invariant (I := fun s => id ∈ s.events ∨ id ∈ s.dispatched) fun s c t hs _ hstep => ?_
    cases hstep
    exact known_call c hs
  · refine h.invariant (I := fun s => id ∈ s.dispatched) fun s c t hs _ hstep => ?_
    cases hstep
    exact dispatched_call c hs

theorem fetched_not_dispatched {s : Inner} (hv : Valid s) {id : EventId} (hd : id ∈ s.dispatched)
    {limit now : UInt64} {evs : List OutboxEvent} (h : fetchDue limit now s = .ok evs) :
    ∀ e ∈ evs, e.id ≠ id := by
  rw [fetchDue_eq hv, Except.ok.injEq] at h
  subst h
  intro e he hid
  obtain ⟨⟨t, f⟩, hmem, rfl⟩ := List.mem_map.mp he
  have hlive := ((dueList_dueEntries hv now).mem_iff t f).mp (List.mem_of_mem_take hmem)
  have hget := entry_live_iff.mp hlive.1
  exact hv.disjoint f.id (mem_events_iff.mpr ⟨_, hget⟩) (hid ▸ hd)

theorem countWhere_toNat (p : UInt64 → Bool) (s : Inner) :
    ∃ n, countWhere p s = .ok n ∧ n.toNat = min (liveWhere p s).length (2^64-1) := by
  refine ⟨_, rfl, ?_⟩
  rw [liveWhere, List.length_map]
  unfold tryU64OfNat
  split
  · rename_i h
    rw [Option.getD_some, UInt64.toNat_ofNat', Nat.mod_eq_of_lt h]
    omega
  · rw [Option.getD_none, u64Max_toNat]
    omega

theorem length_dueEntries_max {s : Inner} (hv : Valid s) :
    (dueEntries u64Max s).length = (liveWhere (· != never) s).length := by
  have hdue := dueList_dueEntries hv u64Max
  have htally := tally_liveWhere hv (· != never)
  refine Outbox.Tally.length_unique (p := fun t => (t != never) = true) ⟨?_, ?_⟩ htally
  · exact nodup_of_pairwise (fun x : UInt64 × OutboxEvent => (x.1, x.2.id)) hdue.sorted
  · intro stamp e
    rw [hdue.mem_iff]
    simp [le_u64Max]

theorem liveWhere_split (s : Inner) :
    (liveWhere (· != never) s).length+(liveWhere (· == never) s).length = s.events.size := by
  have hsplit := List.length_eq_length_filter_add
    (l := s.events.toList) fun kv : EventId × UInt64 × OutboxEvent => kv.2.1 == never
  rw [ExtTreeMap.length_toList] at hsplit
  simp only [liveWhere, List.length_map, bne]
  omega

/-- The representation of the in-process store in every state a run reaches, and
what it gives: `fetch_due` is the sorted list of due live events cut at the
limit, the counts add up, a recorded failure touches one event, and nothing
known is forgotten. `usize` is 64 bits wide, so a store's own length is below
`2^64`. -/
theorem store_specification (s : Inner) (h : runs.Reachable (fun _ _ => True) s) :
    (∀ stamp id, (stamp, id) ∈ s.queue ↔ ∃ e, s.events[id]? = some (stamp, e)) ∧
    (∀ (id : EventId) stamp (e : OutboxEvent), s.events[id]? = some (stamp, e) →
      e.id = id ∧ topicValid e.topic = true) ∧
    (∀ id, id ∈ s.events → id ∉ s.dispatched) ∧
    (∀ t, runs.Reach (fun _ _ => True) s t → ∀ id,
      ((id ∈ s.events ∨ id ∈ s.dispatched) → (id ∈ t.events ∨ id ∈ t.dispatched)) ∧
      (id ∈ s.dispatched → id ∈ t.dispatched)) ∧
    (∀ limit now, ∃ l : List (UInt64 × OutboxEvent),
      l.Pairwise (fun x y => pairCmp (x.1, x.2.id) (y.1, y.2.id) = .lt) ∧
      (∀ stamp e, (stamp, e) ∈ l ↔
        s.events[e.id]? = some (stamp, e) ∧ stamp ≤ now ∧ stamp ≠ never) ∧
      (l.map (·.2.id)).Nodup ∧ l.length = (dueKeys now s).length ∧
      fetchDue limit now s = .ok ((l.take limit.toNat).map (·.2))) ∧
    (∃ evs n, fetchDue u64Max u64Max s = .ok evs ∧ pendingCount s = .ok n ∧
      evs.length = n.toNat) ∧
    (len s < 2^64 → ∃ pending parked, pendingCount s = .ok pending ∧ parkedCount s = .ok parked ∧
      pending.toNat+parked.toNat+s.dispatched.size = len s) ∧
    (∀ (id : EventId) error retryAt stamp (e : OutboxEvent), s.events[id]? = some (stamp, e) →
      (markFailed id error retryAt s).1 = .ok () ∧
      (markFailed id error retryAt s).2.events[id]? = some (retryAt,
        { e with attempts := satAdd32 e.attempts 1, lastError := some (truncateError error) }) ∧
      (∀ k, k ≠ id → (markFailed id error retryAt s).2.events[k]? = s.events[k]?) ∧
      (markFailed id error retryAt s).2.dispatched = s.dispatched) ∧
    (∀ id ∈ s.dispatched, ∀ t, runs.Reach (fun _ _ => True) s t → ∀ limit now evs,
      fetchDue limit now t = .ok evs → ∀ e ∈ evs, e.id ≠ id) := by
  have hv : Valid s := valid_reach h valid_new
  refine ⟨hv.queue_iff, fun id stamp e he => ⟨hv.filed id stamp e he, hv.topic id stamp e he⟩,
    hv.disjoint, fun t ht id => known_reach ht id, fun limit now => ?_, ?_, fun hlen => ?_,
    fun id error retryAt stamp e he => ?_, fun id hd t ht limit now evs hf => ?_⟩
  · have hdue := dueList_dueEntries hv now
    exact ⟨dueEntries now s, hdue.sorted, fun stamp e => by rw [hdue.mem_iff, entry_live_iff],
      hdue.nodup_ids, length_dueEntries hv now, fetchDue_eq hv limit now⟩
  · obtain ⟨n, hn, hcount⟩ := countWhere_toNat (· != never) s
    refine ⟨_, n, fetchDue_eq hv _ _, hn, ?_⟩
    rw [List.length_map, List.length_take, length_dueEntries_max hv, hcount, u64Max_toNat]
    omega
  · obtain ⟨p, hp, hpn⟩ := countWhere_toNat (· != never) s
    obtain ⟨k, hk, hkn⟩ := countWhere_toNat (· == never) s
    have hsum := liveWhere_split s
    refine ⟨p, k, hp, hk, ?_⟩
    unfold len at hlen ⊢
    omega
  · unfold markFailed
    rw [he]
    refine ⟨rfl, by simp [OutboxEvent.failed], fun k hk => ?_, rfl⟩
    simp [ExtTreeMap.getElem?_insert, Ne.symm hk]
  · exact fetched_not_dispatched (valid_reach ht hv) ((known_reach ht id).2 hd) hf

def sampleCalls : List Call :=
  [.append (.sample 1 5), .append (.sample 2 5), .append (.sample 3 5),
    .markFailed (.ofByte 2) "boom" never, .markDispatched 9 (.ofByte 3)]

theorem store_specification_sample :
    ∃ pending parked, pendingCount (after store.call new sampleCalls) = .ok pending ∧
      parkedCount (after store.call new sampleCalls) = .ok parked ∧
      pending.toNat+parked.toNat+(after store.call new sampleCalls).dispatched.size = 3 :=
  (store_specification (after store.call new sampleCalls)
    (System.reach_of_run sampleCalls rfl)).2.2.2.2.2.2.1 (by decide)

end OutboxKit.Memory
