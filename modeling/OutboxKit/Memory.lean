import OutboxKit.Outbox

/-! The in-process store: live events by identifier, an ordering index over them,
and the identifiers already dispatched. The three collections repeat each
other's data; `Valid` says how, and every operation keeps it. -/
namespace OutboxKit.Memory
open Std Machine Ordered

structure Inner where
  events : ExtTreeMap EventId (UInt64 × OutboxEvent)
  queue : ExtTreeSet (UInt64 × EventId) pairCmp
  dispatched : ExtTreeSet EventId

def new : Inner := ⟨∅, ∅, ∅⟩

def len (s : Inner) : Nat := s.events.size+s.dispatched.size

def append (e : OutboxEvent) (s : Inner) : Except StoreError Unit × Inner :=
  match e.checked with
  | .error err => (.error err, s)
  | .ok () =>
    if s.events.contains e.id || s.dispatched.contains e.id then (.ok (), s)
    else (.ok (), { s with
      events := s.events.insert e.id (e.createdAt, e)
      queue := s.queue.insert (e.createdAt, e.id) })

def dueKeys (now : UInt64) (s : Inner) : List (UInt64 × EventId) :=
  s.queue.toList.filter fun x => x.1 ≤ now && x.1 != never

def fetchDue (limit now : UInt64) (s : Inner) : Except StoreError (List OutboxEvent) :=
  .ok (((dueKeys now s).take limit.toNat).filterMap fun x => s.events[x.2]?.map (·.2))

def markDispatched (id : EventId) (s : Inner) : Except StoreError Unit × Inner :=
  match s.events[id]? with
  | some (stamp, _) =>
    (.ok (), ⟨s.events.erase id, s.queue.erase (stamp, id), s.dispatched.insert id⟩)
  | none => (.ok (), { s with dispatched := s.dispatched.insert id })

def markFailed (id : EventId) (error : String) (retryAt : UInt64) (s : Inner) :
    Except StoreError Unit × Inner :=
  match s.events[id]? with
  | some (stamp, e) => (.ok (), { s with
      events := s.events.insert id (retryAt, e.failed error)
      queue := (s.queue.erase (stamp, e.id)).insert (retryAt, e.id) })
  | none => (.ok (), s)

/-- `events.values().filter(..).count()`, as the interface's `u64`. -/
def countWhere (p : UInt64 → Bool) (s : Inner) : Except StoreError UInt64 :=
  .ok ((tryU64OfNat (s.events.toList.filter fun kv => p kv.2.1).length).getD u64Max)

def pendingCount : Inner → Except StoreError UInt64 := countWhere (· != never)
def parkedCount : Inner → Except StoreError UInt64 := countWhere (· == never)

/-- The store behind the interface; the dead-letter pair is the default no-op. -/
def store : OutboxStore Inner where
  append := append
  fetchDue := fetchDue
  markDispatched _ := markDispatched
  markFailed := markFailed
  pendingCount := pendingCount
  parkedCount := parkedCount

/-- The three collections describe one outbox. -/
structure Valid (s : Inner) : Prop where
  queue_iff : ∀ (stamp : UInt64) (id : EventId),
    (stamp, id) ∈ s.queue ↔ ∃ e, s.events[id]? = some (stamp, e)
  filed : ∀ (id : EventId) (stamp : UInt64) (e : OutboxEvent),
    s.events[id]? = some (stamp, e) → e.id = id
  topic : ∀ (id : EventId) (stamp : UInt64) (e : OutboxEvent),
    s.events[id]? = some (stamp, e) → topicValid e.topic = true
  disjoint : ∀ id, id ∈ s.events → id ∉ s.dispatched

theorem valid_new : Valid new where
  queue_iff stamp id := by simp [new]
  filed id stamp e h := by simp [new] at h
  topic id stamp e h := by simp [new] at h
  disjoint id h := by simp [new] at h

/-- What an accepted append does: nothing to a known identifier, else one entry. -/
theorem append_cases {e : OutboxEvent} (s : Inner) (ht : topicValid e.topic = true) :
    ((e.id ∈ s.events ∨ e.id ∈ s.dispatched) ∧ append e s = (.ok (), s)) ∨
    (e.id ∉ s.events ∧ e.id ∉ s.dispatched ∧ append e s = (.ok (),
      ⟨s.events.insert e.id (e.createdAt, e), s.queue.insert (e.createdAt, e.id),
        s.dispatched⟩)) := by
  simp only [append, OutboxEvent.checked_ok ht, Bool.or_eq_true, ExtTreeMap.contains_iff_mem,
    ExtTreeSet.contains_iff_mem]
  split
  · rename_i h
    exact Or.inl ⟨h, rfl⟩
  · rename_i h
    exact Or.inr ⟨fun he => h (Or.inl he), fun hd => h (Or.inr hd), rfl⟩

theorem append_invalid {e : OutboxEvent} (s : Inner) (ht : topicValid e.topic = false) :
    append e s = (.error (.invalidTopic e.topic), s) := by
  rw [append, OutboxEvent.checked_error ht]

theorem mem_events_iff {s : Inner} {id : EventId} :
    id ∈ s.events ↔ ∃ x, s.events[id]? = some x := by
  rw [ExtTreeMap.mem_iff_isSome_getElem?, Option.isSome_iff_exists]

theorem valid_insert {s : Inner} {e : OutboxEvent} (hv : Valid s) (ht : topicValid e.topic = true)
    (hev : e.id ∉ s.events) (hd : e.id ∉ s.dispatched) :
    Valid ⟨s.events.insert e.id (e.createdAt, e), s.queue.insert (e.createdAt, e.id),
      s.dispatched⟩ where
  queue_iff stamp id := by
    simp only [ExtTreeSet.mem_insert, LawfulEqCmp.compare_eq_iff_eq, ExtTreeMap.getElem?_insert,
      hv.queue_iff, Prod.mk.injEq]
    by_cases hid : e.id = id
    · subst hid
      have hnone : ∀ x, s.events[e.id]? ≠ some x := fun x hx => hev (mem_events_iff.mpr ⟨x, hx⟩)
      simp [hnone, eq_comm]
    · simp [hid]
  filed id stamp f h := by
    simp only [ExtTreeMap.getElem?_insert, LawfulEqCmp.compare_eq_iff_eq] at h
    split at h
    · rename_i hid
      cases h
      exact hid
    · exact hv.filed id stamp f h
  topic id stamp f h := by
    simp only [ExtTreeMap.getElem?_insert, LawfulEqCmp.compare_eq_iff_eq] at h
    split at h
    · cases h
      exact ht
    · exact hv.topic id stamp f h
  disjoint id h := by
    simp only [ExtTreeMap.mem_insert, LawfulEqCmp.compare_eq_iff_eq] at h
    rcases h with rfl | h
    · exact hd
    · exact hv.disjoint id h

theorem valid_append {s : Inner} (e : OutboxEvent) (hv : Valid s) : Valid (append e s).2 := by
  cases ht : topicValid e.topic with
  | false => rw [append_invalid s ht]; exact hv
  | true =>
    rcases append_cases s ht with ⟨-, h⟩ | ⟨hev, hd, h⟩
    · rw [h]; exact hv
    · rw [h]; exact valid_insert hv ht hev hd

theorem valid_markDispatched {s : Inner} (id : EventId) (hv : Valid s) :
    Valid (markDispatched id s).2 := by
  unfold markDispatched
  cases hget : s.events[id]? with
  | none =>
    refine ⟨hv.queue_iff, hv.filed, hv.topic, fun k hk => ?_⟩
    rw [ExtTreeSet.mem_insert, LawfulEqCmp.compare_eq_iff_eq]
    rintro (rfl | hd)
    · obtain ⟨x, hx⟩ := mem_events_iff.mp hk
      rw [hget] at hx
      cases hx
    · exact hv.disjoint k hk hd
  | some x =>
    obtain ⟨stamp, e⟩ := x
    refine ⟨fun t k => ?_, fun k t f h => ?_, fun k t f h => ?_, fun k hk => ?_⟩
    · simp only [ExtTreeSet.mem_erase, ne_eq, LawfulEqCmp.compare_eq_iff_eq, Prod.mk.injEq,
        hv.queue_iff, ExtTreeMap.getElem?_erase]
      by_cases hk : id = k
      · subst hk
        simp only [hget, and_true, Option.some.injEq, Prod.mk.injEq, if_true, reduceCtorEq,
          exists_false, iff_false, not_and, not_exists]
        exact fun hne f hf => absurd hf hne
      · simp [hk]
    · simp only [ExtTreeMap.getElem?_erase, LawfulEqCmp.compare_eq_iff_eq] at h
      split at h
      · cases h
      · exact hv.filed k t f h
    · simp only [ExtTreeMap.getElem?_erase, LawfulEqCmp.compare_eq_iff_eq] at h
      split at h
      · cases h
      · exact hv.topic k t f h
    · simp only [ExtTreeMap.mem_erase, ne_eq, LawfulEqCmp.compare_eq_iff_eq] at hk
      rw [ExtTreeSet.mem_insert, LawfulEqCmp.compare_eq_iff_eq]
      rintro (he | hd)
      · exact hk.1 he
      · exact hv.disjoint k hk.2 hd

theorem valid_markFailed {s : Inner} (id : EventId) (error : String) (retryAt : UInt64)
    (hv : Valid s) : Valid (markFailed id error retryAt s).2 := by
  unfold markFailed
  cases hget : s.events[id]? with
  | none => exact hv
  | some x =>
    obtain ⟨stamp, e⟩ := x
    have hid : e.id = id := hv.filed id stamp e hget
    refine ⟨fun t k => ?_, fun k t f h => ?_, fun k t f h => ?_, fun k hk => ?_⟩
    · simp only [ExtTreeSet.mem_insert, ExtTreeSet.mem_erase, ne_eq, LawfulEqCmp.compare_eq_iff_eq,
        Prod.mk.injEq, hv.queue_iff, ExtTreeMap.getElem?_insert, hid]
      by_cases hk : id = k
      · subst hk
        simp only [hget, and_true, Option.some.injEq, Prod.mk.injEq, if_true]
        constructor
        · rintro (rfl | ⟨hne, f, hf, -⟩)
          · exact ⟨_, rfl, rfl⟩
          · exact absurd hf hne
        · rintro ⟨f, hf, -⟩
          exact Or.inl hf
      · simp [hk]
    · simp only [ExtTreeMap.getElem?_insert, LawfulEqCmp.compare_eq_iff_eq] at h
      split at h
      · rename_i hk
        cases h
        exact hid.trans hk
      · exact hv.filed k t f h
    · simp only [ExtTreeMap.getElem?_insert, LawfulEqCmp.compare_eq_iff_eq] at h
      split at h
      · cases h
        exact hv.topic id stamp e hget
      · exact hv.topic k t f h
    · simp only [ExtTreeMap.mem_insert, LawfulEqCmp.compare_eq_iff_eq] at hk
      rcases hk with rfl | hk
      · exact hv.disjoint _ (mem_events_iff.mpr ⟨_, hget⟩)
      · exact hv.disjoint k hk

theorem valid_call {s : Inner} (c : Call) (hv : Valid s) : Valid (store.call c s).2 := by
  cases c with
  | append e => exact valid_append e hv
  | markDispatched clock id => exact valid_markDispatched id hv
  | markFailed id error retryAt => exact valid_markFailed id error retryAt hv
  | fetchDue | pendingCount | parkedCount | deadLetter | deadLetters => exact hv

end OutboxKit.Memory
