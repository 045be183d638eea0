import OutboxKit.Reschedule

/-! How a parked event comes back. A reschedule at a real stamp revives it in every
store. A second append does not: it meets the row that is there and is ignored, as
every append of a known identifier is. -/
namespace OutboxKit
open Std Machine Ordered Trace

section Contract
variable {σ ρ : Type} {S : OutboxStore σ} (D : Display S) (row : σ → EventId → Option ρ)

/-- The event is pending again, counted so and fetched from its stamp on; no other row
has changed. -/
structure Revived (id : EventId) (stamp : UInt64) (s s' : σ) : Prop where
  pending : D.Pending s' id
  not_parked : ¬D.Parked s' id
  parkedCount : ∀ n, S.parkedCount s = .ok n → n ≠ u64Max → S.parkedCount s' = .ok (n-1)
  fetched : Roomy S s → ∀ now, stamp ≤ now →
    ∃ evs, S.fetchDue u64Max now s' = .ok evs ∧ ∃ e ∈ evs, e.id = id
  pendingCount : Roomy S s → ∃ n, S.pendingCount s = .ok n ∧ S.pendingCount s' = .ok (n+1)
  others : ∀ k, k ≠ id → row s' k = row s k

/-- The append changes nothing: the event stays parked and is not fetched. -/
structure StaysParked (e : OutboxEvent) (s : σ) : Prop where
  same : (S.append e s).2 = s
  parked : D.Parked (S.append e s).2 e.id
  not_fetched : ∀ limit now evs, S.fetchDue limit now (S.append e s).2 = .ok evs →
    ∀ f ∈ evs, f.id ≠ e.id

/-- The two ways an operator may try to replay a parked event. -/
structure Replay (id : EventId) (error : String) (stamp : UInt64) (s : σ) : Prop where
  rescheduled : (S.markFailed id error stamp s).1 = .ok () →
    Revived D row id stamp s (S.markFailed id error stamp s).2
  reappended : ∀ e, e.id = id → StaysParked D e s

variable {D row}

theorem Rescheduling.revived (R : Rescheduling D) {s : σ} {id : EventId} {error : String}
    {stamp : UInt64} (hv : D.Valid s) (h : D.Parked s id)
    (hok : (S.markFailed id error stamp s).1 = .ok ()) (hstamp : stamp.toNat < R.ceiling)
    (hrows : ∀ k, k ≠ id → row (S.markFailed id error stamp s).2 k = row s k) :
    Revived D row id stamp s (S.markFailed id error stamp s).2 := by
  have hroom : R.Room s id error := by
    by_contra hroom
    obtain ⟨err, hm⟩ := R.refused s id error stamp hv hroom
    rw [hm] at hok
    cases hok
  obtain ⟨e, he⟩ := h
  have hid : (e.failed error).id = id := (e.failed_id error).trans (D.filed s hv _ _ _ he)
  obtain ⟨-, hv', hentry⟩ := R.recorded s id error stamp never e hv he hroom
  rw [stampBelow_lt hstamp] at hentry
  have hne : stamp ≠ never := by
    have hc := R.ceiling_lt
    rintro rfl
    rw [never, u64Max_toNat] at hstamp
    omega
  have hpending : D.Pending (S.markFailed id error stamp s).2 id :=
    ⟨stamp, e.failed error, by rw [hentry, Function.update_self], hne⟩
  have hold : D.Parked s id := ⟨e, he⟩
  subst hid
  refine ⟨hpending, fun hp => hp.not_pending hpending, fun n hn hsmall => ?_, ?_, ?_, hrows⟩
  · exact hold.count_pred hv hv' hentry hne hn hsmall
  · intro hroomy now hnow
    obtain ⟨⟨evs, hevs, hmem⟩, -⟩ :=
      Display.shows_live hv hv' hentry hold.not_pending hnow hne hroomy
    exact ⟨evs, hevs, _, hmem, rfl⟩
  · intro hroomy
    exact (Display.shows_live hv hv' hentry hold.not_pending (UInt64.le_refl _) hne hroomy).2

theorem Display.Parked.staysParked {s : σ} {e : OutboxEvent} (h : D.Parked s e.id)
    (hv : D.Valid s) (hsame : (S.append e s).2 = s) : StaysParked D e s where
  same := hsame
  parked := by rwa [hsame]
  not_fetched limit now evs hf f hmem := by
    rw [hsame] at hf
    exact h.not_fetched hv hf hmem

end Contract

namespace Memory

theorem append_live {s : Inner} {e : OutboxEvent} {due : UInt64} {f : OutboxEvent}
    (h : entry s e.id = .live due f) : (append e s).2 = s := by
  cases ht : topicValid e.topic with
  | false => rw [append_invalid s ht]
  | true =>
    rcases append_cases s ht with ⟨-, happ⟩ | ⟨hnew, -, -⟩
    · rw [happ]
    · exact absurd (mem_events_iff.mpr ⟨_, entry_live_iff.mp h⟩) hnew

theorem markFailed_other {s : Inner} {id k : EventId} (h : k ≠ id) (error : String)
    (stamp : UInt64) : (markFailed id error stamp s).2.events[k]? = s.events[k]? := by
  unfold markFailed
  cases s.events[id]? with
  | none => rfl
  | some x => simp [ExtTreeMap.getElem?_insert, Ne.symm h]

end Memory

/-- In every store a parked event is revived by a reschedule at a real stamp, and is left
as it is by an append. -/
theorem parked_event_replays (U : UuidCrate) (past : List Call) (id : EventId) (error : String)
    (stamp : UInt64) (hstamp : stamp.toNat < 2^63-1) :
    (∀ s, s = after Memory.store.call Memory.new past → Memory.display.Parked s id →
      Replay Memory.display (fun s k => s.events[k]?) id error stamp s) ∧
    (∀ t, t = after (Sqlite.store U).call Sqlite.empty past → (Sqlite.display U).Parked t id →
      Replay (Sqlite.display U) (fun t k => t.outboxEvents[k.text]?) id error stamp t) ∧
    (∀ t, t = after (Postgres.store U).call Postgres.empty past →
      (Postgres.display U).Parked t id →
      Replay (Postgres.display U) (fun t k => t.outboxEvents[k.text]?) id error stamp t) := by
  refine ⟨?_, ?_, ?_⟩
  · rintro s rfl h
    have hv := Memory.valid_after past
    refine ⟨fun hok => Memory.rescheduling.revived hv h hok ?_
      fun k hk => Memory.markFailed_other hk error stamp, ?_⟩
    · change stamp.toNat < 2^64-1
      omega
    · rintro e rfl
      obtain ⟨f, hf⟩ := h
      exact Display.Parked.staysParked ⟨f, hf⟩ hv (Memory.append_live hf)
  · rintro t rfl h
    have hv := Sqlite.valid_after U past
    refine ⟨fun hok => (Sqlite.rescheduling U).revived hv h hok hstamp
      fun k hk => Sqlite.call_other U (.markFailed id error stamp)
        (by simpa [Call.target] using Ne.symm hk) _, ?_⟩
    rintro e rfl
    obtain ⟨f, hf⟩ := h
    obtain ⟨row, hget, -⟩ := (Sqlite.entry_live_iff U).mp hf
    exact Display.Parked.staysParked ⟨f, hf⟩ hv ((Sqlite.appends e _).same (has_of_some hget))
  · rintro t rfl h
    have hs := Postgres.sound_after U past
    refine ⟨fun hok => (Postgres.rescheduling U).revived hs h hok hstamp
      fun k hk => Postgres.call_other U (.markFailed id error stamp)
        (by simpa [Call.target] using Ne.symm hk) _, ?_⟩
    rintro e rfl
    obtain ⟨f, hf⟩ := h
    obtain ⟨row, hget, -⟩ := (Postgres.shown_live_iff U).mp hf
    exact Display.Parked.staysParked ⟨f, hf⟩ hs ((Postgres.appends e _).same (has_of_some hget))

def parkedOnce : List Call := failedOnce never

theorem parked_event_replays_parkedOnce :
    Revived Memory.display (fun s k => s.events[k]?) (.ofByte 1) 9
      (after Memory.store.call Memory.new parkedOnce)
      (Memory.markFailed (.ofByte 1) "retry" 9 (after Memory.store.call Memory.new parkedOnce)).2 ∧
    Revived (Sqlite.display .hyphenatedOnly) (fun t k => t.outboxEvents[k.text]?) (.ofByte 1) 9
      (after (Sqlite.store .hyphenatedOnly).call Sqlite.empty parkedOnce)
      (Sqlite.markFailed (.ofByte 1) "retry" 9
        (after (Sqlite.store .hyphenatedOnly).call Sqlite.empty parkedOnce)).2 ∧
    Revived (Postgres.display .hyphenatedOnly) (fun t k => t.outboxEvents[k.text]?) (.ofByte 1) 9
      (after (Postgres.store .hyphenatedOnly).call Postgres.empty parkedOnce)
      (Postgres.markFailed (.ofByte 1) "retry" 9
        (after (Postgres.store .hyphenatedOnly).call Postgres.empty parkedOnce)).2 ∧
    Roomy (Postgres.store .hyphenatedOnly)
      (after (Postgres.store .hyphenatedOnly).call Postgres.empty parkedOnce) := by
  obtain ⟨hmemory, hsqlite, hpostgres⟩ := parked_event_replays .hyphenatedOnly parkedOnce
    (.ofByte 1) "retry" 9 (by decide)
  refine ⟨(hmemory _ rfl ⟨(OutboxEvent.sample 1 5).failed "down", ?_⟩).rescheduled ?_,
    (hsqlite _ rfl ⟨(OutboxEvent.sample 1 5).failed "down", ?_⟩).rescheduled ?_,
    (hpostgres _ rfl ⟨(OutboxEvent.sample 1 5).failed "down", ?_⟩).rescheduled ?_, ?_⟩
  case refine_7 =>
    intro n hn
    have hzero : n = 0 := (Except.ok.inj hn).symm.trans (by decide +kernel)
    rw [hzero]
    decide
  all_goals decide +kernel

/-- Appended again with a real stamp, the parked event stays parked in every store, and
no clock brings it back. -/
theorem reappended_not_revived :
    ¬Revived Memory.display (fun s k => s.events[k]?) (.ofByte 1) 5
      (after Memory.store.call Memory.new parkedOnce)
      (Memory.append (.sample 1 5) (after Memory.store.call Memory.new parkedOnce)).2 ∧
    ¬Revived (Sqlite.display .hyphenatedOnly) (fun t k => t.outboxEvents[k.text]?) (.ofByte 1) 5
      (after (Sqlite.store .hyphenatedOnly).call Sqlite.empty parkedOnce)
      (Sqlite.append (.sample 1 5)
        (after (Sqlite.store .hyphenatedOnly).call Sqlite.empty parkedOnce)).2 ∧
    ¬Revived (Postgres.display .hyphenatedOnly) (fun t k => t.outboxEvents[k.text]?) (.ofByte 1) 5
      (after (Postgres.store .hyphenatedOnly).call Postgres.empty parkedOnce)
      (Postgres.append (.sample 1 5)
        (after (Postgres.store .hyphenatedOnly).call Postgres.empty parkedOnce)).2 ∧
    Sqlite.parkedCount (Sqlite.append (.sample 1 5)
      (after (Sqlite.store .hyphenatedOnly).call Sqlite.empty parkedOnce)).2 = .ok 1 ∧
    Sqlite.fetchDue .hyphenatedOnly u64Max u64Max (Sqlite.append (.sample 1 5)
      (after (Sqlite.store .hyphenatedOnly).call Sqlite.empty parkedOnce)).2 = .ok [] := by
  refine ⟨fun h => h.not_parked ⟨(OutboxEvent.sample 1 5).failed "down", ?_⟩,
    fun h => h.not_parked ⟨(OutboxEvent.sample 1 5).failed "down", ?_⟩,
    fun h => h.not_parked ⟨(OutboxEvent.sample 1 5).failed "down", ?_⟩, ?_, ?_⟩
  all_goals decide +kernel

end OutboxKit
