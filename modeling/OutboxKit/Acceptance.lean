import OutboxKit.Display

/-! Whether an append that returns `Ok` is kept. The answer to an append depends on
every call before it, on any identifier: a store may already know the event it
is given. The durable stores know only what was appended; the in-process store
also remembers what was marked dispatched without ever being there. -/
namespace OutboxKit
open Std Machine Ordered Trace

section Histories
variable {σ : Type} (S : OutboxStore σ) (start : σ)

def Accepted (past : List Call) (id : EventId) : Prop :=
  ∃ pre e post, past = pre++.append e::post ∧ e.id = id ∧
    (S.append e (after S.call start pre)).1 = .ok ()

/-- The append returns `Ok` after these calls, and none of them was an accepted
append of the same event. -/
structure FirstAccepted (past : List Call) (e : OutboxEvent) : Prop where
  ok : (S.append e (after S.call start past)).1 = .ok ()
  first : ¬Accepted S start past e.id
  roomy : Roomy S (after S.call start past)

variable {S start}

theorem not_accepted_concat {past : List Call} {c : Call} {id : EventId}
    (h : ¬Accepted S start (past++[c]) id) : ¬Accepted S start past id ∧
      ∀ e, c = .append e → (S.append e (after S.call start past)).1 = .ok () → e.id ≠ id := by
  constructor
  · rintro ⟨pre, e, post, rfl, hid, hok⟩
    exact h ⟨pre, e, post++[c], by simp, hid, hok⟩
  · rintro e rfl hok hid
    exact h ⟨past, e, [], rfl, hid, hok⟩

theorem not_accepted_of_appends {past : List Call} {id : EventId}
    (h : ∀ e, .append e ∈ past → e.id ≠ id) : ¬Accepted S start past id := by
  rintro ⟨pre, e, post, rfl, hid, -⟩
  exact h e (by simp) hid

end Histories

/-- Right after the append the event is fetched as it was given, from its
`created_at` on, and is counted as pending. -/
def ShownAsGiven {σ : Type} (S : OutboxStore σ) (e : OutboxEvent) (s : σ) : Prop :=
  (∃ evs, S.fetchDue u64Max e.createdAt (S.append e s).2 = .ok evs ∧ e ∈ evs) ∧
    ∃ n, S.pendingCount s = .ok n ∧ S.pendingCount (S.append e s).2 = .ok (n+1)

theorem Display.shownAsGiven {σ : Type} {S : OutboxStore σ} {D : Display S} {s : σ}
    {e : OutboxEvent} (hv : D.Valid s) (hv' : D.Valid (S.append e s).2)
    (hnew : D.entry s e.id = .absent)
    (he : D.entry (S.append e s).2 = Function.update (D.entry s) e.id (.live e.createdAt e))
    (hcreated : e.createdAt.toNat < 2^63-1) (hroom : Roomy S s) : ShownAsGiven S e s := by
  refine shows_live hv hv' he ?_ (UInt64.le_refl _) ?_ hroom
  · rintro ⟨due, f, hlive, -⟩
    rw [hnew] at hlive
    cases hlive
  · intro hn
    rw [hn, never, u64Max_toNat] at hcreated
    omega

namespace Memory

theorem valid_after (past : List Call) : Valid (after store.call new past) :=
  after_invariant (I := fun _ s => Valid s) valid_new (fun _ c hv => valid_call c hv) past

theorem entry_unknown (id : EventId) (past : List Call) :
    ¬Accepted store new past id → (∀ clock, .markDispatched clock id ∉ past) →
      entry (after store.call new past) id = .absent := by
  refine after_invariant (I := fun past s => ¬Accepted store new past id →
    (∀ clock, .markDispatched clock id ∉ past) → entry s id = .absent)
    (fun _ _ => entry_new id) (fun past c ih hacc hmark => ?_) past
  obtain ⟨hacc, happend⟩ := not_accepted_concat hacc
  have ih := ih hacc fun clock hmem => hmark clock (List.mem_append_left _ hmem)
  cases c with
  | append e =>
    change entry (append e _).2 id = .absent
    cases ht : topicValid e.topic with
    | false => rwa [append_invalid _ ht]
    | true =>
      have hok := (refinement.append_ok _ e (valid_after past) ht).1
      rw [entry_append ht, Outbox.append_other (Ne.symm (happend e rfl hok)), ih]
  | markDispatched clock k =>
    have hne : id ≠ k := fun he => hmark clock (by simp [he])
    change entry (markDispatched k _).2 id = .absent
    rw [entry_markDispatched, Outbox.markDispatched, Function.update_of_ne hne, ih]
  | markFailed k error retryAt =>
    change entry (markFailed k error retryAt _).2 id = .absent
    rw [entry_markFailed]
    by_cases hk : id = k
    · subst hk
      rw [Outbox.markFailed_not_live (by simp [ih]), ih]
    · rw [Outbox.markFailed_other hk, ih]
  | fetchDue | pendingCount | parkedCount | deadLetter | deadLetters => exact ih

theorem dispatched_after (id : EventId) (past : List Call) :
    (∃ clock, .markDispatched clock id ∈ past) → id ∈ (after store.call new past).dispatched := by
  refine after_invariant (I := fun past (s : Inner) => (∃ clock, .markDispatched clock id ∈ past) →
    id ∈ s.dispatched) (by simp) (fun past c ih => ?_) past
  rintro ⟨clock, hmem⟩
  rcases List.mem_append.mp hmem with hmem | hmem
  · exact dispatched_call c (ih ⟨clock, hmem⟩)
  · cases List.mem_singleton.mp hmem
    change id ∈ (markDispatched id _).2.dispatched
    rw [markDispatched]
    split <;> exact ExtTreeSet.mem_insert_self

/-- The in-process store keeps a first accepted append exactly when the event was not
marked dispatched before it was known. -/
theorem shownAsGiven_iff {past : List Call} {e : OutboxEvent} (h : FirstAccepted store new past e)
    (hcreated : e.createdAt.toNat < 2^63-1) :
    ShownAsGiven store e (after store.call new past) ↔
      ∀ clock, .markDispatched clock e.id ∉ past := by
  have hv := valid_after past
  have ht : topicValid e.topic = true := by
    by_contra ht
    have hok := h.ok
    change (append e _).1 = _ at hok
    rw [append_invalid _ (by simpa using ht)] at hok
    cases hok
  constructor
  · intro hshown clock hmem
    have hsame : append e (after store.call new past) = (.ok (), after store.call new past) := by
      rcases append_cases (after store.call new past) ht with ⟨-, happ⟩ | ⟨-, hnew, -⟩
      · exact happ
      · exact absurd (dispatched_after e.id past ⟨clock, hmem⟩) hnew
    obtain ⟨-, n, hn, hn'⟩ := hshown
    change pendingCount (append e _).2 = _ at hn'
    rw [hsame] at hn'
    have heq := Except.ok.inj (hn.symm.trans hn')
    simp at heq
  · intro hmark
    have hnew := entry_unknown e.id past h.first hmark
    refine Display.shownAsGiven (D := display) hv (valid_append e hv) hnew ?_ hcreated h.roomy
    change entry (append e _).2 = _
    rw [entry_append ht, Outbox.append_absent hnew]
    rfl

end Memory

theorem LetterBox.row_unknown {σ ρ : Type} {S : OutboxStore σ} (L : LetterBox S ρ) {start : σ}
    (hempty : L.events start = ∅) (hok : ∀ s e, L.Accepts e → (S.append e s).1 = .ok ())
    (id : EventId) (past : List Call) :
    ¬Accepted S start past id → (L.events (after S.call start past))[id.text]? = none := by
  refine after_invariant (I := fun past s => ¬Accepted S start past id →
    (L.events s)[id.text]? = none) (fun _ => by simp [hempty]) (fun past c ih hacc => ?_) past
  obtain ⟨hacc, happend⟩ := not_accepted_concat hacc
  have ih := ih hacc
  cases L.call_turns (after S.call start past) c with
  | same c t ht => rw [ht, ih]
  | appended e row t haccepts he hl =>
    have hne := happend e rfl (hok _ e haccepts)
    rw [he, getElem?_insert_other hne, ih]
  | marked c k old row t hold he hl =>
    have hne : k ≠ id := by
      rintro rfl
      rw [ih] at hold
      cases hold
    rw [he, getElem?_insert_other hne, ih]
  | lettered clock e reason row t he hl =>
    rw [he, ExtTreeMap.getElem?_erase, ih]
    split <;> rfl

namespace Sqlite

theorem valid_after (U : UuidCrate) (past : List Call) :
    Valid (after (store U).call empty past) :=
  after_invariant (I := fun _ t => Valid t) valid_empty (fun _ c hv => valid_call U c hv) past

theorem shownAsGiven (U : UuidCrate) {past : List Call} {e : OutboxEvent}
    (h : FirstAccepted (store U) empty past e) (hcreated : e.createdAt.toNat < 2^63-1) :
    ShownAsGiven (store U) e (after (store U).call empty past) := by
  have hv := valid_after U past
  have hacc : Accepts e := (appends e _).ok_iff.mp h.ok
  have hnew : entry U (after (store U).call empty past) e.id = .absent := by
    exact entry_none U ((letterBox U).row_unknown rfl (fun t e => (appends e t).ok_iff.mpr) e.id
      past h.first)
  obtain ⟨-, hv', he⟩ := entry_append U hv hacc
  refine Display.shownAsGiven (D := display U) hv hv' hnew (he.trans ?_) hcreated h.roomy
  have hnorm : norm e = e := by rw [norm, unclampU64_clampI64 (by omega)]
  rw [stampOf_clampI64 (Or.inl hcreated), hnorm, Outbox.append_absent hnew]
  rfl

end Sqlite

namespace Postgres

theorem sound_after (U : UuidCrate) (past : List Call) :
    Sound (after (store U).call empty past) :=
  after_invariant (I := fun _ t => Sound t) sound_empty (fun _ c hs => sound_call U c hs) past

theorem shows_rowOf (U : UuidCrate) {e : OutboxEvent} {blob : List UInt8}
    (h : decodeHeaders blob = .ok e.headers) :
    shows U e.id (rowOf e blob) = .live (unclampU64 (clampI64 e.createdAt)) (norm e) := by
  have hdecode : eventFromRow U (e.id.text, rowOf e blob) = .ok (norm e) := by
    rw [eventFromRow]
    simp only [rowOf, decodeEvent_ok U e.id _ _ _ _ _ h, norm]
  rw [shows, if_neg (by simp [rowOf]), hdecode]
  rfl

theorem shownAsGiven (U : UuidCrate) {past : List Call} {e : OutboxEvent}
    (h : FirstAccepted (store U) empty past e) (hcreated : e.createdAt.toNat < 2^63-1)
    (hattempts : e.attempts.toNat ≤ 2^31-1) :
    ShownAsGiven (store U) e (after (store U).call empty past) := by
  have hs := sound_after U past
  have hacc : Storable e := (appends e _).ok_iff.mp h.ok
  have hnone : (after (store U).call empty past).outboxEvents[e.id.text]? = none := by
    exact (letterBox U).row_unknown rfl (fun t e => (appends e t).ok_iff.mpr) e.id past h.first
  rcases append_cases (after (store U).call empty past) hacc with
    ⟨row, hget, -⟩ | ⟨-, blob, hdec, happ⟩
  · rw [hnone] at hget
    cases hget
  · refine Display.shownAsGiven (D := display U) hs (sound_call U (.append e) hs)
      (shown_none U hnone) ?_
      hcreated h.roomy
    change shown U (append e _).2 = _
    rw [happ, shown_write, shows_rowOf U hdec, unclampU64_clampI64 (by omega),
      norm_eq (by omega) (by omega)]
    rfl

end Postgres

/-- An append that returns `Ok` and is the event's first accepted one is kept: by the
durable stores always, by the in-process store exactly when no `mark_dispatched`
named the event before. -/
theorem accepted_append_kept (U : UuidCrate) (past : List Call) (e : OutboxEvent)
    (hcreated : e.createdAt.toNat < 2^63-1) (hattempts : e.attempts.toNat ≤ 2^31-1) :
    (FirstAccepted Memory.store Memory.new past e →
      (ShownAsGiven Memory.store e (after Memory.store.call Memory.new past) ↔
        ∀ clock, .markDispatched clock e.id ∉ past)) ∧
    (FirstAccepted (Sqlite.store U) Sqlite.empty past e →
      ShownAsGiven (Sqlite.store U) e (after (Sqlite.store U).call Sqlite.empty past)) ∧
    (FirstAccepted (Postgres.store U) Postgres.empty past e →
      ShownAsGiven (Postgres.store U) e (after (Postgres.store U).call Postgres.empty past)) :=
  ⟨fun h => Memory.shownAsGiven_iff h hcreated, fun h => Sqlite.shownAsGiven U h hcreated,
    fun h => Postgres.shownAsGiven U h hcreated hattempts⟩

def failedUnknown : List Call := [.markFailed (.ofByte 1) "early" 9]

theorem accepted_append_kept_failedUnknown :
    ShownAsGiven Memory.store (.sample 1 5) (after Memory.store.call Memory.new failedUnknown) ∧
    ShownAsGiven (Sqlite.store .hyphenatedOnly) (.sample 1 5)
      (after (Sqlite.store .hyphenatedOnly).call Sqlite.empty failedUnknown) ∧
    ShownAsGiven (Postgres.store .hyphenatedOnly) (.sample 1 5)
      (after (Postgres.store .hyphenatedOnly).call Postgres.empty failedUnknown) := by
  obtain ⟨hmemory, hsqlite, hpostgres⟩ := accepted_append_kept .hyphenatedOnly failedUnknown
    (.sample 1 5) (by decide) (by decide)
  refine ⟨(hmemory ⟨by decide +kernel, ?_, ?_⟩).mpr (by simp [failedUnknown]),
    hsqlite ⟨by decide +kernel, ?_, ?_⟩, hpostgres ⟨by decide +kernel, ?_, ?_⟩⟩
  all_goals first
    | exact not_accepted_of_appends (by simp [failedUnknown])
    | intro n hn
      have hzero : n = 0 := (Except.ok.inj hn).symm.trans (by decide +kernel)
      rw [hzero]
      decide

def markedUnknown : List Call := [.markDispatched 3 (.ofByte 1)]

/-- The in-process store then accepts the append and drops the event. -/
theorem accepted_append_dropped :
    FirstAccepted Memory.store Memory.new markedUnknown (.sample 1 5) ∧
    ¬ShownAsGiven Memory.store (.sample 1 5) (after Memory.store.call Memory.new markedUnknown) ∧
    Memory.fetchDue u64Max u64Max
      (after Memory.store.call Memory.new (markedUnknown++[.append (.sample 1 5)])) = .ok [] := by
  refine ⟨⟨by decide +kernel, not_accepted_of_appends (by simp [markedUnknown]), ?_⟩, ?_,
    by decide +kernel⟩
  · intro n hn
    have hzero : n = 0 := (Except.ok.inj hn).symm.trans (by decide +kernel)
    rw [hzero]
    decide
  · rintro ⟨⟨evs, hevs, hmem⟩, -⟩
    have hnil : evs = [] := (Except.ok.inj hevs).symm.trans (by decide +kernel)
    rw [hnil] at hmem
    cases hmem

end OutboxKit
