import OutboxKit.Acceptance

/-! Where parkedness is written down. Postgres says it twice, in the status and in the
due column, and only `mark_failed` keeps the two in step; SQLite says it once, by a
due column at its ceiling, so that whether an event is parked follows from the last
stamp a caller gave for it. -/
namespace OutboxKit
open Std Machine Ordered Trace

namespace Postgres

/-- The status of a live row says whether its due column is at the ceiling, and no row
at the ceiling is ever claimed. -/
structure Agree (t : Tables) : Prop where
  rows : ∀ (key : String) (row : EventRow), t.outboxEvents[key]? = some row →
    row.status ≠ .dispatched → (row.status = .parked ↔ row.nextAttemptAt = i64Max) ∧
      (row.status = .pending ↔ row.nextAttemptAt ≠ i64Max)
  claimed : ∀ locked limit now, ∀ kr ∈ claim locked limit now t, kr.2.nextAttemptAt ≠ i64Max

def Inserts (t : Tables) (e : OutboxEvent) : Prop :=
  Storable e ∧ t.outboxEvents[e.id.text]? = none

/-- Every append that writes a row gives it a stamp below the ceiling. -/
def BelowCeiling (U : UuidCrate) (past : List Call) : Prop :=
  ∀ pre e post, past = pre++.append e::post →
    Inserts (after (store U).call empty pre) e → e.createdAt.toNat < 2^63-1

theorem BelowCeiling.of_append {U : UuidCrate} {past rest : List Call}
    (h : BelowCeiling U (past++rest)) : BelowCeiling U past := by
  rintro pre e post rfl hins
  exact h pre e (post++rest) (by simp) hins

theorem statusFor_agrees {due : Int} (h : due ≤ i64Max) :
    (statusFor due = .parked ↔ due = i64Max) ∧ (statusFor due = .pending ↔ due ≠ i64Max) := by
  by_cases hd : due = i64Max
  · simp [statusFor, parkedAsI64, hd]
  · have hlt : ¬i64Max ≤ due := fun hle => hd (Int.le_antisymm h hle)
    simp [statusFor, parkedAsI64, hd, hlt]

theorem agree_of_rows {t : Tables} (h : ∀ (key : String) (row : EventRow),
    t.outboxEvents[key]? = some row → row.status ≠ .dispatched →
      (row.status = .parked ↔ row.nextAttemptAt = i64Max) ∧
        (row.status = .pending ↔ row.nextAttemptAt ≠ i64Max)) : Agree t where
  rows := h
  claimed locked limit now kr hmem := by
    obtain ⟨hget, hdue⟩ := mem_selectOrdered.mp
      (List.mem_filter.mp (List.mem_of_mem_take hmem)).1
    have hpending : kr.2.status = .pending := by
      simp only [isDue, Bool.and_eq_true, beq_iff_eq] at hdue
      exact hdue.1
    exact (h kr.1 kr.2 hget (by simp [hpending])).2.mp hpending

/-- The step: only an append can write a row whose two encodings differ. -/
theorem agree_call (U : UuidCrate) {t : Tables} {c : Call} (h : Agree t)
    (hc : ∀ e, c = .append e → Inserts t e → e.createdAt.toNat < 2^63-1) :
    Agree ((store U).call c t).2 := by
  refine agree_of_rows (forall_rows_call U h.rows ?_ ?_ ?_)
  · intro e blob hcall hacc hnone _ _
    have hlt := hc e hcall ⟨hacc, hnone⟩
    have hne : clampI64 e.createdAt ≠ i64Max := by
      rw [ne_eq, clampI64_eq_i64Max_iff]
      omega
    simp [rowOf, hne]
  · intro key row stamp _ hd
    exact absurd rfl hd
  · intro key row error retryAt _ _
    exact statusFor_agrees (clampI64_le retryAt)

theorem not_agree_append {t : Tables} {e : OutboxEvent} (hins : Inserts t e)
    (h : 2^63-1 ≤ e.createdAt.toNat) : ¬Agree (append e t).2 := by
  intro hagree
  rcases append_cases t hins.1 with ⟨row, hget, -⟩ | ⟨-, blob, -, happ⟩
  · rw [hins.2] at hget
    cases hget
  · rw [happ] at hagree
    have hrow := hagree.rows e.id.text (rowOf e blob) (by simp [Tables.write]) (by simp [rowOf])
    exact hrow.2.mp rfl ((clampI64_eq_i64Max_iff _).mpr h)

/-- The encodings agree all along a run exactly when every append that writes a row
gives it a stamp below the ceiling. -/
theorem encodings_agree_iff (U : UuidCrate) (past : List Call) :
    (∀ pre post, past = pre++post → Agree (after (store U).call empty pre)) ↔
      BelowCeiling U past := by
  constructor
  · rintro h pre e post rfl hins
    by_contra hge
    have hagree := h (pre++[.append e]) post (by simp)
    rw [after_concat] at hagree
    exact not_agree_append hins (by omega) hagree
  · rintro h pre post rfl
    refine after_invariant (I := fun past t => BelowCeiling U past → Agree t) ?_ ?_ pre h.of_append
    · exact fun _ => agree_of_rows fun key row hget => by simp [empty] at hget
    · intro past c ih hpast
      refine agree_call U (ih hpast.of_append) ?_
      rintro e rfl hins
      exact hpast past e [] rfl hins

/-- An event appended at `never` is pending, and is fetched once the clock is at the end of
its range. -/
theorem appended_never_fetched :
    ¬Agree (after (store .hyphenatedOnly).call empty [.append (.sample 1 never)]) ∧
    (fetchDue .hyphenatedOnly 1 never (after (store .hyphenatedOnly).call empty
      [.append (.sample 1 never)])).map (·.map (·.id)) = .ok [.ofByte 1] ∧
    parkedCount (after (store .hyphenatedOnly).call empty [.append (.sample 1 never)]) = .ok 0 := by
  refine ⟨not_agree_append ⟨⟨by decide +kernel, by decide +kernel, by simp [OutboxEvent.sample]⟩,
    ?_⟩
    (by decide), by decide +kernel, by decide +kernel⟩
  simp [empty]

end Postgres

/-- What the callers of a store have said of an event, as far as it was taken: nothing,
the last stamp, or that it is dispatched. -/
inductive Told where
  | nothing
  | stamp (last : UInt64)
  | dispatched
deriving DecidableEq

/-- One more call about the event that returned `Ok`; an append counts while nothing is
known of it. -/
def Told.hear : Told → Call → Told
  | .nothing, .append e => .stamp e.createdAt
  | .stamp _, .markFailed _ _ retryAt => .stamp retryAt
  | .stamp _, .markDispatched _ _ => .dispatched
  | _, .deadLetter _ _ _ => .nothing
  | told, _ => told

def Told.next (id : EventId) (told : Told) : Call × Reply → Told
  | (c, .done (.ok ())) => if c.target = some id then told.hear c else told
  | _ => told

/-- What a run of calls has said of an event. -/
def told {σ : Type} (S : OutboxStore σ) (start : σ) (past : List Call) (id : EventId) : Told :=
  (transcript S.call start past).foldl (Told.next id) .nothing

theorem told_concat {σ : Type} (S : OutboxStore σ) (start : σ) (past : List Call) (c : Call)
    (id : EventId) : told S start (past++[c]) id =
      (told S start past id).next id (c, (S.call c (after S.call start past)).1) := by
  rw [told, transcript_concat, List.foldl_append]
  rfl

theorem Told.next_ok {id : EventId} {c : Call} (h : c.target = some id) (told : Told) :
    told.next id (c, .done (.ok ())) = told.hear c := if_pos h

theorem Told.next_other {id : EventId} {c : Call} (h : c.target ≠ some id) (told : Told)
    (reply : Reply) : told.next id (c, reply) = told := by
  unfold Told.next
  split
  · rename_i heq
    cases heq
    exact if_neg h
  · rfl

namespace Sqlite

def Reads : Told → Entry → Prop
  | .nothing, x => x = .absent
  | .stamp last, x => ∃ e, x = .live (stampOf (clampI64 last)) e
  | .dispatched, x => x = .dispatched

theorem Reads.live_iff {known : Told} {x : Entry} (h : Reads known x) (p : UInt64 → Prop) :
    (∃ due e, x = .live due e ∧ p due) ↔
      ∃ last, known = .stamp last ∧ p (stampOf (clampI64 last)) := by
  cases known with
  | nothing => simp [show x = .absent from h]
  | dispatched => simp [show x = .dispatched from h]
  | stamp last =>
    obtain ⟨e, rfl⟩ := h
    simp

theorem reads_append (U : UuidCrate) {t : Tables} {known : Told} {e : OutboxEvent} (hv : Valid t)
    (h : Reads known (entry U t e.id)) :
    Reads (known.next e.id (.append e, .done (append e t).1)) (entry U (append e t).2 e.id) := by
  by_cases hacc : Accepts e
  · obtain ⟨hok, -, he⟩ := entry_append U hv hacc
    rw [hok, he, Told.next_ok rfl]
    have hknown : entry U t e.id ≠ .absent →
        (entry U t).append (stampOf (clampI64 e.createdAt)) (norm e) = entry U t :=
      Outbox.append_known (e := norm e)
    cases known with
    | nothing =>
      rw [Outbox.append_absent (e := norm e) h]
      exact ⟨norm e, Function.update_self _ _ _⟩
    | stamp last =>
      obtain ⟨f, hf⟩ := h
      rw [hknown (by simp [hf])]
      exact ⟨f, hf⟩
    | dispatched =>
      rw [hknown (by simp [show entry U t e.id = .dispatched from h])]
      exact h
  · obtain ⟨err, happ⟩ := append_refused t hacc
    rwa [happ]

theorem reads_markDispatched (U : UuidCrate) {t : Tables} {known : Told} (clock : UInt64)
    {id : EventId} (hv : Valid t) (h : Reads known (entry U t id)) :
    Reads (known.next id (.markDispatched clock id, .done (markDispatched clock id t).1))
      (entry U (markDispatched clock id t).2 id) := by
  have hmark : entry U t id ≠ .absent → (markDispatched clock id t).1 = .ok () ∧
      entry U (markDispatched clock id t).2 id = .dispatched := by
    intro hne
    obtain ⟨hok, -, he⟩ := entry_markDispatched U clock hv hne
    exact ⟨hok, by rw [he, Outbox.markDispatched, Function.update_self]⟩
  cases known with
  | nothing =>
    rcases markDispatched_cases clock id t with ⟨-, hm⟩ | ⟨row, hget, -, -⟩
    · rw [hm, Told.next_ok rfl]
      exact h
    · rw [entry_some U hget] at h
      exact absurd h (read_ne_absent U (hv _ _ hget))
  | stamp last =>
    obtain ⟨f, hf⟩ := h
    obtain ⟨hok, he⟩ := hmark (by simp [hf])
    rw [hok, he, Told.next_ok rfl]
    rfl
  | dispatched =>
    obtain ⟨hok, he⟩ := hmark (by simp [show entry U t id = .dispatched from h])
    rw [hok, he, Told.next_ok rfl]
    rfl

theorem reads_markFailed (U : UuidCrate) {t : Tables} {known : Told} {id : EventId}
    (error : String) (retryAt : UInt64) (hv : Valid t) (h : Reads known (entry U t id)) :
    Reads (known.next id (.markFailed id error retryAt, .done (markFailed id error retryAt t).1))
      (entry U (markFailed id error retryAt t).2 id) := by
  by_cases hroom : (refinement U).Room t id error
  · obtain ⟨hok, -, he⟩ := entry_markFailed U error retryAt hv hroom
    rw [hok, he, Told.next_ok rfl]
    cases known with
    | nothing =>
      rw [Outbox.markFailed_not_live (by simp [show entry U t id = .absent from h])]
      exact h
    | stamp last =>
      obtain ⟨f, hf⟩ := h
      rw [Outbox.markFailed_live hf, Function.update_self]
      exact ⟨_, rfl⟩
    | dispatched =>
      rw [Outbox.markFailed_not_live (by simp [show entry U t id = .dispatched from h])]
      exact h
  · obtain ⟨err, hm⟩ := (refinement_total U).markFailed_refused t id error retryAt hv hroom
    change markFailed id error retryAt t = _ at hm
    rwa [hm]

theorem reads_deadLetter (U : UuidCrate) {t : Tables} {known : Told} (clock : UInt64)
    {e : OutboxEvent} (reason : String) (h : Reads known (entry U t e.id)) :
    Reads (known.next e.id (.deadLetter clock e reason, .done (deadLetter clock e reason t).1))
      (entry U (deadLetter clock e reason t).2 e.id) := by
  rcases deadLetter_cases clock e reason t with ⟨blob, -, hm⟩ | ⟨err, hm⟩
  · have hnone : entry U (deadLetter clock e reason t).2 e.id = .absent :=
      entry_none U (by simp [hm, completed])
    rw [hnone, hm, Told.next_ok rfl]
    cases known <;> rfl
  · rwa [hm]

theorem reads_call (U : UuidCrate) {t : Tables} {known : Told} {id : EventId} (hv : Valid t)
    (h : Reads known (entry U t id)) (c : Call) :
    Reads (known.next id (c, ((store U).call c t).1)) (entry U ((store U).call c t).2 id) := by
  by_cases ht : c.target = some id
  · cases c with
    | append e =>
      obtain rfl : e.id = id := Option.some.inj ht
      exact reads_append U hv h
    | markDispatched clock k =>
      obtain rfl : k = id := Option.some.inj ht
      exact reads_markDispatched U clock hv h
    | markFailed k error retryAt =>
      obtain rfl : k = id := Option.some.inj ht
      exact reads_markFailed U error retryAt hv h
    | deadLetter clock e reason =>
      obtain rfl : e.id = id := Option.some.inj ht
      exact reads_deadLetter U clock reason h
    | fetchDue | pendingCount | parkedCount | deadLetters => cases ht
  · rw [Told.next_other ht]
    rwa [entry, tableEntry, call_other U c ht t]

theorem reads_after (U : UuidCrate) (past : List Call) (id : EventId) :
    Reads (told (store U) empty past id) (entry U (after (store U).call empty past) id) := by
  refine after_invariant (I := fun past t => Reads (told (store U) empty past id) (entry U t id))
    ?_ ?_ past
  · exact entry_none U (by simp [empty])
  · intro past c ih
    rw [told_concat]
    exact reads_call U (valid_after U past) ih c

/-- The two counts and `fetch_due` go by the last stamp of each event: from `2^63-1` on
it is parked, below it is pending and due from the stamp on. -/
structure ByLastStamp (U : UuidCrate) (last : EventId → Told) (t : Tables) : Prop where
  parked : ∃ ids : List EventId, ids.Nodup ∧
    parkedCount t = .ok ((tryU64OfNat ids.length).getD u64Max) ∧
    ∀ id, id ∈ ids ↔ ∃ stamp, last id = .stamp stamp ∧ 2^63-1 ≤ stamp.toNat
  pending : ∃ ids : List EventId, ids.Nodup ∧
    pendingCount t = .ok ((tryU64OfNat ids.length).getD u64Max) ∧
    ∀ id, id ∈ ids ↔ ∃ stamp, last id = .stamp stamp ∧ stamp.toNat < 2^63-1
  due : ∀ now, ∃ evs : List OutboxEvent,
    (∀ limit, fetchDue U limit now t = .ok (evs.take (limitRows limit))) ∧
    ∀ id, (∃ e ∈ evs, e.id = id) ↔
      ∃ stamp, last id = .stamp stamp ∧ stamp.toNat < 2^63-1 ∧ stamp ≤ now

theorem stampOf_clampI64_due_iff (stamp now : UInt64) :
    stampOf (clampI64 stamp) ≤ now ∧ stampOf (clampI64 stamp) ≠ never ↔
      stamp.toNat < 2^63-1 ∧ stamp ≤ now := by
  rw [ne_eq, stampOf_clampI64_eq_never_iff, Nat.not_le, and_comm]
  refine and_congr_right fun h => ?_
  rw [stampOf_clampI64 (Or.inl h)]

/-- Over every run of calls, an event that is not dispatched is parked exactly when the
last stamp given for it is one the column keeps at its ceiling. -/
theorem parked_iff_last_stamp (U : UuidCrate) (past : List Call) :
    ByLastStamp U (told (store U) empty past) (after (store U).call empty past) := by
  have hv := valid_after U past
  have hfiled := (refinement U).filed _ hv
  have hreads := reads_after U past
  refine ⟨?_, ?_, fun now => ?_⟩
  · obtain ⟨l, hl, hcount⟩ := parkedCount_ok U hv
    refine ⟨_, hl.nodup_ids, ?_, fun id => ?_⟩
    · rw [List.length_map]
      exact Reply.count.inj hcount
    · rw [hl.mem_ids hfiled]
      simp only [(hreads id).live_iff, stampOf_clampI64_eq_never_iff]
  · obtain ⟨l, hl, hcount⟩ := pendingCount_ok U hv
    refine ⟨_, hl.nodup_ids, ?_, fun id => ?_⟩
    · rw [List.length_map]
      exact Reply.count.inj hcount
    · rw [hl.mem_ids hfiled]
      simp only [(hreads id).live_iff, ne_eq, stampOf_clampI64_eq_never_iff, Nat.not_le]
  · obtain ⟨l, hl, htake⟩ := (reading U hv).dueList (isDue now) now fun key row _ => by
      simp [isDue, and_assoc]
    refine ⟨l.map (·.2), fun limit => ?_, fun id => ?_⟩
    · rw [fetchDue, htake, List.map_take]
    · rw [hl.mem_ids hfiled]
      simp only [(hreads id).live_iff fun due => due ≤ now ∧ due ≠ never, stampOf_clampI64_due_iff]

/-- A stamp that is not `never` parks the event it is appended with, for every query. -/
theorem appended_real_stamp_parked :
    told (store .hyphenatedOnly) empty [.append (.sample 1 (never-1))] (.ofByte 1) =
      .stamp (never-1) ∧ never-1 ≠ never ∧
    parkedCount (after (store .hyphenatedOnly).call empty
      [.append (.sample 1 (never-1))]) = .ok 1 ∧
    pendingCount (after (store .hyphenatedOnly).call empty
      [.append (.sample 1 (never-1))]) = .ok 0 ∧
    fetchDue .hyphenatedOnly 1 (never-1) (after (store .hyphenatedOnly).call empty
      [.append (.sample 1 (never-1))]) = .ok [] := by
  decide +kernel

end Sqlite
end OutboxKit
