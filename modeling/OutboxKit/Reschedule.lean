import OutboxKit.Acceptance
import OutboxKit.Dispatch

/-! What a recorded failure makes of a live event. A refused `mark_failed` changes
nothing; one that goes through gives the event its new stamp, and parks it when
the stamp is one the store keeps as `never`. The durable stores keep every stamp
from `2^63-1` on so, whether or not a retry budget was spent. -/
namespace OutboxKit
open Std Machine Ordered Trace

/-- A stamp as a store keeps it whose stamps end below `ceiling`. -/
def stampBelow (ceiling : Nat) (stamp : UInt64) : UInt64 :=
  if stamp.toNat < ceiling then stamp else never

theorem stampBelow_lt {ceiling : Nat} {stamp : UInt64} (h : stamp.toNat < ceiling) :
    stampBelow ceiling stamp = stamp := if_pos h

theorem stampBelow_eq_never_iff {ceiling : Nat} (hc : ceiling < 2^64) (stamp : UInt64) :
    stampBelow ceiling stamp = never ↔ ceiling ≤ stamp.toNat := by
  unfold stampBelow
  split
  · rename_i h
    refine iff_of_false (fun he => ?_) (Nat.not_le.mpr h)
    rw [he, never, u64Max_toNat] at h
    omega
  · rename_i h
    exact iff_of_true rfl (Nat.not_lt.mp h)

theorem stampOf_eq_stampBelow (stamp : UInt64) :
    stampOf (clampI64 stamp) = stampBelow (2^63-1) stamp := by
  by_cases h : stamp.toNat < 2^63-1
  · rw [stampOf_clampI64 (Or.inl h), stampBelow_lt h]
  · rw [(stampBelow_eq_never_iff (by decide) stamp).mpr (by omega),
      stampOf_clampI64_eq_never_iff]
    omega

/-- What `mark_failed` does to the outbox a store's queries show. -/
structure Rescheduling {σ : Type} {S : OutboxStore σ} (D : Display S) where
  Room : σ → EventId → String → Prop
  ceiling : Nat
  ceiling_lt : ceiling < 2^64
  recorded : ∀ s id error retryAt due e, D.Valid s → D.entry s id = .live due e →
    Room s id error → (S.markFailed id error retryAt s).1 = .ok () ∧
      D.Valid (S.markFailed id error retryAt s).2 ∧ D.entry (S.markFailed id error retryAt s).2 =
        Function.update (D.entry s) id (.live (stampBelow ceiling retryAt) (e.failed error))
  refused : ∀ s id error retryAt, D.Valid s → ¬Room s id error →
    ∃ err, S.markFailed id error retryAt s = (.error err, s)

/-- A send of the event failed at `now`, and `process` goes on to mark it so. -/
structure FailedSend (p : BackoffPolicy) (e : OutboxEvent) (now : UInt64) (delay : Duration)
    (error : String) (stamp : UInt64) : Prop where
  jitter : p.Jittered (satAdd32 e.attempts 1) delay
  mark : ∃ result : CallResult, result.mark p e now delay = some (.failed error stamp)

def Spent (p : BackoffPolicy) (e : OutboxEvent) : Prop := p.maxAttempts ≤ satAdd32 e.attempts 1

namespace FailedSend
variable {p : BackoffPolicy} {e : OutboxEvent} {now stamp : UInt64} {delay : Duration}
  {error : String}

theorem stamp_spent (h : FailedSend p e now delay error stamp) (hex : Spent p e) :
    stamp = never := by
  obtain ⟨result, hmark⟩ := h.mark
  have hexhausted : p.isExhausted (satAdd32 e.attempts 1) = true := decide_eq_true hex
  rw [CallResult.mark_failed hmark, retryAt, if_pos hexhausted]

theorem stamp_retry (h : FailedSend p e now delay error stamp) (hex : ¬Spent p e) :
    stamp.toNat = min (now.toNat+delay.asMillis) (2^64-1) := by
  obtain ⟨result, hmark⟩ := h.mark
  have hinside : p.isExhausted (satAdd32 e.attempts 1) = false := decide_eq_false hex
  rw [CallResult.mark_failed hmark, retryAt_toNat now delay hinside]

theorem stamp_within (h : FailedSend p e now delay error stamp) (hex : ¬Spent p e) :
    now ≤ stamp ∧ stamp.toNat ≤ now.toNat+p.cap.asMillis := by
  have hstamp := h.stamp_retry hex
  have hcap := h.jitter.asMillis_le
  have hnow := now.toNat_lt
  rw [UInt64.le_iff_toNat_le]
  omega

end FailedSend

/-- The event is parked exactly when its budget is spent, and otherwise stays pending
with a stamp no further away than the cap. -/
structure BudgetParks {σ : Type} {S : OutboxStore σ} (D : Display S) (p : BackoffPolicy)
    (e : OutboxEvent) (now stamp : UInt64) (s : σ) : Prop where
  parked_iff : D.Parked s e.id ↔ Spent p e
  pending : ¬Spent p e → now ≤ stamp ∧ stamp.toNat ≤ now.toNat+p.cap.asMillis ∧ D.Pending s e.id

/-- Where there is room for the mark, a retry inside the budget stays below the ceiling;
where there is none, the budget is not spent. -/
def RetryFits (room : Prop) (ceiling : Nat) (p : BackoffPolicy) (e : OutboxEvent) (now : UInt64)
    (delay : Duration) : Prop :=
  (room → Spent p e ∨ now.toNat+delay.asMillis < ceiling) ∧ (¬room → ¬Spent p e)

namespace Rescheduling
variable {σ : Type} {S : OutboxStore σ} {D : Display S} (R : Rescheduling D) {s : σ} {id : EventId}
  {error : String} {retryAt : UInt64}

theorem parked_iff (hv : D.Valid s) (hlive : D.Pending s id) (hroom : R.Room s id error) :
    D.Parked (S.markFailed id error retryAt s).2 id ↔ R.ceiling ≤ retryAt.toNat := by
  obtain ⟨due, e, he, -⟩ := hlive
  obtain ⟨-, -, hentry⟩ := R.recorded s id error retryAt due e hv he hroom
  rw [← stampBelow_eq_never_iff R.ceiling_lt, Display.Parked, hentry, Function.update_self]
  simp

theorem pending_iff (hv : D.Valid s) (hlive : D.Pending s id) (hroom : R.Room s id error) :
    D.Pending (S.markFailed id error retryAt s).2 id ↔ retryAt.toNat < R.ceiling := by
  obtain ⟨due, e, he, -⟩ := hlive
  obtain ⟨-, -, hentry⟩ := R.recorded s id error retryAt due e hv he hroom
  rw [← Nat.not_le, ← stampBelow_eq_never_iff R.ceiling_lt, Display.Pending, hentry,
    Function.update_self]
  simp

section Budget
variable {p : BackoffPolicy} {e : OutboxEvent} {now stamp : UInt64} {delay : Duration}
  (h : FailedSend p e now delay error stamp) (hv : D.Valid s) (hlive : D.Pending s e.id)
include h hv hlive

theorem budgetParks_spent (hex : Spent p e) :
    BudgetParks D p e now stamp (S.markFailed e.id error stamp s).2 ↔ R.Room s e.id error := by
  constructor
  · intro hparks
    by_contra hroom
    obtain ⟨err, hm⟩ := R.refused s e.id error stamp hv hroom
    have hparked := hparks.parked_iff.mpr hex
    rw [hm] at hparked
    exact hparked.not_pending hlive
  · intro hroom
    have hc := R.ceiling_lt
    have hparked : D.Parked (S.markFailed e.id error stamp s).2 e.id := by
      apply (R.parked_iff hv hlive hroom).mpr
      rw [h.stamp_spent hex, never, u64Max_toNat]
      omega
    exact ⟨iff_of_true hparked hex, fun hn => absurd hex hn⟩

/-- Inside the budget a mark that goes through must stay below the ceiling. -/
theorem budgetParks_retry (hex : ¬Spent p e) :
    BudgetParks D p e now stamp (S.markFailed e.id error stamp s).2 ↔
      (R.Room s e.id error → now.toNat+delay.asMillis < R.ceiling) := by
  have hstamp := h.stamp_retry hex
  have hc := R.ceiling_lt
  constructor
  · intro hparks hroom
    obtain ⟨-, -, hpending⟩ := hparks.pending hex
    have hlt := (R.pending_iff hv hlive hroom).mp hpending
    omega
  · intro hfits
    have hpending : D.Pending (S.markFailed e.id error stamp s).2 e.id := by
      by_cases hroom : R.Room s e.id error
      · have hlt := hfits hroom
        exact (R.pending_iff hv hlive hroom).mpr (by omega)
      · obtain ⟨err, hm⟩ := R.refused s e.id error stamp hv hroom
        rwa [hm]
    obtain ⟨hnow, hcap⟩ := h.stamp_within hex
    exact ⟨iff_of_false (fun hparked => hparked.not_pending hpending) hex,
      fun _ => ⟨hnow, hcap, hpending⟩⟩

theorem budgetParks_iff :
    BudgetParks D p e now stamp (S.markFailed e.id error stamp s).2 ↔
      RetryFits (R.Room s e.id error) R.ceiling p e now delay := by
  unfold RetryFits
  by_cases hex : Spent p e
  · rw [R.budgetParks_spent h hv hlive hex]
    simp [hex]
  · rw [R.budgetParks_retry h hv hlive hex]
    simp [hex]

end Budget
end Rescheduling

def appendedOnce : List Call := [.append (.sample 1 5)]

def failedOnce (retryAt : UInt64) : List Call :=
  [.append (.sample 1 5), .markFailed (.ofByte 1) "down" retryAt]

def Refinement.rescheduling {σ : Type} {S : OutboxStore σ} (R : Refinement S) (T : R.Total)
    {ceiling : Nat} (hc : ceiling < 2^64) (hstamp : ∀ v, R.stamp v = stampBelow ceiling v) :
    Rescheduling R.display where
  Room := R.Room
  ceiling := ceiling
  ceiling_lt := hc
  recorded s id error retryAt due e hv hlive hroom := by
    obtain ⟨hok, hv', he⟩ := R.markFailed_ok s id error retryAt hv hroom
    exact ⟨hok, hv', by rw [← hstamp]; exact he.trans (Outbox.markFailed_live hlive _ _)⟩
  refused := T.markFailed_refused

namespace Memory

theorem stamp_eq_stampBelow (v : UInt64) : v = stampBelow (2^64-1) v := by
  have hv := v.toNat_lt
  by_cases h : v.toNat < 2^64-1
  · exact (stampBelow_lt h).symm
  · rw [(stampBelow_eq_never_iff (by decide) v).mpr (by omega)]
    apply UInt64.toNat_inj.mp
    rw [never, u64Max_toNat]
    omega

def rescheduling : Rescheduling display :=
  refinement.rescheduling refinement_total (by decide : 2^64-1 < 2^64) stamp_eq_stampBelow

end Memory

namespace Sqlite

def HasRoom (t : Tables) (id : EventId) : Prop :=
  ∀ row, t.outboxEvents[id.text]? = some row → row.attempts < i64Max

def rescheduling (U : UuidCrate) : Rescheduling (display U) :=
  (refinement U).rescheduling (refinement_total U) (by decide : 2^63-1 < 2^64)
    stampOf_eq_stampBelow

end Sqlite

namespace Postgres

/-- What `mark_failed` needs of its values: a diagnostic without a zero byte, and a
counter with room for one more. -/
def Fits (t : Tables) (id : EventId) (error : String) : Prop :=
  hasNul (truncateError error) = false ∧
    ∀ row, t.outboxEvents[id.text]? = some row → row.attempts < i32Max

theorem markFailed_unfit {t : Tables} {id : EventId} {error : String} (retryAt : UInt64)
    (h : ¬Fits t id error) : ∃ err, markFailed id error retryAt t = (.error err, t) := by
  rcases markFailed_cases id error retryAt t with
    ⟨-, hm⟩ | ⟨hnul, ⟨hget, -⟩ | ⟨row, hget, hlt, -⟩ | ⟨row, -, -, hm⟩⟩
  · exact ⟨_, hm⟩
  · exact absurd ⟨hnul, by simp [hget]⟩ h
  · exact absurd ⟨hnul, by simpa [hget] using hlt⟩ h
  · exact ⟨_, hm⟩

theorem markFailed_fits {t : Tables} {id : EventId} {error : String} {row : EventRow}
    (retryAt : UInt64) (hget : t.outboxEvents[id.text]? = some row) (h : Fits t id error) :
    markFailed id error retryAt t =
      (.ok (), t.write id.text (row.failed (truncateError error) (clampI64 retryAt))) := by
  rcases markFailed_cases id error retryAt t with
    ⟨hnul, -⟩ | ⟨-, ⟨hnone, -⟩ | ⟨old, hold, -, hm⟩ | ⟨old, hold, hge, -⟩⟩
  · rw [h.1] at hnul
    cases hnul
  · rw [hget] at hnone
    cases hnone
  · rw [hget] at hold
    cases hold
    exact hm
  · exact absurd (h.2 old hold) hge

/-- The status `mark_failed` writes agrees with the stamp beside it. -/
theorem due_failed (row : EventRow) (error : String) (retryAt : UInt64) :
    (row.failed error (clampI64 retryAt)).due = stampBelow (2^63-1) retryAt := by
  rw [← stampOf_eq_stampBelow, stampOf, EventRow.due]
  by_cases h : parkedAsI64 ≤ clampI64 retryAt
  · have hs : (row.failed error (clampI64 retryAt)).status = .parked := if_pos h
    rw [if_pos hs, if_neg (Int.not_lt.mpr h)]
  · have hs : (row.failed error (clampI64 retryAt)).status = .pending := if_neg h
    rw [if_neg (by simp [hs]), if_pos (Int.not_le.mp h)]
    rfl

theorem shows_failed (U : UuidCrate) {e : OutboxEvent} {row : EventRow} (error : String)
    (retryAt : UInt64) (h₀ : 0 ≤ row.attempts) (h : eventFromRow U (e.id.text, row) = .ok e) :
    shows U e.id (row.failed (truncateError error) (clampI64 retryAt)) =
      .live (stampBelow (2^63-1) retryAt) (e.failed error) := by
  have he := decodeEvent_failed U error h₀ h
  rw [shows, if_neg (by exact statusFor_ne_dispatched _), due_failed, eventFromRow]
  simp only [EventRow.failed, he]

def rescheduling (U : UuidCrate) : Rescheduling (display U) where
  Room := Fits
  ceiling := 2^63-1
  ceiling_lt := by decide
  recorded t id error retryAt due e hs hlive hfits := by
    obtain ⟨row, hget, -, hdec, -⟩ := (shown_live_iff U).mp hlive
    have hm := markFailed_fits retryAt hget hfits
    have hid : e.id = id := decodeEvent_id U hdec
    subst hid
    refine ⟨congrArg Prod.fst hm, sound_call U (.markFailed e.id error retryAt) hs, ?_⟩
    change shown U (markFailed e.id error retryAt t).2 = _
    rw [hm, shown_write, shows_failed U error retryAt (hs _ _ hget).columns.attempts hdec]
    rfl
  refused _ _ _ retryAt _ := markFailed_unfit retryAt

/-- The failure is recorded: in the row, and in the attempts that are reported of
the event. -/
structure TakesEffect (U : UuidCrate) (id : EventId) (error : String) (retryAt : UInt64)
    (t : Tables) (row : EventRow) : Prop where
  ok : (markFailed id error retryAt t).1 = .ok ()
  row : ∃ row', (markFailed id error retryAt t).2.outboxEvents[id.text]? = some row' ∧
    row'.nextAttemptAt = clampI64 retryAt ∧ row'.lastError = some (truncateError error) ∧
    ∃ e e', eventFromRow U (id.text, row) = .ok e ∧ eventFromRow U (id.text, row') = .ok e' ∧
      e'.attempts = satAdd32 e.attempts 1

/-- A failure takes effect on a row exactly when its diagnostic, once cut, holds no
zero byte and the row's counter is below the column's limit; otherwise the call
errs and the table is as it was. -/
theorem mark_failed_takes_effect_iff (U : UuidCrate) (past : List Call) (id : EventId)
    (error : String) (retryAt : UInt64) (row : EventRow)
    (hget : (after (store U).call empty past).outboxEvents[id.text]? = some row) :
    (TakesEffect U id error retryAt (after (store U).call empty past) row ↔
      hasNul (truncateError error) = false ∧ row.attempts < i32Max) ∧
    (¬(hasNul (truncateError error) = false ∧ row.attempts < i32Max) →
      ∃ err, markFailed id error retryAt (after (store U).call empty past) =
        (.error err, after (store U).call empty past)) := by
  have hrow := sound_after U past _ _ hget
  have hfits : Fits (after (store U).call empty past) id error ↔
      hasNul (truncateError error) = false ∧ row.attempts < i32Max := by
    simp [Fits, hget]
  rw [← hfits]
  refine ⟨⟨fun h => ?_, fun h => ?_⟩, markFailed_unfit retryAt⟩
  · by_contra hn
    obtain ⟨err, hm⟩ := markFailed_unfit retryAt hn
    have hok := h.ok
    rw [hm] at hok
    cases hok
  · obtain ⟨e, hk, hdec⟩ := hrow.decode U
    rw [EventId.text_inj] at hk
    subst hk
    have hm := markFailed_fits retryAt hget h
    have hdec' := decodeEvent_failed U error hrow.columns.attempts hdec
    refine ⟨congrArg Prod.fst hm, row.failed (truncateError error) (clampI64 retryAt), ?_, rfl, rfl,
      e, e.failed error, hdec, hdec', rfl⟩
    rw [hm, Tables.write, ExtTreeMap.getElem?_insert_self]

theorem mark_failed_takes_effect_down :
    ∃ row, (after (store .hyphenatedOnly).call empty appendedOnce).outboxEvents[
        (EventId.ofByte 1).text]? = some row ∧ row.status = .pending ∧
      TakesEffect .hyphenatedOnly (.ofByte 1) "down" 9
        (after (store .hyphenatedOnly).call empty appendedOnce) row := by
  obtain ⟨row, hget, hp, ha⟩ : ∃ row, (after (store .hyphenatedOnly).call empty
      appendedOnce).outboxEvents[(EventId.ofByte 1).text]? = some row ∧ row.status = .pending ∧
        row.attempts = 0 := ⟨rowOf (.sample 1 5) [0, 0, 0, 0], by decide +kernel⟩
  refine ⟨row, hget, hp, (mark_failed_takes_effect_iff .hyphenatedOnly appendedOnce (.ofByte 1)
    "down" 9 row hget).1.mpr ⟨by decide +kernel, ?_⟩⟩
  rw [ha]
  decide

/-- An event whose attempts the column already keeps at its limit. -/
def worn : OutboxEvent := { OutboxEvent.sample 1 5 with attempts := u32Max }

/-- Neither the worn counter nor a diagnostic with a zero byte lets the failure in:
the event stays due, its attempts as they were. -/
theorem mark_failed_without_effect :
    (∃ row, (after (store .hyphenatedOnly).call empty [.append worn]).outboxEvents[
        (EventId.ofByte 1).text]? = some row ∧ row.status = .pending ∧
      ¬TakesEffect .hyphenatedOnly (.ofByte 1) "down" 9
        (after (store .hyphenatedOnly).call empty [.append worn]) row) ∧
    (∃ row, (after (store .hyphenatedOnly).call empty appendedOnce).outboxEvents[
        (EventId.ofByte 1).text]? = some row ∧ row.status = .pending ∧
      ¬TakesEffect .hyphenatedOnly (.ofByte 1) "\x00" 9
        (after (store .hyphenatedOnly).call empty appendedOnce) row) ∧
    fetchDue .hyphenatedOnly 1 5 (after (store .hyphenatedOnly).call empty
      (appendedOnce++[.markFailed (.ofByte 1) "\x00" 9])) = .ok [.sample 1 5] := by
  refine ⟨⟨rowOf worn [0, 0, 0, 0], by decide +kernel, rfl, fun h => ?_⟩,
    ⟨rowOf (.sample 1 5) [0, 0, 0, 0], by decide +kernel, rfl, fun h => ?_⟩, by decide +kernel⟩
  · exact absurd h.ok (by decide +kernel)
  · exact absurd h.ok (by decide +kernel)

end Postgres

section Parking
variable (U : UuidCrate) (past : List Call)

/-- A failed send parks its event exactly when the budget is spent, as long as the retry
stays below the stamps the store keeps as `never` and the mark goes through. -/
theorem only_budget_parks_iff (p : BackoffPolicy) (e : OutboxEvent) (now stamp : UInt64)
    (delay : Duration) (error : String) (h : FailedSend p e now delay error stamp) :
    (∀ s, s = after Memory.store.call Memory.new past → Memory.display.Pending s e.id →
      (BudgetParks Memory.display p e now stamp (Memory.markFailed e.id error stamp s).2 ↔
        RetryFits True (2^64-1) p e now delay)) ∧
    (∀ t, t = after (Sqlite.store U).call Sqlite.empty past → (Sqlite.display U).Pending t e.id →
      (BudgetParks (Sqlite.display U) p e now stamp (Sqlite.markFailed e.id error stamp t).2 ↔
        RetryFits (Sqlite.HasRoom t e.id) (2^63-1) p e now delay)) ∧
    (∀ t, t = after (Postgres.store U).call Postgres.empty past →
      (Postgres.display U).Pending t e.id →
      (BudgetParks (Postgres.display U) p e now stamp (Postgres.markFailed e.id error stamp t).2 ↔
        RetryFits (Postgres.Fits t e.id error) (2^63-1) p e now delay)) := by
  refine ⟨?_, ?_, ?_⟩
  · rintro s rfl hlive
    exact Memory.rescheduling.budgetParks_iff h (Memory.valid_after past) hlive
  · rintro t rfl hlive
    exact (Sqlite.rescheduling U).budgetParks_iff h (Sqlite.valid_after U past) hlive
  · rintro t rfl hlive
    exact (Postgres.rescheduling U).budgetParks_iff h (Postgres.sound_after U past) hlive

end Parking

theorem pending_appendedOnce :
    Memory.display.Pending (after Memory.store.call Memory.new appendedOnce) (.ofByte 1) ∧
    (Sqlite.display .hyphenatedOnly).Pending
      (after (Sqlite.store .hyphenatedOnly).call Sqlite.empty appendedOnce) (.ofByte 1) ∧
    (Postgres.display .hyphenatedOnly).Pending
      (after (Postgres.store .hyphenatedOnly).call Postgres.empty appendedOnce) (.ofByte 1) := by
  refine ⟨⟨5, .sample 1 5, ?_, by decide⟩, ⟨5, .sample 1 5, ?_, by decide⟩,
    ⟨5, .sample 1 5, ?_, by decide⟩⟩
  all_goals decide +kernel

theorem only_budget_parks_sample :
    BudgetParks Memory.display (DispatcherConfig.sample 3).backoff (.sample 1 5) 10 10
      (after Memory.store.call Memory.new (failedOnce 10)) ∧
    BudgetParks (Sqlite.display .hyphenatedOnly) (DispatcherConfig.sample 3).backoff (.sample 1 5)
      10 10 (after (Sqlite.store .hyphenatedOnly).call Sqlite.empty (failedOnce 10)) ∧
    BudgetParks (Postgres.display .hyphenatedOnly) (DispatcherConfig.sample 3).backoff (.sample 1 5)
      10 10 (after (Postgres.store .hyphenatedOnly).call Postgres.empty (failedOnce 10)) := by
  have hfits : ∀ room ceiling, 10 < ceiling → RetryFits room ceiling
      (DispatcherConfig.sample 3).backoff (.sample 1 5) 10 .zero := by
    intro room ceiling hc
    have hspent : ¬Spent (DispatcherConfig.sample 3).backoff (.sample 1 5) := by
      unfold Spent
      decide
    exact ⟨fun _ => Or.inr (by simpa [Duration.asMillis, Duration.zero] using hc), fun _ => hspent⟩
  obtain ⟨hmemory, hsqlite, hpostgres⟩ := only_budget_parks_iff .hyphenatedOnly appendedOnce
    (DispatcherConfig.sample 3).backoff (.sample 1 5) 10 10 .zero "down"
    ⟨by decide +kernel, .other "down",
      congrArg (fun stamp => some (Mark.failed "down" stamp)) (by decide +kernel)⟩
  obtain ⟨hm, hs, hp⟩ := pending_appendedOnce
  exact ⟨(hmemory _ rfl hm).mpr (hfits _ _ (by decide)),
    (hsqlite _ rfl hs).mpr (hfits _ _ (by decide)),
    (hpostgres _ rfl hp).mpr (hfits _ _ (by decide))⟩

/-- A policy whose delays reach past every stamp. -/
def farCap : BackoffPolicy := ⟨.fromMillis u64Max, Binary64.ofNat 2, .fromMillis u64Max, 12⟩

/-- The first of twelve attempts parks the event in every store. -/
theorem first_attempt_parks :
    FailedSend farCap (.sample 1 5) 10 (.fromMillis u64Max) "down" never ∧
    ¬Spent farCap (.sample 1 5) ∧
    ¬BudgetParks Memory.display farCap (.sample 1 5) 10 never
      (after Memory.store.call Memory.new (failedOnce never)) ∧
    ¬BudgetParks (Sqlite.display .hyphenatedOnly) farCap (.sample 1 5) 10 never
      (after (Sqlite.store .hyphenatedOnly).call Sqlite.empty (failedOnce never)) ∧
    ¬BudgetParks (Postgres.display .hyphenatedOnly) farCap (.sample 1 5) 10 never
      (after (Postgres.store .hyphenatedOnly).call Postgres.empty (failedOnce never)) := by
  have hspent : ¬Spent farCap (.sample 1 5) := by
    unfold Spent
    decide
  have hsend : FailedSend farCap (.sample 1 5) 10 (.fromMillis u64Max) "down" never :=
    ⟨by decide +kernel, .other "down",
      congrArg (fun stamp => some (Mark.failed "down" stamp)) (by decide +kernel)⟩
  refine ⟨hsend, hspent, fun h => hspent (h.parked_iff.mp ?_),
    fun h => hspent (h.parked_iff.mp ?_), fun h => hspent (h.parked_iff.mp ?_)⟩
  all_goals
    refine ⟨(OutboxEvent.sample 1 5).failed "down", ?_⟩
    decide +kernel

end OutboxKit
