import OutboxKit.SqliteSpec
import OutboxKit.PostgresSpec

/-! The operator's exit. A letter is recorded in its own table and the live row is
removed. Two questions: whether a fault can leave one without the other, and
whether an event that has left can come back. -/
namespace OutboxKit
open Std Machine Ordered Commit Trace

section Atomicity

/-- The call leaves the tables as they were or as the completed call would, and a
backend error leaves them as they were. -/
def Sqlite.DeadLetterAtomic (fault : Fault SqlError) (clock : UInt64) (e : OutboxEvent)
    (reason : String) (t : Sqlite.Tables) : Prop :=
  ((Sqlite.deadLetterUnder fault clock e reason t).2 = t ∨
    (Sqlite.deadLetterUnder fault clock e reason t).2 = (Sqlite.deadLetter clock e reason t).2) ∧
  ∀ d, (Sqlite.deadLetterUnder fault clock e reason t).1 = .returned (.error (.backend d)) →
    (Sqlite.deadLetterUnder fault clock e reason t).2 = t

/-- The very letter the call would record is there already. -/
def Sqlite.Lettered (clock : UInt64) (e : OutboxEvent) (reason : String) (t : Sqlite.Tables) :
    Prop :=
  ∃ headers, encodeHeaders e.headers = .ok headers ∧
    t.outboxDeadLetters[e.id.text]? = some (Sqlite.letterOf clock e headers reason)

/-- The fault strikes between the two statements and what the first one did shows:
the second is refused, or the process dies before it. -/
def Sqlite.Torn (fault : Fault SqlError) (clock : UInt64) (e : OutboxEvent) (reason : String)
    (t : Sqlite.Tables) : Prop :=
  Sqlite.Accepts e ∧ ¬Sqlite.Lettered clock e reason t ∧
    match fault with
    | .refuse 1 _ => True
    | .crash 1 => t.outboxEvents[e.id.text]? ≠ none
    | _ => False

theorem insert_eq_self_iff {ρ : Type} {t : ExtTreeMap String ρ} {key : String} {row : ρ} :
    t.insert key row = t ↔ t[key]? = some row := by
  constructor
  · intro h
    rw [← h, ExtTreeMap.getElem?_insert_self]
  · intro h
    apply ExtTreeMap.ext_getElem?
    intro k
    rw [ExtTreeMap.getElem?_insert]
    split
    · rename_i hk
      rw [← LawfulEqCmp.compare_eq_iff_eq.mp hk, h]
    · rfl

theorem erase_eq_self_iff {ρ : Type} {t : ExtTreeMap String ρ} {key : String} :
    t = t.erase key ↔ t[key]? = none := by
  constructor
  · intro h
    rw [h, ExtTreeMap.getElem?_erase_self]
  · intro h
    apply ExtTreeMap.ext_getElem?
    intro k
    rw [ExtTreeMap.getElem?_erase]
    split
    · rename_i hk
      rw [← LawfulEqCmp.compare_eq_iff_eq.mp hk, h]
    · rfl

def Sqlite.halfway (t : Sqlite.Tables) (id : String) (row : LetterRow) : Sqlite.Tables :=
  { t with outboxDeadLetters := t.outboxDeadLetters.insert id row }

def Sqlite.completed (t : Sqlite.Tables) (id : String) (row : LetterRow) : Sqlite.Tables :=
  ⟨t.outboxEvents.erase id, t.outboxDeadLetters.insert id row⟩

theorem Sqlite.halfway_eq_self {t : Sqlite.Tables} {id : String} {row : LetterRow} :
    Sqlite.halfway t id row = t ↔ t.outboxDeadLetters[id]? = some row := by
  rw [← insert_eq_self_iff, Sqlite.halfway]
  cases t
  simp

theorem Sqlite.halfway_eq_completed {t : Sqlite.Tables} {id : String} {row : LetterRow} :
    Sqlite.halfway t id row = Sqlite.completed t id row ↔ t.outboxEvents[id]? = none := by
  rw [← erase_eq_self_iff, Sqlite.halfway, Sqlite.completed]
  simp

theorem Sqlite.deadLetterUnder_accepts {e : OutboxEvent} (h : Sqlite.Accepts e) (clock : UInt64)
    (reason : String) (t : Sqlite.Tables) : ∃ headers, encodeHeaders e.headers = .ok headers ∧
      let row := Sqlite.letterOf clock e headers reason
      Sqlite.deadLetter clock e reason t = (.ok (), Sqlite.completed t e.id.text row) ∧
      ∀ fault, Sqlite.deadLetterUnder fault clock e reason t =
        match fault with
        | .refuse 0 err => (.returned (.error (backend err)), t)
        | .refuse 1 err => (.returned (.error (backend err)), Sqlite.halfway t e.id.text row)
        | .crash 0 => (.crashed, t)
        | .crash 1 => (.crashed, Sqlite.halfway t e.id.text row)
        | .crash 2 => (.crashed, Sqlite.completed t e.id.text row)
        | _ => (.returned (.ok ()), Sqlite.completed t e.id.text row) := by
  obtain ⟨headers, henc, -⟩ := decode_encode_headers h.2
  refine ⟨headers, henc, ?_, fun fault => ?_⟩
  · rw [Sqlite.deadLetter, OutboxEvent.checked_ok h.1]
    simp only [henc]
    rfl
  · rw [Sqlite.deadLetterUnder, OutboxEvent.checked_ok h.1]
    simp only [henc]
    rcases fault with _ | ⟨_ | _ | k, err⟩ | ⟨_ | _ | _ | k⟩ <;> rfl

theorem Sqlite.deadLetterUnder_refused {e : OutboxEvent} (h : ¬Sqlite.Accepts e)
    (fault : Fault SqlError) (clock : UInt64) (reason : String) (t : Sqlite.Tables) :
    ∃ err, Sqlite.deadLetterUnder fault clock e reason t = (.returned (.error err), t) := by
  cases ht : topicValid e.topic with
  | false => exact ⟨_, by rw [Sqlite.deadLetterUnder, OutboxEvent.checked_error ht]⟩
  | true =>
    obtain ⟨err, henc⟩ := encode_headers_error (fun hfit => h ⟨ht, hfit⟩)
    refine ⟨err, ?_⟩
    rw [Sqlite.deadLetterUnder, OutboxEvent.checked_ok ht]
    simp only [henc]

theorem Sqlite.deadLetterUnder_none (clock : UInt64) (e : OutboxEvent) (reason : String)
    (t : Sqlite.Tables) : Sqlite.deadLetterUnder .none clock e reason t =
      (.returned (Sqlite.deadLetter clock e reason t).1,
        (Sqlite.deadLetter clock e reason t).2) := by
  rw [Sqlite.deadLetterUnder, Sqlite.deadLetter]
  split
  · rfl
  · split
    · rfl
    · rw [autocommit_none]
      rfl

/-- Dead-lettering on SQLite is atomic exactly when no fault tears it; with none it is the
store's own call, `Sqlite.deadLetterUnder_none`. On Postgres it always is, by
`postgres_deadLetter_atomic`. -/
theorem sqlite_deadLetter_atomic_iff (fault : Fault SqlError) (clock : UInt64) (e : OutboxEvent)
    (reason : String) (t : Sqlite.Tables) :
    Sqlite.DeadLetterAtomic fault clock e reason t ↔ ¬Sqlite.Torn fault clock e reason t := by
  by_cases hacc : Sqlite.Accepts e
  · obtain ⟨headers, henc, hdone, hunder⟩ := Sqlite.deadLetterUnder_accepts hacc clock reason t
    have hlet : Sqlite.Lettered clock e reason t ↔
        Sqlite.halfway t e.id.text (Sqlite.letterOf clock e headers reason) = t := by
      rw [Sqlite.halfway_eq_self, Sqlite.Lettered]
      simp [henc]
    simp only [Sqlite.DeadLetterAtomic, hunder, hdone, Sqlite.Torn, hacc, true_and, hlet]
    rcases fault with _ | ⟨_ | _ | k, err⟩ | ⟨_ | _ | _ | k⟩
    case refuse.succ.zero => simp [backend]; tauto
    case crash.succ.zero => simp [Sqlite.halfway_eq_completed]; tauto
    all_goals simp
  · obtain ⟨err, hunder⟩ := Sqlite.deadLetterUnder_refused hacc fault clock reason t
    simp [Sqlite.DeadLetterAtomic, hunder, Sqlite.Torn, hacc]

/-- The delete is refused after the letter went in: the call reports a failure and
the event is in both tables. -/
theorem sqlite_deadLetter_torn :
    ¬Sqlite.DeadLetterAtomic (.refuse 1 .unavailable) 7 (.sample 1 5) "poison"
      (Sqlite.append (.sample 1 5) Sqlite.empty).2 := by
  intro h
  exact absurd (h.2 (.driver .unavailable) (by rfl)) (by decide +kernel)

/-- The Postgres sibling runs the same statements in a transaction, which no fault
can tear. -/
theorem postgres_deadLetter_atomic (fault : Fault SqlError) (clock : UInt64) (e : OutboxEvent)
    (reason : String) (t : Postgres.Tables) :
    ((Postgres.deadLetterUnder fault clock e reason t).2 = t ∨
      (Postgres.deadLetterUnder fault clock e reason t).2 =
        (Postgres.deadLetter clock e reason t).2) ∧
    ∀ err, (Postgres.deadLetterUnder fault clock e reason t).1 = .returned (.error err) →
      (Postgres.deadLetterUnder fault clock e reason t).2 = t := by
  unfold Postgres.deadLetterUnder Postgres.deadLetter
  cases e.checked with
  | error err => simp
  | ok _ =>
    cases encodeHeaders e.headers with
    | error err => simp
    | ok headers =>
      obtain ⟨hall, herr⟩ := transaction_cases
        (Postgres.deadLetterStatements clock e headers reason) fault t
      refine ⟨hall, fun err h => ?_⟩
      rcases ho : (transaction (Postgres.deadLetterStatements clock e headers reason) fault t).1
        with ⟨_ | _⟩ | _
      · exact herr _ ho
      · simp [ho, Outcome.mapError, Except.mapError] at h
      · simp [ho, Outcome.mapError] at h

end Atomicity

section Rows
variable {ρ : Type} {m : ExtTreeMap String ρ} {id k : EventId} {row : ρ}

def Keyed (m : ExtTreeMap String ρ) : Prop :=
  ∀ (key : String) (row : ρ), m[key]? = some row → ∃ id : EventId, key = id.text

theorem Keyed.insert (h : Keyed m) : Keyed (m.insert k.text row) := by
  intro key r hget
  simp only [ExtTreeMap.getElem?_insert, LawfulEqCmp.compare_eq_iff_eq] at hget
  split at hget
  · rename_i hk
    exact ⟨k, hk.symm⟩
  · exact h key r hget

theorem Keyed.erase (h : Keyed m) (key : String) : Keyed (m.erase key) := by
  intro key' r hget
  rw [ExtTreeMap.getElem?_erase] at hget
  split at hget
  · cases hget
  · exact h key' r hget

end Rows

/-- A store on two tables, and what its calls do to them: an append writes a new
row, a mark rewrites a row that is there, and a letter moves the event over. -/
structure LetterBox {σ : Type} (S : OutboxStore σ) (ρ : Type) where
  events : σ → ExtTreeMap String ρ
  letters : σ → ExtTreeMap String LetterRow
  Accepts : OutboxEvent → Prop
  decode : String × ρ → Except StoreError OutboxEvent
  append : ∀ s e, (Has (events s) e.id ∨ ¬Accepts e) ∧ (S.append e s).2 = s ∨
    Accepts e ∧ ∃ row, events (S.append e s).2 = (events s).insert e.id.text row ∧
      letters (S.append e s).2 = letters s
  mark : ∀ s c, (∃ clock id, c = .markDispatched clock id) ∨
      (∃ id error retryAt, c = .markFailed id error retryAt) →
    (S.call c s).2 = s ∨ ∃ (id : EventId) (old row : ρ), (events s)[id.text]? = some old ∧
      events (S.call c s).2 = (events s).insert id.text row ∧ letters (S.call c s).2 = letters s
  deadLetter : ∀ s clock e reason,
    ((S.deadLetter clock e reason s).1 = .ok () ∧ ∃ row,
      events (S.deadLetter clock e reason s).2 = (events s).erase e.id.text ∧
      letters (S.deadLetter clock e reason s).2 = (letters s).insert e.id.text row) ∨
    (S.deadLetter clock e reason s).1 ≠ .ok () ∧ (S.deadLetter clock e reason s).2 = s
  fetched : ∀ s limit now evs, S.fetchDue limit now s = .ok evs → ∀ e ∈ evs,
    ∃ kr : String × ρ, (events s)[kr.1]? = some kr.2 ∧ decode kr = .ok e
  decode_id : ∀ (id : EventId) row e, decode (id.text, row) = .ok e → e.id = id

namespace LetterBox
variable {σ ρ : Type} {S : OutboxStore σ} (L : LetterBox S ρ)

/-- No event is in both tables. -/
def Exclusive (s : σ) : Prop := ∀ id, ¬(Has (L.letters s) id ∧ Has (L.events s) id)

/-- The call is not an append, going through, of an event that has a letter. -/
def Spares (s : σ) : Call → Prop
  | .append e => L.Accepts e → ¬Has (L.letters s) e.id
  | _ => True

/-- What a call can do to the two tables. -/
inductive Turns (s : σ) : Call → σ → Prop
  | same (c : Call) (t : σ) (ht : t = s) : Turns s c t
  | appended (e : OutboxEvent) (row : ρ) (t : σ) (hacc : L.Accepts e)
      (he : L.events t = (L.events s).insert e.id.text row) (hl : L.letters t = L.letters s) :
      Turns s (.append e) t
  | marked (c : Call) (id : EventId) (old row : ρ) (t : σ)
      (hold : (L.events s)[id.text]? = some old)
      (he : L.events t = (L.events s).insert id.text row) (hl : L.letters t = L.letters s) :
      Turns s c t
  | lettered (clock : UInt64) (e : OutboxEvent) (reason : String) (row : LetterRow) (t : σ)
      (he : L.events t = (L.events s).erase e.id.text)
      (hl : L.letters t = (L.letters s).insert e.id.text row) :
      Turns s (.deadLetter clock e reason) t

theorem call_turns (s : σ) (c : Call) : L.Turns s c (S.call c s).2 := by
  have mark : (S.call c s).2 = s ∨ (∃ (id : EventId) (old row : ρ),
      (L.events s)[id.text]? = some old ∧
      L.events (S.call c s).2 = (L.events s).insert id.text row ∧
      L.letters (S.call c s).2 = L.letters s) → L.Turns s c (S.call c s).2 := by
    rintro (h | ⟨id, old, row, hold, he, hl⟩)
    · exact .same c _ h
    · exact .marked c id old row _ hold he hl
  cases c with
  | append e =>
    rcases L.append s e with ⟨-, h⟩ | ⟨hacc, row, he, hl⟩
    · exact mark (Or.inl h)
    · exact .appended e row _ hacc he hl
  | markDispatched clock id => exact mark (L.mark s _ (Or.inl ⟨clock, id, rfl⟩))
  | markFailed id error retryAt => exact mark (L.mark s _ (Or.inr ⟨id, error, retryAt, rfl⟩))
  | deadLetter clock e reason =>
    rcases L.deadLetter s clock e reason with ⟨-, row, he, hl⟩ | ⟨-, h⟩
    · exact .lettered clock e reason row _ he hl
    · exact mark (Or.inl h)
  | fetchDue | pendingCount | parkedCount | deadLetters => exact .same _ _ rfl

theorem keyed_call {s : σ} (c : Call) (h : Keyed (L.events s)) :
    Keyed (L.events (S.call c s).2) := by
  cases L.call_turns s c with
  | same c t ht => rwa [ht]
  | appended e row t hacc he hl =>
    rw [he]
    exact h.insert
  | marked c id old row t hold he hl =>
    rw [he]
    exact h.insert
  | lettered clock e reason row t he hl =>
    rw [he]
    exact h.erase _

theorem letter_call {s : σ} {id : EventId} (c : Call) (h : Has (L.letters s) id) :
    Has (L.letters (S.call c s).2) id := by
  cases L.call_turns s c with
  | same c t ht => rwa [ht]
  | appended e row t hacc he hl => rwa [hl]
  | marked c k old row t hold he hl => rwa [hl]
  | lettered clock e reason row t he hl =>
    rw [hl, has_insert]
    exact Or.inl h

/-- A call keeps the tables apart exactly when it spares the lettered events. -/
theorem exclusive_call_iff {s : σ} (c : Call) (h : L.Exclusive s) :
    L.Exclusive (S.call c s).2 ↔ L.Spares s c := by
  constructor
  · intro hx
    cases c with
    | append e =>
      intro hacc hlet
      refine hx e.id ⟨L.letter_call (.append e) hlet, ?_⟩
      change Has (L.events (S.append e s).2) e.id
      rcases L.append s e with ⟨hknown, hs⟩ | ⟨-, row, he, -⟩
      · rw [hs]
        exact hknown.resolve_right (not_not.mpr hacc)
      · rw [he, has_insert]
        exact Or.inr rfl
    | _ => exact trivial
  · rintro hs id ⟨hlet, hrow⟩
    cases L.call_turns s c with
    | same c t ht =>
      rw [ht] at hlet hrow
      exact h id ⟨hlet, hrow⟩
    | appended e row t hacc he hl =>
      rw [hl] at hlet
      rw [he, has_insert] at hrow
      rcases hrow with hrow | rfl
      · exact h id ⟨hlet, hrow⟩
      · exact hs hacc hlet
    | marked c k old row t hold he hl =>
      rw [hl] at hlet
      rw [he, has_insert_known hold] at hrow
      exact h id ⟨hlet, hrow⟩
    | lettered clock e reason row t he hl =>
      rw [hl, has_insert] at hlet
      rw [he, has_erase] at hrow
      exact h id ⟨hlet.resolve_right hrow.2, hrow.1⟩

theorem exclusive_reach {start s t : σ} (h : (S.runs start).Reach L.Spares s t)
    (hs : Keyed (L.events s) ∧ L.Exclusive s) : Keyed (L.events t) ∧ L.Exclusive t := by
  refine h.invariant (I := fun s => Keyed (L.events s) ∧ L.Exclusive s)
    (fun s c t hs hok hstep => ?_) hs
  cases hstep
  exact ⟨L.keyed_call c hs.1, (L.exclusive_call_iff c hs.2).mpr hok⟩

/-- Dead-lettering is an exit: in every state a run reaches no event is in both
tables, and one that was lettered has no live row and is never fetched from then
on. The runs are those in which no lettered event is appended again. -/
def IsExit (start : σ) : Prop := ∀ s, (S.runs start).Reachable L.Spares s →
  L.Exclusive s ∧ ∀ clock e reason, (S.deadLetter clock e reason s).1 = .ok () →
    ∀ t, (S.runs start).Reach L.Spares (S.deadLetter clock e reason s).2 t →
      (L.events t)[e.id.text]? = none ∧
      ∀ limit now evs, S.fetchDue limit now t = .ok evs → ∀ f ∈ evs, f.id ≠ e.id

theorem isExit {start : σ} (hevents : L.events start = ∅) : L.IsExit start := by
  intro s hs
  have hstart : Keyed (L.events start) ∧ L.Exclusive start := by
    rw [hevents, Exclusive, hevents]
    exact ⟨fun key row h => by simp at h, fun id h => h.2 (by simp)⟩
  have hxs := L.exclusive_reach hs hstart
  refine ⟨hxs.2, fun clock e reason hok t ht => ?_⟩
  have hstep : (S.runs start).Reach L.Spares s (S.deadLetter clock e reason s).2 :=
    .single ⟨.deadLetter clock e reason, trivial, rfl⟩
  have hxd := L.exclusive_reach hstep hxs
  have hlet : Has (L.letters (S.deadLetter clock e reason s).2) e.id := by
    rcases L.deadLetter s clock e reason with ⟨-, row, -, hl⟩ | ⟨hne, -⟩
    · rw [hl, has_insert]
      exact Or.inr rfl
    · exact absurd hok hne
  have hlet' : Has (L.letters t) e.id := by
    refine ht.invariant (I := fun s => Has (L.letters s) e.id) (fun s c t h _ hstep => ?_) hlet
    cases hstep
    exact L.letter_call c h
  have hxt := L.exclusive_reach ht hxd
  have hnone : (L.events t)[e.id.text]? = none := by
    by_contra hrow
    exact hxt.2 e.id ⟨hlet', hrow⟩
  refine ⟨hnone, fun limit now evs hf f hmem he => ?_⟩
  obtain ⟨⟨key, row⟩, hget, hdec⟩ := L.fetched t limit now evs hf f hmem
  obtain ⟨id, rfl⟩ := hxt.1 key row hget
  rw [← he, L.decode_id id row f hdec] at hnone
  rw [hnone] at hget
  cases hget

end LetterBox

namespace Sqlite

theorem deadLetter_cases (clock : UInt64) (e : OutboxEvent) (reason : String) (t : Tables) :
    (∃ blob, decodeHeaders blob = .ok e.headers ∧ deadLetter clock e reason t =
      (.ok (), completed t e.id.text (letterOf clock e blob reason))) ∨
    ∃ err, deadLetter clock e reason t = (.error err, t) := by
  unfold deadLetter
  cases e.checked with
  | error err => exact Or.inr ⟨err, rfl⟩
  | ok _ =>
    cases henc : encodeHeaders e.headers with
    | error err => exact Or.inr ⟨err, rfl⟩
    | ok headers => exact Or.inl ⟨headers, decodeHeaders_of_encode henc, rfl⟩

def letterBox (U : UuidCrate) : LetterBox (store U) EventRow where
  events := Tables.outboxEvents
  letters := Tables.outboxDeadLetters
  Accepts := Accepts
  decode := eventFromRow U
  append t e := (appends e t).effect.imp_right fun ⟨hacc, row, hw⟩ =>
    ⟨hacc, row, congrArg Tables.outboxEvents hw, (congrArg Tables.outboxDeadLetters hw :)⟩
  mark t c hc := by
    rcases hc with ⟨clock, id, rfl⟩ | ⟨id, error, retryAt, rfl⟩
    · exact (dispatches clock id t).effect.imp_right fun ⟨old, new, hget, hw⟩ =>
        ⟨id, old, new, hget, congrArg Tables.outboxEvents hw,
          (congrArg Tables.outboxDeadLetters hw :)⟩
    · exact (fails id error retryAt t).effect.imp_right fun ⟨old, new, hget, hw⟩ =>
        ⟨id, old, new, hget, congrArg Tables.outboxEvents hw,
          (congrArg Tables.outboxDeadLetters hw :)⟩
  deadLetter t clock e reason := by
    rcases deadLetter_cases clock e reason t with ⟨blob, -, h⟩ | ⟨err, h⟩
    · exact Or.inl ⟨congrArg Prod.fst h, letterOf clock e blob reason,
        congrArg (·.2.outboxEvents) h, congrArg (·.2.outboxDeadLetters) h⟩
    · refine Or.inr ⟨fun hok => ?_, congrArg Prod.snd h⟩
      cases (congrArg Prod.fst h).symm.trans hok
  fetched t limit now evs hf e he := by
    obtain ⟨kr, hkr, hdec⟩ := mem_of_mapM_ok hf he
    exact ⟨kr, (mem_selectOrdered.mp (List.mem_of_mem_take hkr)).1, hdec⟩
  decode_id _ _ _ := decodeEvent_id U

end Sqlite

namespace Postgres

theorem deadLetter_cases (clock : UInt64) (e : OutboxEvent) (reason : String) (t : Tables) :
    (∃ blob, decodeHeaders blob = .ok e.headers ∧ deadLetter clock e reason t = (.ok (),
      ⟨t.outboxEvents.erase e.id.text,
        t.outboxDeadLetters.insert e.id.text (letterOf clock e blob reason)⟩)) ∨
    ∃ err, deadLetter clock e reason t = (.error err, t) := by
  unfold deadLetter
  cases e.checked with
  | error err => exact Or.inr ⟨err, rfl⟩
  | ok _ =>
    cases henc : encodeHeaders e.headers with
    | error err => exact Or.inr ⟨err, rfl⟩
    | ok headers =>
      have hdelete := binding_ok [e.id.text] (by simp [e.id.hasNul_text])
      cases hletter : upsertLetter e.id.text (letterOf clock e headers reason) t with
      | error err =>
        refine Or.inr ⟨backend err, ?_⟩
        simp only [atomic, exec, deadLetterStatements, hletter, Except.mapError]
      | ok t' =>
        refine Or.inl ⟨headers, decodeHeaders_of_encode henc, ?_⟩
        have ht' : t' = { t with outboxDeadLetters :=
            t.outboxDeadLetters.insert e.id.text (letterOf clock e headers reason) } := by
          rw [upsertLetter, binding] at hletter
          split at hletter
          · cases hletter
          · exact (Except.ok.inj hletter).symm
        simp only [atomic, exec, deadLetterStatements, hletter, deleteEvent, hdelete,
          Except.mapError, ht']

def letterBox (U : UuidCrate) : LetterBox (store U) EventRow where
  events := Tables.outboxEvents
  letters := Tables.outboxDeadLetters
  Accepts := Storable
  decode := eventFromRow U
  append t e := (appends e t).effect.imp_right fun ⟨hacc, row, hw⟩ =>
    ⟨hacc, row, congrArg Tables.outboxEvents hw, (congrArg Tables.outboxDeadLetters hw :)⟩
  mark t c hc := by
    rcases hc with ⟨clock, id, rfl⟩ | ⟨id, error, retryAt, rfl⟩
    · exact (dispatches clock id t).effect.imp_right fun ⟨old, new, hget, hw⟩ =>
        ⟨id, old, new, hget, congrArg Tables.outboxEvents hw,
          (congrArg Tables.outboxDeadLetters hw :)⟩
    · exact (fails id error retryAt t).effect.imp_right fun ⟨old, new, hget, hw⟩ =>
        ⟨id, old, new, hget, congrArg Tables.outboxEvents hw,
          (congrArg Tables.outboxDeadLetters hw :)⟩
  deadLetter t clock e reason := by
    rcases deadLetter_cases clock e reason t with ⟨blob, -, h⟩ | ⟨err, h⟩
    · exact Or.inl ⟨congrArg Prod.fst h, letterOf clock e blob reason,
        congrArg (·.2.outboxEvents) h, congrArg (·.2.outboxDeadLetters) h⟩
    · refine Or.inr ⟨fun hok => ?_, congrArg Prod.snd h⟩
      cases (congrArg Prod.fst h).symm.trans hok
  fetched t limit now evs hf e he := by
    obtain ⟨kr, hkr, hdec⟩ := mem_of_mapM_ok hf he
    have hsel := (List.mem_filter.mp (List.mem_of_mem_take hkr)).1
    exact ⟨kr, (mem_selectOrdered.mp hsel).1, hdec⟩
  decode_id _ _ _ := decodeEvent_id U

end Postgres

/-- On both durable stores dead-lettering is an exit along every run in which no
append that goes through names an event that has a letter, and any such append
puts the event into both tables. -/
theorem deadLetter_isExit (U : UuidCrate) :
    ((Sqlite.letterBox U).IsExit Sqlite.empty ∧ ∀ t c, (Sqlite.letterBox U).Exclusive t →
      ((Sqlite.letterBox U).Exclusive ((Sqlite.store U).call c t).2 ↔
        (Sqlite.letterBox U).Spares t c)) ∧
    (Postgres.letterBox U).IsExit Postgres.empty ∧ ∀ t c, (Postgres.letterBox U).Exclusive t →
      ((Postgres.letterBox U).Exclusive ((Postgres.store U).call c t).2 ↔
        (Postgres.letterBox U).Spares t c) :=
  ⟨⟨(Sqlite.letterBox U).isExit rfl, fun _ c => (Sqlite.letterBox U).exclusive_call_iff c⟩,
    (Postgres.letterBox U).isExit rfl, fun _ c => (Postgres.letterBox U).exclusive_call_iff c⟩

def retriedAppend : List Call :=
  [.append (.sample 1 5), .deadLetter 7 (.sample 1 5) "poison", .append (.sample 1 5)]

/-- After it the event has a letter and is due again, on both stores. -/
theorem deadLetter_returns :
    (let t := after (Sqlite.store .hyphenatedOnly).call Sqlite.empty retriedAppend
     Has t.outboxDeadLetters (.ofByte 1) ∧ Has t.outboxEvents (.ofByte 1) ∧
      Sqlite.fetchDue .hyphenatedOnly 10 100 t = .ok [.sample 1 5]) ∧
    (let t := after (Postgres.store .hyphenatedOnly).call Postgres.empty retriedAppend
     Has t.outboxDeadLetters (.ofByte 1) ∧ Has t.outboxEvents (.ofByte 1) ∧
      Postgres.fetchDue .hyphenatedOnly 10 100 t = .ok [.sample 1 5]) := by
  unfold Has
  decide +kernel

end OutboxKit
