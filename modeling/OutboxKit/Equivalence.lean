import OutboxKit.MemorySpec
import OutboxKit.SqliteSpec
import OutboxKit.PostgresSpec

/-! The durable stores answer as the in-process one. Both refine the outbox model;
what is left is that along an admissible sequence of calls every one of them
stays within the ranges the columns can hold. A ledger of the calls made so far
says how far each event has come. -/
namespace OutboxKit
open Std Machine Ordered Trace

/-- What a sequence of calls has done to one event since the append that first
stored it. -/
structure Record where
  attempts : UInt32
  failures : Nat
  dispatched : Bool
deriving DecidableEq

/-- The effect of one more call; a later append of a known event has none. -/
def Record.next (id : EventId) : Option Record → Call → Option Record
  | none, .append e => if e.id = id ∧ topicValid e.topic = true then
      some ⟨e.attempts, 0, false⟩ else none
  | some r, .markDispatched _ k => if k = id then some { r with dispatched := true } else some r
  | some r, .markFailed k _ _ => if k = id then
      some { r with failures := r.failures+1 } else some r
  | r, _ => r

def record (id : EventId) (past : List Call) : Option Record := past.foldl (Record.next id) none

theorem record_concat (id : EventId) (past : List Call) (c : Call) :
    record id (past++[c]) = Record.next id (record id past) c := by
  rw [record, List.foldl_append]
  rfl

theorem Record.next_of_ne {id : EventId} {c : Call} (h : c.target ≠ some id) (r : Option Record) :
    Record.next id r c = r := by
  have hne : ∀ k, c.target = some k → k ≠ id := fun k hk he => h (he ▸ hk)
  cases c with
  | append e => cases r <;> simp [Record.next, hne e.id rfl]
  | markDispatched clock k => cases r <;> simp [Record.next, hne k rfl]
  | markFailed k error retryAt => cases r <;> simp [Record.next, hne k rfl]
  | fetchDue | pendingCount | parkedCount | deadLetter | deadLetters => cases r <;> rfl

theorem mem_target_of_record {id : EventId} {past : List Call} (h : record id past ≠ none) :
    id ∈ past.filterMap Call.target := by
  induction past using List.reverseRecOn with
  | nil => exact absurd rfl h
  | append_singleton past c ih =>
    rw [List.filterMap_append, List.mem_append]
    by_cases ht : c.target = some id
    · exact Or.inr (by simp [ht])
    · rw [record_concat, Record.next_of_ne ht] at h
      exact Or.inl (ih h)

theorem Outbox.DueList.length_le {o : Outbox} {now : UInt64} {l : List (UInt64 × OutboxEvent)}
    (h : o.DueList now l) (ids : List EventId) (hids : ∀ id, o id ≠ .absent → id ∈ ids) :
    l.length ≤ ids.length := by
  have hsub : (l.map fun x => x.2.id) ⊆ ids := by
    intro id hid
    obtain ⟨⟨stamp, e⟩, hmem, rfl⟩ := List.mem_map.mp hid
    apply hids
    rw [((h.mem_iff stamp e).mp hmem).1]
    simp
  simpa using (List.subperm_of_subset h.nodup_ids hsub).length_le

/-- Every call of the sequence is allowed after the calls before it. -/
def Admissible (ok : List Call → Call → Prop) (calls : List Call) : Prop :=
  ∀ pre c post, calls = pre++c::post → ok pre c

theorem admissible_iff {ok : List Call → Call → Prop} {calls : List Call} :
    Admissible ok calls ↔ ∀ i : Fin calls.length, ok (calls.take i) calls[i] := by
  constructor
  · intro h i
    refine h _ _ (calls.drop (i+1)) ?_
    exact (List.take_append_drop i calls).symm.trans
      (congrArg _ (List.drop_eq_getElem_cons i.isLt))
  · rintro h pre c post rfl
    have hc := h ⟨pre.length, by simp⟩
    simpa using hc

instance {ok : List Call → Call → Prop} [∀ past c, Decidable (ok past c)] (calls : List Call) :
    Decidable (Admissible ok calls) :=
  decidable_of_iff _ admissible_iff.symm

/-- A store that refines the model, along calls it has room for, answers as the
in-process store. `P` is what the store's state keeps of the calls so far. -/
theorem answers_as_memory {σ : Type} {S : OutboxStore σ} (R : Refinement S)
    {ok : List Call → Call → Prop} {P : List Call → σ → Prop} {s : σ} (hv : R.Valid s)
    (he : R.entry s = Memory.entry Memory.new) (hP : P [] s)
    (hstep : ∀ past c s, R.Valid s → P past s → ok past c →
      R.Fits s c ∧ P (past++[c]) (S.call c s).2)
    {calls : List Call} (h : Admissible ok calls) :
    answers S.call s calls = answers Memory.store.call Memory.new calls := by
  refine answers_eq (R := fun past s m => R.Valid s ∧ P past s ∧ Memory.Valid m ∧
    R.entry s = Memory.entry m) ?_ calls [] s Memory.new
    ⟨hv, hP, Memory.valid_new, he⟩ h
  rintro past c s m ⟨hv, hP, hm, he⟩ hok
  obtain ⟨hfits, hP'⟩ := hstep past c s hv hP hok
  have hfits' : Memory.refinement.Fits m c := by
    cases c with
    | append e => exact fun ht => ⟨ht, fun _ => ⟨rfl, rfl⟩⟩
    | fetchDue limit now =>
      rw [Refinement.Fits, he] at hfits
      exact hfits
    | markDispatched clock id =>
      rw [Refinement.Fits, he] at hfits
      exact hfits
    | markFailed id error retryAt => exact ⟨trivial, rfl⟩
    | pendingCount | parkedCount => exact trivial
    | deadLetter | deadLetters => exact hfits.elim
  obtain ⟨hreply, hnext⟩ := R.call_agrees Memory.refinement hv hm he hfits hfits'
  exact ⟨hreply, (R.call_answers hv hfits).2, hP', Memory.valid_call c hm, hnext⟩

/-- The ranges both durable stores ask of a caller: stamps a signed column can
tell from its ceiling, headers the codec can write, and `mark_dispatched` only
for an event stored before. A limit past the signed range shows only once that
many calls have been made. -/
def WithinColumns (past : List Call) : Call → Prop
  | .append e => topicValid e.topic = true → e.createdAt.toNat < 2^63-1 ∧ HeadersFit e.headers
  | .fetchDue limit _ => limit.toNat < 2^63 ∨ past.length < 2^63
  | .markDispatched _ id => record id past ≠ none
  | .markFailed _ _ retryAt => retryAt.toNat < 2^63-1 ∨ retryAt = never
  | .pendingCount | .parkedCount => True
  | .deadLetter .. | .deadLetters _ => False

instance (past : List Call) (c : Call) : Decidable (WithinColumns past c) :=
  match c with
  | .append _ => inferInstanceAs (Decidable (_ → _ ∧ HeadersFit _))
  | .fetchDue .. => inferInstanceAs (Decidable (_ ∨ _))
  | .markDispatched .. => inferInstanceAs (Decidable (¬record _ past = none))
  | .markFailed .. => inferInstanceAs (Decidable (_ ∨ _))
  | .pendingCount | .parkedCount => inferInstanceAs (Decidable True)
  | .deadLetter .. | .deadLetters _ => inferInstanceAs (Decidable False)

section Tracks
variable {ρ : Type} {attempts : ρ → Int} {done : ρ → Bool} {past : List Call}
  {t : ExtTreeMap String ρ}

/-- A table holds a row for every known event, with its count and its end. -/
def Tracks (attempts : ρ → Int) (done : ρ → Bool) (past : List Call)
    (t : ExtTreeMap String ρ) : Prop :=
  ∀ id : EventId, Option.Rel (fun row r => attempts row = (r.attempts.toNat+r.failures : Nat) ∧
    done row = r.dispatched) t[id.text]? (record id past)

theorem tracks_empty : Tracks attempts done [] ∅ := by
  intro id
  have hnone : (∅ : ExtTreeMap String ρ)[id.text]? = none := by simp
  rw [hnone]
  exact .none

theorem Tracks.keep {c : Call} (h : Tracks attempts done past t)
    (hc : ∀ id, c.target = some id → Record.next id (record id past) c = record id past) :
    Tracks attempts done (past++[c]) t := by
  intro id
  rw [record_concat]
  by_cases ht : c.target = some id
  · rw [hc id ht]
    exact h id
  · rw [Record.next_of_ne ht]
    exact h id

theorem Tracks.invalid {e : OutboxEvent} (h : Tracks attempts done past t)
    (ht : topicValid e.topic = false) : Tracks attempts done (past++[.append e]) t := by
  refine h.keep fun id _ => ?_
  cases record id past <;> simp [Record.next, ht]

theorem Tracks.write {c : Call} {row : ρ} {r : Record}
    (h : Tracks attempts done past t) (id : EventId) (ht : c.target = some id)
    (hr : Record.next id (record id past) c = some r)
    (hrow : attempts row = (r.attempts.toNat+r.failures : Nat) ∧ done row = r.dispatched) :
    Tracks attempts done (past++[c]) (t.insert id.text row) := by
  intro k
  rw [record_concat]
  by_cases hk : id = k
  · subst hk
    rw [hr, ExtTreeMap.getElem?_insert_self]
    exact .some hrow
  · rw [Record.next_of_ne (by rw [ht]; simpa using hk), ExtTreeMap.getElem?_insert]
    simpa [EventId.text_inj, hk] using h k

theorem Tracks.known (h : Tracks attempts done past t) {id : EventId} {row : ρ}
    (hget : t[id.text]? = some row) : ∃ r, record id past = some r ∧
      attempts row = (r.attempts.toNat+r.failures : Nat) ∧ done row = r.dispatched := by
  have hid := h id
  rw [hget] at hid
  cases hr : record id past with
  | none => rw [hr] at hid; cases hid
  | some r =>
    rw [hr] at hid
    cases hid with | some hrow => exact ⟨r, rfl, hrow⟩

theorem Tracks.recorded (h : Tracks attempts done past t) {id : EventId}
    (hr : record id past ≠ none) : ∃ row, t[id.text]? = some row := by
  have hid := h id
  cases hget : t[id.text]? with
  | some row => exact ⟨row, rfl⟩
  | none =>
    rw [hget] at hid
    cases hrec : record id past with
    | none => exact absurd hrec hr
    | some r =>
      rw [hrec] at hid
      cases hid

theorem Tracks.unknown (h : Tracks attempts done past t) {id : EventId}
    (hget : t[id.text]? = none) : record id past = none := by
  have hid := h id
  rw [hget] at hid
  cases hr : record id past with
  | none => rfl
  | some r => rw [hr] at hid; cases hid

section RowTable
variable {τ : Type} {T : RowTable τ ρ} {s s' : τ} {result : Except StoreError Unit}
  {skips : ρ → Prop} {rewrites : ρ → ρ → Prop} {id : EventId}

theorem RowTable.Appends.tracks {e : OutboxEvent} (ha : T.Appends e s result s')
    (h : Tracks attempts done past (T.rows s)) (hok : result = .ok ())
    (ht : topicValid e.topic = true)
    (hnew : record e.id past = none → ∀ row, T.Inserts e row →
      attempts row = e.attempts.toNat ∧ done row = false) :
    Tracks attempts done (past++[.append e]) (T.rows s') := by
  cases ha with
  | refused err hacc => cases hok
  | known row hacc hget =>
    obtain ⟨r, hr, -⟩ := h.known hget
    refine h.keep fun id hid => ?_
    cases hid
    rw [hr, Record.next]
    all_goals simp
  | inserted row hacc hget hrow =>
    have hnone := h.unknown hget
    rw [T.rows_write]
    refine h.write e.id (r := ⟨e.attempts, 0, false⟩) rfl ?_ (hnew hnone row hrow)
    rw [hnone, Record.next, if_pos ⟨rfl, ht⟩]

theorem RowTable.Marks.tracks_dispatched (hm : T.Marks skips rewrites id s result s')
    (clock : UInt64) (h : Tracks attempts done past (T.rows s)) (hok : result = .ok ())
    (hskip : ∀ row, skips row → done row = true)
    (hrow : ∀ old new, rewrites old new → attempts new = attempts old ∧ done new = true) :
    Tracks attempts done (past++[.markDispatched clock id]) (T.rows s') := by
  cases hm with
  | refused err => cases hok
  | unknown hget =>
    refine h.keep fun k hk => ?_
    cases hk
    rw [h.unknown hget]
    rfl
  | skipped row hget hs =>
    obtain ⟨r, hr, -, hdone⟩ := h.known hget
    refine h.keep fun k hk => ?_
    cases hk
    rw [hskip row hs] at hdone
    rw [hr, Record.next, if_pos rfl, hdone]
  | written old new hget hnew =>
    obtain ⟨r, hr, hattempts, -⟩ := h.known hget
    obtain ⟨hsame, hdone⟩ := hrow old new hnew
    rw [T.rows_write]
    refine h.write id (r := { r with dispatched := true }) rfl ?_ ⟨hsame.trans hattempts, hdone⟩
    rw [hr, Record.next, if_pos rfl]

theorem RowTable.Marks.tracks_failed (hm : T.Marks skips rewrites id s result s')
    {error : String} {retryAt : UInt64} (h : Tracks attempts done past (T.rows s))
    (hok : result = .ok ()) (hskip : ∀ row, ¬skips row)
    (hrow : ∀ old new, (T.rows s)[id.text]? = some old →
      rewrites old new → attempts new = attempts old+1 ∧ done new = done old) :
    Tracks attempts done (past++[.markFailed id error retryAt]) (T.rows s') := by
  cases hm with
  | refused err => cases hok
  | unknown hget =>
    refine h.keep fun k hk => ?_
    cases hk
    rw [h.unknown hget]
    rfl
  | skipped row hget hs => exact absurd hs (hskip row)
  | written old new hget hnew =>
    obtain ⟨r, hr, hattempts, hdone⟩ := h.known hget
    obtain ⟨hsucc, hsame⟩ := hrow old new hget hnew
    rw [T.rows_write]
    refine h.write id (r := { r with failures := r.failures+1 }) rfl ?_
      ⟨?_, hsame.trans hdone⟩
    · rw [hr, Record.next, if_pos rfl]
    · simp only [hsucc, hattempts]
      omega

end RowTable

/-- Fewer calls than the signed range make fewer due events. -/
theorem Tracks.due_length (h : Tracks attempts done past t) {o : Outbox}
    (ho : ∀ id : EventId, t[id.text]? = none → o id = .absent) {limit now : UInt64}
    (hpast : limit.toNat < 2^63 ∨ past.length < 2^63) :
    limit.toNat < 2^63 ∨ ∀ l, o.DueList now l → l.length < 2^63 := by
  refine hpast.imp_right fun hlen l hl => ?_
  have hle := hl.length_le (past.filterMap Call.target) fun id hne => by
    cases hget : t[id.text]? with
    | none => exact absurd (ho id hget) hne
    | some row =>
      obtain ⟨r, hr, -⟩ := h.known hget
      exact mem_target_of_record (by rw [hr]; simp)
  have := List.length_filterMap_le Call.target past
  omega

end Tracks

section Sqlite

/-- What the SQLite store asks beyond the shared ranges: its attempt counter is a
64-bit integer that must not overflow. -/
def SqliteFits (past : List Call) (c : Call) : Prop :=
  WithinColumns past c ∧ match c with
    | .markFailed id _ _ => ∀ r ∈ record id past, r.failures+1 < 2^63-2^32
    | _ => True

instance (past : List Call) (c : Call) : Decidable (SqliteFits past c) :=
  match c with
  | .append .. | .fetchDue .. | .markDispatched .. | .pendingCount | .parkedCount
  | .deadLetter .. | .deadLetters _ => inferInstanceAs (Decidable (WithinColumns _ _ ∧ True))
  | .markFailed id .. => inferInstanceAs (Decidable (WithinColumns _ _ ∧ ∀ r ∈ record id past, _))

def SqliteTracks (past : List Call) (t : Sqlite.Tables) : Prop :=
  Tracks Sqlite.EventRow.attempts (fun row => row.dispatchedAt.isSome) past t.outboxEvents

/-- One admissible call: the store has room for it and keeps its ledger. -/
theorem sqlite_step (U : UuidCrate) {past : List Call} {c : Call} {t : Sqlite.Tables}
    (hv : Sqlite.Valid t) (h : SqliteTracks past t) (hok : SqliteFits past c) :
    (Sqlite.refinement U).Fits t c ∧ SqliteTracks (past++[c]) ((Sqlite.store U).call c t).2 := by
  obtain ⟨hcols, hcount⟩ := hok
  cases c with
  | append e =>
    cases ht : topicValid e.topic with
    | false =>
      refine ⟨fun hvalid => absurd hvalid (by simp [ht]), ?_⟩
      change SqliteTracks _ (Sqlite.append e t).2
      rw [Sqlite.append_invalid t ht]
      exact h.invalid ht
    | true =>
      obtain ⟨hcreated, hheaders⟩ := hcols ht
      have hok := (Sqlite.appends e t).ok_iff.mpr ⟨ht, hheaders⟩
      refine ⟨fun _ => ⟨⟨ht, hheaders⟩, fun _ => ⟨stampOf_clampI64 (Or.inl hcreated), ?_⟩⟩,
        (Sqlite.appends e t).tracks h hok ht fun _ row hrow =>
          ⟨Sqlite.attempts_of_inserts hrow, ?_⟩⟩
      · change Sqlite.norm e = e
        rw [Sqlite.norm, unclampU64_clampI64 (by omega)]
      · obtain ⟨blob, -, rfl⟩ := hrow
        rfl
  | fetchDue limit now =>
    exact ⟨h.due_length (fun _ => Sqlite.entry_none U) hcols, h.keep (by simp [Call.target])⟩
  | markDispatched clock id =>
    obtain ⟨row, hget⟩ := h.recorded hcols
    have hknown : Sqlite.entry U t id ≠ .absent := by
      rw [Sqlite.entry_some U hget]
      exact Sqlite.read_ne_absent U (hv _ _ hget)
    have hok := ((Sqlite.refinement U).markDispatched_ok t clock id hv hknown).1
    refine ⟨hknown, (Sqlite.dispatches clock id t).tracks_dispatched clock h hok
      (fun _ hdone => hdone) fun old new hrow => ?_⟩
    subst hrow
    exact ⟨rfl, rfl⟩
  | markFailed id error retryAt =>
    have hroom : ∀ row, t.outboxEvents[id.text]? = some row → row.attempts < i64Max := by
      intro row hget
      obtain ⟨r, hr, hattempts, -⟩ := h.known hget
      have hlt : r.failures+1 < 2^63-2^32 := hcount r hr
      have hu := r.attempts.toNat_lt
      rw [hattempts, i64Max]
      omega
    have hok := ((Sqlite.refinement U).markFailed_ok t id error retryAt hv hroom).1
    refine ⟨⟨hroom, stampOf_clampI64 hcols⟩, (Sqlite.fails id error retryAt t).tracks_failed h hok
      (fun _ => not_false) fun old new _ hrow => ?_⟩
    subst hrow
    exact ⟨rfl, rfl⟩
  | pendingCount => exact ⟨trivial, h.keep (by simp [Call.target])⟩
  | parkedCount => exact ⟨trivial, h.keep (by simp [Call.target])⟩
  | deadLetter | deadLetters => exact hcols.elim

/-- The SQLite store and the in-process store answer every admissible sequence of
calls alike, from empty. -/
theorem sqlite_answers_as_memory (U : UuidCrate) (calls : List Call)
    (h : Admissible SqliteFits calls) :
    answers (Sqlite.store U).call Sqlite.empty calls =
      answers Memory.store.call Memory.new calls := by
  refine answers_as_memory (Sqlite.refinement U) (P := SqliteTracks) Sqlite.valid_empty ?_
    tracks_empty (fun past c t hv hT hok => sqlite_step U hv hT hok) h
  funext id
  simp [Sqlite.refinement, Sqlite.entry, tableEntry, Sqlite.empty, Memory.entry, Memory.new]

/-- An event that fails, parks, is delivered, fails once more and is appended again. -/
def parkedThenDelivered : List Call :=
  [.append (.sample 1 5), .markFailed (.ofByte 9) "unknown" 7, .fetchDue 10 100,
    .markFailed (.ofByte 1) "boom" never, .parkedCount, .markDispatched 3 (.ofByte 1),
    .markFailed (.ofByte 1) "late" 8, .append (.sample 1 6), .pendingCount]

theorem sqlite_answers_parkedThenDelivered :
    answers (Sqlite.store .hyphenatedOnly).call Sqlite.empty parkedThenDelivered =
      answers Memory.store.call Memory.new parkedThenDelivered :=
  sqlite_answers_as_memory .hyphenatedOnly parkedThenDelivered (by decide +kernel)

end Sqlite

section Postgres

/-- What the Postgres store asks beyond the shared ranges: its counter is a 32-bit
integer, its texts hold no U+0000, and `mark_failed` has no guard against an
event that is already dispatched. -/
def PostgresFits (past : List Call) (c : Call) : Prop :=
  WithinColumns past c ∧ match c with
    | .append e => topicValid e.topic = true → (∀ err ∈ e.lastError, hasNul err = false) ∧
      (record e.id past = none → e.attempts.toNat ≤ 2^31-1)
    | .markFailed id error _ => hasNul error = false ∧ ∀ r ∈ record id past,
      r.dispatched = false ∧ r.attempts.toNat+r.failures+1 ≤ 2^31-1
    | _ => True

instance (past : List Call) (c : Call) : Decidable (PostgresFits past c) :=
  match c with
  | .append e => inferInstanceAs (Decidable (WithinColumns _ _ ∧
      (_ → (∀ err ∈ e.lastError, hasNul err = false) ∧ (record e.id past = none → _))))
  | .fetchDue .. | .markDispatched .. | .pendingCount | .parkedCount
  | .deadLetter .. | .deadLetters _ => inferInstanceAs (Decidable (WithinColumns _ _ ∧ True))
  | .markFailed id error _ => inferInstanceAs (Decidable (WithinColumns _ _ ∧
      hasNul error = false ∧ ∀ r ∈ record id past, _ ∧ _))

def PostgresTracks (past : List Call) (t : Postgres.Tables) : Prop :=
  Tracks Postgres.EventRow.attempts (fun row => row.status == .dispatched) past t.outboxEvents

theorem postgres_step (U : UuidCrate) {past : List Call} {c : Call} {t : Postgres.Tables}
    (hv : Postgres.Valid t) (h : PostgresTracks past t) (hok : PostgresFits past c) :
    (Postgres.refinement U).Fits t c ∧
      PostgresTracks (past++[c]) ((Postgres.store U).call c t).2 := by
  obtain ⟨hcols, hextra⟩ := hok
  cases c with
  | append e =>
    cases ht : topicValid e.topic with
    | false =>
      refine ⟨fun hvalid => absurd hvalid (by simp [ht]), ?_⟩
      change PostgresTracks _ (Postgres.append e t).2
      rw [Postgres.append_invalid t ht]
      exact h.invalid ht
    | true =>
      obtain ⟨hcreated, hheaders⟩ := hcols ht
      obtain ⟨hnul, hattempts⟩ := hextra ht
      have hacc : Postgres.Storable e := ⟨ht, hheaders, hnul⟩
      have hok := (Postgres.appends e t).ok_iff.mpr hacc
      refine ⟨fun _ => ⟨⟨hacc, hcreated⟩, fun habs => ⟨stampOf_clampI64 (Or.inl hcreated), ?_⟩⟩,
        (Postgres.appends e t).tracks h hok ht fun hnone row hrow => ⟨?_, ?_⟩⟩
      · have hnew : record e.id past = none := by
          by_contra hr
          obtain ⟨row, hget⟩ := h.recorded hr
          have hread := Postgres.entry_some U hget
          exact absurd (hread.symm.trans habs) (Postgres.read_ne_absent U (hv _ _ hget))
        have hle := hattempts hnew
        exact Postgres.norm_eq (by omega) (by omega)
      · have hle := hattempts hnone
        rw [Postgres.attempts_of_inserts hrow, i32Max]
        omega
      · obtain ⟨blob, -, rfl⟩ := hrow
        rfl
  | fetchDue limit now =>
    exact ⟨h.due_length (fun _ => Postgres.entry_none U) hcols, h.keep (by simp [Call.target])⟩
  | markDispatched clock id =>
    obtain ⟨row, hget⟩ := h.recorded hcols
    have hknown : Postgres.entry U t id ≠ .absent := by
      rw [Postgres.entry_some U hget]
      exact Postgres.read_ne_absent U (hv _ _ hget)
    have hok := ((Postgres.refinement U).markDispatched_ok t clock id hv hknown).1
    refine ⟨hknown, (Postgres.dispatches clock id t).tracks_dispatched clock h hok
      (fun _ hdone => beq_iff_eq.mpr hdone) fun old new hrow => ?_⟩
    subst hrow
    exact ⟨rfl, rfl⟩
  | markFailed id error retryAt =>
    have hroom : Postgres.Room t id error := by
      refine ⟨hasNul_truncateTo hextra.1, fun row hget => ?_⟩
      obtain ⟨r, hr, hattempts, hdone⟩ := h.known hget
      obtain ⟨hlive, hle⟩ := hextra.2 r hr
      refine ⟨by simpa [hlive] using hdone, ?_⟩
      rw [hattempts, i32Max]
      omega
    have hok := ((Postgres.refinement U).markFailed_ok t id error retryAt hv hroom).1
    refine ⟨⟨hroom, stampOf_clampI64 hcols⟩, (Postgres.fails id error retryAt t).tracks_failed h hok
      (fun _ => not_false) fun old new hget hrow => ?_⟩
    -- a row that fails within the ranges was live, and stays so
    subst hrow
    have hlive : (old.status == .dispatched) = false := by simpa using (hroom.2 old hget).1
    refine ⟨rfl, ?_⟩
    rw [hlive, beq_eq_false_iff_ne]
    exact Postgres.statusFor_ne_dispatched _
  | pendingCount => exact ⟨trivial, h.keep (by simp [Call.target])⟩
  | parkedCount => exact ⟨trivial, h.keep (by simp [Call.target])⟩
  | deadLetter | deadLetters => exact hcols.elim

/-- For one sequential client the Postgres store and the in-process store answer
every admissible sequence of calls alike, from empty. -/
theorem postgres_answers_as_memory (U : UuidCrate) (calls : List Call)
    (h : Admissible PostgresFits calls) :
    answers (Postgres.store U).call Postgres.empty calls =
      answers Memory.store.call Memory.new calls := by
  refine answers_as_memory (Postgres.refinement U) (P := PostgresTracks) Postgres.valid_empty ?_
    tracks_empty (fun past c t hv hT hok => postgres_step U hv hT hok) h
  funext id
  simp [Postgres.refinement, Postgres.entry, tableEntry, Postgres.empty, Memory.entry, Memory.new]

/-- An event that fails, parks, is revived, parks again and is delivered. -/
def revivedThenDelivered : List Call :=
  [.append (.sample 1 5), .markFailed (.ofByte 1) "boom" never, .append (.sample 1 9),
    .markFailed (.ofByte 1) "again" 8, .fetchDue 10 100, .markFailed (.ofByte 1) "last" never,
    .parkedCount, .markDispatched 3 (.ofByte 1), .append (.sample 1 5), .pendingCount]

theorem postgres_answers_revivedThenDelivered :
    answers (Postgres.store .hyphenatedOnly).call Postgres.empty revivedThenDelivered =
      answers Memory.store.call Memory.new revivedThenDelivered :=
  postgres_answers_as_memory .hyphenatedOnly revivedThenDelivered (by decide +kernel)

end Postgres
end OutboxKit
