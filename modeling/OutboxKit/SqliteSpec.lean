import OutboxKit.Sqlite

/-! The SQLite store refines the outbox model: a row stands for one entry, and
each call changes one row as the model changes that entry. -/
namespace OutboxKit.Sqlite
open Std Machine Ordered Commit

def read (U : UuidCrate) (id : EventId) (row : EventRow) : Entry :=
  if row.dispatchedAt.isSome then .dispatched
  else match eventFromRow U (id.text, row) with
    | .ok e => .live (stampOf row.nextAttemptAt) e
    | .error _ => .absent

def entry (U : UuidCrate) (t : Tables) : Outbox := tableEntry (read U) t.outboxEvents

def Valid (t : Tables) : Prop := ∀ (key : String) (row : EventRow),
  t.outboxEvents[key]? = some row → Columns key row.headers row.attempts row.nextAttemptAt

def Accepts (e : OutboxEvent) : Prop := topicValid e.topic = true ∧ HeadersFit e.headers

theorem valid_empty : Valid empty := fun key row h => by simp [empty] at h

theorem valid_write {t : Tables} {key : String} {row : EventRow} (hv : Valid t)
    (hrow : Columns key row.headers row.attempts row.nextAttemptAt) :
    Valid (t.write key row) := by
  intro k r h
  simp only [Tables.write, ExtTreeMap.getElem?_insert, LawfulEqCmp.compare_eq_iff_eq] at h
  split at h
  · rename_i hk
    cases h
    exact hk ▸ hrow
  · exact hv k r h

/-- An append that goes through leaves a known row alone and writes a new one. -/
theorem append_cases {e : OutboxEvent} (t : Tables) (h : Accepts e) :
    (∃ row, t.outboxEvents[e.id.text]? = some row ∧ append e t = (.ok (), t)) ∨
    (t.outboxEvents[e.id.text]? = none ∧ ∃ blob, decodeHeaders blob = .ok e.headers ∧
      append e t = (.ok (), t.write e.id.text (rowOf e blob))) := by
  obtain ⟨blob, henc, hdec⟩ := decode_encode_headers h.2
  have happ : append e t = (.ok (),
      ⟨t.outboxEvents.insertIfNew e.id.text (rowOf e blob), t.outboxDeadLetters⟩) := by
    rw [append, OutboxEvent.checked_ok h.1]
    simp only [henc]
    exact execute_ok rfl
  cases hget : t.outboxEvents[e.id.text]? with
  | some row => exact Or.inl ⟨row, rfl, by rw [happ, insertIfNew_of_some hget]⟩
  | none => exact Or.inr ⟨rfl, blob, hdec, by rw [happ, insertIfNew_of_none hget]; rfl⟩

theorem append_invalid {e : OutboxEvent} (t : Tables) (ht : topicValid e.topic = false) :
    append e t = (.error (.invalidTopic e.topic), t) := by
  rw [append, OutboxEvent.checked_error ht]

theorem append_refused {e : OutboxEvent} (t : Tables) (h : ¬Accepts e) :
    ∃ err, append e t = (.error err, t) := by
  cases ht : topicValid e.topic with
  | false => exact ⟨_, append_invalid t ht⟩
  | true =>
    obtain ⟨err, henc⟩ := encode_headers_error (fun hfit => h ⟨ht, hfit⟩)
    refine ⟨err, ?_⟩
    rw [append, OutboxEvent.checked_ok ht]
    simp only [henc]

theorem clampI64_attempts (n : UInt32) : clampI64 n.toUInt64 = n.toNat := by
  have hn := n.toNat_lt
  rw [clampI64_eq, UInt32.toNat_toUInt64, i64Max]
  omega

theorem columns_rowOf {e : OutboxEvent} {blob : List UInt8}
    (h : decodeHeaders blob = .ok e.headers) :
    Columns e.id.text (rowOf e blob).headers (rowOf e blob).attempts
      (rowOf e blob).nextAttemptAt :=
  ⟨⟨e.id, rfl⟩, ⟨e.headers, h⟩, clampI64_nonneg _, clampI64_nonneg _⟩

/-- The envelope as the columns keep it: only a stamp past the signed range moves. -/
def norm (e : OutboxEvent) : OutboxEvent :=
  { e with createdAt := unclampU64 (clampI64 e.createdAt) }

theorem read_rowOf (U : UuidCrate) {e : OutboxEvent} {blob : List UInt8}
    (h : decodeHeaders blob = .ok e.headers) :
    read U e.id (rowOf e blob) = .live (stampOf (clampI64 e.createdAt)) (norm e) := by
  have hdecode : eventFromRow U (e.id.text, rowOf e blob) = .ok (norm e) := by
    rw [eventFromRow]
    simp only [rowOf, decodeEvent_ok U e.id _ _ _ _ _ h, norm, clampI64_attempts,
      tryU32_natCast (n := e.attempts.toNat) rfl, Option.getD_some]
  rw [read, if_neg (by simp [rowOf]), hdecode]
  rfl

theorem read_live (U : UuidCrate) {key : String} {row : EventRow}
    (h : Columns key row.headers row.attempts row.nextAttemptAt) (hd : row.dispatchedAt = none) :
    ∃ e : OutboxEvent, key = e.id.text ∧ eventFromRow U (key, row) = .ok e ∧
      read U e.id row = .live (stampOf row.nextAttemptAt) e := by
  obtain ⟨e, rfl, he⟩ := h.decode U row.topic row.payload row.createdAt row.lastError
  refine ⟨e, rfl, he, ?_⟩
  rw [read, hd, if_neg (by simp), eventFromRow]
  simp only [he]

theorem read_failed (U : UuidCrate) {e : OutboxEvent} {row : EventRow} (error : String) (due : Int)
    (h₀ : 0 ≤ row.attempts) (hd : row.dispatchedAt = none)
    (h : eventFromRow U (e.id.text, row) = .ok e) :
    read U e.id (row.failed (truncateError error) due) = .live (stampOf due) (e.failed error) := by
  have he := decodeEvent_failed U error h₀ h
  rw [read, if_neg (by simp [EventRow.failed, hd]), eventFromRow]
  simp only [EventRow.failed, he]

theorem entry_live_iff (U : UuidCrate) {t : Tables} {id : EventId} {stamp : UInt64}
    {e : OutboxEvent} : entry U t id = .live stamp e ↔ ∃ row, t.outboxEvents[id.text]? = some row ∧
      row.dispatchedAt = none ∧ eventFromRow U (id.text, row) = .ok e ∧
      stamp = stampOf row.nextAttemptAt := by
  unfold entry tableEntry
  cases hget : t.outboxEvents[id.text]? with
  | none => simp
  | some row =>
    unfold read
    cases hd : row.dispatchedAt with
    | some d => simp [hd]
    | none =>
      cases hdec : eventFromRow U (id.text, row) with
      | error err => simp [hd, hdec]
      | ok f => simp [hd, hdec, eq_comm, and_comm]

theorem markDispatched_cases (clock : UInt64) (id : EventId) (t : Tables) :
    ((∀ row, t.outboxEvents[id.text]? = some row → row.dispatchedAt.isSome) ∧
      markDispatched clock id t = (.ok (), t)) ∨
    (∃ row, t.outboxEvents[id.text]? = some row ∧ row.dispatchedAt = none ∧
      markDispatched clock id t = (.ok (),
        t.write id.text { row with dispatchedAt := some (clampI64 clock) })) := by
  cases hget : t.outboxEvents[id.text]? with
  | none => exact Or.inl ⟨by simp, execute_ok (by simp [updateDispatched, hget])⟩
  | some row =>
    cases hd : row.dispatchedAt with
    | some d => exact Or.inl ⟨by simp [hd], execute_ok (by simp [updateDispatched, hget, hd])⟩
    | none => exact Or.inr ⟨row, rfl, hd, execute_ok (by simp [updateDispatched, hget, hd])⟩

theorem markFailed_cases (id : EventId) (error : String) (retryAt : UInt64) (t : Tables) :
    (t.outboxEvents[id.text]? = none ∧ markFailed id error retryAt t = (.ok (), t)) ∨
    (∃ row, t.outboxEvents[id.text]? = some row ∧ row.attempts < i64Max ∧
      markFailed id error retryAt t = (.ok (),
        t.write id.text (row.failed (truncateError error) (clampI64 retryAt)))) ∨
    (∃ row, t.outboxEvents[id.text]? = some row ∧ ¬row.attempts < i64Max ∧
      markFailed id error retryAt t = (.error (backend .integerOutOfRange), t)) := by
  cases hget : t.outboxEvents[id.text]? with
  | none => exact Or.inl ⟨rfl, execute_ok (by simp [updateFailed, hget])⟩
  | some row =>
    by_cases hlt : row.attempts < i64Max
    · exact Or.inr (Or.inl ⟨row, rfl, hlt, execute_ok (by simp [updateFailed, hget, hlt])⟩)
    · exact Or.inr (Or.inr ⟨row, rfl, hlt, execute_error (by simp [updateFailed, hget, hlt])⟩)

def rowTable : RowTable Tables EventRow where
  rows := Tables.outboxEvents
  write := Tables.write
  Accepts := Accepts
  Inserts e row := ∃ blob, decodeHeaders blob = .ok e.headers ∧ row = rowOf e blob
  rows_write _ _ _ := rfl

theorem appends (e : OutboxEvent) (t : Tables) :
    rowTable.Appends e t (append e t).1 (append e t).2 := by
  by_cases hacc : Accepts e
  · rcases append_cases t hacc with ⟨row, hget, happ⟩ | ⟨hget, blob, hdec, happ⟩
    · rw [happ]
      exact .known row hacc hget
    · rw [happ]
      exact .inserted _ hacc hget ⟨blob, hdec, rfl⟩
  · obtain ⟨err, happ⟩ := append_refused t hacc
    rw [happ]
    exact .refused err hacc

theorem attempts_of_inserts {e : OutboxEvent} {row : EventRow} (h : rowTable.Inserts e row) :
    row.attempts = e.attempts.toNat := by
  obtain ⟨blob, -, rfl⟩ := h
  exact clampI64_attempts e.attempts

theorem dispatches (clock : UInt64) (k : EventId) (t : Tables) :
    rowTable.Marks (fun row => row.dispatchedAt.isSome = true)
      (fun old new => new = { old with dispatchedAt := some (clampI64 clock) }) k t
      (markDispatched clock k t).1 (markDispatched clock k t).2 := by
  rcases markDispatched_cases clock k t with ⟨hdone, hm⟩ | ⟨row, hget, -, hm⟩
  · rw [hm]
    cases hget : t.outboxEvents[k.text]? with
    | none => exact .unknown hget
    | some row => exact .skipped row hget (hdone row hget)
  · rw [hm]
    exact .written row _ hget rfl

theorem fails (k : EventId) (error : String) (retryAt : UInt64) (t : Tables) :
    rowTable.Marks (fun _ => False)
      (fun old new => new = old.failed (truncateError error) (clampI64 retryAt)) k t
      (markFailed k error retryAt t).1 (markFailed k error retryAt t).2 := by
  rcases markFailed_cases k error retryAt t with ⟨hget, hm⟩ | ⟨row, hget, -, hm⟩ | ⟨row, -, -, hm⟩
  · rw [hm]
    exact .unknown hget
  · rw [hm]
    exact .written row _ hget rfl
  · rw [hm]
    exact .refused _

theorem entry_write (U : UuidCrate) (t : Tables) (id : EventId) (row : EventRow) :
    entry U (t.write id.text row) = Function.update (entry U t) id (read U id row) :=
  tableEntry_insert (read U) t.outboxEvents id row

theorem entry_some (U : UuidCrate) {t : Tables} {id : EventId} {row : EventRow}
    (h : t.outboxEvents[id.text]? = some row) : entry U t id = read U id row := by
  rw [entry, tableEntry, h]

theorem entry_none (U : UuidCrate) {t : Tables} {id : EventId}
    (h : t.outboxEvents[id.text]? = none) : entry U t id = .absent := by
  rw [entry, tableEntry, h]

theorem read_dispatched (U : UuidCrate) (id : EventId) {row : EventRow}
    (h : row.dispatchedAt.isSome) : read U id row = .dispatched := by
  rw [read, if_pos h]

theorem read_ne_absent (U : UuidCrate) {id : EventId} {row : EventRow}
    (h : Columns id.text row.headers row.attempts row.nextAttemptAt) : read U id row ≠ .absent := by
  cases hd : row.dispatchedAt with
  | some d =>
    rw [read_dispatched U id (by rw [hd]; rfl)]
    simp
  | none =>
    obtain ⟨e, he, -, hread⟩ := read_live U h hd
    rw [EventId.text_inj.mp he, hread]
    simp

theorem reading (U : UuidCrate) {t : Tables} (hv : Valid t) :
    Reading EventRow.nextAttemptAt (fun row => row.dispatchedAt.isNone) (eventFromRow U)
      t.outboxEvents (entry U t) where
  row key row hget hlive := by
    obtain ⟨e, hk, he, -⟩ := read_live U (hv key row hget) (Option.isNone_iff_eq_none.mp hlive)
    exact ⟨e, hk, he, (hv key row hget).due⟩
  entry due e := by
    rw [entry_live_iff]
    simp only [Option.isNone_iff_eq_none]

theorem entry_append (U : UuidCrate) {t : Tables} {e : OutboxEvent} (hv : Valid t)
    (h : Accepts e) : (append e t).1 = .ok () ∧ Valid (append e t).2 ∧
      entry U (append e t).2 = (entry U t).append (stampOf (clampI64 e.createdAt)) (norm e) := by
  rcases append_cases t h with ⟨row, hget, happ⟩ | ⟨hget, blob, hdec, happ⟩
  · have hne : entry U t e.id ≠ .absent := by
      rw [entry_some U hget]
      exact read_ne_absent U (hv _ _ hget)
    rw [happ, Outbox.append_known (e := norm e) hne]
    exact ⟨rfl, hv, rfl⟩
  · rw [happ, Outbox.append_absent (e := norm e) (entry_none U hget)]
    refine ⟨rfl, valid_write hv (columns_rowOf hdec), ?_⟩
    rw [entry_write, read_rowOf U hdec]
    rfl

theorem entry_markDispatched (U : UuidCrate) {t : Tables} (clock : UInt64) {id : EventId}
    (hv : Valid t) (hne : entry U t id ≠ .absent) :
    (markDispatched clock id t).1 = .ok () ∧ Valid (markDispatched clock id t).2 ∧
      entry U (markDispatched clock id t).2 = (entry U t).markDispatched id := by
  rcases markDispatched_cases clock id t with ⟨hd, h⟩ | ⟨row, hget, -, h⟩
  · rw [h]
    refine ⟨rfl, hv, ?_⟩
    cases hget : t.outboxEvents[id.text]? with
    | none => exact absurd (entry_none U hget) hne
    | some row =>
      have hread := (entry_some U hget).trans (read_dispatched U id (hd row hget))
      rw [Outbox.markDispatched, ← hread, Function.update_eq_self]
  · rw [h]
    have hcol := hv _ _ hget
    refine ⟨rfl, valid_write hv ⟨hcol.key, hcol.headers, hcol.attempts, hcol.due⟩, ?_⟩
    rw [entry_write, read_dispatched U id rfl]
    rfl

theorem entry_markFailed (U : UuidCrate) {t : Tables} {id : EventId} (error : String)
    (retryAt : UInt64) (hv : Valid t)
    (hroom : ∀ row, t.outboxEvents[id.text]? = some row → row.attempts < i64Max) :
    (markFailed id error retryAt t).1 = .ok () ∧ Valid (markFailed id error retryAt t).2 ∧
      entry U (markFailed id error retryAt t).2 =
        (entry U t).markFailed id error (stampOf (clampI64 retryAt)) := by
  rcases markFailed_cases id error retryAt t with ⟨hget, h⟩ | ⟨row, hget, -, h⟩ | ⟨row, hget, hn, -⟩
  · rw [h, Outbox.markFailed_not_live (by rw [entry_none U hget]; simp)]
    exact ⟨rfl, hv, rfl⟩
  · have hcol := hv _ _ hget
    have h₀ : 0 ≤ row.attempts+1 := by
      have := hcol.attempts
      omega
    rw [h]
    refine ⟨rfl, valid_write hv ⟨hcol.key, hcol.headers, h₀, clampI64_nonneg _⟩, ?_⟩
    rw [entry_write]
    cases hd : row.dispatchedAt with
    | some d =>
      have hread := entry_some U hget
      rw [read_dispatched U id (by rw [hd]; rfl)] at hread
      rw [read_dispatched U id (by rw [EventRow.failed, hd]; rfl),
        Outbox.markFailed_not_live (by rw [hread]; simp), ← hread, Function.update_eq_self]
    | none =>
      obtain ⟨e, he, hdec, hread⟩ := read_live U hcol hd
      rw [EventId.text_inj] at he
      subst he
      rw [read_failed U error _ hcol.attempts hd hdec,
        Outbox.markFailed_live ((entry_some U hget).trans hread)]
  · exact absurd (hroom row hget) hn

theorem fetchDue_ok (U : UuidCrate) {t : Tables} (limit now : UInt64) (hv : Valid t) :
    ∃ l n, (entry U t).DueList now l ∧ (n = limit.toNat ∨ 2^63 ≤ n+1 ∧ 2^63 ≤ limit.toNat) ∧
      fetchDue U limit now t = .ok ((l.take n).map (·.2)) := by
  obtain ⟨l, hl, htake⟩ := (reading U hv).dueList (isDue now) now fun key row _ => by
    simp [isDue, and_assoc]
  exact ⟨l, _, hl, limitRows_cases limit, htake _⟩

theorem pendingCount_ok (U : UuidCrate) {t : Tables} (hv : Valid t) :
    ∃ l, (entry U t).Tally (· ≠ never) l ∧
      Reply.count (pendingCount t) = Outbox.countReply l.length := by
  refine (reading U hv).tally (· ≠ never) fun key row hget => ?_
  rw [stampOf_ne_never_iff (hv key row hget).due]
  simp

theorem parkedCount_ok (U : UuidCrate) {t : Tables} (hv : Valid t) :
    ∃ l, (entry U t).Tally (· = never) l ∧
      Reply.count (parkedCount t) = Outbox.countReply l.length := by
  refine (reading U hv).tally (· = never) fun key row hget => ?_
  rw [stampOf_eq_never_iff (hv key row hget).due]
  simp

/-- The SQLite store as an outbox. A stamp from `2^63-1` on is kept as `never`. -/
def refinement (U : UuidCrate) : Refinement (store U) where
  Valid := Valid
  entry := entry U
  stamp v := stampOf (clampI64 v)
  norm := norm
  Accepts := Accepts
  Room t id _ := ∀ row, t.outboxEvents[id.text]? = some row → row.attempts < i64Max
  norm_id _ := rfl
  filed t hv id stamp e h := by
    obtain ⟨row, hget, hd, he, -⟩ := (entry_live_iff U).mp h
    obtain ⟨f, hk, hf, -⟩ := read_live U (hv _ _ hget) hd
    rw [he, Except.ok.injEq] at hf
    rw [hf, EventId.text_inj.mp hk]
  append_ok _ _ := entry_append U
  append_invalid t _ := append_invalid t
  fetchDue_ok _ limit now := fetchDue_ok U limit now
  markDispatched_ok _ clock _ := entry_markDispatched U clock
  markFailed_ok _ _ error retryAt := entry_markFailed U error retryAt
  pendingCount_ok _ := pendingCount_ok U
  parkedCount_ok _ := parkedCount_ok U

theorem refinement_total (U : UuidCrate) : (refinement U).Total where
  append_refused t _ := append_refused t
  markFailed_refused t id error retryAt _ hroom := by
    rcases markFailed_cases id error retryAt t with ⟨hget, -⟩ | ⟨row, hget, hlt, -⟩ | ⟨row, -, -, h⟩
    · refine absurd (fun row hrow => ?_) hroom
      rw [hget] at hrow
      cases hrow
    · refine absurd (fun row' hrow => ?_) hroom
      rw [hget] at hrow
      cases hrow
      exact hlt
    · exact ⟨_, h⟩

end OutboxKit.Sqlite
