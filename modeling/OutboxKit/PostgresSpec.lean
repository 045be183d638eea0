import OutboxKit.Postgres

/-! The Postgres store refines the outbox model for one sequential client. The
status repeats what the due column says of a live row; `Valid` ties the two. -/
namespace OutboxKit.Postgres
open Std Machine Ordered Commit

def read (U : UuidCrate) (id : EventId) (row : EventRow) : Entry :=
  if row.status = .dispatched then .dispatched
  else match eventFromRow U (id.text, row) with
    | .ok e => .live (stampOf row.nextAttemptAt) e
    | .error _ => .absent

def entry (U : UuidCrate) (t : Tables) : Outbox := tableEntry (read U) t.outboxEvents

/-- A live row's status says whether its due column is at the ceiling. -/
structure RowOk (key : String) (row : EventRow) : Prop where
  columns : Columns key row.headers row.attempts row.nextAttemptAt
  status : row.status ≠ .dispatched → row.status = statusFor row.nextAttemptAt

def Valid (t : Tables) : Prop := ∀ (key : String) (row : EventRow),
  t.outboxEvents[key]? = some row → RowOk key row

/-- The events `append` stores, whatever their stamp. -/
def Storable (e : OutboxEvent) : Prop :=
  topicValid e.topic = true ∧ HeadersFit e.headers ∧ ∀ err ∈ e.lastError, hasNul err = false

theorem valid_empty : Valid empty := fun key row h => by simp [empty] at h

theorem write_cases {t : Tables} {id key : String} {new row : EventRow}
    (h : (t.write id new).outboxEvents[key]? = some row) :
    key = id ∧ row = new ∨ t.outboxEvents[key]? = some row := by
  simp only [Tables.write, ExtTreeMap.getElem?_insert, LawfulEqCmp.compare_eq_iff_eq] at h
  split at h
  · rename_i hk
    cases h
    exact Or.inl ⟨hk.symm, rfl⟩
  · exact Or.inr h

theorem valid_write {t : Tables} {key : String} {row : EventRow} (hv : Valid t)
    (hrow : RowOk key row) : Valid (t.write key row) := by
  intro k r h
  rcases write_cases h with ⟨rfl, rfl⟩ | hold
  · exact hrow
  · exact hv k r hold

theorem binding_ok (texts : List String) (h : ∀ s ∈ texts, hasNul s = false)
    (stmt : Statement Tables SqlError) (t : Tables) : binding texts stmt t = stmt t := by
  have hany : texts.any hasNul = false := by
    rw [List.any_eq_false]
    intro s hs
    simp [h s hs]
  rw [binding, hany]
  rfl

theorem append_cases {e : OutboxEvent} (t : Tables) (h : Storable e) :
    (∃ row, t.outboxEvents[e.id.text]? = some row ∧ append e t = (.ok (), t)) ∨
    (t.outboxEvents[e.id.text]? = none ∧ ∃ blob, decodeHeaders blob = .ok e.headers ∧
      append e t = (.ok (), t.write e.id.text (rowOf e blob))) := by
  obtain ⟨ht, hfit, hnul⟩ := h
  obtain ⟨blob, henc, hdec⟩ := decode_encode_headers hfit
  have htexts : ∀ s ∈ [e.id.text, e.topic]++e.lastError.toList, hasNul s = false := by
    intro s hs
    simp only [List.mem_append, List.mem_cons, List.not_mem_nil, or_false,
      Option.mem_toList] at hs
    rcases hs with (rfl | rfl) | hs
    · exact e.id.hasNul_text
    · exact hasNul_of_topicValid ht
    · exact hnul s hs
  have happ : append e t = (.ok (),
      ⟨t.outboxEvents.insertIfNew e.id.text (rowOf e blob), t.outboxDeadLetters⟩) := by
    rw [append, OutboxEvent.checked_ok ht]
    simp only [henc]
    exact execute_ok (binding_ok _ htexts _ t)
  cases hget : t.outboxEvents[e.id.text]? with
  | some row => exact Or.inl ⟨row, rfl, by rw [happ, insertIfNew_of_some hget]⟩
  | none => exact Or.inr ⟨rfl, blob, hdec, by rw [happ, insertIfNew_of_none hget]; rfl⟩

theorem append_invalid {e : OutboxEvent} (t : Tables) (ht : topicValid e.topic = false) :
    append e t = (.error (.invalidTopic e.topic), t) := by
  rw [append, OutboxEvent.checked_error ht]

theorem append_refused {e : OutboxEvent} (t : Tables) (h : ¬Storable e) :
    ∃ err, append e t = (.error err, t) := by
  cases ht : topicValid e.topic with
  | false => exact ⟨_, append_invalid t ht⟩
  | true =>
    rw [append, OutboxEvent.checked_ok ht]
    cases henc : encodeHeaders e.headers with
    | error err => exact ⟨err, rfl⟩
    | ok blob =>
      have hfit : HeadersFit e.headers := by
        by_contra hfit
        obtain ⟨err, herr⟩ := encode_headers_error hfit
        rw [herr] at henc
        cases henc
      -- what is left to fail is a zero byte in the last error
      obtain ⟨err, hmem, hnul⟩ : ∃ err, err ∈ e.lastError ∧ hasNul err = true := by
        by_contra hall
        refine h ⟨ht, hfit, fun err hmem => ?_⟩
        by_contra hn
        exact hall ⟨err, hmem, by simpa using hn⟩
      have hany : ([e.id.text, e.topic]++e.lastError.toList).any hasNul = true :=
        List.any_eq_true.mpr ⟨err, by simp [Option.mem_toList.mpr hmem], hnul⟩
      exact ⟨backend .nulInText, execute_error (if_pos hany)⟩

theorem markDispatched_cases (clock : UInt64) (id : EventId) (t : Tables) :
    ((∀ row, t.outboxEvents[id.text]? = some row → row.status = .dispatched) ∧
      markDispatched clock id t = (.ok (), t)) ∨
    (∃ row, t.outboxEvents[id.text]? = some row ∧ row.status ≠ .dispatched ∧
      markDispatched clock id t = (.ok (), t.write id.text
        { row with status := .dispatched, dispatchedAt := some (clampI64 clock) })) := by
  have hbind := binding_ok [id.text] (by simp [id.hasNul_text])
  cases hget : t.outboxEvents[id.text]? with
  | none => exact Or.inl ⟨by simp, execute_ok (by simp [updateDispatched, hbind, hget])⟩
  | some row =>
    by_cases hd : row.status = .dispatched
    · exact Or.inl ⟨by simp [hd], execute_ok (by simp [updateDispatched, hbind, hget, hd])⟩
    · exact Or.inr ⟨row, rfl, hd, execute_ok (by simp [updateDispatched, hbind, hget, hd])⟩

theorem markFailed_cases (id : EventId) (error : String) (retryAt : UInt64) (t : Tables) :
    (hasNul (truncateError error) = true ∧
      markFailed id error retryAt t = (.error (backend .nulInText), t)) ∨
    (hasNul (truncateError error) = false ∧
      ((t.outboxEvents[id.text]? = none ∧ markFailed id error retryAt t = (.ok (), t)) ∨
      (∃ row, t.outboxEvents[id.text]? = some row ∧ row.attempts < i32Max ∧
        markFailed id error retryAt t = (.ok (),
          t.write id.text (row.failed (truncateError error) (clampI64 retryAt)))) ∨
      (∃ row, t.outboxEvents[id.text]? = some row ∧ ¬row.attempts < i32Max ∧
        markFailed id error retryAt t = (.error (backend .integerOutOfRange), t)))) := by
  cases hnul : hasNul (truncateError error) with
  | true => exact Or.inl ⟨rfl, execute_error (by simp [updateFailed, binding, hnul])⟩
  | false =>
    refine Or.inr ⟨rfl, ?_⟩
    have hbind := binding_ok [id.text, truncateError error]
      (by simp [id.hasNul_text, hnul])
    cases hget : t.outboxEvents[id.text]? with
    | none => exact Or.inl ⟨rfl, execute_ok (by simp [updateFailed, hbind, hget])⟩
    | some row =>
      by_cases hlt : row.attempts < i32Max
      · exact Or.inr (Or.inl ⟨row, rfl, hlt,
          execute_ok (by simp [updateFailed, hbind, hget, hlt])⟩)
      · exact Or.inr (Or.inr ⟨row, rfl, hlt,
          execute_error (by simp [updateFailed, hbind, hget, hlt])⟩)

def rowTable : RowTable Tables EventRow where
  rows := Tables.outboxEvents
  write := Tables.write
  Accepts := Storable
  Inserts e row := ∃ blob, decodeHeaders blob = .ok e.headers ∧ row = rowOf e blob
  rows_write _ _ _ := rfl

theorem appends (e : OutboxEvent) (t : Tables) :
    rowTable.Appends e t (append e t).1 (append e t).2 := by
  by_cases hacc : Storable e
  · rcases append_cases t hacc with ⟨row, hget, happ⟩ | ⟨hget, blob, hdec, happ⟩
    · rw [happ]
      exact .known row hacc hget
    · rw [happ]
      exact .inserted _ hacc hget ⟨blob, hdec, rfl⟩
  · obtain ⟨err, happ⟩ := append_refused t hacc
    rw [happ]
    exact .refused err hacc

theorem tryI32_getD (n : UInt32) : (tryI32 n).getD i32Max = min (n.toNat : Int) i32Max := by
  unfold tryI32 i32Max
  split
  · rw [Option.getD_some]
    omega
  · rw [Option.getD_none]
    omega

theorem attempts_of_inserts {e : OutboxEvent} {row : EventRow} (h : rowTable.Inserts e row) :
    row.attempts = min (e.attempts.toNat : Int) i32Max := by
  obtain ⟨blob, -, rfl⟩ := h
  exact tryI32_getD e.attempts

theorem dispatches (clock : UInt64) (k : EventId) (t : Tables) :
    rowTable.Marks (fun row => row.status = .dispatched)
      (fun old new => new =
        { old with status := .dispatched, dispatchedAt := some (clampI64 clock) })
      k t (markDispatched clock k t).1 (markDispatched clock k t).2 := by
  rcases markDispatched_cases clock k t with ⟨hdone, hm⟩ | ⟨row, hget, -, hm⟩
  · rw [hm]
    cases hget : t.outboxEvents[k.text]? with
    | none => exact .unknown hget
    | some row => exact .skipped row hget (hdone row hget)
  · rw [hm]
    exact .written row _ hget rfl

/-- Unlike SQLite's it refuses a diagnostic with a NUL. -/
theorem fails (k : EventId) (error : String) (retryAt : UInt64) (t : Tables) :
    rowTable.Marks (fun _ => False)
      (fun old new => new = old.failed (truncateError error) (clampI64 retryAt)) k t
      (markFailed k error retryAt t).1 (markFailed k error retryAt t).2 := by
  rcases markFailed_cases k error retryAt t with
    ⟨-, hm⟩ | ⟨-, ⟨hget, hm⟩ | ⟨row, hget, -, hm⟩ | ⟨row, -, -, hm⟩⟩
  · rw [hm]
    exact .refused _
  · rw [hm]
    exact .unknown hget
  · rw [hm]
    exact .written row _ hget rfl
  · rw [hm]
    exact .refused _

/-- The envelope as the columns keep it: a stamp past the signed range moves to its
end, and so does an attempt count past the 32-bit one. -/
def norm (e : OutboxEvent) : OutboxEvent :=
  { e with
    createdAt := unclampU64 (clampI64 e.createdAt)
    attempts := (tryU32 ((tryI32 e.attempts).getD i32Max)).getD u32Max }

theorem norm_eq {e : OutboxEvent} (hc : e.createdAt.toNat < 2^63)
    (ha : e.attempts.toNat < 2^31) : norm e = e := by
  rw [norm, unclampU64_clampI64 hc, tryI32, if_pos ha, Option.getD_some,
    tryU32_natCast (n := e.attempts.toNat) rfl, Option.getD_some]

theorem attempts_rowOf_nonneg (e : OutboxEvent) (blob : List UInt8) :
    0 ≤ (rowOf e blob).attempts := by
  simp only [rowOf, tryI32, i32Max]
  split
  · exact Int.natCast_nonneg _
  · decide

theorem rowOk_rowOf {e : OutboxEvent} {blob : List UInt8}
    (h : decodeHeaders blob = .ok e.headers) (hc : e.createdAt.toNat < 2^63-1) :
    RowOk e.id.text (rowOf e blob) where
  columns := ⟨⟨e.id, rfl⟩, ⟨e.headers, h⟩, attempts_rowOf_nonneg e blob, clampI64_nonneg _⟩
  status _ := by
    have hlt : ¬parkedAsI64 ≤ clampI64 e.createdAt := by
      rw [clampI64_eq, parkedAsI64, i64Max]
      omega
    rw [rowOf, statusFor, if_neg hlt]

theorem read_rowOf (U : UuidCrate) {e : OutboxEvent} {blob : List UInt8}
    (h : decodeHeaders blob = .ok e.headers) :
    read U e.id (rowOf e blob) = .live (stampOf (clampI64 e.createdAt)) (norm e) := by
  have hdecode : eventFromRow U (e.id.text, rowOf e blob) = .ok (norm e) := by
    rw [eventFromRow]
    simp only [rowOf, decodeEvent_ok U e.id _ _ _ _ _ h, norm]
  rw [read, if_neg (by simp [rowOf]), hdecode]
  rfl

theorem read_live (U : UuidCrate) {key : String} {row : EventRow} (h : RowOk key row)
    (hd : row.status ≠ .dispatched) :
    ∃ e : OutboxEvent, key = e.id.text ∧ eventFromRow U (key, row) = .ok e ∧
      read U e.id row = .live (stampOf row.nextAttemptAt) e := by
  obtain ⟨e, rfl, he⟩ := h.columns.decode U row.topic row.payload row.createdAt row.lastError
  refine ⟨e, rfl, he, ?_⟩
  rw [read, if_neg hd, eventFromRow]
  simp only [he]

theorem statusFor_ne_dispatched (due : Int) : statusFor due ≠ .dispatched := by
  unfold statusFor
  split <;> simp

theorem read_failed (U : UuidCrate) {e : OutboxEvent} {row : EventRow} (error : String) (due : Int)
    (h₀ : 0 ≤ row.attempts) (h : eventFromRow U (e.id.text, row) = .ok e) :
    read U e.id (row.failed (truncateError error) due) = .live (stampOf due) (e.failed error) := by
  have he := decodeEvent_failed U error h₀ h
  rw [read, if_neg (by exact statusFor_ne_dispatched due), eventFromRow]
  simp only [EventRow.failed, he]

theorem entry_live_iff (U : UuidCrate) {t : Tables} {id : EventId} {stamp : UInt64}
    {e : OutboxEvent} : entry U t id = .live stamp e ↔ ∃ row, t.outboxEvents[id.text]? = some row ∧
      row.status ≠ .dispatched ∧ eventFromRow U (id.text, row) = .ok e ∧
      stamp = stampOf row.nextAttemptAt := by
  unfold entry tableEntry
  cases hget : t.outboxEvents[id.text]? with
  | none => simp
  | some row =>
    unfold read
    by_cases hd : row.status = .dispatched
    · simp [hd]
    · cases hdec : eventFromRow U (id.text, row) with
      | error err => simp [hd, hdec]
      | ok f => simp [hd, Ne.symm hd, hdec, eq_comm, and_comm]

theorem entry_write (U : UuidCrate) (t : Tables) (id : EventId) (row : EventRow) :
    entry U (t.write id.text row) = Function.update (entry U t) id (read U id row) :=
  tableEntry_insert (read U) t.outboxEvents id row

theorem entry_some (U : UuidCrate) {t : Tables} {id : EventId} {row : EventRow}
    (h : t.outboxEvents[id.text]? = some row) : entry U t id = read U id row := by
  rw [entry, tableEntry, h]

theorem entry_none (U : UuidCrate) {t : Tables} {id : EventId}
    (h : t.outboxEvents[id.text]? = none) : entry U t id = .absent := by
  rw [entry, tableEntry, h]

theorem read_ne_absent (U : UuidCrate) {id : EventId} {row : EventRow} (h : RowOk id.text row) :
    read U id row ≠ .absent := by
  by_cases hd : row.status = .dispatched
  · rw [read, if_pos hd]
    simp
  · obtain ⟨e, he, -, hread⟩ := read_live U h hd
    rw [EventId.text_inj.mp he, hread]
    simp

theorem reading (U : UuidCrate) {t : Tables} (hv : Valid t) :
    Reading EventRow.nextAttemptAt (fun row => row.status != .dispatched) (eventFromRow U)
      t.outboxEvents (entry U t) where
  row key row hget hlive := by
    obtain ⟨e, hk, he, -⟩ := read_live U (hv key row hget) (bne_iff_ne.mp hlive)
    exact ⟨e, hk, he, (hv key row hget).columns.due⟩
  entry due e := by
    rw [entry_live_iff]
    simp only [bne_iff_ne]

theorem pending_iff {key : String} {row : EventRow} (h : RowOk key row) :
    row.status = .pending ↔ row.status ≠ .dispatched ∧ row.nextAttemptAt < parkedAsI64 := by
  by_cases hd : row.status = .dispatched
  · simp [hd]
  · have hs := h.status hd
    unfold statusFor at hs
    split at hs
    · rename_i hle
      simp [hs, hle]
    · rename_i hle
      simp [hs, Int.not_le.mp hle]

theorem parked_iff {key : String} {row : EventRow} (h : RowOk key row) :
    row.status = .parked ↔ row.status ≠ .dispatched ∧ parkedAsI64 ≤ row.nextAttemptAt := by
  have hp := pending_iff h
  cases hs : row.status with
  | pending =>
    have hlt := (hp.mp hs).2
    simp [Int.not_le.mpr hlt]
  | parked =>
    rw [hs] at hp
    simpa using hp
  | dispatched => simp

theorem entry_append (U : UuidCrate) {t : Tables} {e : OutboxEvent} (hv : Valid t)
    (h : Storable e ∧ e.createdAt.toNat < 2^63-1) :
    (append e t).1 = .ok () ∧ Valid (append e t).2 ∧
      entry U (append e t).2 = (entry U t).append (stampOf (clampI64 e.createdAt)) (norm e) := by
  rcases append_cases t h.1 with ⟨row, hget, happ⟩ | ⟨hget, blob, hdec, happ⟩
  · have hne : entry U t e.id ≠ .absent := by
      rw [entry_some U hget]
      exact read_ne_absent U (hv _ _ hget)
    rw [happ, Outbox.append_known (e := norm e) hne]
    exact ⟨rfl, hv, rfl⟩
  · rw [happ, Outbox.append_absent (e := norm e) (entry_none U hget)]
    refine ⟨rfl, valid_write hv (rowOk_rowOf hdec h.2), ?_⟩
    rw [entry_write, read_rowOf U hdec]
    rfl

theorem entry_markDispatched (U : UuidCrate) {t : Tables} (clock : UInt64) {id : EventId}
    (hv : Valid t) (hne : entry U t id ≠ .absent) :
    (markDispatched clock id t).1 = .ok () ∧ Valid (markDispatched clock id t).2 ∧
      entry U (markDispatched clock id t).2 = (entry U t).markDispatched id := by
  rcases markDispatched_cases clock id t with ⟨hd, h⟩ | ⟨row, hget, -, h⟩
  · rw [h]
    refine ⟨rfl, hv, ?_⟩
    cases hget : t.outboxEvents[id.text]? with
    | none => exact absurd (entry_none U hget) hne
    | some row =>
      have hread := entry_some U hget
      rw [read, if_pos (hd row hget)] at hread
      rw [Outbox.markDispatched, ← hread, Function.update_eq_self]
  · rw [h]
    refine ⟨rfl, valid_write hv ⟨?_, fun hne => absurd rfl hne⟩, ?_⟩
    · have hcol := (hv _ _ hget).columns
      exact ⟨hcol.key, hcol.headers, hcol.attempts, hcol.due⟩
    · rw [entry_write, read, if_pos rfl]
      rfl

/-- What `mark_failed` needs to go through and to follow the model: no zero byte
in the diagnostic, and a row it hits that is live with room in its counter. -/
def Room (t : Tables) (id : EventId) (error : String) : Prop :=
  hasNul (truncateError error) = false ∧ ∀ row, t.outboxEvents[id.text]? = some row →
    row.status ≠ .dispatched ∧ row.attempts < i32Max

theorem entry_markFailed (U : UuidCrate) {t : Tables} {id : EventId} {error : String}
    (retryAt : UInt64) (hv : Valid t) (hroom : Room t id error) :
    (markFailed id error retryAt t).1 = .ok () ∧ Valid (markFailed id error retryAt t).2 ∧
      entry U (markFailed id error retryAt t).2 =
        (entry U t).markFailed id error (stampOf (clampI64 retryAt)) := by
  rcases markFailed_cases id error retryAt t with
    ⟨hnul, -⟩ | ⟨-, ⟨hget, h⟩ | ⟨row, hget, -, h⟩ | ⟨row, hget, hn, -⟩⟩
  · rw [hroom.1] at hnul
    cases hnul
  · rw [h, Outbox.markFailed_not_live (by rw [entry_none U hget]; simp)]
    exact ⟨rfl, hv, rfl⟩
  · have hcol := (hv _ _ hget).columns
    have h₀ : 0 ≤ row.attempts+1 := by
      have := hcol.attempts
      omega
    rw [h]
    refine ⟨rfl, valid_write hv ⟨⟨hcol.key, hcol.headers, h₀, clampI64_nonneg _⟩, fun _ => rfl⟩, ?_⟩
    obtain ⟨e, he, hdec, hread⟩ := read_live U (hv _ _ hget) (hroom.2 row hget).1
    rw [EventId.text_inj] at he
    subst he
    rw [entry_write, read_failed U error _ hcol.attempts hdec,
      Outbox.markFailed_live ((entry_some U hget).trans hread)]
  · exact absurd (hroom.2 row hget).2 hn

theorem fetchDue_ok (U : UuidCrate) {t : Tables} (limit now : UInt64) (hv : Valid t) :
    ∃ l n, (entry U t).DueList now l ∧ (n = limit.toNat ∨ 2^63 ≤ n+1 ∧ 2^63 ≤ limit.toNat) ∧
      fetchDue U limit now t = .ok ((l.take n).map (·.2)) := by
  obtain ⟨l, hl, htake⟩ := (reading U hv).dueList (isDue now) now fun key row hget => by
    simp only [isDue, Bool.and_eq_true, beq_iff_eq, decide_eq_true_eq, bne_iff_ne,
      pending_iff (hv key row hget)]
    exact and_right_comm.trans and_assoc
  refine ⟨l, _, hl, limitRows_cases limit, ?_⟩
  rw [fetchDue, claim, List.filter_eq_self.mpr (by simp), htake]

def refinement (U : UuidCrate) : Refinement (store U) where
  Valid := Valid
  entry := entry U
  stamp v := stampOf (clampI64 v)
  norm := norm
  Accepts e := Storable e ∧ e.createdAt.toNat < 2^63-1
  Room := Room
  norm_id _ := rfl
  filed t hv id stamp e h := by
    obtain ⟨row, hget, hd, he, -⟩ := (entry_live_iff U).mp h
    obtain ⟨f, hk, hf, -⟩ := read_live U (hv _ _ hget) hd
    rw [he, Except.ok.injEq] at hf
    rw [hf, EventId.text_inj.mp hk]
  append_ok _ _ := entry_append U
  append_invalid t _ := append_invalid t
  fetchDue_ok _ limit now := fetchDue_ok U limit now
  markDispatched_ok _ clock _ := entry_markDispatched U clock
  markFailed_ok _ _ _ retryAt := entry_markFailed U retryAt
  pendingCount_ok t hv := (reading U hv).tally (· ≠ never) fun key row hget => by
    rw [stampOf_ne_never_iff (hv key row hget).columns.due, bne_iff_ne, beq_iff_eq,
      pending_iff (hv key row hget)]
  parkedCount_ok t hv := (reading U hv).tally (· = never) fun key row hget => by
    rw [stampOf_eq_never_iff (hv key row hget).columns.due, bne_iff_ne, beq_iff_eq,
      parked_iff (hv key row hget)]

end OutboxKit.Postgres
