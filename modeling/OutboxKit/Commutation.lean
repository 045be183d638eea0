import OutboxKit.Lib.Cells
import OutboxKit.Acceptance
import OutboxKit.Dispatch

/-! Writes about different events commute, so what a batch leaves behind does not
depend on the order in which its tasks finish. In the in-process store an event's
cell is its entry, which fixes the ordering index as well; in the SQLite store it
is the event's row and letter, and each call is the statements it plans. -/
namespace OutboxKit
open Std Machine Ordered Commit Trace Cells

/-- A call that writes, all about one event. -/
inductive Write where
  | append (event : OutboxEvent)
  | markDispatched (clock : UInt64) (id : EventId)
  | markFailed (id : EventId) (error : String) (retryAtMs : UInt64)
  | deadLetter (clock : UInt64) (event : OutboxEvent) (reason : String)

namespace Write

def id : Write → EventId
  | .append e => e.id
  | .markDispatched _ id => id
  | .markFailed id _ _ => id
  | .deadLetter _ e _ => e.id

def call : Write → Call
  | .append e => .append e
  | .markDispatched clock id => .markDispatched clock id
  | .markFailed id error retryAt => .markFailed id error retryAt
  | .deadLetter clock e reason => .deadLetter clock e reason

end Write

namespace Entry

def appended (stamp : UInt64) (e : OutboxEvent) : Entry → Entry
  | .absent => .live stamp e
  | .live due f => .live due f
  | .dispatched => .dispatched

def failed (error : String) (retryAt : UInt64) : Entry → Entry
  | .absent => .absent
  | .live _ e => .live retryAt (e.failed error)
  | .dispatched => .dispatched

def write (entry : Entry) : Write → Reply × Entry
  | .append e =>
    if topicValid e.topic then (.done (.ok ()), entry.appended e.createdAt e)
    else (.done (.error (.invalidTopic e.topic)), entry)
  | .markDispatched _ _ => (.done (.ok ()), .dispatched)
  | .markFailed _ error retryAt => (.done (.ok ()), entry.failed error retryAt)
  | .deadLetter .. => (.done (.ok ()), entry)

end Entry

namespace Outbox

theorem append_eq_update (o : Outbox) (stamp : UInt64) (e : OutboxEvent) :
    o.append stamp e = Function.update o e.id ((o e.id).appended stamp e) := by
  unfold append
  cases h : o e.id with
  | absent => rfl
  | live t f => exact (Function.update_eq_self_iff.mpr h.symm).symm
  | dispatched => exact (Function.update_eq_self_iff.mpr h.symm).symm

theorem markFailed_eq_update (o : Outbox) (id : EventId) (error : String) (retryAt : UInt64) :
    o.markFailed id error retryAt = Function.update o id ((o id).failed error retryAt) := by
  unfold markFailed
  cases h : o id with
  | absent => exact (Function.update_eq_self_iff.mpr h.symm).symm
  | live t f => rfl
  | dispatched => exact (Function.update_eq_self_iff.mpr h.symm).symm

end Outbox

namespace Memory

def write (w : Write) (s : Inner) : Reply × Inner := store.call w.call s

/-- The ordering index is fixed by the live events: what a state reads as determines it. -/
theorem eq_of_entry {s t : Inner} (hs : Valid s) (ht : Valid t) (h : entry s = entry t) :
    s = t := by
  have hget : ∀ id : EventId, s.events[id]? = t.events[id]? := by
    intro id
    ext ⟨stamp, e⟩
    rw [← entry_live_iff, ← entry_live_iff, h]
  have hevents : s.events = t.events := ExtTreeMap.ext_getElem? fun {k} => hget k
  have hqueue : s.queue = t.queue := by
    apply ExtTreeSet.ext_mem
    rintro ⟨stamp, id⟩
    rw [hs.queue_iff, ht.queue_iff, hget]
  have hdispatched : s.dispatched = t.dispatched := by
    apply ExtTreeSet.ext_mem
    intro id
    rw [← entry_dispatched_iff hs, ← entry_dispatched_iff ht, h]
  cases s
  cases t
  simp only at hevents hqueue hdispatched
  rw [hevents, hqueue, hdispatched]

theorem write_local : Local write Write.id Valid entry (fun w entry => entry.write w) where
  keep w s hv := valid_call w.call hv
  ext _ _ := eq_of_entry
  answer w s hv := by
    cases w with
    | append e =>
      change Reply.done (append e s).1 = _
      cases ht : topicValid e.topic with
      | false =>
        rw [append_invalid s ht, Entry.write, ht]
        rfl
      | true =>
        rw [Entry.write, ht]
        exact congrArg _ (refinement.append_ok s e hv ht).1
    | markDispatched clock id =>
      change Reply.done (markDispatched id s).1 = _
      unfold markDispatched
      split <;> rfl
    | markFailed id error retryAt =>
      exact congrArg _ (refinement.markFailed_ok s id error retryAt hv trivial).1
    | deadLetter clock e reason => rfl
  next w s hv := by
    cases w with
    | append e =>
      change entry (append e s).2 = _
      cases ht : topicValid e.topic with
      | false =>
        rw [append_invalid s ht, Entry.write, ht]
        exact (Function.update_eq_self _ _).symm
      | true =>
        rw [entry_append ht, Outbox.append_eq_update, Entry.write, ht]
        rfl
    | markDispatched clock id => exact entry_markDispatched s id
    | markFailed id error retryAt =>
      change entry (markFailed id error retryAt s).2 = _
      rw [entry_markFailed, Outbox.markFailed_eq_update]
      rfl
    | deadLetter clock e reason => exact (Function.update_eq_self _ _).symm

end Memory

namespace Sqlite

inductive Sql where
  | insertOrIgnore (id : String) (row : EventRow)
  | updateDispatched (id : String) (stamp : Int)
  | updateFailed (id error : String) (nextAttemptAt : Int)
  | upsertLetter (id : String) (row : LetterRow)
  | deleteEvent (id : String)

abbrev Cell := Option EventRow × Option LetterRow

def cells (t : Tables) (key : String) : Cell := (t.outboxEvents[key]?, t.outboxDeadLetters[key]?)

namespace Sql

def key : Sql → String
  | .insertOrIgnore id _ | .updateDispatched id _ | .updateFailed id _ _ | .upsertLetter id _
  | .deleteEvent id => id

def run : Sql → Statement Tables SqlError
  | .insertOrIgnore id row => Sqlite.insertOrIgnore id row
  | .updateDispatched id stamp => Sqlite.updateDispatched id stamp
  | .updateFailed id error next => Sqlite.updateFailed id error next
  | .upsertLetter id row => Sqlite.upsertLetter id row
  | .deleteEvent id => Sqlite.deleteEvent id

def onCell (q : Sql) (c : Cell) : Except SqlError Cell :=
  match q with
  | .insertOrIgnore _ row => .ok (some (c.1.getD row), c.2)
  | .updateDispatched _ stamp =>
    match c.1 with
    | none => .ok c
    | some row =>
      if row.dispatchedAt.isNone then .ok (some { row with dispatchedAt := some stamp }, c.2)
      else .ok c
  | .updateFailed _ error next =>
    match c.1 with
    | none => .ok c
    | some row =>
      if row.attempts < i64Max then .ok (some (row.failed error next), c.2)
      else .error .integerOutOfRange
  | .upsertLetter _ row => .ok (c.1, some row)
  | .deleteEvent _ => .ok (none, c.2)

end Sql

theorem cells_write (t : Tables) (key : String) (row : EventRow) :
    cells (t.write key row) = Function.update (cells t) key (some row, (cells t key).2) := by
  funext k
  by_cases hk : key = k
  · subst hk
    simp [cells, Tables.write]
  · simp [cells, Tables.write, ExtTreeMap.getElem?_insert, hk, Function.update_of_ne (Ne.symm hk)]

theorem cells_letter (t : Tables) (key : String) (row : LetterRow) :
    cells (halfway t key row) = Function.update (cells t) key ((cells t key).1, some row) := by
  funext k
  by_cases hk : key = k
  · subst hk
    simp [cells, halfway]
  · simp [cells, halfway, ExtTreeMap.getElem?_insert, hk, Function.update_of_ne (Ne.symm hk)]

theorem cells_erase (t : Tables) (key : String) :
    cells { t with outboxEvents := t.outboxEvents.erase key } =
      Function.update (cells t) key (none, (cells t key).2) := by
  funext k
  by_cases hk : key = k
  · subst hk
    simp [cells]
  · simp [cells, ExtTreeMap.getElem?_erase, hk, Function.update_of_ne (Ne.symm hk)]

/-- A statement reads and writes the row and the letter of its key. -/
theorem Sql.local (q : Sql) : LocalStatement cells q.key q.run q.onCell := by
  intro t
  cases q with
  | insertOrIgnore id row =>
    refine ⟨_, rfl, ?_⟩
    cases hget : t.outboxEvents[id]? with
    | none =>
      rw [insertIfNew_of_none hget]
      simpa [Sql.key, cells, hget, Tables.write] using cells_write t id row
    | some old =>
      rw [insertIfNew_of_some hget]
      simp [Sql.key, cells, hget]
  | updateDispatched id stamp =>
    simp only [Sql.key, Sql.run, Sql.onCell, Sqlite.updateDispatched]
    cases hget : t.outboxEvents[id]? with
    | none => simp [cells, hget]
    | some row =>
      cases hd : row.dispatchedAt with
      | none =>
        simpa [cells, hget, hd] using cells_write t id { row with dispatchedAt := some stamp }
      | some d => simp [cells, hget, hd]
  | updateFailed id error next =>
    simp only [Sql.key, Sql.run, Sql.onCell, Sqlite.updateFailed]
    cases hget : t.outboxEvents[id]? with
    | none => simp [cells, hget]
    | some row =>
      by_cases hlt : row.attempts < i64Max
      · simpa [cells, hget, hlt] using cells_write t id (row.failed error next)
      · simp [cells, hget, hlt]
  | upsertLetter id row => exact ⟨_, rfl, cells_letter t id row⟩
  | deleteEvent id => exact ⟨_, rfl, cells_erase t id⟩

def encoded (e : OutboxEvent) : Except StoreError (List UInt8) := do
  e.checked
  encodeHeaders e.headers

/-- The statements of a write. -/
def plan : Write → Except StoreError (List Sql)
  | .append e => (encoded e).map fun headers => [.insertOrIgnore e.id.text (rowOf e headers)]
  | .markDispatched clock id => .ok [.updateDispatched id.text (clampI64 clock)]
  | .markFailed id error retryAt =>
    .ok [.updateFailed id.text (truncateError error) (clampI64 retryAt)]
  | .deadLetter clock e reason => (encoded e).map fun headers =>
    [.upsertLetter e.id.text (letterOf clock e headers reason), .deleteEvent e.id.text]

/-- A write that a fault may strike: a statement is refused, or the process dies. -/
def perform (op : Fault SqlError × Write) (t : Tables) : Outcome StoreError × Tables :=
  match plan op.2 with
  | .error err => (.returned (.error err), t)
  | .ok stmts => ((autocommit (stmts.map Sql.run) op.1 t).1.mapError backend,
      (autocommit (stmts.map Sql.run) op.1 t).2)

/-- Spared by faults it is the store's own call. -/
theorem perform_none (U : UuidCrate) (w : Write) (t : Tables) :
    ∃ result, perform (.none, w) t = (.returned result, ((store U).call w.call t).2) ∧
      ((store U).call w.call t).1 = .done result := by
  cases w with
  | append e =>
    simp only [perform, plan, encoded, Write.call, OutboxStore.call, store, append]
    cases e.checked with
    | error err => exact ⟨_, rfl, rfl⟩
    | ok _ =>
      cases encodeHeaders e.headers with
      | error err => exact ⟨_, rfl, rfl⟩
      | ok headers => exact ⟨_, rfl, rfl⟩
  | markDispatched clock id =>
    refine ⟨_, ?_, rfl⟩
    simp only [perform, plan, autocommit_none]
    rfl
  | markFailed id error retryAt =>
    refine ⟨_, ?_, rfl⟩
    simp only [perform, plan, autocommit_none]
    rfl
  | deadLetter clock e reason =>
    simp only [perform, plan, encoded, Write.call, OutboxStore.call, store, deadLetter]
    cases e.checked with
    | error err => exact ⟨_, rfl, rfl⟩
    | ok _ =>
      cases encodeHeaders e.headers with
      | error err => exact ⟨_, rfl, rfl⟩
      | ok headers => exact ⟨_, rfl, rfl⟩

theorem plan_key {w : Write} {stmts : List Sql} (h : plan w = .ok stmts) :
    ∀ q ∈ stmts, q.key = w.id.text := by
  cases w with
  | append e =>
    simp only [plan] at h
    cases henc : encoded e with
    | error err => rw [henc] at h; cases h
    | ok headers =>
      rw [henc] at h
      cases h
      simp [Sql.key, Write.id]
  | markDispatched clock id =>
    cases h
    simp [Sql.key, Write.id]
  | markFailed id error retryAt =>
    cases h
    simp [Sql.key, Write.id]
  | deadLetter clock e reason =>
    simp only [plan] at h
    cases henc : encoded e with
    | error err => rw [henc] at h; cases h
    | ok headers =>
      rw [henc] at h
      cases h
      simp [Sql.key, Write.id]

theorem plan_local {w : Write} {stmts : List Sql} (h : plan w = .ok stmts) :
    List.Forall₂ (LocalStatement cells w.id.text) (stmts.map Sql.run) (stmts.map Sql.onCell) := by
  have hkey := plan_key h
  clear h
  induction stmts with
  | nil => exact .nil
  | cons q stmts ih =>
    refine .cons ?_ (ih fun q hq => hkey q (List.mem_cons_of_mem _ hq))
    rw [← hkey q List.mem_cons_self]
    exact q.local

def performOnCell (op : Fault SqlError × Write) (c : Cell) : Outcome StoreError × Cell :=
  match plan op.2 with
  | .error err => (.returned (.error err), c)
  | .ok stmts => ((autocommit (stmts.map Sql.onCell) op.1 c).1.mapError backend,
      (autocommit (stmts.map Sql.onCell) op.1 c).2)

theorem eq_of_cells {s t : Tables} (h : cells s = cells t) : s = t := by
  have hget := fun key => Prod.mk.inj (congrFun h key)
  have hevents : s.outboxEvents = t.outboxEvents :=
    ExtTreeMap.ext_getElem? fun {key} => (hget key).1
  have hletters : s.outboxDeadLetters = t.outboxDeadLetters :=
    ExtTreeMap.ext_getElem? fun {key} => (hget key).2
  cases s
  cases t
  simp only at hevents hletters
  rw [hevents, hletters]

theorem perform_local : Local perform (fun op => op.2.id.text) (fun _ => True) cells
    performOnCell where
  keep _ _ _ := trivial
  ext _ _ _ _ := eq_of_cells
  answer op t _ := by
    unfold perform performOnCell
    cases hplan : plan op.2 with
    | error err => rfl
    | ok stmts =>
      exact congrArg (Outcome.mapError backend) (autocommit_local (plan_local hplan) op.1 t).1
  next op t _ := by
    unfold perform performOnCell
    cases hplan : plan op.2 with
    | error err => exact (Function.update_eq_self _ _).symm
    | ok stmts => exact (autocommit_local (plan_local hplan) op.1 t).2

def Sql.Ok : Sql → Prop
  | .insertOrIgnore id row => Columns id row.headers row.attempts row.nextAttemptAt
  | .updateFailed _ _ next => 0 ≤ next
  | .updateDispatched .. | .upsertLetter .. | .deleteEvent _ => True

theorem plan_ok {w : Write} {stmts : List Sql} (h : plan w = .ok stmts) : ∀ q ∈ stmts, q.Ok := by
  cases w with
  | append e =>
    simp only [plan, encoded] at h
    cases hc : e.checked with
    | error err => rw [hc] at h; cases h
    | ok _ =>
      cases henc : encodeHeaders e.headers with
      | error err => rw [hc, henc] at h; cases h
      | ok headers =>
        rw [hc, henc] at h
        cases h
        have hfit : HeadersFit e.headers := by
          by_contra hfit
          obtain ⟨err, herr⟩ := encode_headers_error hfit
          rw [herr] at henc
          cases henc
        obtain ⟨blob, henc', hdec⟩ := decode_encode_headers hfit
        rw [henc, Except.ok.injEq] at henc'
        subst henc'
        simpa [Sql.Ok] using columns_rowOf hdec
  | markDispatched clock id =>
    cases h
    simp [Sql.Ok]
  | markFailed id error retryAt =>
    cases h
    simp [Sql.Ok, clampI64_nonneg]
  | deadLetter clock e reason =>
    simp only [plan] at h
    cases henc : encoded e with
    | error err => rw [henc] at h; cases h
    | ok headers =>
      rw [henc] at h
      cases h
      simp [Sql.Ok]

theorem valid_run {q : Sql} (hq : q.Ok) {t t' : Tables} (hv : Valid t) (h : q.run t = .ok t') :
    Valid t' := by
  cases q with
  | insertOrIgnore id row =>
    cases h
    cases hget : t.outboxEvents[id]? with
    | none =>
      rw [insertIfNew_of_none hget]
      exact valid_write hv hq
    | some old =>
      rw [insertIfNew_of_some hget]
      exact hv
  | updateDispatched id stamp =>
    simp only [Sql.run, updateDispatched] at h
    cases hget : t.outboxEvents[id]? with
    | none =>
      rw [hget] at h
      cases h
      exact hv
    | some row =>
      rw [hget] at h
      have hcol := hv _ _ hget
      simp only at h
      split at h
      · cases h
        exact valid_write hv ⟨hcol.key, hcol.headers, hcol.attempts, hcol.due⟩
      · cases h
        exact hv
  | updateFailed id error next =>
    simp only [Sql.run, updateFailed] at h
    cases hget : t.outboxEvents[id]? with
    | none =>
      rw [hget] at h
      cases h
      exact hv
    | some row =>
      rw [hget] at h
      have hcol := hv _ _ hget
      simp only at h
      split at h
      · cases h
        exact valid_write hv ⟨hcol.key, hcol.headers,
          Int.add_nonneg hcol.attempts (by decide), hq⟩
      · cases h
  | upsertLetter id row =>
    cases h
    exact hv
  | deleteEvent id =>
    cases h
    intro key row hget
    rw [ExtTreeMap.getElem?_erase] at hget
    split at hget
    · cases hget
    · exact hv key row hget

theorem valid_perform {t : Tables} (op : Fault SqlError × Write) (hv : Valid t) :
    Valid (perform op t).2 := by
  unfold perform
  cases hplan : plan op.2 with
  | error err => exact hv
  | ok stmts =>
    refine autocommit_invariant (I := Valid) (fun stmt hstmt d d' hd h => ?_) op.1 hv
    obtain ⟨q, hq, rfl⟩ := List.mem_map.mp hstmt
    exact valid_run (plan_ok hplan q hq) hd h

/-- Runs of writes from empty tables, any of them struck by a fault. -/
def faultyRuns : System Tables (Fault SqlError × Write) :=
  ⟨empty, fun t op => some (perform op t).2⟩

theorem valid_reachable {t : Tables} (h : faultyRuns.Reachable (fun _ _ => True) t) : Valid t := by
  refine h.invariant (I := Valid) valid_empty fun t op t' hv _ hstep => ?_
  cases hstep
  exact valid_perform op hv

end Sqlite

section Batches

def Mark.write (clock : UInt64) (id : EventId) : Mark → Write
  | .dispatched => .markDispatched clock id
  | .failed error retryAt => .markFailed id error retryAt

theorem issue_eq_write {σ : Type} (S : OutboxStore σ) (clock : UInt64) (id : EventId)
    (mark : Mark) (s : σ) :
    (Shared.ofStore S).issue clock id mark s = (S.call (mark.write clock id).call s).2 := by
  cases mark <;> rfl

/-- The writes of a batch's tasks, given how each event's send ends; a paused event
has none. -/
def settle (clock : EventId → UInt64) (outcome : EventId → Option Mark)
    (batch : List OutboxEvent) : List Write :=
  batch.filterMap fun e => (outcome e.id).map fun mark => mark.write (clock e.id) e.id

theorem Mark.write_id (clock : UInt64) (id : EventId) (mark : Mark) :
    (mark.write clock id).id = id := by
  cases mark <;> rfl

theorem settle_ids (clock : EventId → UInt64) (outcome : EventId → Option Mark)
    (batch : List OutboxEvent) : (settle clock outcome batch).map Write.id =
      (batch.map (·.id)).filterMap fun id => (outcome id).map fun _ => id := by
  rw [settle, List.map_filterMap, List.filterMap_map]
  refine List.filterMap_congr fun e _ => ?_
  simp [Function.comp_def, Mark.write_id]

/-- A batch names each event once, so its tasks write about distinct events. -/
theorem nodup_settle (clock : EventId → UInt64) (outcome : EventId → Option Mark)
    {batch : List OutboxEvent} (h : (batch.map (·.id)).Nodup) :
    ((settle clock outcome batch).map Write.id).Nodup := by
  rw [settle_ids]
  refine h.filterMap ?_
  intro a b id ha hb
  obtain ⟨m, -, rfl⟩ := Option.map_eq_some_iff.mp ha
  obtain ⟨m', -, rfl⟩ := Option.map_eq_some_iff.mp hb
  rfl

theorem mem_settle {clock : EventId → UInt64} {outcome : EventId → Option Mark}
    {batch : List OutboxEvent} {w : Write} (h : w ∈ settle clock outcome batch) :
    ∃ e ∈ batch, w.id = e.id := by
  obtain ⟨e, he, hw⟩ := List.mem_filterMap.mp h
  obtain ⟨mark, -, rfl⟩ := Option.map_eq_some_iff.mp hw
  exact ⟨e, he, Mark.write_id _ _ _⟩

theorem Display.nodup_batch {σ : Type} {S : OutboxStore σ} (D : Display S) {s : σ} (hv : D.Valid s)
    {limit now : UInt64} {batch : List OutboxEvent} (h : S.fetchDue limit now s = .ok batch) :
    (batch.map (·.id)).Nodup := by
  obtain ⟨l, n, hl, -, hf⟩ := D.fetchDue_ok s limit now hv
  rw [h, Except.ok.injEq] at hf
  rw [hf, List.map_map]
  exact hl.nodup_ids.sublist ((List.take_sublist n l).map _)

/-- However the tasks are ordered and the other calls fall between them, the state at
the end is the same, and so is every later answer. -/
def Confluent {σ α β : Type} (call : α → σ → β × σ) (S : OutboxStore σ) (s : σ)
    (tasks others : List α) : Prop :=
  ∀ w w', Schedule tasks others w → Schedule tasks others w' →
    after call s w = after call s w' ∧
      ∀ later, answers S.call (after call s w) later = answers S.call (after call s w') later

theorem confluent_of_local {σ α β κ ν : Type} [DecidableEq κ] {call : α → σ → β × σ}
    {key : α → κ} {I : σ → Prop} {cell : σ → κ → ν} {act : α → ν → β × ν}
    (h : Local call key I cell act) (S : OutboxStore σ) {s : σ} (hs : I s) {tasks others : List α}
    (hn : (tasks.map key).Nodup) (hd : ∀ a ∈ tasks, ∀ b ∈ others, key a ≠ key b) :
    Confluent call S s tasks others := by
  intro w w' hw hw'
  have heq := h.after_eq hs (hw.reordered hn hd hw')
  exact ⟨heq, fun later => by rw [heq]⟩

theorem Memory.batch_confluent {s : Memory.Inner} (hv : Memory.Valid s) {limit now : UInt64}
    {batch : List OutboxEvent} (h : Memory.fetchDue limit now s = .ok batch)
    (clock : EventId → UInt64) (outcome : EventId → Option Mark) {appends : List OutboxEvent}
    (hother : ∀ e ∈ appends, ∀ b ∈ batch, e.id ≠ b.id) :
    Confluent Memory.write Memory.store s (settle clock outcome batch)
      (appends.map Write.append) := by
  refine confluent_of_local Memory.write_local _ hv
    (nodup_settle clock outcome (Memory.display.nodup_batch hv h)) ?_
  intro w hw x hx
  obtain ⟨b, hb, hid⟩ := mem_settle hw
  obtain ⟨e, he, rfl⟩ := List.mem_map.mp hx
  rw [hid]
  exact (hother e he b hb).symm

theorem Sqlite.batch_confluent (U : UuidCrate) {t : Sqlite.Tables} (hv : Sqlite.Valid t)
    {limit now : UInt64} {batch : List OutboxEvent} (h : Sqlite.fetchDue U limit now t = .ok batch)
    (clock : EventId → UInt64) (outcome : EventId → Option Mark)
    (fault : EventId → Fault SqlError) {appends : List (Fault SqlError × OutboxEvent)}
    (hother : ∀ x ∈ appends, ∀ b ∈ batch, x.2.id ≠ b.id) :
    Confluent Sqlite.perform (Sqlite.store U) t
      ((settle clock outcome batch).map fun w => (fault w.id, w))
      (appends.map fun x => (x.1, .append x.2)) := by
  refine confluent_of_local Sqlite.perform_local _ trivial ?_ ?_
  · have hn := nodup_settle clock outcome ((Sqlite.display U).nodup_batch hv h)
    simpa [Function.comp_def] using hn.map fun a b => EventId.text_inj.mp
  · intro op hop x hx
    obtain ⟨w, hw, rfl⟩ := List.mem_map.mp hop
    obtain ⟨b, hb, hid⟩ := mem_settle hw
    obtain ⟨y, hy, rfl⟩ := List.mem_map.mp hx
    intro he
    exact hother y hy b hb ((EventId.text_inj.mp he).symm.trans hid)

end Batches

/-- In every state either store can reach, writes about different events commute, and a
fetched batch leaves the same state behind however its tasks are ordered and
whatever appends of other events fall between them. On SQLite a write is its statements
under a fault; spared by faults it is the store's own call, as `perform_none` has it. -/
theorem writes_commute (U : UuidCrate) (s : Memory.Inner) (t : Sqlite.Tables)
    (hs : Memory.runs.Reachable (fun _ _ => True) s)
    (ht : Sqlite.faultyRuns.Reachable (fun _ _ => True) t) :
    (∀ w, ∃ result,
      Sqlite.perform (.none, w) t = (.returned result, ((Sqlite.store U).call w.call t).2) ∧
      ((Sqlite.store U).call w.call t).1 = .done result) ∧
    (∀ a b, a.id ≠ b.id → Commutes Memory.write s a b) ∧
    (∀ a b, a.2.id ≠ b.2.id → Commutes Sqlite.perform t a b) ∧
    (∀ limit now batch, Memory.fetchDue limit now s = .ok batch →
      ∀ clock outcome (appends : List OutboxEvent), (∀ e ∈ appends, ∀ b ∈ batch, e.id ≠ b.id) →
        Confluent Memory.write Memory.store s (settle clock outcome batch)
          (appends.map Write.append)) ∧
    (∀ limit now batch, Sqlite.fetchDue U limit now t = .ok batch →
      ∀ clock outcome (fault : EventId → Fault SqlError)
        (appends : List (Fault SqlError × OutboxEvent)),
        (∀ x ∈ appends, ∀ b ∈ batch, x.2.id ≠ b.id) →
        Confluent Sqlite.perform (Sqlite.store U) t
          ((settle clock outcome batch).map fun w => (fault w.id, w))
          (appends.map fun x => (x.1, .append x.2))) := by
  have hvs := Memory.valid_reach hs Memory.valid_new
  have hvt := Sqlite.valid_reachable ht
  refine ⟨fun w => Sqlite.perform_none U w t,
    fun a b hab => Memory.write_local.commutes hvs hab, fun a b hab => ?_,
    fun limit now batch h clock outcome appends hother =>
      Memory.batch_confluent hvs h clock outcome hother,
    fun limit now batch h clock outcome fault appends hother =>
      Sqlite.batch_confluent U hvt h clock outcome fault hother⟩
  exact Sqlite.perform_local.commutes trivial fun he => hab (EventId.text_inj.mp he)

def twoAppended : List Write := [.append (.sample 1 5), .append (.sample 2 6)]

/-- On them: a delivery and a dead letter whose delete is refused, and a batch of which
one event is delivered and one fails. -/
theorem writes_commute_twoAppended :
    Commutes Sqlite.perform
      (after Sqlite.perform Sqlite.empty (twoAppended.map fun w => (.none, w)))
      (.none, .markDispatched 9 (.ofByte 1))
      (.refuse 1 .unavailable, .deadLetter 9 (.sample 2 6) "poison") ∧
    after Memory.write (after Memory.store.call Memory.new (twoAppended.map Write.call))
      [.markDispatched 9 (.ofByte 1), .append (.sample 3 7), .markFailed (.ofByte 2) "boom" 20] =
    after Memory.write (after Memory.store.call Memory.new (twoAppended.map Write.call))
      [.append (.sample 3 7), .markFailed (.ofByte 2) "boom" 20,
        .markDispatched 9 (.ofByte 1)] := by
  obtain ⟨-, -, hpair, hbatch, -⟩ := writes_commute .hyphenatedOnly
    (after Memory.store.call Memory.new (twoAppended.map Write.call))
    (after Sqlite.perform Sqlite.empty (twoAppended.map fun w => (.none, w)))
    (System.reach_of_run (twoAppended.map Write.call) rfl)
    (System.reach_of_run (twoAppended.map fun w => (.none, w)) rfl)
  refine ⟨hpair _ _ (by decide), (hbatch 10 100 [.sample 1 5, .sample 2 6] (by decide +kernel)
    (fun _ => 9) (fun id => if id = .ofByte 1 then some .dispatched else some (.failed "boom" 20))
    [.sample 3 7] (by decide) _ _ ?_ ?_).1⟩
  · exact ⟨_, .refl _, .left _ (.right _ (.left _ .nil))⟩
  · exact ⟨_, .swap _ _ _, .right _ (.left _ (.left _ .nil))⟩

end OutboxKit
