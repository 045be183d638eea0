import OutboxKit.MemorySpec
import OutboxKit.DeadLetter

/-! What a store's queries show. `fetch_due` and the two counts read a state as an
outbox, whatever the writes made of it; the Postgres queries go by the status
column, so the outbox they show can differ from the one its due column spells. -/
namespace OutboxKit
open Std Machine Ordered Commit Trace

namespace Outbox
variable {o : Outbox} {p : UInt64 → Prop} {l : List (UInt64 × OutboxEvent)}

theorem Tally.cons {due : UInt64} {e : OutboxEvent} (h : o.Tally p l) (hp : p due)
    (hold : ∀ due' e', o e.id = .live due' e' → ¬p due') :
    Tally (Function.update o e.id (.live due e)) p ((due, e)::l) where
  nodup := by
    refine List.nodup_cons.mpr ⟨fun hmem => ?_, h.nodup⟩
    exact hold due e ((h.mem_iff due e).mp hmem).1 hp
  mem_iff due' f := by
    rw [List.mem_cons, h.mem_iff, Prod.mk.injEq]
    by_cases hid : f.id = e.id
    · rw [hid, Function.update_self, Entry.live.injEq]
      constructor
      · rintro (⟨rfl, rfl⟩ | ⟨hlive, hp'⟩)
        · exact ⟨⟨rfl, rfl⟩, hp⟩
        · exact absurd hp' (hold due' f hlive)
      · rintro ⟨⟨rfl, rfl⟩, -⟩
        exact Or.inl ⟨rfl, rfl⟩
    · rw [Function.update_of_ne hid]
      constructor
      · rintro (⟨-, rfl⟩ | h)
        · exact absurd rfl hid
        · exact h
      · exact Or.inr

theorem Tally.mem_ids (h : o.Tally p l) (hfiled : o.Filed) (id : EventId) :
    id ∈ l.map (fun x => x.2.id) ↔ ∃ due e, o id = .live due e ∧ p due := by
  rw [List.mem_map]
  constructor
  · rintro ⟨⟨due, e⟩, hmem, rfl⟩
    exact ⟨due, e, (h.mem_iff due e).mp hmem⟩
  · rintro ⟨due, e, hlive, hp⟩
    have hid := hfiled id due e hlive
    exact ⟨(due, e), (h.mem_iff due e).mpr ⟨by rw [hid, hlive], hp⟩, hid⟩

theorem DueList.mem_ids {now : UInt64} (h : o.DueList now l) (hfiled : o.Filed) (id : EventId) :
    (∃ e ∈ l.map (·.2), e.id = id) ↔ ∃ due e, o id = .live due e ∧ due ≤ now ∧ due ≠ never := by
  constructor
  · rintro ⟨e, hmem, rfl⟩
    obtain ⟨⟨due, f⟩, hdue, rfl⟩ := List.mem_map.mp hmem
    exact ⟨due, f, (h.mem_iff due f).mp hdue⟩
  · rintro ⟨due, e, hlive, hdue⟩
    have hid := hfiled id due e hlive
    exact ⟨e, List.mem_map.mpr ⟨(due, e), (h.mem_iff due e).mpr ⟨by rw [hid, hlive], hdue⟩, rfl⟩,
      hid⟩

theorem Tally.erase {due due' : UInt64} {e e' : OutboxEvent} (h : o.Tally p l)
    (hold : o e.id = .live due' e') (hid : e'.id = e.id) (hp : ¬p due) :
    Tally (Function.update o e.id (.live due e)) p (l.erase (due', e')) where
  nodup := h.nodup.erase _
  mem_iff stamp f := by
    rw [h.nodup.mem_erase_iff, h.mem_iff, ne_eq, Prod.mk.injEq]
    by_cases hf : f.id = e.id
    · rw [hf, Function.update_self, Entry.live.injEq, hold, Entry.live.injEq]
      constructor
      · rintro ⟨hne, ⟨rfl, rfl⟩, -⟩
        exact absurd ⟨rfl, rfl⟩ hne
      · rintro ⟨⟨rfl, rfl⟩, hp'⟩
        exact absurd hp' hp
    · rw [Function.update_of_ne hf]
      refine ⟨And.right, fun hlive => ⟨?_, hlive⟩⟩
      rintro ⟨-, rfl⟩
      exact hf hid

theorem DueList.length_le_tally {now : UInt64} {due : List (UInt64 × OutboxEvent)}
    (h : o.DueList now due) (h' : o.Tally (· ≠ never) l) : due.length ≤ l.length := by
  have hnodup := nodup_of_pairwise (fun x : UInt64 × OutboxEvent => (x.1, x.2.id)) h.sorted
  have hsub : due ⊆ l := by
    rintro ⟨stamp, e⟩ hmem
    obtain ⟨hlive, -, hne⟩ := (h.mem_iff stamp e).mp hmem
    exact (h'.mem_iff stamp e).mpr ⟨hlive, hne⟩
  exact (List.subperm_of_subset hnodup hsub).length_le

end Outbox

theorem getElem?_insert_other {ρ : Type} {m : ExtTreeMap String ρ} {id k : EventId} (h : k ≠ id)
    (row : ρ) : (m.insert k.text row)[id.text]? = m[id.text]? := by
  rw [ExtTreeMap.getElem?_insert, if_neg (by simpa [EventId.text_inj] using h)]

theorem getElem?_erase_other {ρ : Type} {m : ExtTreeMap String ρ} {id k : EventId} (h : k ≠ id) :
    (m.erase k.text)[id.text]? = m[id.text]? := by
  rw [ExtTreeMap.getElem?_erase, if_neg (by simpa [EventId.text_inj] using h)]

/-- The outbox that the queries of a store show. -/
structure Display {σ : Type} (S : OutboxStore σ) where
  Valid : σ → Prop
  entry : σ → Outbox
  filed : ∀ s, Valid s → (entry s).Filed
  fetchDue_ok : ∀ s limit now, Valid s → ∃ l n, (entry s).DueList now l ∧
    (n = limit.toNat ∨ 2^63 ≤ n+1 ∧ 2^63 ≤ limit.toNat) ∧
      S.fetchDue limit now s = .ok ((l.take n).map (·.2))
  pendingCount_ok : ∀ s, Valid s → ∃ l, (entry s).Tally (· ≠ never) l ∧
    Reply.count (S.pendingCount s) = Outbox.countReply l.length
  parkedCount_ok : ∀ s, Valid s → ∃ l, (entry s).Tally (· = never) l ∧
    Reply.count (S.parkedCount s) = Outbox.countReply l.length

def Refinement.display {σ : Type} {S : OutboxStore σ} (R : Refinement S) : Display S :=
  ⟨R.Valid, R.entry, R.filed, R.fetchDue_ok, R.pendingCount_ok, R.parkedCount_ok⟩

def Roomy {σ : Type} (S : OutboxStore σ) (s : σ) : Prop :=
  ∀ n, S.pendingCount s = .ok n → n.toNat < 2^63-1

namespace Display
variable {σ : Type} {S : OutboxStore σ} (D : Display S)

def Pending (s : σ) (id : EventId) : Prop := ∃ due e, D.entry s id = .live due e ∧ due ≠ never

def Parked (s : σ) (id : EventId) : Prop := ∃ e, D.entry s id = .live never e

variable {D}

theorem Parked.not_pending {s : σ} {id : EventId} (h : D.Parked s id) : ¬D.Pending s id := by
  obtain ⟨e, he⟩ := h
  rintro ⟨due, f, hf, hne⟩
  rw [he] at hf
  cases hf
  exact hne rfl

theorem Parked.not_fetched {s : σ} {id : EventId} (h : D.Parked s id) (hv : D.Valid s)
    {limit now : UInt64} {evs : List OutboxEvent} (hf : S.fetchDue limit now s = .ok evs)
    {e : OutboxEvent} (hmem : e ∈ evs) : e.id ≠ id := by
  obtain ⟨l, n, hl, -, hok⟩ := D.fetchDue_ok s limit now hv
  rw [hok, Except.ok.injEq] at hf
  rw [← hf] at hmem
  obtain ⟨⟨due, f⟩, hdue, rfl⟩ := List.mem_map.mp hmem
  obtain ⟨hlive, -, hne⟩ := (hl.mem_iff due f).mp (List.mem_of_mem_take hdue)
  rintro rfl
  exact h.not_pending ⟨due, f, hlive, hne⟩

theorem Parked.count_pred {s s' : σ} {due : UInt64} {e : OutboxEvent} (h : D.Parked s e.id)
    (hv : D.Valid s) (hv' : D.Valid s')
    (he : D.entry s' = Function.update (D.entry s) e.id (.live due e)) (hne : due ≠ never)
    {n : UInt64} (hn : S.parkedCount s = .ok n) (hsmall : n ≠ u64Max) :
    S.parkedCount s' = .ok (n-1) := by
  obtain ⟨f, hf⟩ := h
  obtain ⟨l, hl, hcount⟩ := D.parkedCount_ok s hv
  obtain ⟨l', hl', hcount'⟩ := D.parkedCount_ok s' hv'
  have herase : (D.entry s').Tally (· = never) (l.erase (never, f)) := by
    rw [he]
    exact hl.erase hf (D.filed s hv _ _ _ hf) hne
  have hid := D.filed s hv _ _ _ hf
  have hmem : (never, f) ∈ l := (hl.mem_iff never f).mpr ⟨by rw [hid, hf], rfl⟩
  have hpos := List.length_pos_of_mem hmem
  have hlen : l'.length = l.length-1 := by
    rw [hl'.length_unique herase, List.length_erase_of_mem hmem]
  have hcount := (Reply.count.inj hcount).symm.trans hn
  rw [Except.ok.injEq, tryU64OfNat] at hcount
  split at hcount
  · rename_i hlt
    rw [Option.getD_some] at hcount
    rw [Reply.count.inj hcount', hlen, tryU64OfNat, if_pos (by omega), Option.getD_some, ← hcount,
      UInt64.ofNat_sub hpos]
    rfl
  · exact absurd hcount.symm hsmall

/-- An event that comes to be due and pending is fetched by a wide enough
`fetch_due`, and counted once more. -/
theorem shows_live {s s' : σ} {due now : UInt64} {e : OutboxEvent} (hv : D.Valid s)
    (hv' : D.Valid s') (he : D.entry s' = Function.update (D.entry s) e.id (.live due e))
    (hold : ¬D.Pending s e.id) (hdue : due ≤ now) (hne : due ≠ never) (hroom : Roomy S s) :
    (∃ evs, S.fetchDue u64Max now s' = .ok evs ∧ e ∈ evs) ∧
      ∃ n, S.pendingCount s = .ok n ∧ S.pendingCount s' = .ok (n+1) := by
  obtain ⟨l, hl, hcount⟩ := D.pendingCount_ok s hv
  obtain ⟨l', hl', hcount'⟩ := D.pendingCount_ok s' hv'
  have hcons : (D.entry s').Tally (· ≠ never) ((due, e)::l) := by
    rw [he]
    exact hl.cons hne fun due' e' hlive hne' => hold ⟨due', e', hlive, hne'⟩
  have hlen : l'.length = l.length+1 := hl'.length_unique hcons
  have hsmall : l.length < 2^63-1 := by
    have h := hroom _ (Reply.count.inj hcount)
    unfold tryU64OfNat at h
    split at h
    · rename_i hlt
      rwa [Option.getD_some, UInt64.toNat_ofNat', Nat.mod_eq_of_lt hlt] at h
    · simp at h
  constructor
  · obtain ⟨dues, n, hdues, hn, hfetch⟩ := D.fetchDue_ok s' u64Max now hv'
    have hle := hdues.length_le_tally hl'
    have hall : dues.take n = dues := by
      apply List.take_of_length_le
      rw [u64Max_toNat] at hn
      omega
    rw [hall] at hfetch
    refine ⟨_, hfetch, List.mem_map.mpr ⟨(due, e), ?_, rfl⟩⟩
    refine (hdues.mem_iff due e).mpr ⟨?_, hdue, hne⟩
    rw [he, Function.update_self]
  · refine ⟨_, Reply.count.inj hcount, (Reply.count.inj hcount').trans ?_⟩
    rw [hlen, tryU64OfNat, if_pos (by omega), tryU64OfNat, if_pos (by omega), Option.getD_some,
      Option.getD_some, UInt64.ofNat_add]
    rfl

end Display

namespace Sqlite

theorem valid_call (U : UuidCrate) {t : Tables} (c : Call) (hv : Valid t) :
    Valid ((store U).call c t).2 := by
  cases c with
  | append e =>
    change Valid (append e t).2
    by_cases hacc : Accepts e
    · exact (entry_append U hv hacc).2.1
    · obtain ⟨err, h⟩ := append_refused t hacc
      rwa [h]
  | markDispatched clock id =>
    change Valid (markDispatched clock id t).2
    rcases markDispatched_cases clock id t with ⟨-, h⟩ | ⟨row, hget, -, h⟩
    · rwa [h]
    · have hcol := hv _ _ hget
      rw [h]
      exact valid_write hv ⟨hcol.key, hcol.headers, hcol.attempts, hcol.due⟩
  | markFailed id error retryAt =>
    change Valid (markFailed id error retryAt t).2
    rcases markFailed_cases id error retryAt t with ⟨-, h⟩ | ⟨row, hget, -, h⟩ | ⟨row, -, -, h⟩
    · rwa [h]
    · have hcol := hv _ _ hget
      rw [h]
      exact valid_write hv ⟨hcol.key, hcol.headers, Int.add_nonneg hcol.attempts (by decide),
        clampI64_nonneg _⟩
    · rwa [h]
  | deadLetter clock e reason =>
    change Valid (deadLetter clock e reason t).2
    rcases deadLetter_cases clock e reason t with ⟨blob, -, h⟩ | ⟨err, h⟩
    · rw [h]
      intro key row hget
      simp only [completed, ExtTreeMap.getElem?_erase] at hget
      split at hget
      · cases hget
      · exact hv key row hget
    · rwa [h]
  | fetchDue | pendingCount | parkedCount | deadLetters => exact hv

theorem call_other (U : UuidCrate) (c : Call) {id : EventId} (h : c.target ≠ some id)
    (t : Tables) : ((store U).call c t).2.outboxEvents[id.text]? = t.outboxEvents[id.text]? := by
  have hne : ∀ k, c.target = some k → id.text ≠ k.text := by
    intro k hk he
    rw [EventId.text_inj] at he
    exact h (he ▸ hk)
  cases c with
  | append e => exact (appends e t).row_other (hne e.id rfl)
  | markDispatched clock k => exact (dispatches clock k t).row_other (hne k rfl)
  | markFailed k error retryAt => exact (fails k error retryAt t).row_other (hne k rfl)
  | deadLetter clock e reason =>
    change (deadLetter clock e reason t).2.outboxEvents[id.text]? = _
    rcases deadLetter_cases clock e reason t with ⟨blob, -, hm⟩ | ⟨err, hm⟩
    · rw [hm, completed, getElem?_erase_other]
      rintro rfl
      exact h rfl
    · rw [hm]
  | fetchDue | pendingCount | parkedCount | deadLetters => rfl

def display (U : UuidCrate) : Display (store U) := (refinement U).display

end Sqlite

namespace Memory

def display : Display store := refinement.display

end Memory

namespace Postgres

/-- What the queries take a live row's due stamp to be: they tell a parked row by its
status alone. -/
def EventRow.due (row : EventRow) : UInt64 :=
  if row.status = .parked then never else unclampU64 row.nextAttemptAt

def shows (U : UuidCrate) (id : EventId) (row : EventRow) : Entry :=
  if row.status = .dispatched then .dispatched
  else match eventFromRow U (id.text, row) with
    | .ok e => .live row.due e
    | .error _ => .absent

def shown (U : UuidCrate) (t : Tables) : Outbox := tableEntry (shows U) t.outboxEvents

/-- What holds of every row the store ever writes. -/
structure RowSound (key : String) (row : EventRow) : Prop where
  columns : Columns key row.headers row.attempts row.nextAttemptAt
  ceiling : row.nextAttemptAt ≤ i64Max

def Sound (t : Tables) : Prop := ∀ (key : String) (row : EventRow),
  t.outboxEvents[key]? = some row → RowSound key row

theorem sound_empty : Sound empty := fun key row h => by simp [empty] at h

theorem clampI64_le (v : UInt64) : clampI64 v ≤ i64Max := by
  rw [clampI64_eq]
  exact min_le_right _ _

/-- What a call can leave of the live table. -/
inductive Leaves (t : Tables) : Call → ExtTreeMap String EventRow → Prop
  | same (c : Call) : Leaves t c t.outboxEvents
  | inserted (e : OutboxEvent) (blob : List UInt8) (hacc : Storable e)
      (hnew : t.outboxEvents[e.id.text]? = none) (hdec : decodeHeaders blob = .ok e.headers) :
      Leaves t (.append e) (t.outboxEvents.insert e.id.text (rowOf e blob))
  | dispatched (clock : UInt64) (id : EventId) (row : EventRow)
      (hget : t.outboxEvents[id.text]? = some row) :
      Leaves t (.markDispatched clock id) (t.outboxEvents.insert id.text
        { row with status := .dispatched, dispatchedAt := some (clampI64 clock) })
  | failed (id : EventId) (error : String) (retryAt : UInt64) (row : EventRow)
      (hget : t.outboxEvents[id.text]? = some row) :
      Leaves t (.markFailed id error retryAt) (t.outboxEvents.insert id.text
        (row.failed (truncateError error) (clampI64 retryAt)))
  | lettered (clock : UInt64) (e : OutboxEvent) (reason : String) :
      Leaves t (.deadLetter clock e reason) (t.outboxEvents.erase e.id.text)

theorem call_leaves (U : UuidCrate) (c : Call) (t : Tables) :
    Leaves t c ((store U).call c t).2.outboxEvents := by
  cases c with
  | append e =>
    change Leaves t _ (append e t).2.outboxEvents
    by_cases hacc : Storable e
    · rcases append_cases t hacc with ⟨row, -, h⟩ | ⟨hget, blob, hdec, h⟩
      · rw [h]
        exact .same _
      · rw [h]
        exact .inserted e blob hacc hget hdec
    · obtain ⟨err, h⟩ := append_refused t hacc
      rw [h]
      exact .same _
  | markDispatched clock id =>
    change Leaves t _ (markDispatched clock id t).2.outboxEvents
    rcases markDispatched_cases clock id t with ⟨-, h⟩ | ⟨row, hget, -, h⟩
    · rw [h]
      exact .same _
    · rw [h]
      exact .dispatched clock id row hget
  | markFailed id error retryAt =>
    change Leaves t _ (markFailed id error retryAt t).2.outboxEvents
    rcases markFailed_cases id error retryAt t with
      ⟨-, h⟩ | ⟨-, ⟨-, h⟩ | ⟨row, hget, -, h⟩ | ⟨row, -, -, h⟩⟩
    · rw [h]
      exact .same _
    · rw [h]
      exact .same _
    · rw [h]
      exact .failed id error retryAt row hget
    · rw [h]
      exact .same _
  | deadLetter clock e reason =>
    change Leaves t _ (deadLetter clock e reason t).2.outboxEvents
    rcases deadLetter_cases clock e reason t with ⟨blob, -, h⟩ | ⟨err, h⟩
    · rw [h]
      exact .lettered clock e reason
    · rw [h]
      exact .same _
  | fetchDue | pendingCount | parkedCount | deadLetters => exact .same _

theorem call_other (U : UuidCrate) (c : Call) {id : EventId} (h : c.target ≠ some id)
    (t : Tables) : ((store U).call c t).2.outboxEvents[id.text]? = t.outboxEvents[id.text]? := by
  have hleaves := call_leaves U c t
  generalize ((store U).call c t).2.outboxEvents = rows at hleaves ⊢
  cases hleaves with
  | same => rfl
  | inserted e blob => exact getElem?_insert_other (fun hid => h (congrArg some hid)) _
  | dispatched clock k row => exact getElem?_insert_other (fun hid => h (congrArg some hid)) _
  | failed k error retryAt row => exact getElem?_insert_other (fun hid => h (congrArg some hid)) _
  | lettered clock e reason => exact getElem?_erase_other fun hid => h (congrArg some hid)

theorem forall_rows_call (U : UuidCrate) {P : String → EventRow → Prop} {c : Call} {t : Tables}
    (h : ∀ (key : String) (row : EventRow), t.outboxEvents[key]? = some row → P key row)
    (hnew : ∀ e blob, c = .append e → Storable e → t.outboxEvents[e.id.text]? = none →
      decodeHeaders blob = .ok e.headers → P e.id.text (rowOf e blob))
    (hdone : ∀ (key : String) (row : EventRow) stamp, P key row →
      P key { row with status := .dispatched, dispatchedAt := some stamp })
    (hfailed : ∀ (key : String) (row : EventRow) error retryAt, P key row →
      P key (row.failed error (clampI64 retryAt)))
    (key : String) (row : EventRow)
    (hget : ((store U).call c t).2.outboxEvents[key]? = some row) : P key row := by
  have hinsert : ∀ (k : String) (new : EventRow), P k new →
      (t.outboxEvents.insert k new)[key]? = some row → P key row := by
    intro k new hp hget
    rcases write_cases (t := t) hget with ⟨rfl, rfl⟩ | hold
    · exact hp
    · exact h key row hold
  have hleaves := call_leaves U c t
  generalize ((store U).call c t).2.outboxEvents = rows at hleaves hget
  cases hleaves with
  | same => exact h key row hget
  | inserted e blob hacc hnone hdec => exact hinsert _ _ (hnew e blob rfl hacc hnone hdec) hget
  | dispatched clock id old hold => exact hinsert _ _ (hdone _ _ _ (h _ _ hold)) hget
  | failed id error retryAt old hold => exact hinsert _ _ (hfailed _ _ _ _ (h _ _ hold)) hget
  | lettered clock e reason =>
    rw [ExtTreeMap.getElem?_erase] at hget
    split at hget
    · cases hget
    · exact h key row hget

theorem sound_call (U : UuidCrate) {t : Tables} (c : Call) (h : Sound t) :
    Sound ((store U).call c t).2 := by
  refine forall_rows_call U h ?_ ?_ ?_
  · intro e blob _ _ _ hdec
    exact ⟨⟨⟨e.id, rfl⟩, ⟨e.headers, hdec⟩, attempts_rowOf_nonneg e blob, clampI64_nonneg _⟩,
      clampI64_le _⟩
  · intro key row stamp hrow
    have hcol := hrow.columns
    exact ⟨⟨hcol.key, hcol.headers, hcol.attempts, hcol.due⟩, hrow.ceiling⟩
  · intro key row error retryAt hrow
    have hcol := hrow.columns
    exact ⟨⟨hcol.key, hcol.headers, Int.add_nonneg hcol.attempts (by decide), clampI64_nonneg _⟩,
      clampI64_le _⟩

theorem shown_live_iff (U : UuidCrate) {t : Tables} {id : EventId} {due : UInt64}
    {e : OutboxEvent} : shown U t id = .live due e ↔ ∃ row, t.outboxEvents[id.text]? = some row ∧
      row.status ≠ .dispatched ∧ eventFromRow U (id.text, row) = .ok e ∧ due = row.due := by
  unfold shown tableEntry
  cases hget : t.outboxEvents[id.text]? with
  | none => simp
  | some row =>
    unfold shows
    by_cases hd : row.status = .dispatched
    · simp [hd]
    · cases hdec : eventFromRow U (id.text, row) with
      | error err => simp [hd, hdec]
      | ok f => simp [hd, Ne.symm hd, hdec, eq_comm, and_comm]

theorem shown_write (U : UuidCrate) (t : Tables) (id : EventId) (row : EventRow) :
    shown U (t.write id.text row) = Function.update (shown U t) id (shows U id row) :=
  tableEntry_insert (shows U) t.outboxEvents id row

theorem shown_none (U : UuidCrate) {t : Tables} {id : EventId}
    (h : t.outboxEvents[id.text]? = none) : shown U t id = .absent := by
  rw [shown, tableEntry, h]

theorem due_eq_never_iff {key : String} {row : EventRow} (h : RowSound key row) :
    row.due = never ↔ row.status = .parked := by
  unfold EventRow.due
  split
  · rename_i hp
    simp [hp]
  · rename_i hp
    refine iff_of_false (fun he => ?_) hp
    have hn := congrArg UInt64.toNat he
    have hle := h.ceiling
    unfold i64Max at hle
    rw [unclampU64_toNat h.columns.due (by omega), never, u64Max_toNat] at hn
    omega

theorem pending_iff_due {key : String} {row : EventRow} (h : RowSound key row)
    (hd : row.status ≠ .dispatched) : row.status = .pending ↔ row.due ≠ never := by
  rw [Ne, due_eq_never_iff h]
  cases hs : row.status with
  | pending => simp
  | parked => simp
  | dispatched => exact absurd hs hd

def rowShown (U : UuidCrate) (kr : String × EventRow) : Option (UInt64 × OutboxEvent) :=
  (eventFromRow U kr).toOption.map fun e => (kr.2.due, e)

theorem rowShown_eq_some (U : UuidCrate) {kr : String × EventRow} {x : UInt64 × OutboxEvent} :
    rowShown U kr = some x ↔ eventFromRow U kr = .ok x.2 ∧ x.1 = kr.2.due := by
  unfold rowShown
  obtain ⟨due, e⟩ := x
  cases hd : eventFromRow U kr with
  | error err => simp [Except.toOption]
  | ok f => simp [Except.toOption, and_comm, eq_comm]

theorem RowSound.decode (U : UuidCrate) {key : String} {row : EventRow} (h : RowSound key row) :
    ∃ e : OutboxEvent, key = e.id.text ∧ eventFromRow U (key, row) = .ok e :=
  h.columns.decode U row.topic row.payload row.createdAt row.lastError

theorem shown_fetchDue (U : UuidCrate) {t : Tables} (limit now : UInt64) (hs : Sound t) :
    ∃ l n, (shown U t).DueList now l ∧ (n = limit.toNat ∨ 2^63 ≤ n+1 ∧ 2^63 ≤ limit.toNat) ∧
      fetchDue U limit now t = .ok ((l.take n).map (·.2)) := by
  have hsel : ∀ row : EventRow, isDue now row = true ↔
      row.status = .pending ∧ row.nextAttemptAt ≤ clampI64 now := by
    intro row
    simp [isDue]
  have hdue : ∀ row : EventRow, row.status = .pending → row.due = unclampU64 row.nextAttemptAt := by
    intro row hp
    rw [EventRow.due, if_neg (by simp [hp])]
  obtain ⟨l, hl, htake⟩ : ∃ l, (shown U t).DueList now l ∧
      ∀ n, ((selectOrdered (·.nextAttemptAt) (isDue now) t.outboxEvents).take n).mapM
        (eventFromRow U) = .ok ((l.take n).map (·.2)) := by
    refine dueList_of_selected (rowShown U) ?_ ?_
    · rintro ⟨key, row⟩ hmem
      obtain ⟨hget, hd⟩ := mem_selectOrdered.mp hmem
      have hrow := hs key row hget
      obtain ⟨e, hk, hdec⟩ := hrow.decode U
      refine ⟨e, hk, hdec, (rowShown_eq_some U).mpr ⟨hdec, ?_⟩, hrow.columns.due, ?_⟩
      · exact (hdue row ((hsel row).mp hd).1).symm
      · have hle := hrow.ceiling
        unfold i64Max at hle
        simp only
        omega
    · intro due e
      rw [shown_live_iff]
      constructor
      · rintro ⟨⟨row, hget, hlive, hdec, rfl⟩, hnow, hne⟩
        have hrow := hs _ row hget
        have hpending := (pending_iff_due hrow hlive).mpr hne
        rw [hdue row hpending, unclampU64_le_iff hrow.columns.due hrow.ceiling] at hnow
        exact ⟨_, mem_selectOrdered.mpr ⟨hget, (hsel row).mpr ⟨hpending, hnow⟩⟩,
          (rowShown_eq_some U).mpr ⟨hdec, rfl⟩⟩
      · rintro ⟨⟨key, row⟩, hkr, hshow⟩
        obtain ⟨hdec, rfl⟩ := (rowShown_eq_some U).mp hshow
        obtain ⟨hget, hd⟩ := mem_selectOrdered.mp hkr
        obtain ⟨hpending, hle⟩ := (hsel row).mp hd
        have hrow := hs key row hget
        obtain ⟨f, hk, hdec'⟩ := hrow.decode U
        rw [hdec', Except.ok.injEq] at hdec
        simp only at hdec
        subst hdec hk
        refine ⟨⟨row, hget, by simp [hpending], hdec', rfl⟩, ?_, ?_⟩
        · rw [hdue row hpending]
          exact (unclampU64_le_iff hrow.columns.due hrow.ceiling).mpr hle
        · exact (pending_iff_due hrow (by simp [hpending])).mp hpending
  refine ⟨l, _, hl, limitRows_cases limit, ?_⟩
  rw [fetchDue, claim, List.filter_eq_self.mpr (by simp), htake]

theorem shown_countStatus (U : UuidCrate) {t : Tables} {status : Status} {p : UInt64 → Prop}
    (hs : Sound t) (hlive : status ≠ .dispatched)
    (hp : ∀ (key : String) (row : EventRow), RowSound key row → row.status ≠ .dispatched →
      (row.status = status ↔ p row.due)) :
    ∃ l, (shown U t).Tally p l ∧
      Reply.count (countStatus status t) = Outbox.countReply l.length := by
  rw [countStatus]
  refine tally_of_selected (rowShown U) ?_ ?_
  · rintro ⟨key, row⟩ hmem
    have hget := ExtTreeMap.mem_toList_iff_getElem?_eq_some.mp (List.mem_filter.mp hmem).1
    obtain ⟨e, hk, hdec⟩ := (hs key row hget).decode U
    exact ⟨_, e, hk, (rowShown_eq_some U).mpr ⟨hdec, rfl⟩⟩
  · intro due e
    rw [shown_live_iff]
    constructor
    · rintro ⟨⟨row, hget, hd, hdec, rfl⟩, hpdue⟩
      have hstatus := (hp _ row (hs _ row hget) hd).mpr hpdue
      refine ⟨(e.id.text, row), List.mem_filter.mpr ⟨?_, by simp [hstatus]⟩, ?_⟩
      · exact ExtTreeMap.mem_toList_iff_getElem?_eq_some.mpr hget
      · exact (rowShown_eq_some U).mpr ⟨hdec, rfl⟩
    · rintro ⟨⟨key, row⟩, hkr, hshow⟩
      obtain ⟨hdec, rfl⟩ := (rowShown_eq_some U).mp hshow
      obtain ⟨hin, hstatus⟩ := List.mem_filter.mp hkr
      have hget := ExtTreeMap.mem_toList_iff_getElem?_eq_some.mp hin
      have hrow := hs key row hget
      obtain ⟨f, hk, hdec'⟩ := hrow.decode U
      rw [hdec', Except.ok.injEq] at hdec
      simp only [beq_iff_eq] at hdec hstatus
      subst hdec hk
      have hd : row.status ≠ .dispatched := hstatus ▸ hlive
      exact ⟨⟨row, hget, hd, hdec', rfl⟩, (hp _ row hrow hd).mp hstatus⟩

theorem shown_pendingCount (U : UuidCrate) {t : Tables} (hs : Sound t) :
    ∃ l, (shown U t).Tally (· ≠ never) l ∧
      Reply.count (pendingCount t) = Outbox.countReply l.length :=
  shown_countStatus U hs (by simp) fun _ _ => pending_iff_due

theorem shown_parkedCount (U : UuidCrate) {t : Tables} (hs : Sound t) :
    ∃ l, (shown U t).Tally (· = never) l ∧
      Reply.count (parkedCount t) = Outbox.countReply l.length :=
  shown_countStatus U hs (by simp) fun _ _ hrow _ => (due_eq_never_iff hrow).symm

def display (U : UuidCrate) : Display (store U) where
  Valid := Sound
  entry := shown U
  filed t hs id due e h := by
    obtain ⟨row, -, -, hdec, -⟩ := (shown_live_iff U).mp h
    exact decodeEvent_id U hdec
  fetchDue_ok _ limit now := shown_fetchDue U limit now
  pendingCount_ok _ := shown_pendingCount U
  parkedCount_ok _ := shown_parkedCount U

end Postgres
end OutboxKit
