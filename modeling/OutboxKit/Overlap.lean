import OutboxKit.Delivery
import OutboxKit.DeadLetter

/-! Several instances on one Postgres store. The claim transaction commits before
the sends, so two instances can hold the same event, each deciding from its own
snapshot. What then keeps a dispatched row dispatched and a spent budget spent
is said exactly, with the interleavings that break it. -/
namespace OutboxKit.Postgres
open Std Machine Ordered Trace

variable {ι : Type} {U : UuidCrate} {config : ι → DispatcherConfig}

def fleet [DecidableEq ι] (U : UuidCrate) (config : ι → DispatcherConfig) :
    System (World ι Db (List (String × EventRow))) (Action ι) :=
  dispatching (shared U) config ⟨empty, []⟩

abbrev Fleet (ι : Type) := World ι Db (List (String × EventRow))

def events (w : Fleet ι) : ExtTreeMap String EventRow := w.store.tables.outboxEvents

def FailingMark (w : Fleet ι) (i : ι) (n : Nat) (e : OutboxEvent) (error : String)
    (retryAt : UInt64) : Prop :=
  (w.instances i).inFlight[n]? = some ⟨e, .marking (.failed error retryAt)⟩

/-- A failure mark about to go through: the event it was decided from, and the row
it hits. -/
structure Hit where
  event : OutboxEvent
  error : String
  retryAt : UInt64
  row : EventRow

/-- The failure mark of the instance's `n`-th task, if it would go through: the row is
there, the diagnostic has no zero byte and the counter has room. -/
def hit (w : Fleet ι) (i : ι) (n : Nat) : Option Hit :=
  match (w.instances i).inFlight[n]? with
  | some ⟨e, .marking (.failed error retryAt)⟩ =>
    match (events w)[e.id.text]? with
    | some row => if hasNul (truncateError error) = false ∧ row.attempts < i32Max then
        some ⟨e, error, retryAt, row⟩ else none
    | none => none
  | _ => none

theorem hit_eq_some {w : Fleet ι} {i : ι} {n : Nat} {x : Hit} : hit w i n = some x ↔
    FailingMark w i n x.event x.error x.retryAt ∧ (events w)[x.event.id.text]? = some x.row ∧
      hasNul (truncateError x.error) = false ∧ x.row.attempts < i32Max := by
  constructor
  · intro h
    unfold hit at h
    split at h
    · rename_i e error retryAt ht
      split at h
      · rename_i row hget
        split at h
        · rename_i hroom
          cases h
          exact ⟨ht, hget, hroom⟩
        · cases h
      · cases h
    · cases h
  · rintro ⟨ht, hget, hroom⟩
    rw [FailingMark] at ht
    simp only [hit, ht, hget, if_pos hroom]

section Tables
variable [DecidableEq ι]

/-- What a step can make of the tables: an append, one of the two marks, or nothing. -/
inductive Touches (w : Fleet ι) (t : Tables) : Action ι → Prop
  | nothing (a : Action ι) (ht : t = w.store.tables) : Touches w t a
  | appended (e : OutboxEvent) (ht : t = (append e w.store.tables).2) :
      Touches w t (.append e true)
  | dispatched (i : ι) (n : Nat) (clock : UInt64) (e : OutboxEvent)
      (ht : t = (markDispatched clock e.id w.store.tables).2) : Touches w t (.mark i n clock true)
  | failed (i : ι) (n : Nat) (clock : UInt64) (e : OutboxEvent) (error : String) (retryAt : UInt64)
      (hmark : FailingMark w i n e error retryAt)
      (ht : t = (markFailed e.id error retryAt w.store.tables).2) :
      Touches w t (.mark i n clock true)

theorem touches_step {w w' : Fleet ι} {a : Action ι}
    (h : w.step (shared U) config a = some w') : Touches w w'.store.tables a := by
  cases World.steps_of_step h with
  | appended e s happ => exact .appended e (congrArg (·.2.tables) happ).symm
  | refused e s err happ => exact .appended e (congrArg (·.2.tables) happ).symm
  | appendLost e => exact .nothing _ rfl
  | moved i m inst obs hm => exact .nothing _ rfl
  | idled i now reached hp => exact .nothing _ rfl
  | opened i now claim s hp hopen => exact .nothing _ (congrArg (·.2.tables) hopen).symm
  | spawned i claim due s hp hclose => exact .nothing _ (congrArg (·.2.tables) hclose).symm
  | fetchFailed i claim err s hp hclose => exact .nothing _ (congrArg (·.2.tables) hclose).symm
  | fetchLost i claim hp => exact .nothing _ rfl
  | issued i n clock e mark ht hfree =>
    cases mark with
    | dispatched => exact .dispatched i n clock e rfl
    | failed error retryAt => exact .failed i n clock e error retryAt ht rfl
  | markLost i n clock e mark ht => exact .nothing _ rfl
  | crashed i =>
    refine .nothing _ ?_
    simp only [World.put, Shared.release]
    split <;> rfl

theorem keyed_step {w w' : Fleet ι} {a : Action ι} (hk : Keyed (events w))
    (h : w.step (shared U) config a = some w') : Keyed (events w') := by
  rw [events] at hk ⊢
  cases touches_step h with
  | nothing a ht => rwa [ht]
  | appended e ht =>
    rw [ht]
    exact (letterBox U).keyed_call (.append e) hk
  | dispatched i n clock e ht =>
    rw [ht]
    exact (letterBox U).keyed_call (.markDispatched clock e.id) hk
  | failed i n clock e error retryAt hmark ht =>
    rw [ht]
    exact (letterBox U).keyed_call (.markFailed e.id error retryAt) hk

/-- Where a row comes from that is there after a step. -/
inductive Written (w : Fleet ι) : Action ι → String → EventRow → Prop
  | kept (a : Action ι) (key : String) (row : EventRow) (hget : (events w)[key]? = some row) :
      Written w a key row
  | inserted (e : OutboxEvent) (blob : List UInt8) (hnew : (events w)[e.id.text]? = none) :
      Written w (.append e true) e.id.text (rowOf e blob)
  | dispatched (a : Action ι) (key : String) (old : EventRow) (stamp : Int)
      (hold : (events w)[key]? = some old) :
      Written w a key { old with status := .dispatched, dispatchedAt := some stamp }
  | failed (i : ι) (n : Nat) (clock : UInt64) (x : Hit) (hx : hit w i n = some x) :
      Written w (.mark i n clock true) x.event.id.text
        (x.row.failed (truncateError x.error) (clampI64 x.retryAt))

theorem written_step {w w' : Fleet ι} {a : Action ι}
    (h : w.step (shared U) config a = some w') {key : String} {row : EventRow}
    (hget : (events w')[key]? = some row) : Written w a key row := by
  rw [events] at hget
  cases touches_step h with
  | nothing a ht =>
    rw [ht] at hget
    exact .kept _ key row hget
  | appended e ht =>
    rw [ht] at hget
    by_cases hacc : Storable e
    · rcases append_cases w.store.tables hacc with ⟨old, -, happ⟩ | ⟨hnew, blob, -, happ⟩
      · rw [happ] at hget
        exact .kept _ key row hget
      · rw [happ] at hget
        rcases write_cases hget with ⟨rfl, rfl⟩ | hold
        · exact .inserted e blob hnew
        · exact .kept _ key row hold
    · obtain ⟨err, happ⟩ := append_refused w.store.tables hacc
      rw [happ] at hget
      exact .kept _ key row hget
  | dispatched i n clock e ht =>
    rw [ht] at hget
    rcases markDispatched_cases clock e.id w.store.tables with ⟨-, hm⟩ | ⟨old, hold, -, hm⟩
    · rw [hm] at hget
      exact .kept _ key row hget
    · rw [hm] at hget
      rcases write_cases hget with ⟨rfl, rfl⟩ | hrow
      · exact .dispatched _ _ old _ hold
      · exact .kept _ key row hrow
  | failed i n clock e error retryAt hmark ht =>
    rw [ht] at hget
    rcases markFailed_cases e.id error retryAt w.store.tables with
      ⟨-, hm⟩ | ⟨hnul, ⟨-, hm⟩ | ⟨old, hold, hroom, hm⟩ | ⟨old, -, -, hm⟩⟩
    · rw [hm] at hget
      exact .kept _ key row hget
    · rw [hm] at hget
      exact .kept _ key row hget
    · rw [hm] at hget
      rcases write_cases hget with ⟨rfl, rfl⟩ | hrow
      · exact .failed i n clock ⟨e, error, retryAt, old⟩
          (hit_eq_some.mpr ⟨hmark, hold, hnul, hroom⟩)
      · exact .kept _ key row hrow
    · rw [hm] at hget
      exact .kept _ key row hget

end Tables

section Terminal
variable [DecidableEq ι]

/-- The step is a failure mark that goes through on a row already dispatched. -/
def Undispatches (w : Fleet ι) : Action ι → Prop
  | .mark i n _ true => ∃ x ∈ hit w i n, x.row.status = .dispatched
  | _ => False

theorem done_markDispatched (clock : UInt64) (k id : EventId) {t : Tables}
    (h : Finds Done t.outboxEvents id) :
    Finds Done (markDispatched clock k t).2.outboxEvents id := by
  rcases markDispatched_cases clock k t with ⟨-, hm⟩ | ⟨row, -, -, hm⟩
  · rw [hm]
    exact h
  · rw [hm]
    by_cases hk : id = k
    · exact finds_insert.mpr (Or.inl ⟨hk, rfl⟩)
    · exact finds_insert.mpr (Or.inr ⟨hk, h⟩)

/-- A step that is no failure mark on a dispatched row keeps what is dispatched. -/
theorem done_step {w w' : Fleet ι} {a : Action ι} (hok : ¬Undispatches w a)
    (h : w.step (shared U) config a = some w') {id : EventId} (hd : Finds Done (events w) id) :
    Finds Done (events w') id := by
  rw [events] at hd ⊢
  cases touches_step h with
  | nothing a ht => rwa [ht]
  | appended e ht =>
    obtain ⟨row, hget, hrow⟩ := hd
    rw [ht]
    exact ⟨row, ((appends e w.store.tables).row_known (by simp [rowTable, hget])).trans hget, hrow⟩
  | dispatched i n clock e ht =>
    rw [ht]
    exact done_markDispatched clock e.id id hd
  | failed i n clock e error retryAt hmark ht =>
    rw [ht]
    rcases markFailed_cases e.id error retryAt w.store.tables with
      ⟨-, hm⟩ | ⟨hnul, ⟨-, hm⟩ | ⟨row, hget, hlt, hm⟩ | ⟨row, -, -, hm⟩⟩ <;> rw [hm]
    · exact hd
    · exact hd
    · by_cases hid : id = e.id
      · subst hid
        obtain ⟨old, hold, hdone⟩ := hd
        rw [hget] at hold
        cases hold
        exact absurd ⟨⟨e, error, retryAt, row⟩, hit_eq_some.mpr ⟨hmark, hget, hnul, hlt⟩, hdone⟩ hok
      · exact finds_insert.mpr (Or.inr ⟨hid, hd⟩)
    · exact hd

theorem not_done_step {w w' : Fleet ι} {a : Action ι} (hbad : Undispatches w a)
    (h : w.step (shared U) config a = some w') :
    ∃ id, Finds Done (events w) id ∧ ¬Finds Done (events w') id := by
  cases World.steps_of_step h with
  | issued i n clock e mark ht hfree =>
    obtain ⟨⟨f, error, retryAt, row⟩, hx, hdone⟩ := hbad
    obtain ⟨hmark, hget, hnul, hlt⟩ := hit_eq_some.mp hx
    rw [FailingMark, ht] at hmark
    cases hmark
    refine ⟨f.id, ⟨row, hget, hdone⟩, ?_⟩
    change ¬Finds Done (markFailed f.id error retryAt w.store.tables).2.outboxEvents f.id
    rcases markFailed_cases f.id error retryAt w.store.tables with
      ⟨hn, -⟩ | ⟨-, ⟨hnone, -⟩ | ⟨old, -, -, hm⟩ | ⟨old, hold, hge, -⟩⟩
    · rw [hnul] at hn
      cases hn
    · rw [events, hnone] at hget
      cases hget
    · rw [hm]
      intro hd
      rcases finds_insert.mp hd with ⟨-, hd⟩ | ⟨hne, -⟩
      · exact statusFor_ne_dispatched _ hd
      · exact hne rfl
    · rw [events, hold] at hget
      cases hget
      exact absurd hlt hge
  | _ => exact hbad.elim

theorem keyed_reachable {ok : Fleet ι → Action ι → Prop} {w : Fleet ι}
    (h : (fleet U config).Reachable ok w) : Keyed (events w) := by
  refine h.invariant (I := fun w => Keyed (events w)) ?_
    fun w a w' hw _ hstep => keyed_step hw hstep
  intro key row hget
  simp [fleet, dispatching, World.start, events, empty] at hget

theorem not_claimed {t : Tables} (hk : Keyed t.outboxEvents) {id : EventId}
    (hd : Finds Done t.outboxEvents id) {locked : String → Bool} {limit now : UInt64}
    {evs : List OutboxEvent} (h : (claim locked limit now t).mapM (eventFromRow U) = .ok evs) :
    ∀ f ∈ evs, f.id ≠ id := by
  rintro f hf rfl
  obtain ⟨⟨key, row⟩, hkr, hdec⟩ := mem_of_mapM_ok h hf
  obtain ⟨hget, hdue⟩ := mem_selectOrdered.mp (List.mem_filter.mp (List.mem_of_mem_take hkr)).1
  obtain ⟨k, rfl⟩ := hk key row hget
  obtain ⟨old, hold, hdone⟩ := hd
  rw [decodeEvent_id U hdec, hget] at hold
  cases hold
  rw [Done] at hdone
  simp [isDue, hdone] at hdue

theorem not_counted {t : Tables} {id : EventId} (hd : Finds Done t.outboxEvents id)
    {status : Status} (hs : status ≠ .dispatched) :
    ∀ kr ∈ t.outboxEvents.toList.filter (fun kr => kr.2.status == status), kr.1 ≠ id.text := by
  rintro ⟨key, row⟩ hkr rfl
  obtain ⟨old, hold, hdone⟩ := hd
  obtain ⟨hmem, hstatus⟩ := List.mem_filter.mp hkr
  rw [ExtTreeMap.mem_toList_iff_getElem?_eq_some, hold] at hmem
  cases hmem
  exact hs ((beq_iff_eq.mp hstatus).symm.trans hdone)

/-- On Postgres a dispatched row stays dispatched, out of the rows that either count
goes over and out of every later fetch, along every run in which no failure mark
goes through on a dispatched row; and a step keeps the dispatched rows exactly
when it is not such a mark. -/
theorem dispatched_stays_iff (U : UuidCrate) (config : ι → DispatcherConfig) :
    (∀ w, (fleet U config).Reachable (fun w a => ¬Undispatches w a) w →
      ∀ w', (fleet U config).Reach (fun w a => ¬Undispatches w a) w w' →
        ∀ id row, (events w)[id.text]? = some row → row.status = .dispatched →
          (∃ row', (events w')[id.text]? = some row' ∧ row'.status = .dispatched) ∧
          (∀ status, status = .pending ∨ status = .parked →
            ∀ kr ∈ (events w').toList.filter (fun kr => kr.2.status == status), kr.1 ≠ id.text) ∧
          ∀ locked limit now evs,
            (claim locked limit now w'.store.tables).mapM (eventFromRow U) = .ok evs →
              ∀ f ∈ evs, f.id ≠ id) ∧
    ∀ w a w', w.step (shared U) config a = some w' →
      ((∀ id, Finds Done (events w) id → Finds Done (events w') id) ↔ ¬Undispatches w a) := by
  constructor
  · intro w hw w' hr id row hget hd
    have hdone : Finds Done (events w') id := by
      refine hr.invariant (I := fun w => Finds Done (events w) id) ?_ ⟨row, hget, hd⟩
      exact fun s a t hs hok hstep => done_step hok hstep hs
    refine ⟨hdone, fun status hs => not_counted hdone ?_, fun locked limit now evs =>
      not_claimed (keyed_reachable (hw.trans hr)) hdone⟩
    cases hs with
    | inl h => simp [h]
    | inr h => simp [h]
  · intro w a w' hstep
    constructor
    · intro hkeep hbad
      obtain ⟨id, hd, hn⟩ := not_done_step hbad hstep
      exact hn (hkeep id hd)
    · exact fun hok id hd => done_step hok hstep hd

/-- Two instances claim one event, the second after the first has committed, and both
send it. -/
def bothClaim : List (Action Bool) :=
  [.append (.sample 1 5) true, .move false .start, .move true .start,
    .tick false 10 true, .fetched false true, .tick true 10 true, .fetched true true,
    .move false (.permit 0), .move false (.invoke 0), .move true (.permit 0),
    .move true (.invoke 0)]

/-- The first send succeeds and is marked; the second has failed and is not yet. -/
def successFirst : List (Action Bool) :=
  bothClaim++[.move false (.returned 0 .ok 20 .zero),
    .move true (.returned 0 (.failure (.delivery "late")) 20 .zero), .mark false 0 21 true]

def standing (w : Fleet ι) (id : EventId) : Option (Status × Int) :=
  (events w)[id.text]?.map fun row => (row.status, row.attempts)

/-- The late failure puts the dispatched event back, and it is fetched again. -/
theorem dispatched_comes_back :
    let F := fleet .hyphenatedOnly fun _ : Bool => .sample 5
    ∃ w, F.Reachable (fun _ _ => True) w ∧ standing w (.ofByte 1) = some (.dispatched, 0) ∧
      ∃ w', F.Reach (fun _ _ => True) w w' ∧ standing w' (.ofByte 1) = some (.pending, 1) ∧
        pendingCount w'.store.tables = .ok 1 ∧
        (fetchDue .hyphenatedOnly 10 100 w'.store.tables).map (·.map (·.id)) =
          .ok [.ofByte 1] := by
  intro F
  have hrun : (F.run (fun _ _ => True) F.start successFirst).any (fun w =>
      standing w (.ofByte 1) = some (.dispatched, 0) ∧
        (F.run (fun _ _ => True) w [.mark true 0 22 true]).any (fun w' =>
          standing w' (.ofByte 1) = some (.pending, 1) ∧ pendingCount w'.store.tables = .ok 1 ∧
            (fetchDue .hyphenatedOnly 10 100 w'.store.tables).map (·.map (·.id)) =
              .ok [.ofByte 1]) = true) = true := by
    decide +kernel
  obtain ⟨w, hw, hdone, hrest⟩ := System.exists_reach hrun
  obtain ⟨w', hw', hback⟩ := System.exists_reach hrest
  exact ⟨w, hw, hdone, w', hw', hback⟩

end Terminal

section Budget

/-- The step is a failure mark that goes through on a row that is parked or spends
its last attempt with it, decided from a snapshot that still had attempts left. -/
def Overdraws (m : UInt32) (w : Fleet ι) : Action ι → Prop
  | .mark i n _ true => ∃ x ∈ hit w i n,
      (x.row.status = .parked ∨ (m.toNat : Int) ≤ x.row.attempts+1) ∧
        x.event.attempts.toNat+1 < m.toNat
  | _ => False

/-- An append brings its event in with attempts left. -/
def ComesBelow (m : UInt32) : Action ι → Prop
  | .append e _ => e.attempts < m
  | _ => True

/-- Events come in with attempts left, and no mark overdraws. -/
def Budgets (m : UInt32) (w : Fleet ι) (a : Action ι) : Prop := ¬Overdraws m w a ∧ ComesBelow m a

instance (m : UInt32) (w : Fleet ι) (a : Action ι) : Decidable (Overdraws m w a) :=
  match a with
  | .mark i n _ true => inferInstanceAs (Decidable (∃ x ∈ hit w i n, _))
  | .mark _ _ _ false | .append .. | .move .. | .tick .. | .fetched .. | .crash _ =>
    inferInstanceAs (Decidable False)

instance (m : UInt32) (a : Action ι) : Decidable (ComesBelow m a) :=
  match a with
  | .append .. => inferInstanceAs (Decidable (_ < _))
  | .move .. | .tick .. | .fetched .. | .mark .. | .crash _ => inferInstanceAs (Decidable True)

instance (m : UInt32) (w : Fleet ι) (a : Action ι) : Decidable (Budgets m w a) :=
  inferInstanceAs (Decidable (_ ∧ _))

/-- A spent row is not pending, and a decision taken at the end of the budget parks. -/
structure Budgeted (m : UInt32) (w : Fleet ι) : Prop where
  rows : ∀ (key : String) row, (events w)[key]? = some row → (m.toNat : Int) ≤ row.attempts →
    row.status ≠ .pending
  marks : ∀ i, ∀ task ∈ (w.instances i).inFlight, ∀ error retryAt,
    task.stage = .marking (.failed error retryAt) → m.toNat ≤ task.event.attempts.toNat+1 →
      retryAt = never

theorem mark_never {p : BackoffPolicy} {e : OutboxEvent} {now retryAt : UInt64} {delay : Duration}
    {result : CallResult} {error : String}
    (h : result.mark p e now delay = some (.failed error retryAt))
    (hm : p.maxAttempts.toNat ≤ e.attempts.toNat+1) : retryAt = never := by
  rw [result.mark_failed h, OutboxKit.retryAt, if_pos ((p.isExhausted_succ e.attempts).mpr hm)]

/-- What a failure mark leaves of a row that is parked or spends its last attempt,
when the step does not overdraw: it is parked. -/
theorem failed_parks {m : UInt32} {w : Fleet ι} (h : Budgeted m w) {i : ι} {n : Nat}
    {clock : UInt64} {x : Hit} (hx : hit w i n = some x)
    (hok : ¬Overdraws m w (.mark i n clock true))
    (hend : x.row.status = .parked ∨ (m.toNat : Int) ≤ x.row.attempts+1) :
    statusFor (clampI64 x.retryAt) = .parked := by
  obtain ⟨hmark, -⟩ := hit_eq_some.mp hx
  have hspent : m.toNat ≤ x.event.attempts.toNat+1 := by
    by_contra hlt
    exact hok ⟨x, hx, hend, by omega⟩
  rw [h.marks i _ (List.mem_of_getElem? hmark) x.error x.retryAt rfl hspent]
  decide

theorem attempts_rowOf_le (e : OutboxEvent) (blob : List UInt8) :
    (rowOf e blob).attempts ≤ e.attempts.toNat := by
  simp only [rowOf, tryI32, i32Max]
  split
  · rw [Option.getD_some]
  · rw [Option.getD_none]
    omega

variable [DecidableEq ι]

theorem budgeted_rows {m : UInt32} {w w' : Fleet ι} {a : Action ι} (h : Budgeted m w)
    (hok : Budgets m w a) (hstep : w.step (shared U) config a = some w') :
    ∀ (key : String) row, (events w')[key]? = some row → (m.toNat : Int) ≤ row.attempts →
      row.status ≠ .pending := by
  intro key row hget hle
  cases written_step hstep hget with
  | kept a key row hold => exact h.rows key row hold hle
  | inserted e blob hnew =>
    have hlt := UInt32.lt_iff_toNat_lt.mp hok.2
    have hle' := attempts_rowOf_le e blob
    omega
  | dispatched a key old stamp hold => simp
  | failed i n clock x hx =>
    have hparks := failed_parks h hx hok.1 (Or.inr hle)
    simp only [EventRow.failed, hparks]
    simp

theorem parked_step {m : UInt32} {w w' : Fleet ι} {a : Action ι} (h : Budgeted m w)
    (hok : Budgets m w a) (hstep : w.step (shared U) config a = some w') {key : String}
    {row row' : EventRow} (hget : (events w)[key]? = some row) (hparked : row.status = .parked)
    (hget' : (events w')[key]? = some row') : row'.status ≠ .pending := by
  cases written_step hstep hget' with
  | kept a key row' hold =>
    rw [hold] at hget
    cases hget
    simp [hparked]
  | inserted e blob hnew =>
    rw [hnew] at hget
    cases hget
  | dispatched a key old stamp hold => simp
  | failed i n clock x hx =>
    rw [(hit_eq_some.mp hx).2.1] at hget
    cases hget
    have hparks := failed_parks h hx hok.1 (Or.inl hparked)
    simp only [EventRow.failed, hparks]
    simp

theorem budgeted_step {m : UInt32} (hconfig : ∀ i, (config i).backoff.maxAttempts = m)
    {w w' : Fleet ι} {a : Action ι} (h : Budgeted m w) (hok : Budgets m w a)
    (hstep : w.step (shared U) config a = some w') : Budgeted m w' := by
  refine ⟨budgeted_rows h hok hstep, ?_⟩
  rintro i ⟨e, stage⟩ ht error retryAt rfl hspent
  rcases (World.steps_of_step hstep).mem_marking ht with hold | ⟨n, result, now, delay, -, hmark, -⟩
  · exact h.marks i _ hold error retryAt rfl hspent
  · exact mark_never hmark (by rwa [hconfig i])

theorem budgeted_reachable {m : UInt32} (hconfig : ∀ i, (config i).backoff.maxAttempts = m)
    {w : Fleet ι} (h : (fleet U config).Reachable (Budgets m) w) : Budgeted m w := by
  refine h.invariant (I := Budgeted m) ⟨fun key row hget => ?_, fun i task ht => ?_⟩
    fun s a t hs hok hstep => budgeted_step hconfig hs hok hstep
  · simp [fleet, dispatching, World.start, events, empty] at hget
  · simp [fleet, dispatching, World.start, Instance.off] at ht

/-- With one budget for all instances and every event coming in below it, a spent
budget stays spent along every run in which no failure mark overdraws: a row
with `m` attempts is parked or dispatched, a parked row is never made pending,
and no claim returns an event past its budget. -/
theorem exhaustion_sticks (U : UuidCrate) (config : ι → DispatcherConfig) (m : UInt32)
    (hconfig : ∀ i, (config i).backoff.maxAttempts = m) (w : Fleet ι)
    (h : (fleet U config).Reachable (Budgets m) w) :
    (∀ (key : String) row, (events w)[key]? = some row → (m.toNat : Int) ≤ row.attempts →
      row.status = .parked ∨ row.status = .dispatched) ∧
    (∀ a w', Budgets m w a → w.step (shared U) config a = some w' →
      ∀ (key : String) row row', (events w)[key]? = some row → row.status = .parked →
        (events w')[key]? = some row' → row'.status ≠ .pending) ∧
    (∀ locked limit now, ∀ kr ∈ claim locked limit now w.store.tables,
      kr.2.attempts < (m.toNat : Int)) := by
  have hb := budgeted_reachable hconfig h
  refine ⟨fun key row hget hle => ?_, fun a w' hok hstep key row row' hget hp hget' =>
    parked_step hb hok hstep hget hp hget', fun locked limit now kr hkr => ?_⟩
  · have hne := hb.rows key row hget hle
    cases hs : row.status with
    | pending => exact absurd hs hne
    | parked => exact Or.inl rfl
    | dispatched => exact Or.inr rfl
  · obtain ⟨key, row⟩ := kr
    have hsel := (List.mem_filter.mp (List.mem_of_mem_take hkr)).1
    obtain ⟨hget, hdue⟩ := mem_selectOrdered.mp hsel
    by_contra hle
    refine hb.rows key row hget (Int.not_lt.mp hle) ?_
    simp only [isDue, Bool.and_eq_true, beq_iff_eq] at hdue
    exact hdue.1

/-- One instance fails the event; then both claim it on its last attempt, and both fail it. -/
def bothExhaust : List (Action Bool) :=
  [.append (.sample 1 5) true, .move false .start, .move true .start,
    .tick false 10 true, .fetched false true, .move false (.permit 0), .move false (.invoke 0),
    .move false (.returned 0 (.failure (.delivery "down")) 20 .zero), .mark false 0 20 true,
    .move false (.join 0), .move false .drained, .move false .gauge,
    .tick false 30 true, .fetched false true, .tick true 30 true, .fetched true true,
    .move false (.permit 0), .move false (.invoke 0), .move true (.permit 0),
    .move true (.invoke 0), .move false (.returned 0 (.failure (.delivery "first")) 40 .zero),
    .move true (.returned 0 (.failure (.delivery "second")) 40 .zero),
    .mark false 0 41 true, .mark true 0 42 true]

theorem exhaustion_sticks_bothExhaust : ∃ w,
    standing w (.ofByte 1) = some (.parked, 3) ∧
      (fleet .hyphenatedOnly fun _ : Bool => .sample 2).Reachable (Budgets 2) w ∧
      ∀ kr ∈ claim (fun _ => false) 10 100 w.store.tables, kr.2.attempts < 2 := by
  have hrun : ((fleet .hyphenatedOnly fun _ : Bool => .sample 2).run (Budgets 2)
      (World.start Bool _ ⟨empty, []⟩) bothExhaust).any
        (fun w => standing w (.ofByte 1) = some (.parked, 3)) = true := by
    decide +kernel
  obtain ⟨w, hw, he⟩ := System.exists_reach hrun
  exact ⟨w, he, hw,
    (exhaustion_sticks .hyphenatedOnly (fun _ => .sample 2) 2 (fun _ => rfl) w hw).2.2 _ 10 100⟩

/-- Both sends fail and both instances decide from the same snapshot, with an attempt
left in it. -/
def bothFail : List (Action Bool) :=
  bothClaim++[.move false (.returned 0 (.failure (.delivery "first")) 20 .zero),
    .move true (.returned 0 (.failure (.delivery "second")) 20 .zero),
    .mark false 0 21 true, .mark true 0 22 true]

/-- The budget of two is spent and the event is pending and fetched again. -/
theorem exhaustion_missed :
    let F := fleet .hyphenatedOnly fun _ : Bool => .sample 2
    ∃ w, F.Reachable (fun _ a => ComesBelow 2 a) w ∧
      standing w (.ofByte 1) = some (.pending, 2) ∧
      (fetchDue .hyphenatedOnly 10 100 w.store.tables).map (·.map (·.id)) = .ok [.ofByte 1] := by
  intro F
  have hrun : (F.run (fun _ a => ComesBelow 2 a) F.start bothFail).any (fun w =>
      standing w (.ofByte 1) = some (.pending, 2) ∧
        (fetchDue .hyphenatedOnly 10 100 w.store.tables).map (·.map (·.id)) =
          .ok [.ofByte 1]) = true := by
    decide +kernel
  exact System.exists_reach hrun

end Budget
end OutboxKit.Postgres
