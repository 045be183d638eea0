import OutboxKit.DispatchSteps
import OutboxKit.SqliteSpec
import OutboxKit.PostgresShared

/-! At least once. Over any interleaving of producers, dispatchers, sender and
breaker outcomes, failing store calls and crashes, an event whose append
returned keeps its row, and the row is dispatched only after the sender took
the event. -/
namespace OutboxKit
open Std Machine Trace

/-- What a shared store keeps of each event: that it is there, and that it is
dispatched. Fetches do not touch the tables, and only `mark_dispatched` ends an
event. -/
structure Ledger {σ γ : Type} (P : Shared σ γ) (τ : Type) where
  tables : σ → τ
  has : τ → EventId → Prop
  done : τ → EventId → Prop
  openFetch : ∀ limit now s, tables (P.openFetch limit now s).2 = tables s
  closeFetch : ∀ claim s, tables (P.closeFetch claim s).2 = tables s
  abortFetch : ∀ claim s, tables (P.abortFetch claim s) = tables s
  append_ok : ∀ e s, (P.append e s).1 = .ok () → has (tables (P.append e s).2) e.id
  append_has : ∀ e s id, has (tables s) id → has (tables (P.append e s).2) id
  append_done : ∀ e s id, done (tables (P.append e s).2) id → done (tables s) id
  dispatched_has : ∀ clock k s id, has (tables s) id →
    has (tables (P.markDispatched clock k s).2) id
  dispatched_done : ∀ clock k s id, done (tables (P.markDispatched clock k s).2) id →
    id = k ∨ done (tables s) id
  failed_has : ∀ k error retryAt s id, has (tables s) id →
    has (tables (P.markFailed k error retryAt s).2) id
  failed_done : ∀ k error retryAt s id, done (tables (P.markFailed k error retryAt s).2) id →
    done (tables s) id

namespace Ledger
variable {ι σ γ τ : Type} {P : Shared σ γ} (L : Ledger P τ)
  {config : ι → DispatcherConfig}

/-- The invariant: rows stay, and whatever is dispatched, or about to be, was
delivered before. -/
structure DeliveredFirst (w : World ι σ γ) : Prop where
  kept : ∀ e, .appended e ∈ w.log → L.has (L.tables w.store) e.id
  done : ∀ id, L.done (L.tables w.store) id → .delivered id ∈ w.log
  marks : ∀ i, ∀ task ∈ (w.instances i).inFlight, task.stage = .marking .dispatched →
    .delivered task.event.id ∈ w.log

theorem deliveredFirst_start (s : σ) (h : ∀ id, ¬L.done (L.tables s) id) :
    L.DeliveredFirst (World.start ι γ s) where
  kept e he := by simp [World.start] at he
  done id hid := absurd hid (h id)
  marks i task ht := by simp [World.start, Instance.off] at ht

variable {L}

theorem DeliveredFirst.setStage {w : World ι σ γ} (h : L.DeliveredFirst w) {i : ι} {n : Nat}
    {task : Task} {stage : Stage} (hstage : stage ≠ .marking .dispatched) :
    ∀ t ∈ ((w.instances i).setStage n task stage).inFlight, t.stage = .marking .dispatched →
      .delivered t.event.id ∈ w.log++[] := by
  intro t ht hm
  rw [List.append_nil]
  cases Instance.mem_setStage ht with
  | inl hold => exact h.marks i t hold hm
  | inr he =>
    rw [he] at hm
    exact absurd hm hstage

variable [DecidableEq ι]

theorem DeliveredFirst.put {w : World ι σ γ} (h : L.DeliveredFirst w) (i : ι) {inst : Instance γ}
    {s : σ} {obs : List Obs} (hhas : ∀ id, L.has (L.tables w.store) id → L.has (L.tables s) id)
    (hdone : ∀ id, L.done (L.tables s) id → .delivered id ∈ w.log++obs)
    (hobs : ∀ e, .appended e ∉ obs)
    (hinst : ∀ task ∈ inst.inFlight, task.stage = .marking .dispatched →
      .delivered task.event.id ∈ w.log++obs) : L.DeliveredFirst (w.put i inst s obs) where
  kept e he := hhas e.id (h.kept e ((List.mem_append.mp he).resolve_right (hobs e)))
  done := hdone
  marks := World.forall_put (fun inst => ∀ task ∈ inst.inFlight,
    task.stage = .marking .dispatched → .delivered task.event.id ∈ w.log++obs) i
    (fun j task ht hm => List.mem_append_left _ (h.marks j task ht hm)) hinst

theorem DeliveredFirst.keep {w : World ι σ γ} (h : L.DeliveredFirst w) (i : ι) {inst : Instance γ}
    {s : σ} {obs : List Obs} (hs : L.tables s = L.tables w.store) (hobs : ∀ e, .appended e ∉ obs)
    (hinst : ∀ task ∈ inst.inFlight, task.stage = .marking .dispatched →
      .delivered task.event.id ∈ w.log++obs) : L.DeliveredFirst (w.put i inst s obs) :=
  h.put i (fun _ hid => hs ▸ hid)
    (fun id hid => List.mem_append_left _ (h.done id (hs ▸ hid))) hobs hinst

/-- One step, whatever it is, keeps the order of delivery and dispatch. -/
theorem DeliveredFirst.step {w w' : World ι σ γ} {a : Action ι} (h : L.DeliveredFirst w)
    (hstep : w.step P config a = some w') : L.DeliveredFirst w' := by
  cases World.steps_of_step hstep with
  | appended e s happ =>
    have hok : (P.append e w.store).1 = .ok () := by rw [happ]
    have hs : s = (P.append e w.store).2 := by rw [happ]
    subst hs
    refine ⟨fun f hf => ?_, fun id hid => ?_, fun i task ht hm => ?_⟩
    · cases List.mem_append.mp hf with
      | inl hold => exact L.append_has e w.store f.id (h.kept f hold)
      | inr hnew =>
        cases List.mem_singleton.mp hnew
        exact L.append_ok e w.store hok
    · exact List.mem_append_left _ (h.done id (L.append_done e w.store id hid))
    · exact List.mem_append_left _ (h.marks i task ht hm)
  | refused e s err happ =>
    have hs : s = (P.append e w.store).2 := by rw [happ]
    subst hs
    exact ⟨fun f hf => L.append_has e w.store f.id (h.kept f hf),
      fun id hid => h.done id (L.append_done e w.store id hid), h.marks⟩
  | appendLost e => exact h
  | moved i m inst obs hm =>
    refine h.keep i rfl hm.not_appended fun task ht hmark => ?_
    cases hm.mem_inFlight ht with
    | inl hold => exact List.mem_append_left _ (h.marks i task hold hmark)
    | inr hnew =>
      obtain ⟨old, -, he, (hs | hs | hs) | ⟨n, result, now, delay, mark, -, hs, -, -, hobs⟩⟩ := hnew
      · rw [hs] at hmark; cases hmark
      · rw [hs] at hmark; cases hmark
      · rw [hs] at hmark; cases hmark
      · rw [hs] at hmark
        cases hmark
        rw [hobs, he]
        exact List.mem_append_right _ (List.mem_singleton.mpr rfl)
  | idled i now reached hp =>
    refine h.keep i rfl (by simp) fun task ht hm => ?_
    simpa using h.marks i task ht hm
  | opened i now claim s hp hopen =>
    refine h.keep i ?_ (by simp) fun task ht hm => ?_
    · have := L.openFetch (w.instances i).batchSize now w.store
      rwa [hopen] at this
    · simpa using h.marks i task ht hm
  | spawned i claim due s hp hclose =>
    refine h.keep i ?_ (by simp) fun task ht hm => ?_
    · have := L.closeFetch claim w.store
      rwa [hclose] at this
    · cases List.mem_append.mp ht with
      | inl hold => simpa using h.marks i task hold hm
      | inr hnew =>
        obtain ⟨e, -, rfl⟩ := List.mem_map.mp hnew
        cases hm
  | fetchFailed i claim err s hp hclose =>
    refine h.keep i ?_ (by simp) fun task ht hm => ?_
    · have := L.closeFetch claim w.store
      rwa [hclose] at this
    · simpa using h.marks i task ht hm
  | fetchLost i claim hp =>
    refine h.keep i (L.abortFetch claim w.store) (by simp) fun task ht hm => ?_
    simpa using h.marks i task ht hm
  | issued i n clock e mark ht hfree =>
    cases mark with
    | dispatched =>
      have hsent : .delivered e.id ∈ w.log := h.marks i _ (List.mem_of_getElem? ht) rfl
      refine h.put i (L.dispatched_has clock e.id w.store) (fun id hid => ?_) (by simp)
        (h.setStage (by simp))
      rw [List.append_nil]
      cases L.dispatched_done clock e.id w.store id hid with
      | inl he => exact he ▸ hsent
      | inr hold => exact h.done id hold
    | failed error retryAt =>
      refine h.put i (L.failed_has e.id error retryAt w.store) (fun id hid => ?_) (by simp)
        (h.setStage (by simp))
      rw [List.append_nil]
      exact h.done id (L.failed_done e.id error retryAt w.store id hid)
  | markLost i n clock e mark ht => exact h.keep i rfl (by simp) (h.setStage (by simp))
  | crashed i =>
    refine h.keep i ?_ (by simp) (by simp [Instance.off])
    unfold Shared.release
    split
    · exact L.abortFetch _ _
    · rfl

theorem deliveredFirst_reachable {start : σ} {w : World ι σ γ}
    (hstart : ∀ id, ¬L.done (L.tables start) id)
    (h : (dispatching P config start).Reachable (fun _ _ => True) w) : L.DeliveredFirst w := by
  refine h.invariant (I := L.DeliveredFirst) (L.deliveredFirst_start start hstart) ?_
  intro s a t hs _ hstep
  exact hs.step hstep

end Ledger

namespace Sqlite

def Done (row : EventRow) : Prop := row.dispatchedAt.isSome = true

theorem not_done_of_inserts {e : OutboxEvent} {row : EventRow} (h : rowTable.Inserts e row) :
    ¬Done row := by
  obtain ⟨blob, -, rfl⟩ := h
  simp [Done, rowOf]

def ledger (U : UuidCrate) : Ledger (Shared.ofStore (store U)) Tables where
  tables t := t
  has t := Has t.outboxEvents
  done t := Finds Done t.outboxEvents
  openFetch _ _ _ := rfl
  closeFetch _ _ := rfl
  abortFetch _ _ := rfl
  append_ok e t hok := (appends e t).has_iff.mpr (Or.inr ⟨rfl, hok⟩)
  append_has e t _ hid := (appends e t).has_iff.mpr (Or.inl hid)
  append_done e t _ := (appends e t).finds fun _ => not_done_of_inserts
  dispatched_has clock k t _ := (dispatches clock k t).has_iff.mpr
  dispatched_done clock k t _ := (dispatches clock k t).finds_cases
  failed_has k error retryAt t _ := (fails k error retryAt t).has_iff.mpr
  failed_done k error retryAt t _ := (fails k error retryAt t).finds fun old new hrow hd => by
    subst hrow
    exact hd

end Sqlite

namespace Postgres

def Done (row : EventRow) : Prop := row.status = .dispatched

theorem not_done_of_inserts {e : OutboxEvent} {row : EventRow} (h : rowTable.Inserts e row) :
    ¬Done row := by
  obtain ⟨blob, -, rfl⟩ := h
  simp [Done, rowOf]

def ledger (U : UuidCrate) : Ledger (shared U) Tables where
  tables := Db.tables
  has t := Has t.outboxEvents
  done t := Finds Done t.outboxEvents
  openFetch _ _ _ := rfl
  closeFetch _ _ := rfl
  abortFetch _ _ := rfl
  append_ok e db hok := (appends e db.tables).has_iff.mpr (Or.inr ⟨rfl, hok⟩)
  append_has e db _ hid := (appends e db.tables).has_iff.mpr (Or.inl hid)
  append_done e db _ := (appends e db.tables).finds fun _ => not_done_of_inserts
  dispatched_has clock k db _ := (dispatches clock k db.tables).has_iff.mpr
  dispatched_done clock k db _ := (dispatches clock k db.tables).finds_cases
  failed_has k error retryAt db _ := (fails k error retryAt db.tables).has_iff.mpr
  failed_done k error retryAt db _ :=
    (fails k error retryAt db.tables).finds fun old new hrow hd => by
    subst hrow
    exact absurd hd (statusFor_ne_dispatched _)

end Postgres

/-- Over every run of dispatchers on one SQLite store, and of any number of them on
one Postgres store, with failing calls and crashes anywhere: an event whose
append returned has its row, dispatched only if the sender took the event, and
otherwise still pending or parked. -/
theorem at_least_once (U : UuidCrate) {ι : Type} [DecidableEq ι] (config : ι → DispatcherConfig) :
    (∀ w, (dispatching (Shared.ofStore (Sqlite.store U)) config Sqlite.empty).Reachable
        (fun _ _ => True) w →
      ∀ e, .appended e ∈ w.log → ∃ row, w.store.outboxEvents[e.id.text]? = some row ∧
        (row.dispatchedAt.isSome → .delivered e.id ∈ w.log) ∧
        (.delivered e.id ∉ w.log → row.dispatchedAt = none)) ∧
    (∀ w, (dispatching (Postgres.shared U) config ⟨Postgres.empty, []⟩).Reachable
        (fun _ _ => True) w →
      ∀ e, .appended e ∈ w.log → ∃ row, w.store.tables.outboxEvents[e.id.text]? = some row ∧
        (row.status = .dispatched → .delivered e.id ∈ w.log) ∧
        (.delivered e.id ∉ w.log → row.status = .pending ∨ row.status = .parked)) := by
  constructor
  · intro w hw e he
    have hacc := (Sqlite.ledger U).deliveredFirst_reachable
      (by simp [Sqlite.ledger, Finds, Sqlite.empty]) hw
    obtain ⟨row, hrow⟩ := Option.ne_none_iff_exists'.mp (hacc.kept e he)
    have hdone : row.dispatchedAt.isSome → .delivered e.id ∈ w.log :=
      fun hd => hacc.done e.id ⟨row, hrow, hd⟩
    refine ⟨row, hrow, hdone, fun hn => ?_⟩
    rw [← Option.not_isSome_iff_eq_none]
    exact fun hd => hn (hdone hd)
  · intro w hw e he
    have hacc := (Postgres.ledger U).deliveredFirst_reachable
      (by simp [Postgres.ledger, Finds, Postgres.empty]) hw
    obtain ⟨row, hrow⟩ := Option.ne_none_iff_exists'.mp (hacc.kept e he)
    have hdone : row.status = .dispatched → .delivered e.id ∈ w.log :=
      fun hd => hacc.done e.id ⟨row, hrow, hd⟩
    refine ⟨row, hrow, hdone, fun hn => ?_⟩
    cases hs : row.status with
    | pending => exact Or.inl rfl
    | parked => exact Or.inr rfl
    | dispatched => exact absurd (hdone hs) hn

/-- The sender takes the event, and the process dies before it is marked. -/
def diesBeforeMark : List (Action Unit) :=
  [.append (.sample 1 5) true, .move () .start, .tick () 10 true, .fetched () true,
    .move () (.permit 0), .move () (.invoke 0), .move () (.returned 0 .ok 20 .zero), .crash (),
    .move () .start]

theorem at_least_once_diesBeforeMark :
    ∃ w, (dispatching (Shared.ofStore (Sqlite.store .hyphenatedOnly)) (fun _ : Unit => .sample 3)
        Sqlite.empty).Reachable (fun _ _ => True) w ∧
      .delivered (.ofByte 1) ∈ w.log ∧
      ∃ row, w.store.outboxEvents[(EventId.ofByte 1).text]? = some row ∧
        (row.dispatchedAt.isSome → .delivered (.ofByte 1) ∈ w.log) := by
  have hrun : ((dispatching (Shared.ofStore (Sqlite.store .hyphenatedOnly))
      (fun _ : Unit => .sample 3) Sqlite.empty).run (fun _ _ => True)
      (World.start Unit _ Sqlite.empty) diesBeforeMark).any (fun w =>
        .delivered (.ofByte 1) ∈ w.log ∧ .appended (.sample 1 5) ∈ w.log) = true := by
    decide +kernel
  obtain ⟨w, hw, hsent, happended⟩ := System.exists_reach hrun
  obtain ⟨row, hrow, hdone, -⟩ := (at_least_once .hyphenatedOnly fun _ : Unit => .sample 3).1 w hw
    _ happended
  exact ⟨w, hw, hsent, row, hrow, hdone⟩

end OutboxKit
