import OutboxKit.Claims
import OutboxKit.Display
import OutboxKit.Lib.History

/-! What a pause costs. A store's record of an event changes only by the marks of that
event, and a mark comes only after a send; so while an event is not sent, through any
length of outage, any number of polls, crashes and failing store calls, and whatever
happens to other events, its record stays as it was: no attempt is spent on it. -/
namespace OutboxKit
open Std Machine Trace

/-- A result is still to come for the task, or to be recorded. -/
def Stage.Open : Stage → Prop
  | .sending | .marking _ => True
  | .queued | .permitted | .paused | .finished => False

def Unsent {ι σ γ : Type} (id : EventId) (w : World ι σ γ) : Prop :=
  ∀ i, ∀ task ∈ (w.instances i).inFlight, task.event.id = id → ¬task.stage.Open

/-- The frame of a ledger's operations: appends leave the records of known events alone,
and a mark those of the other events. -/
structure Frame {σ γ τ : Type} {P : Shared σ γ} (L : Ledger P τ) (κ : Type) where
  record : τ → EventId → κ
  append_known : ∀ e s id, L.has (L.tables s) id →
    record (L.tables (P.append e s).2) id = record (L.tables s) id
  issue_other : ∀ clock k mark s id, id ≠ k →
    record (L.tables (P.issue clock k mark s)) id = record (L.tables s) id

namespace Frame
variable {ι σ γ τ κ : Type} {P : Shared σ γ} {L : Ledger P τ} (C : Frame L κ)
  {config : ι → DispatcherConfig} {w w' : World ι σ γ} {id : EventId}

/-- The event is known with the record `r`, and nothing is open for it. -/
structure RecordKept (id : EventId) (r : κ) (w : World ι σ γ) : Prop where
  known : L.has (L.tables w.store) id
  same : C.record (L.tables w.store) id = r
  unsent : Unsent id w

variable {C} {r : κ}

theorem RecordKept.setStage (h : C.RecordKept id r w) {i : ι} {n : Nat} {task : Task}
    {stage : Stage} (hstage : task.event.id = id → ¬stage.Open) :
    ∀ t ∈ ((w.instances i).setStage n task stage).inFlight, t.event.id = id → ¬t.stage.Open := by
  intro t ht hid
  cases Instance.mem_setStage ht with
  | inl hold => exact h.unsent i t hold hid
  | inr hnew =>
    subst hnew
    exact hstage hid

variable [DecidableEq ι]

theorem RecordKept.put (h : C.RecordKept id r w) (i : ι) {inst : Instance γ} {s : σ}
    {obs : List Obs} (hs : L.tables s = L.tables w.store)
    (hinst : ∀ task ∈ inst.inFlight, task.event.id = id → ¬task.stage.Open) :
    C.RecordKept id r (w.put i inst s obs) where
  known := by
    change L.has (L.tables s) id
    rw [hs]
    exact h.known
  same := by
    change C.record (L.tables s) id = r
    rw [hs]
    exact h.same
  unsent := World.forall_put
    (fun inst => ∀ task ∈ inst.inFlight, task.event.id = id → ¬task.stage.Open) i h.unsent hinst

theorem RecordKept.moved (h : C.RecordKept id r w) {i : ι} {m : Move} {inst : Instance γ}
    {obs : List Obs} (hm : Instance.Moves (config i) (w.instances i) m inst obs) :
    C.RecordKept id r (w.put i inst w.store obs) ∨ .invoked id ∈ obs := by
  have keep : (∀ task ∈ inst.inFlight, task.event.id = id → ¬task.stage.Open) →
      C.RecordKept id r (w.put i inst w.store obs) ∨ .invoked id ∈ obs :=
    fun hi => Or.inl (h.put i rfl hi)
  cases hm with
  | start hp => exact keep (by simp [Instance.started])
  | shutdown hp => exact keep (h.unsent i)
  | leave hp hs => exact keep (h.unsent i)
  | stop hp hf => exact keep (h.unsent i)
  | drained hp hf => exact keep (h.unsent i)
  | gauge hp => exact keep (h.unsent i)
  | permit n task ht hs hc => exact keep (h.setStage fun _ hopen => hopen)
  | invoke n task ht hs =>
    by_cases hid : task.event.id = id
    · exact Or.inr (by simp [hid])
    · exact keep (h.setStage fun he => absurd he hid)
  | pause n task result now delay ht hs hr => exact keep (h.setStage fun _ hopen => hopen)
  | answer n task result now delay mark ht hs hj hr =>
    refine keep (h.setStage fun he => absurd ?_ (h.unsent i task (List.mem_of_getElem? ht) he))
    rw [hs]
    trivial
  | join n task ht hs =>
    exact keep fun t hmem => h.unsent i t (List.mem_of_mem_eraseIdx hmem)

/-- One step, whatever it is: the event is sent, or its record stays. -/
theorem RecordKept.step {a : Action ι} (h : C.RecordKept id r w)
    (hstep : w.step P config a = some w') :
    C.RecordKept id r w' ∨ invocations w.log id < invocations w'.log id := by
  cases World.steps_of_step hstep with
  | appended e s happ =>
    rw [show s = (P.append e w.store).2 by rw [happ]]
    exact Or.inl ⟨L.append_has e w.store id h.known,
      (C.append_known e w.store id h.known).trans h.same, h.unsent⟩
  | refused e s err happ =>
    rw [show s = (P.append e w.store).2 by rw [happ]]
    exact Or.inl ⟨L.append_has e w.store id h.known,
      (C.append_known e w.store id h.known).trans h.same, h.unsent⟩
  | appendLost e => exact Or.inl h
  | moved i m inst obs hm =>
    refine (h.moved hm).imp_right fun hsent => ?_
    have hpos : 0 < invocations obs id := List.count_pos_iff.mpr hsent
    have hlog : invocations (w.log++obs) id = invocations w.log id+invocations obs id :=
      List.count_append
    change _ < invocations (w.log++obs) id
    omega
  | idled i now reached hp => exact Or.inl (h.put i rfl (h.unsent i))
  | opened i now claim s hp hopen =>
    have hs := L.openFetch (w.instances i).batchSize now w.store
    rw [hopen] at hs
    exact Or.inl (h.put i hs (h.unsent i))
  | spawned i claim due s hp hclose =>
    have hs := L.closeFetch claim w.store
    rw [hclose] at hs
    refine Or.inl (h.put i hs fun task ht hid => ?_)
    cases List.mem_append.mp ht with
    | inl hold => exact h.unsent i task hold hid
    | inr hnew =>
      obtain ⟨e, -, rfl⟩ := List.mem_map.mp hnew
      exact fun hopen => hopen
  | fetchFailed i claim err s hp hclose =>
    have hs := L.closeFetch claim w.store
    rw [hclose] at hs
    exact Or.inl (h.put i hs (h.unsent i))
  | fetchLost i claim hp => exact Or.inl (h.put i (L.abortFetch claim w.store) (h.unsent i))
  | issued i n clock e mark ht hfree =>
    have hid : id ≠ e.id := by
      rintro rfl
      exact h.unsent i _ (List.mem_of_getElem? ht) rfl trivial
    refine Or.inl ⟨L.issue_has clock e.id mark h.known,
      (C.issue_other clock e.id mark w.store id hid).trans h.same, ?_⟩
    exact World.forall_put
      (fun inst => ∀ task ∈ inst.inFlight, task.event.id = id → ¬task.stage.Open) i h.unsent
      (h.setStage fun _ hopen => hopen)
  | markLost i n clock e mark ht => exact Or.inl (h.put i rfl (h.setStage fun _ hopen => hopen))
  | crashed i => exact Or.inl (h.put i (L.release _ w.store) (by simp [Instance.off]))

theorem record_run {ok : World ι σ γ → Action ι → Prop} [∀ w a, Decidable (ok w a)] {start : σ}
    {as : List (Action ι)} (hknown : L.has (L.tables w.store) id) (hunsent : Unsent id w)
    (hrun : (dispatching P config start).run ok w as = some w')
    (hlog : invocations w'.log id = invocations w.log id) :
    C.record (L.tables w'.store) id = C.record (L.tables w.store) id := by
  have hend := System.run_history (I := fun _ u => invocations w.log id ≤ invocations u.log id ∧
    (C.RecordKept id (C.record (L.tables w.store) id) u ∨
      invocations w.log id < invocations u.log id))
    hrun ⟨Nat.le_refl _, Or.inl ⟨hknown, rfl, hunsent⟩⟩ ?_
  · cases hend.2 with
    | inl hkept => exact hkept.same
    | inr hsent => omega
  · rintro past u a v ⟨hle, hu⟩ - hstep
    have hmono := invocations_le_step hstep id
    refine ⟨hle.trans hmono, ?_⟩
    cases hu with
    | inl hkept => exact (hkept.step hstep).imp_right hle.trans_lt
    | inr hsent => exact Or.inr (hsent.trans_le hmono)

end Frame

namespace Memory

/-- The live record of an event, and whether it is dispatched. -/
def record (s : Inner) (id : EventId) : Option (UInt64 × OutboxEvent) × Prop :=
  (s.events[id]?, id ∈ s.dispatched)

def frame : Frame ledger (Option (UInt64 × OutboxEvent) × Prop) where
  record := record
  append_known e s id hk := by
    change record (append e s).2 id = record s id
    cases ht : topicValid e.topic with
    | false => rw [append_invalid s ht]
    | true =>
      cases append_cases s ht with
      | inl h => rw [h.2]
      | inr h =>
        obtain ⟨hev, hd, happ⟩ := h
        have hne : ¬e.id = id := by
          rintro rfl
          exact hk.elim hev hd
        rw [happ]
        simp [record, ExtTreeMap.getElem?_insert, hne]
  issue_other clock k mark s id hid := by
    have hne : ¬k = id := Ne.symm hid
    cases mark with
    | dispatched =>
      change record (markDispatched k s).2 id = record s id
      unfold markDispatched
      split <;> simp [record, ExtTreeMap.getElem?_erase, hne]
    | failed error retryAt =>
      change record (markFailed k error retryAt s).2 id = record s id
      unfold markFailed
      split <;> simp [record, ExtTreeMap.getElem?_insert, hne]

end Memory

namespace Sqlite

def frame (U : UuidCrate) : Frame (ledger U) (Option EventRow) where
  record t id := t.outboxEvents[id.text]?
  append_known e t _ hk := (appends e t).row_known hk
  issue_other clock k mark t id hid := by
    have hne : id.text ≠ k.text := by rwa [Ne, EventId.text_inj]
    cases mark with
    | dispatched => exact (dispatches clock k t).row_other hne
    | failed error retryAt => exact (fails k error retryAt t).row_other hne

end Sqlite

namespace Postgres

def frame (U : UuidCrate) : Frame (ledger U) (Option EventRow) where
  record t id := t.outboxEvents[id.text]?
  append_known e db _ hk := (appends e db.tables).row_known hk
  issue_other clock _ mark db _ hid := issue_row_other clock mark db (by rwa [Ne, EventId.text_inj])

end Postgres

/-- A pause costs an event nothing. Over each of the three stores, from any state and
through any run of any number of dispatchers, with faults, crashes and other events' marks
anywhere: an event the store knows, with no result open for it at the start and no send
in the run, has at the end the very record it had, its attempts, stamp, error and all. -/
theorem unsent_untouched (U : UuidCrate) {ι : Type} [DecidableEq ι]
    (config : ι → DispatcherConfig) (id : EventId) (as : List (Action ι)) :
    (∀ w w', Memory.knows w.store id → Unsent id w →
      (dispatching (Shared.ofStore Memory.store) config w.store).run (fun _ _ => True) w as =
        some w' →
      invocations w'.log id = invocations w.log id →
      w'.store.events[id]? = w.store.events[id]? ∧
        (id ∈ w'.store.dispatched ↔ id ∈ w.store.dispatched)) ∧
    (∀ w w', Has w.store.outboxEvents id → Unsent id w →
      (dispatching (Shared.ofStore (Sqlite.store U)) config w.store).run (fun _ _ => True) w as =
        some w' →
      invocations w'.log id = invocations w.log id →
      w'.store.outboxEvents[id.text]? = w.store.outboxEvents[id.text]?) ∧
    (∀ w w', Has w.store.tables.outboxEvents id → Unsent id w →
      (dispatching (Postgres.shared U) config w.store).run (fun _ _ => True) w as = some w' →
      invocations w'.log id = invocations w.log id →
      w'.store.tables.outboxEvents[id.text]? = w.store.tables.outboxEvents[id.text]?) := by
  refine ⟨fun w w' hknown hunsent hrun hlog => ?_, fun w w' hknown hunsent hrun hlog => ?_,
    fun w w' hknown hunsent hrun hlog => ?_⟩
  · have hsame := Memory.frame.record_run hknown hunsent hrun hlog
    exact ⟨congrArg Prod.fst hsame, iff_of_eq (congrArg Prod.snd hsame)⟩
  · exact (Sqlite.frame U).record_run hknown hunsent hrun hlog
  · exact (Postgres.frame U).record_run hknown hunsent hrun hlog

/-- Two polls that the breaker turns away, and a crash between them. -/
def turnedAway : List (Action Unit) :=
  [.move () .start, .tick () 10 true, .fetched () true, .move () (.permit 0),
    .move () (.returned 0 .circuitOpen 20 .zero), .move () (.join 0), .move () .drained, .crash (),
    .move () .start, .tick () 30 true, .fetched () true, .move () (.permit 0),
    .move () (.returned 0 .rejected 40 .zero)]

theorem unsent_untouched_turnedAway :
    ∃ w w', (dispatching (Postgres.shared .hyphenatedOnly) (fun _ : Unit => .sample 3)
        w.store).run (fun _ _ => True) w turnedAway = some w' ∧
      Has w.store.tables.outboxEvents (.ofByte 1) ∧
      w'.store.tables.outboxEvents[(EventId.ofByte 1).text]? =
        w.store.tables.outboxEvents[(EventId.ofByte 1).text]? := by
  have hrun : ((dispatching (Postgres.shared .hyphenatedOnly) (fun _ : Unit => .sample 3)
      ⟨Postgres.empty, []⟩).run (fun _ _ => True) (World.start Unit _ ⟨Postgres.empty, []⟩)
      [.append (.sample 1 5) true]).any (fun w =>
        (w.instances ()).inFlight.isEmpty = true ∧
          w.store.tables.outboxEvents[(EventId.ofByte 1).text]?.isSome = true ∧
          invocations w.log (.ofByte 1) = 0 ∧
          ((dispatching (Postgres.shared .hyphenatedOnly) (fun _ : Unit => .sample 3) w.store).run
            (fun _ _ => True) w turnedAway).any
              (fun w' => invocations w'.log (.ofByte 1) = 0) = true) = true := by
    decide +kernel
  obtain ⟨w, -, hempty, hrow, hlog, hrun'⟩ := System.exists_reach hrun
  obtain ⟨w', hw', hlog'⟩ := (Option.any_eq_true _ _).mp hrun'
  have hhas : Has w.store.tables.outboxEvents (.ofByte 1) := Option.ne_none_iff_isSome.mpr hrow
  have hunsent : Unsent (.ofByte 1) w := by
    intro i task ht
    rw [List.isEmpty_iff.mp hempty] at ht
    cases ht
  refine ⟨w, w', hw', hhas, ?_⟩
  refine (unsent_untouched .hyphenatedOnly (fun _ : Unit => .sample 3) (.ofByte 1) turnedAway).2.2
    w w' hhas hunsent hw' ?_
  rw [of_decide_eq_true hlog', hlog]

end OutboxKit
