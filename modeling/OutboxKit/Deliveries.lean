import OutboxKit.Budget
import OutboxKit.Lib.History

/-! How often and when one dispatcher sends an event. A second delivery is paid for by a
fault, a crash or a mark that did not reach the store, so without faults a dispatched
event was delivered once; and no event is in flight before the time it is scheduled
for. Both speak of the actions of a whole run. -/
namespace OutboxKit
open Machine Trace

def deliveries (log : List Obs) (id : EventId) : Nat := log.count (.delivered id)

/-- The actions that lose an acknowledgement: a crash, and a mark that fails without effect. -/
def Action.isFault {ι : Type} : Action ι → Bool
  | .crash _ => true
  | .mark _ _ _ reached => !reached
  | _ => false

def faults {ι : Type} (as : List (Action ι)) : Nat := as.countP Action.isFault

def Action.clock {ι : Type} : Action ι → UInt64 → UInt64
  | .tick _ now _, _ => now
  | _, last => last

def lastTick {ι : Type} (as : List (Action ι)) : UInt64 := as.foldl (fun last a => a.clock last) 0

theorem deliveries_other {obs : List Obs} {id : EventId} (h : ∀ o ∈ obs, o.id ≠ id) :
    deliveries obs id = 0 :=
  List.count_eq_zero.mpr fun hmem => h _ hmem rfl

theorem deliveries_append (log obs : List Obs) (id : EventId) :
    deliveries (log++obs) id = deliveries log id+deliveries obs id :=
  List.count_append

theorem faults_concat {ι : Type} (as : List (Action ι)) (a : Action ι) :
    faults (as++[a]) = faults as+if a.isFault then 1 else 0 := by
  rw [faults, List.countP_append, List.countP_singleton]
  rfl

namespace Refinement
variable {σ : Type} {S : OutboxStore σ} (R : Refinement S)

/-- The event is dispatched, or delivered and about to be marked so. -/
def Settled (w : Solo σ) (id : EventId) : Prop :=
  R.entry w.store id = .dispatched ∨
    stageOf (w.instances ()).inFlight id = some (.marking .dispatched)

/-- The deliveries of an event against the `n` faults so far: one for an event that is
settled, and otherwise each paid for. -/
structure Paid (id : EventId) (n : Nat) (w : Solo σ) : Prop where
  settled : R.Settled w id → 1 ≤ deliveries w.log id
  unsettled : ¬R.Settled w id → deliveries w.log id ≤ n
  le : deliveries w.log id ≤ n+1

variable {R} {w w' : Solo σ} {id : EventId} {n : Nat} {c : DispatcherConfig}

theorem Paid.same (h : R.Paid id n w) (hs : R.Settled w' id ↔ R.Settled w id)
    (hd : deliveries w'.log id = deliveries w.log id) : R.Paid id n w' where
  settled hw := hd ▸ h.settled (hs.mp hw)
  unsettled hw := hd ▸ h.unsettled fun hold => hw (hs.mpr hold)
  le := hd ▸ h.le

/-- A fault pays for the delivery it may cause. -/
theorem Paid.fault (h : R.Paid id n w) (hs : R.Settled w' id → R.Settled w id)
    (hd : deliveries w'.log id = deliveries w.log id) : R.Paid id (n+1) w' where
  settled hw := hd ▸ h.settled (hs hw)
  unsettled _ := hd ▸ h.le
  le := hd ▸ Nat.le_succ_of_le h.le

theorem Total.append_entry (T : R.Total) {s : σ} (hv : R.Valid s) (e : OutboxEvent) (k : EventId) :
    R.entry (S.append e s).2 k = R.entry s k ∨ R.entry s k = .absent ∧ k = e.id ∧
      R.entry (S.append e s).2 k = .live (R.stamp e.createdAt) (R.norm e) := by
  cases T.append_cases hv e with
  | inl h =>
    obtain ⟨err, h⟩ := h
    exact Or.inl (by rw [h])
  | inr h =>
    obtain ⟨-, -, he⟩ := h
    rw [he]
    by_cases hk : k = (R.norm e).id
    · subst hk
      by_cases habs : R.entry s (R.norm e).id = .absent
      · rw [Outbox.append_absent habs]
        exact Or.inr ⟨habs, R.norm_id e, Function.update_self _ _ _⟩
      · exact Or.inl (by rw [Outbox.append_known habs])
    · exact Or.inl (Outbox.append_other hk)

theorem Total.settled_append (T : R.Total) (hv : R.Valid w.store) (e : OutboxEvent)
    (log : List Obs) :
    R.Settled ⟨(S.append e w.store).2, w.instances, log⟩ id ↔ R.Settled w id := by
  refine or_congr_left ?_
  cases T.append_entry hv e id with
  | inl hsame => rw [hsame]
  | inr hnew =>
    obtain ⟨habs, -, hlive⟩ := hnew
    simp [habs, hlive]

theorem Paid.moved {m : Move} {inst : Instance Fetched} {obs : List Obs} (hw : R.Coherent w)
    (h : R.Paid id n w) (hm : Instance.Moves c (w.instances ()) m inst obs) :
    R.Paid id n (w.put () inst w.store obs) := by
  have hstage := hm.stageOf hw.tidy.unique (fun hp => hw.tidy.drained (by simp [hp])) id
  have hlog : deliveries (w.put () inst w.store obs).log id =
      deliveries w.log id+deliveries obs id := deliveries_append _ _ _
  have hsettled : R.Settled (w.put () inst w.store obs) id ↔ R.entry w.store id = .dispatched ∨
      stageOf inst.inFlight id = some (.marking .dispatched) := by
    rw [Settled, World.put_self]
    rfl
  -- a stage that is not the delivered one, before and after
  have quiet : stageOf (w.instances ()).inFlight id ≠ some (.marking .dispatched) →
      stageOf inst.inFlight id ≠ some (.marking .dispatched) → deliveries obs id = 0 →
      R.Paid id n (w.put () inst w.store obs) := by
    intro hbefore hafter hobs
    refine h.same ?_ (by rw [hlog, hobs, Nat.add_zero])
    rw [hsettled, Settled, or_iff_left hbefore, or_iff_left hafter]
  generalize hold : stageOf (w.instances ()).inFlight id = old at hstage quiet
  generalize hnew : stageOf inst.inFlight id = new at hstage quiet
  cases hstage with
  | other stage obs ho =>
    refine h.same ?_ (by rw [hlog, deliveries_other ho, Nat.add_zero])
    rw [hsettled, Settled, hold, hnew]
  | permit => exact quiet (by simp) (by simp) rfl
  | invoke => exact quiet (by simp) (by simp) rfl
  | pause => exact quiet (by simp) (by simp) rfl
  | answer k e result now delay mark hmem hid hmove hj hr =>
    cases mark with
    | failed error retryAt => exact quiet (by simp) (by simp) (by simp [deliveries, Obs.ofMark])
    | dispatched =>
      -- the snapshot is still held, so the event was not settled before
      have hopen : ¬R.Settled w id := by
        rw [Settled, hold]
        intro hset
        obtain ⟨stamp, hlive, -⟩ := hw.tidy.held _ hmem (by simp)
        rw [hid] at hlive
        cases hset with
        | inl hd => simp [hlive] at hd
        | inr hs => simp at hs
      have hone : deliveries [Obs.ofMark id .dispatched] id = 1 := by simp [deliveries, Obs.ofMark]
      have hle := h.unsettled hopen
      refine ⟨fun _ => ?_, fun hn => ?_, ?_⟩
      · rw [hlog, hone]
        omega
      · exact absurd (hsettled.mpr (Or.inr hnew)) hn
      · rw [hlog, hone]
        omega
  | join stage hs =>
    refine quiet ?_ (by simp) rfl
    rcases hs with rfl | rfl <;> simp

/-- A mark that goes through settles a delivered event and no other. -/
theorem Paid.issued (T : R.Total) {k : Nat} {clock : UInt64} {e : OutboxEvent} {mark : Mark}
    (hw : R.Coherent w) (h : R.Paid id n w)
    (ht : (w.instances ()).inFlight[k]? = some ⟨e, .marking mark⟩) :
    R.Paid id n (w.put () ((w.instances ()).setStage k ⟨e, .marking mark⟩ .finished)
      ((Shared.ofStore S).issue clock e.id mark w.store) []) := by
  have hheld : R.Holds w.store e := hw.tidy.held _ (List.mem_of_getElem? ht) (by simp)
  obtain ⟨-, hother⟩ := T.issue_other hw.valid clock hheld.ne_absent mark
  have hset := stageOf_set hw.tidy.unique ht .finished id
  have hlog : deliveries (w.put () ((w.instances ()).setStage k ⟨e, .marking mark⟩ .finished)
      ((Shared.ofStore S).issue clock e.id mark w.store) []).log id = deliveries w.log id := by
    simp [World.put]
  have hsettled : R.Settled (w.put () ((w.instances ()).setStage k ⟨e, .marking mark⟩ .finished)
      ((Shared.ofStore S).issue clock e.id mark w.store) []) id ↔
      R.entry ((Shared.ofStore S).issue clock e.id mark w.store) id = .dispatched ∨
        stageOf ((w.instances ()).inFlight.set k ⟨e, .finished⟩) id =
          some (.marking .dispatched) := by
    rw [Settled, World.put_self]
    rfl
  by_cases hid : e.id = id
  · subst hid
    have hstage : stageOf (w.instances ()).inFlight e.id = some (.marking mark) :=
      stageOf_getElem? hw.tidy.unique ht
    cases mark with
    | dispatched =>
      have hone := h.settled (Or.inr hstage)
      refine ⟨fun _ => hlog ▸ hone, fun hn => absurd (hsettled.mpr (Or.inl ?_)) hn, hlog ▸ h.le⟩
      obtain ⟨-, -, he⟩ := R.markDispatched_ok w.store clock e.id hw.valid hheld.ne_absent
      change R.entry (S.markDispatched clock e.id w.store).2 e.id = .dispatched
      rw [he, Outbox.markDispatched, Function.update_self]
    | failed error retryAt =>
      have hopen : ¬R.Settled w e.id := by
        obtain ⟨stamp, hlive, -⟩ := hheld
        rw [Settled, hstage, hlive]
        simp
      have hle := h.unsettled hopen
      -- the entry stays live, whether or not the store had room for the failure
      have hlive : R.entry (S.markFailed e.id error retryAt w.store).2 e.id ≠ .dispatched := by
        obtain ⟨stamp, hlive, -⟩ := hheld
        by_cases hroom : R.Room w.store e.id error
        · obtain ⟨-, -, he⟩ := R.markFailed_ok w.store e.id error retryAt hw.valid hroom
          rw [he, Outbox.markFailed_live hlive, Function.update_self]
          simp
        · obtain ⟨err, he⟩ := T.markFailed_refused w.store e.id error retryAt hw.valid hroom
          rw [he, hlive]
          simp
      refine ⟨fun hs => ?_, fun _ => hlog ▸ hle, hlog ▸ h.le⟩
      cases hsettled.mp hs with
      | inl hd => exact absurd hd hlive
      | inr hm =>
        rw [hset, if_pos rfl] at hm
        cases hm
  · refine h.same ?_ hlog
    rw [hsettled, hother id (Ne.symm hid), hset, if_neg hid, Settled]

theorem Paid.step (T : R.Total) {a : Action Unit} (hw : R.Coherent w) (h : R.Paid id n w)
    (hstep : w.step (Shared.ofStore S) (fun _ => c) a = some w') :
    R.Paid id (n+if a.isFault then 1 else 0) w' := by
  -- the loop moves on and the tasks stay
  have still : ∀ {inst : Instance Fetched}, inst.inFlight = (w.instances ()).inFlight →
      R.Paid id n (w.put () inst w.store []) := by
    intro inst hf
    refine h.same ?_ (by simp [World.put])
    rw [Settled, World.put_self, hf]
    rfl
  cases World.steps_of_step hstep with
  | appended e s happ =>
    rw [show s = (S.append e w.store).2 from (congrArg Prod.snd happ).symm]
    refine h.same (T.settled_append hw.valid e _) ?_
    change deliveries (w.log++[.appended e]) id = _
    rw [deliveries_append]
    simp [deliveries]
  | refused e s err happ =>
    rw [show s = (S.append e w.store).2 from (congrArg Prod.snd happ).symm]
    exact h.same (T.settled_append hw.valid e _) rfl
  | appendLost e => exact h
  | moved i m inst obs hm => exact h.moved hw hm
  | idled i now reached hp => exact still rfl
  | opened i now claim s hp hopen =>
    cases hopen
    exact still rfl
  | spawned i claim due s hp hclose =>
    cases hclose
    have hempty := hw.tidy.drained (by simp [hp])
    refine h.same ?_ (by simp [World.put])
    have hq : stageOf ((w.instances ()).spawn c due).inFlight id ≠ some (.marking .dispatched) := by
      simp only [Instance.spawn, hempty, List.nil_append]
      cases stageOf_queued due id with
      | inl hnone => simp [hnone]
      | inr hqueued => simp [hqueued.1]
    have hnone : stageOf (w.instances ()).inFlight id ≠ some (.marking .dispatched) := by
      simp [hempty, stageOf]
    rw [Settled, Settled, World.put_self, or_iff_left hq, or_iff_left hnone]
    rfl
  | fetchFailed i claim err s hp hclose =>
    cases hclose
    exact still rfl
  | fetchLost i claim hp => exact still rfl
  | issued i k clock e mark ht hfree => exact h.issued T hw ht
  | markLost i k clock e mark ht =>
    refine h.fault (fun hs => ?_) (by simp [World.put])
    rw [Settled, World.put_self] at hs
    refine hs.imp_right fun hm => ?_
    rw [Instance.setStage, stageOf_set hw.tidy.unique ht] at hm
    split at hm
    · cases hm
    · exact hm
  | crashed i =>
    refine h.fault (fun hs => ?_) (by simp [World.put])
    rw [Settled, World.put_self] at hs
    refine hs.imp (fun hd => ?_) fun hm => ?_
    · rwa [show
        (w.put () Instance.off ((Shared.ofStore S).release (w.instances ()) w.store) []).store =
        w.store by simp only [World.put, Shared.release]; split <;> rfl] at hd
    · simp [stageOf, Instance.off] at hm

theorem paid_run (T : R.Total) {s : σ} (hs : R.Valid s) (hstart : ∀ id, R.entry s id = .absent)
    {as : List (Action Unit)} (h : (single S c s).run (fun _ _ => True)
      (World.start Unit Fetched s) as = some w) (id : EventId) : R.Paid id (faults as) w := by
  refine
    (System.run_history (I := fun past w => R.Coherent w ∧ R.Paid id (faults past) w) h ?_ ?_).2
  · refine ⟨⟨hs, .off⟩, fun hset => ?_, fun _ => Nat.le_refl _, Nat.zero_le _⟩
    simp [Settled, World.start, hstart, Instance.off, stageOf] at hset
  · rintro past w a w' ⟨hw, hp⟩ - hstep
    rw [faults_concat]
    exact ⟨hw.step T hstep, hp.step T hw hstep⟩

end Refinement

theorem Sqlite.entry_dispatched_iff (U : UuidCrate) {t : Sqlite.Tables} (hv : Sqlite.Valid t)
    {id : EventId} : Sqlite.entry U t id = .dispatched ↔
      ∃ row, t.outboxEvents[id.text]? = some row ∧ row.dispatchedAt.isSome := by
  constructor
  · intro he
    cases hget : t.outboxEvents[id.text]? with
    | none => cases (Sqlite.entry_none U hget).symm.trans he
    | some row =>
      rw [Sqlite.entry_some U hget] at he
      cases hd : row.dispatchedAt with
      | some d => exact ⟨row, rfl, by simp [hd]⟩
      | none =>
        obtain ⟨e, hk, -, hread⟩ := Sqlite.read_live U (hv _ _ hget) hd
        rw [EventId.text_inj] at hk
        subst hk
        cases hread.symm.trans he
  · intro h
    obtain ⟨row, hget, hd⟩ := h
    exact (Sqlite.entry_some U hget).trans (Sqlite.read_dispatched U id hd)

/-- Duplicates come from faults only. Over the in-process store and over SQLite, after any
run of one dispatcher: a dispatched event was delivered at least once and at most once
more than the run had faults (crashes, and marks that did not reach the store); and an
event that is not dispatched, and that no task is about to mark so, was delivered no
more often than that. Without faults a dispatched event was delivered exactly once. -/
theorem duplicates_paid_by_faults (U : UuidCrate) (c : DispatcherConfig) (as : List (Action Unit))
    (id : EventId) :
    (∀ w, (single Memory.store c Memory.new).run (fun _ _ => True)
        (World.start Unit Fetched Memory.new) as = some w →
      (id ∈ w.store.dispatched →
        1 ≤ deliveries w.log id ∧ deliveries w.log id ≤ faults as+1) ∧
      (id ∉ w.store.dispatched →
        stageOf (w.instances ()).inFlight id ≠ some (.marking .dispatched) →
        deliveries w.log id ≤ faults as)) ∧
    (∀ w, (single (Sqlite.store U) c Sqlite.empty).run (fun _ _ => True)
        (World.start Unit Fetched Sqlite.empty) as = some w →
      ((∃ row, w.store.outboxEvents[id.text]? = some row ∧ row.dispatchedAt.isSome) →
        1 ≤ deliveries w.log id ∧ deliveries w.log id ≤ faults as+1) ∧
      ((∀ row, w.store.outboxEvents[id.text]? = some row → row.dispatchedAt = none) →
        stageOf (w.instances ()).inFlight id ≠ some (.marking .dispatched) →
        deliveries w.log id ≤ faults as)) := by
  constructor
  · intro w hrun
    have h := Refinement.paid_run Memory.refinement_total Memory.valid_new Memory.entry_new hrun id
    have hv := (Refinement.Coherent.reachable Memory.refinement_total Memory.valid_new
      (System.reach_of_run as hrun)).valid
    refine ⟨fun hd => ⟨h.settled (Or.inl ?_), h.le⟩, fun hd hs => h.unsettled fun hset => ?_⟩
    · exact (Memory.entry_dispatched_iff hv).mpr hd
    · exact hset.elim (fun he => hd ((Memory.entry_dispatched_iff hv).mp he)) hs
  · intro w hrun
    have hnone (k : EventId) : Sqlite.entry U Sqlite.empty k = .absent :=
      Sqlite.entry_none U (by simp [Sqlite.empty])
    have h := Refinement.paid_run (Sqlite.refinement_total U) Sqlite.valid_empty hnone hrun id
    have hv := (Refinement.Coherent.reachable (Sqlite.refinement_total U) Sqlite.valid_empty
      (System.reach_of_run as hrun)).valid
    refine ⟨fun hd => ⟨h.settled (Or.inl ?_), h.le⟩, fun hd hs => h.unsettled fun hset => ?_⟩
    · exact (Sqlite.entry_dispatched_iff U hv).mpr hd
    · refine hset.elim (fun he => ?_) hs
      obtain ⟨row, hget, hsome⟩ := (Sqlite.entry_dispatched_iff U hv).mp he
      simp [hd row hget] at hsome

/-- The sender takes an event, the process dies before the mark, and a second process
delivers it again. -/
def deliveredTwice : List (Action Unit) :=
  [.append (.sample 1 5) true, .move () .start, .tick () 10 true, .fetched () true,
    .move () (.permit 0), .move () (.invoke 0), .move () (.returned 0 .ok 20 .zero), .crash (),
    .move () .start, .tick () 30 true, .fetched () true, .move () (.permit 0),
    .move () (.invoke 0), .move () (.returned 0 .ok 40 .zero), .mark () 0 40 true]

theorem duplicates_paid_by_faults_deliveredTwice :
    ∃ w, (single Memory.store (.sample 3) Memory.new).run (fun _ _ => True)
        (World.start Unit Fetched Memory.new) deliveredTwice = some w ∧
      deliveries w.log (.ofByte 1) = 2 ∧ faults deliveredTwice = 1 ∧
      deliveries w.log (.ofByte 1) ≤ faults deliveredTwice+1 := by
  have hrun : ((single Memory.store (.sample 3) Memory.new).run (fun _ _ => True)
      (World.start Unit Fetched Memory.new) deliveredTwice).any (fun w =>
        deliveries w.log (.ofByte 1) = 2 ∧ EventId.ofByte 1 ∈ w.store.dispatched) = true := by
    decide +kernel
  obtain ⟨w, hw, htest⟩ := (Option.any_eq_true _ _).mp hrun
  obtain ⟨htwo, hd⟩ := of_decide_eq_true htest
  exact ⟨w, hw, htwo, rfl,
    (((duplicates_paid_by_faults .hyphenatedOnly (.sample 3) deliveredTwice (.ofByte 1)).1 w hw).1
      hd).2⟩

namespace Refinement
variable {σ : Type} {S : OutboxStore σ} {R : Refinement S}

/-- The store has this very event, scheduled for a time that `now` has reached. -/
def Ripe (R : Refinement S) (now : UInt64) (s : σ) (e : OutboxEvent) : Prop :=
  ∃ stamp, R.entry s e.id = .live stamp e ∧ stamp ≤ now ∧ stamp ≠ never

theorem Ripe.of_entry {s t : σ} {now : UInt64} {e : OutboxEvent} (h : R.Ripe now s e)
    (he : R.entry t e.id = R.entry s e.id) : R.Ripe now t e := by
  obtain ⟨stamp, hlive, hle, hne⟩ := h
  exact ⟨stamp, he.trans hlive, hle, hne⟩

theorem Ripe.ne_absent {s : σ} {now : UInt64} {e : OutboxEvent} (h : R.Ripe now s e) :
    R.entry s e.id ≠ .absent := by
  obtain ⟨stamp, hlive, -⟩ := h
  simp [hlive]

theorem fetchDue_ripe {s : σ} (hv : R.Valid s) {limit now : UInt64} {evs : List OutboxEvent}
    (h : S.fetchDue limit now s = .ok evs) :
    (evs.map (·.id)).Nodup ∧ ∀ e ∈ evs, R.Ripe now s e := by
  refine ⟨(fetchDue_holds hv h).1, fun e hmem => ?_⟩
  obtain ⟨l, n, hl, -, he⟩ := R.fetchDue_ok s limit now hv
  rw [he, Except.ok.injEq] at h
  subst h
  obtain ⟨⟨stamp, f⟩, hf, rfl⟩ := List.mem_map.mp hmem
  exact ⟨stamp, (hl.mem_iff stamp f).mp (List.mem_of_mem_take hf)⟩

/-- The store is readable and the batch is ripe at the last clock reading. -/
structure Timely (R : Refinement S) (now : UInt64) (w : Solo σ) : Prop where
  valid : R.Valid w.store
  tidy : (w.instances ()).Tidy (R.Ripe now w.store)

/-- The loop ticks only between two batches, so the clock moves when nothing is in flight. -/
theorem Timely.step (T : R.Total) {c : DispatcherConfig} {now : UInt64} {w w' : Solo σ}
    {a : Action Unit} (h : R.Timely now w)
    (hstep : w.step (Shared.ofStore S) (fun _ => c) a = some w') : R.Timely (a.clock now) w' := by
  cases World.steps_of_step hstep with
  | appended e s happ =>
    obtain ⟨hv, hknown⟩ := T.append_known h.valid e
    rw [show s = (S.append e w.store).2 from (congrArg Prod.snd happ).symm]
    exact ⟨hv, h.tidy.mono fun f hf => hf.of_entry (hknown _ (Or.inr hf.ne_absent))⟩
  | refused e s err happ =>
    obtain ⟨hv, hknown⟩ := T.append_known h.valid e
    rw [show s = (S.append e w.store).2 from (congrArg Prod.snd happ).symm]
    exact ⟨hv, h.tidy.mono fun f hf => hf.of_entry (hknown _ (Or.inr hf.ne_absent))⟩
  | appendLost e => exact h
  | moved i m inst obs hm =>
    refine ⟨h.valid, ?_⟩
    rw [World.put_self]
    exact h.tidy.move hm
  | idled i now' reached hp =>
    refine ⟨h.valid, ?_⟩
    rw [World.put_self]
    exact .of_empty (h.tidy.drained (by simp [hp])) (by simp [hp])
  | opened i now' claim s hp hopen =>
    cases hopen
    refine ⟨h.valid, ?_⟩
    rw [World.put_self]
    have hempty := h.tidy.drained (by simp [hp])
    refine ⟨fun _ => hempty, by simp [hempty], by simp [hempty], fun evs hf => ?_⟩
    exact fetchDue_ripe h.valid (Phase.fetching.inj hf)
  | spawned i claim due s hp hclose =>
    cases hclose
    refine ⟨h.valid, ?_⟩
    rw [World.put_self]
    exact h.tidy.spawn c hp
  | fetchFailed i claim err s hp hclose =>
    cases hclose
    refine ⟨h.valid, ?_⟩
    rw [World.put_self]
    exact .of_empty (h.tidy.drained (by simp [hp])) (by simp)
  | fetchLost i claim hp =>
    refine ⟨h.valid, ?_⟩
    rw [World.put_self]
    exact .of_empty (h.tidy.drained (by simp [hp])) (by simp)
  | issued i n clock e mark ht hfree =>
    have hripe : R.Ripe now w.store e := h.tidy.held _ (List.mem_of_getElem? ht) (by simp)
    obtain ⟨hv, hother⟩ := T.issue_other h.valid clock hripe.ne_absent mark
    refine ⟨hv, ?_⟩
    rw [World.put_self]
    exact h.tidy.setStage ht (fun f hf hr => hr.of_entry (hother _ hf)) (absurd rfl)
  | markLost i n clock e mark ht =>
    refine ⟨h.valid, ?_⟩
    rw [World.put_self]
    exact h.tidy.advance ht (by simp)
  | crashed i =>
    rw [show (Shared.ofStore S).release (w.instances i) w.store = w.store from ?_]
    · refine ⟨h.valid, ?_⟩
      rw [World.put_self]
      exact .off
    · unfold Shared.release
      split <;> rfl

theorem timely_run (T : R.Total) {c : DispatcherConfig} {s : σ} (hs : R.Valid s)
    {as : List (Action Unit)} {w : Solo σ} (h : (single S c s).run (fun _ _ => True)
      (World.start Unit Fetched s) as = some w) : R.Timely (lastTick as) w := by
  refine System.run_history (I := fun past w => R.Timely (lastTick past) w) h ⟨hs, .off⟩ ?_
  intro past w a w' hw _ hstep
  rw [lastTick, List.foldl_append]
  exact hw.step T hstep

end Refinement

/-- No send before its time. Over the in-process store and over SQLite, after any run of
one dispatcher, an event in flight that has not issued its mark is scheduled, in the
store as it is now, for a time the clock had reached at the last tick, and is not
parked. So a failed event is not sent again before the retry time its failure was
recorded with. -/
theorem in_flight_is_due (U : UuidCrate) (c : DispatcherConfig) (as : List (Action Unit)) :
    (∀ w, (single Memory.store c Memory.new).run (fun _ _ => True)
        (World.start Unit Fetched Memory.new) as = some w →
      ∀ task ∈ (w.instances ()).inFlight, task.stage ≠ .finished →
        ∃ stamp, w.store.events[task.event.id]? = some (stamp, task.event) ∧
          stamp ≤ lastTick as ∧ stamp ≠ never) ∧
    (∀ w, (single (Sqlite.store U) c Sqlite.empty).run (fun _ _ => True)
        (World.start Unit Fetched Sqlite.empty) as = some w →
      ∀ task ∈ (w.instances ()).inFlight, task.stage ≠ .finished →
        ∃ row, w.store.outboxEvents[task.event.id.text]? = some row ∧ row.dispatchedAt = none ∧
          row.nextAttemptAt ≤ (lastTick as).toNat ∧ row.nextAttemptAt < parkedAsI64) := by
  constructor
  · intro w hrun task ht hs
    have h := Refinement.timely_run Memory.refinement_total Memory.valid_new hrun
    obtain ⟨stamp, hlive, hle, hne⟩ := h.tidy.held task ht hs
    exact ⟨stamp, Memory.entry_live_iff.mp hlive, hle, hne⟩
  · intro w hrun task ht hs
    have h := Refinement.timely_run (Sqlite.refinement_total U) Sqlite.valid_empty hrun
    obtain ⟨stamp, hlive, hle, hne⟩ := h.tidy.held task ht hs
    obtain ⟨row, hget, hd, -, rfl⟩ := (Sqlite.entry_live_iff U).mp hlive
    have hdue := (h.valid _ _ hget).due
    have hlt := (stampOf_ne_never_iff hdue).mp hne
    refine ⟨row, hget, hd, ?_, hlt⟩
    rw [stampOf, if_pos hlt, unclampU64_le_iff hdue (Int.le_of_lt hlt), clampI64_eq] at hle
    omega

theorem in_flight_is_due_failsTwice :
    ∃ w, (single Memory.store (.sample 3) Memory.new).run (fun _ _ => True)
        (World.start Unit Fetched Memory.new) (failsTwice.take 16) = some w ∧
      (w.instances ()).inFlight.map (·.event.attempts) = [1] ∧
      ∀ task ∈ (w.instances ()).inFlight, task.stage ≠ .finished →
        ∃ stamp, w.store.events[task.event.id]? = some (stamp, task.event) ∧
          stamp ≤ lastTick (failsTwice.take 16) ∧ stamp ≠ never := by
  have hrun : ((single Memory.store (.sample 3) Memory.new).run (fun _ _ => True)
      (World.start Unit Fetched Memory.new) (failsTwice.take 16)).any (fun w =>
        (w.instances ()).inFlight.map (·.event.attempts) = [1]) = true := by
    decide +kernel
  obtain ⟨w, hw, htest⟩ := (Option.any_eq_true _ _).mp hrun
  exact ⟨w, hw, of_decide_eq_true htest,
    (in_flight_is_due .hyphenatedOnly (.sample 3) (failsTwice.take 16)).1 w hw⟩

end OutboxKit
