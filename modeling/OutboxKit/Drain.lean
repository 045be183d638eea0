import OutboxKit.Turn

/-! A backlog drains. Whatever a fetch lists is, by the time the rounds have served that
many, sent and off the due list: dispatched after one delivery, or failed and put past
the clock. The account of a stretch of a run is drawn up on a record of its own, begun
when the stretch begins. -/
namespace OutboxKit
open Std Machine Ordered Trace

def Stage.sends : Stage → Nat
  | .sending => 1
  | .queued | .permitted | .marking _ | .paused | .finished => 0

def Stage.fails : Option Stage → Prop
  | some (.marking (.failed ..)) => True
  | some .queued | some .permitted | some .sending | some (.marking .dispatched) | some .paused
  | some .finished | none => False

/-- The record of an event whose task is at `stage`: each send is answered or open, and
while the event is overdue no failure of it was recorded. -/
structure Course (id : EventId) (stage : Option Stage) (log : List Obs) (overdue : Prop) :
    Prop where
  account : invocations log id = deliveries log id+failures log id+stage.elim 0 Stage.sends
  fresh : overdue → failures log id = 0 ∨ Stage.fails stage

def World.after {ι σ γ : Type} (past : List Obs) (w : World ι σ γ) : World ι σ γ :=
  { w with log := past++w.log }

/-- The events `due` are served between `w` and `w'`: each was sent and all its sends were
answered, one that is dispatched was delivered once, one that is not failed and was not
delivered, and no fetch at `now` lists either. -/
structure Served {σ : Type} (S : OutboxStore σ) (dispatched : EventId → Prop) (now : UInt64)
    (due : List OutboxEvent) (w w' : Solo σ) : Prop where
  sent : ∀ e ∈ due, invocations w.log e.id < invocations w'.log e.id
  answered : ∀ e ∈ due, invocations w'.log e.id+deliveries w.log e.id+failures w.log e.id =
    invocations w.log e.id+deliveries w'.log e.id+failures w'.log e.id
  delivered : ∀ e ∈ due, dispatched e.id → deliveries w'.log e.id = deliveries w.log e.id+1
  failed : ∀ e ∈ due, ¬dispatched e.id → deliveries w'.log e.id = deliveries w.log e.id ∧
    failures w.log e.id < failures w'.log e.id
  gone : ∀ limit listed, S.fetchDue limit now w'.store = .ok listed →
    ∀ f ∈ listed, ∀ e ∈ due, f.id ≠ e.id

section After
variable {ι σ γ : Type} {past : List Obs} {w : World ι σ γ}

@[simp] theorem World.after_store : (w.after past).store = w.store := rfl

@[simp] theorem World.after_instances : (w.after past).instances = w.instances := rfl

@[simp] theorem World.after_put [DecidableEq ι] (i : ι) (inst : Instance γ) (s : σ)
    (obs : List Obs) :
    (w.put i inst s obs).after past = (w.after past).put i inst s obs := by
  simp [put, after]

theorem World.invocations_after (id : EventId) :
    invocations (w.after past).log id = invocations past id+invocations w.log id :=
      List.count_append

theorem World.deliveries_after (id : EventId) :
    deliveries (w.after past).log id = deliveries past id+deliveries w.log id := List.count_append

theorem World.failures_after (id : EventId) :
    failures (w.after past).log id = failures past id+failures w.log id := List.count_append

/-- A step does not read the record. -/
theorem World.step_after [DecidableEq ι] (P : Shared σ γ) (config : ι → DispatcherConfig)
    (past : List Obs) (w : World ι σ γ) (a : Action ι) :
    (w.after past).step P config a = (w.step P config a).map (World.after past) := by
  cases a with
  | append e reached =>
    cases reached with
    | false => rfl
    | true =>
      cases happ : P.append e w.store with
      | mk result s =>
        cases result with
        | error err => simp [step, happ, after]
        | ok u => simp [step, happ, after]
  | move i m =>
    cases hm : (w.instances i).move (config i) m with
    | none => simp [step, hm]
    | some moved => simp [step, hm]
  | tick i now reached =>
    cases hp : (w.instances i).phase with
    | select =>
      simp only [step, after_store, after_instances, hp]
      split <;> simp
    | down | fetching claim | draining | gauge | stopping | stopped => simp [step, hp]
  | fetched i reached =>
    cases hp : (w.instances i).phase with
    | fetching claim =>
      cases reached with
      | false => simp [step, hp]
      | true =>
        cases hc : P.closeFetch claim w.store with
        | mk result s =>
          cases result with
          | error err => simp [step, hp, hc]
          | ok due => simp [step, hp, hc]
    | down | select | draining | gauge | stopping | stopped => simp [step, hp]
  | mark i n clock reached =>
    cases ht : (w.instances i).inFlight[n]? with
    | none => simp [step, ht]
    | some task =>
      obtain ⟨e, stage⟩ := task
      cases stage with
      | marking mark =>
        cases reached with
        | false => simp [step, ht]
        | true => cases hfree : P.free e.id w.store <;> simp [step, ht, hfree]
      | queued | permitted | sending | paused | finished => simp [step, ht]
  | crash i => simp [step]

end After

namespace Course
variable {id : EventId} {stage stage' : Option Stage} {log obs : List Obs} {overdue overdue' : Prop}

theorem mono (h : Course id stage log overdue)
    (hobs : invocations obs id = 0 ∧ deliveries obs id = 0 ∧ failures obs id = 0)
    (hsends : stage'.elim 0 Stage.sends = stage.elim 0 Stage.sends)
    (hdue : overdue' → overdue ∧ (Stage.fails stage → Stage.fails stage')) :
    Course id stage' (log++obs) overdue' := by
  have hinv : invocations (log++obs) id = invocations log id := List.count_append.trans (by
    rw [← invocations, ← invocations, hobs.1, Nat.add_zero])
  have hdel : deliveries (log++obs) id = deliveries log id := by
    rw [deliveries_append, hobs.2.1, Nat.add_zero]
  have hfail : failures (log++obs) id = failures log id := List.count_append.trans (by
    rw [← failures, ← failures, hobs.2.2, Nat.add_zero])
  constructor
  · rw [hinv, hdel, hfail, hsends]
    exact h.account
  · intro hover
    obtain ⟨hold, hfails⟩ := hdue hover
    rw [hfail]
    exact (h.fresh hold).imp_right hfails

theorem move {γ : Type} {c : DispatcherConfig} {inst : Instance γ} {m : Move}
    (h : Course id stage log overdue) (hm : Stage.Moves c inst m id stage stage' obs) :
    Course id stage' (log++obs) overdue := by
  cases hm with
  | other stage obs ho =>
    have hquiet := And.intro (deliveries_other ho) (failures_other ho)
    exact h.mono ⟨invocations_other ho, hquiet⟩ rfl fun hover => ⟨hover, fun hf => hf⟩
  | permit => exact h.mono ⟨rfl, rfl, rfl⟩ rfl fun hover => ⟨hover, False.elim⟩
  | pause => exact h.mono ⟨rfl, rfl, rfl⟩ rfl fun hover => ⟨hover, False.elim⟩
  | join stage hs =>
    refine h.mono ⟨rfl, rfl, rfl⟩ ?_ fun hover => ⟨hover, ?_⟩
    · rcases hs with rfl | rfl <;> rfl
    · rcases hs with rfl | rfl <;> exact False.elim
  | invoke =>
    have hacc := h.account
    constructor
    · simp only [invocations, deliveries, failures, List.count_append, Option.elim_some,
        Stage.sends] at hacc ⊢
      simp
      omega
    · intro hover
      refine Or.inl ?_
      rw [failures, List.count_append]
      simpa [failures, Stage.fails] using h.fresh hover
  | answer k e result now delay mark hmem hid hmove hj hr =>
    have hacc := h.account
    cases mark with
    | dispatched =>
      constructor
      · simp only [invocations, deliveries, failures, List.count_append, Option.elim_some,
          Stage.sends, Obs.ofMark] at hacc ⊢
        simp
        omega
      · intro hover
        refine Or.inl ?_
        rw [failures, List.count_append]
        simpa [failures, Stage.fails, Obs.ofMark] using h.fresh hover
    | failed error retryAt =>
      refine ⟨?_, fun _ => Or.inr trivial⟩
      simp only [invocations, deliveries, failures, List.count_append, Option.elim_some,
        Stage.sends, Obs.ofMark] at hacc ⊢
      simp
      omega

end Course

section Flowing
variable {σ : Type} {S : OutboxStore σ} {c : DispatcherConfig} {w : Solo σ} {now : UInt64}

theorem Flowing.not_fault {a : Action Unit} (h : Flowing S now w a) : a.isFault = false := by
  cases a with
  | append | move | tick | fetched => rfl
  | mark i n clock reached => simpa [Action.isFault] using h.1
  | crash i => exact h.elim

theorem Flowing.after_iff (past : List Obs) (a : Action Unit) :
    Flowing S now (w.after past) a ↔ Flowing S now w a := by
  cases a <;> exact Iff.rfl

theorem Flowing.moved {m : Move} {inst inst' : Instance Fetched} {obs : List Obs}
    (hflow : Flowing S now w (.move () m)) (hm : Instance.Moves c inst m inst' obs)
    (h : ∀ task ∈ inst.inFlight, task.stage.Flows now) :
    ∀ task ∈ inst'.inFlight, task.stage.Flows now := by
  have set : ∀ {n : Nat} {task : Task} {stage : Stage}, stage.Flows now →
      ∀ t ∈ (inst.setStage n task stage).inFlight, t.stage.Flows now := by
    intro n task stage hstage t ht
    cases Instance.mem_setStage ht with
    | inl hold => exact h t hold
    | inr hnew => rwa [hnew]
  cases hm with
  | start hp => simp [Instance.started]
  | shutdown hp => exact h
  | leave hp hs => exact h
  | stop hp hf => exact h
  | drained hp hf => exact h
  | gauge hp => exact h
  | permit n task ht hs hc => exact set trivial
  | invoke n task ht hs => exact set trivial
  | pause n task result clock delay ht hs hr =>
    exact absurd hr (CallResult.mark_ne_none hflow.2 _ _ _ _)
  | answer n task result clock delay mark ht hs hj hr =>
    exact set (CallResult.flows_of_mark hflow.1 hr)
  | join n task ht hs => exact fun t ht' => h t (List.mem_of_mem_eraseIdx ht')

end Flowing

namespace Refinement
variable {σ : Type} {S : OutboxStore σ} (R : Refinement S)

def Overdue (now : UInt64) (s : σ) (id : EventId) : Prop :=
  ∃ u f, R.entry s id = .live u f ∧ u ≤ now

/-- A stretch of a run in which everything flows, begun at the store `s` with nothing in
flight: no event has come due by `now` that was not, and every event's record holds. -/
structure Flowed (now : UInt64) (s : σ) (w : Solo σ) : Prop where
  coherent : R.Coherent w
  flows : ∀ task ∈ (w.instances ()).inFlight, task.stage.Flows now
  aged : ∀ k u f, R.entry w.store k = .live u f → u ≤ now → R.entry s k = .live u f
  course : ∀ id, Course id (stageOf (w.instances ()).inFlight id) w.log (R.Overdue now w.store id)

variable {R} {c : DispatcherConfig} {s : σ} {w w' : Solo σ} {now : UInt64}

theorem Total.live_of_append (T : R.Total) (hstamp : ∀ v, v ≤ R.stamp v) (hv : R.Valid s)
    {e f : OutboxEvent} {k : EventId} {u : UInt64} (hlater : now < e.createdAt)
    (h : R.entry (S.append e s).2 k = .live u f) (hu : u ≤ now) : R.entry s k = .live u f := by
  cases T.append_entry hv e k with
  | inl hsame => rwa [← hsame]
  | inr hnew =>
    obtain ⟨-, -, hadded⟩ := hnew
    rw [hadded, Entry.live.injEq] at h
    obtain ⟨rfl, -⟩ := h
    have hle := UInt64.le_trans (hstamp e.createdAt) hu
    exact absurd (UInt64.lt_of_lt_of_le hlater hle) (UInt64.lt_irrefl now)

namespace Flowed

theorem appended (T : R.Total) (hstamp : ∀ v, v ≤ R.stamp v) (h : R.Flowed now s w)
    {e : OutboxEvent} (hlater : now < e.createdAt) {obs : List Obs}
    (hobs : ∀ id, invocations obs id = 0 ∧ deliveries obs id = 0 ∧ failures obs id = 0)
    (hw : R.Coherent ⟨(S.append e w.store).2, w.instances, w.log++obs⟩) :
    R.Flowed now s ⟨(S.append e w.store).2, w.instances, w.log++obs⟩ := by
  refine ⟨hw, h.flows, fun k u f hlive hu => ?_, fun id => ?_⟩
  · exact h.aged k u f (T.live_of_append hstamp h.coherent.valid hlater hlive hu) hu
  · refine (h.course id).mono (hobs id) rfl fun hover => ⟨?_, fun hf => hf⟩
    obtain ⟨u, f, hlive, hu⟩ := hover
    exact ⟨u, f, T.live_of_append hstamp h.coherent.valid hlater hlive hu, hu⟩

theorem moved {m : Move} {inst : Instance Fetched} {obs : List Obs} (h : R.Flowed now s w)
    (hflow : Flowing S now w (.move () m)) (hm : Instance.Moves c (w.instances ()) m inst obs)
    (hw : R.Coherent (w.put () inst w.store obs)) :
    R.Flowed now s (w.put () inst w.store obs) := by
  have hdown : (w.instances ()).phase = .down → (w.instances ()).inFlight = [] := fun hp =>
    h.coherent.tidy.drained (by simp [hp])
  refine ⟨hw, ?_, h.aged, fun id => ?_⟩
  · rw [World.put_self]
    exact hflow.moved hm h.flows
  · rw [World.put_self]
    exact (h.course id).move (hm.stageOf h.coherent.tidy.unique hdown id)

theorem still {inst : Instance Fetched} (h : R.Flowed now s w)
    (hw : R.Coherent (w.put () inst w.store []))
    (htasks : inst.inFlight = (w.instances ()).inFlight) :
    R.Flowed now s (w.put () inst w.store []) := by
  refine ⟨hw, ?_, h.aged, fun id => ?_⟩
  · rw [World.put_self, htasks]
    exact h.flows
  · rw [World.put_self, htasks]
    exact (h.course id).mono ⟨rfl, rfl, rfl⟩ rfl fun hover => ⟨hover, fun hf => hf⟩

theorem spawned {evs : List OutboxEvent} (h : R.Flowed now s w)
    (hempty : (w.instances ()).inFlight = [])
    (hw : R.Coherent (w.put () ((w.instances ()).spawn c evs) w.store [])) :
    R.Flowed now s (w.put () ((w.instances ()).spawn c evs) w.store []) := by
  have hnew : ((w.instances ()).spawn c evs).inFlight = evs.map fun f => ⟨f, .queued⟩ := by
    simp [Instance.spawn, hempty]
  refine ⟨hw, ?_, h.aged, fun id => ?_⟩
  · rw [World.put_self, hnew]
    intro task ht
    obtain ⟨f, -, rfl⟩ := List.mem_map.mp ht
    trivial
  · have hcourse := h.course id
    rw [hempty] at hcourse
    rw [World.put_self, hnew]
    refine hcourse.mono ⟨rfl, rfl, rfl⟩ ?_ fun hover => ⟨hover, False.elim⟩
    cases stageOf_queued evs id with
    | inl hnone => rw [hnone]; rfl
    | inr hqueued => rw [hqueued.1]; rfl

/-- A mark that goes through leaves its event no longer due, and the others as they were. -/
theorem issued (T : R.Total) (hstamp : ∀ v, v ≤ R.stamp v) (h : R.Flowed now s w)
    {n : Nat} {clock : UInt64} {f : OutboxEvent} {mark : Mark}
    (ht : (w.instances ()).inFlight[n]? = some ⟨f, .marking mark⟩)
    (htakes : S.takes clock w.store ⟨f, .marking mark⟩ = true)
    (hw : R.Coherent (w.put () ((w.instances ()).setStage n ⟨f, .marking mark⟩ .finished)
      ((Shared.ofStore S).issue clock f.id mark w.store) [])) :
    R.Flowed now s (w.put () ((w.instances ()).setStage n ⟨f, .marking mark⟩ .finished)
      ((Shared.ofStore S).issue clock f.id mark w.store) []) := by
  have hmem := List.mem_of_getElem? ht
  have hheld : R.Holds w.store f := h.coherent.tidy.held _ hmem (by simp)
  have hlive : ∀ k u g, R.entry ((Shared.ofStore S).issue clock f.id mark w.store) k = .live u g →
      u ≤ now → k ≠ f.id ∧ R.entry w.store k = .live u g := by
    intro k u g hk hu
    obtain ⟨-, hother⟩ := T.issue_other h.coherent.valid clock hheld.ne_absent mark
    by_cases hkf : k = f.id
    · subst hkf
      have hlater := T.lt_of_issue hstamp h.coherent.valid hheld htakes (h.flows _ hmem) hk
      exact absurd (UInt64.lt_of_lt_of_le hlater hu) (UInt64.lt_irrefl now)
    · exact ⟨hkf, (hother k hkf).symm.trans hk⟩
  refine ⟨hw, ?_, fun k u g hk hu => h.aged k u g (hlive k u g hk hu).2 hu, fun id => ?_⟩
  · rw [World.put_self]
    intro task htask
    cases Instance.mem_setStage htask with
    | inl hold => exact h.flows task hold
    | inr hnew =>
      rw [hnew]
      trivial
  · have hset := stageOf_set h.coherent.tidy.unique ht .finished id
    rw [World.put_self, Instance.setStage, hset]
    refine (h.course id).mono ⟨rfl, rfl, rfl⟩ ?_ ?_
    · split
      · rename_i hid
        subst hid
        rw [stageOf_getElem? h.coherent.tidy.unique ht]
        rfl
      · rfl
    · rintro ⟨u, g, hk, hu⟩
      obtain ⟨hne, hold⟩ := hlive id u g hk hu
      rw [if_neg (Ne.symm hne)]
      exact ⟨⟨u, g, hold, hu⟩, fun hf => hf⟩

theorem step (T : R.Total) (hstamp : ∀ v, v ≤ R.stamp v) {a : Action Unit} (h : R.Flowed now s w)
    (hflow : Flowing S now w a) (hstep : w.step (Shared.ofStore S) (fun _ => c) a = some w') :
    R.Flowed now s w' := by
  have hw := h.coherent.step T hstep
  cases World.steps_of_step hstep with
  | appended e t happ =>
    rw [show t = (S.append e w.store).2 from (congrArg Prod.snd happ).symm] at hw ⊢
    exact h.appended T hstamp hflow (fun id => by simp [invocations, deliveries, failures]) hw
  | refused e t err happ =>
    rw [show t = (S.append e w.store).2 from (congrArg Prod.snd happ).symm] at hw ⊢
    rw [← List.append_nil w.log] at hw ⊢
    exact h.appended T hstamp hflow (fun id => ⟨rfl, rfl, rfl⟩) hw
  | appendLost e => exact h
  | moved i m inst obs hm => exact h.moved hflow hm hw
  | idled i clock reached hp => exact h.still hw rfl
  | opened i clock claim t hp hopen =>
    cases hopen
    exact h.still hw rfl
  | spawned i claim due t hp hclose =>
    cases hclose
    exact h.spawned (h.coherent.tidy.drained (by simp [hp])) hw
  | fetchFailed i claim err t hp hclose =>
    cases hclose
    exact h.still hw rfl
  | fetchLost i claim hp => exact h.still hw rfl
  | issued i n clock f mark ht hfree =>
    have htakes := hflow.2
    rw [ht] at htakes
    exact h.issued T hstamp ht htakes hw
  | markLost i n clock f mark ht => cases hflow.1
  | crashed i => exact hflow.elim

theorem start (hw : R.Coherent w) (hempty : (w.instances ()).inFlight = []) :
    R.Flowed now w.store { w with log := [] } := by
  refine ⟨⟨hw.valid, hw.tidy⟩, ?_, fun k u f hlive hu => hlive, fun id => ⟨?_, fun _ => Or.inl rfl⟩⟩
  · intro task ht
    rw [hempty] at ht
    cases ht
  · rw [hempty]
    rfl

end Flowed

theorem Coherent.run (T : R.Total) (hw : R.Coherent w) {ok : Solo σ → Action Unit → Prop}
    [∀ u a, Decidable (ok u a)] {as : List (Action Unit)}
    (hrun : (single S c s).run ok w as = some w') : R.Coherent w' :=
  System.run_history (I := fun _ u => R.Coherent u) hrun hw fun _ _ _ _ hu _ hstep =>
    hu.step T hstep

/-- A stretch in which everything flows: how it ends, on a record of its own. -/
theorem flowed_run (T : R.Total) (hstamp : ∀ v, v ≤ R.stamp v) (hw : R.Coherent w)
    (hempty : (w.instances ()).inFlight = []) {as : List (Action Unit)}
    (hrun : (single S c w.store).run (Flowing S now) w as = some w') :
    ∃ v, w' = v.after w.log ∧ R.Flowed now w.store v ∧
      ∀ id, R.entry w.store id ≠ .dispatched → R.Paid id 0 v := by
  have hok (u : Solo σ) (a : Action Unit) : Flowing S now (u.after w.log) a ↔ Flowing S now u a :=
    Flowing.after_iff w.log a
  have hmap := System.run_map (M := single S c w.store) (N := single S c w.store) hok
    (fun u a => World.step_after (Shared.ofStore S) (fun _ => c) w.log u a) { w with log := [] } as
  have hpast : World.after w.log { w with log := [] } = w := by
    simp [World.after]
  rw [hpast, hrun] at hmap
  obtain ⟨v, hv, hlast⟩ := Option.map_eq_some_iff.mp hmap.symm
  refine ⟨v, hlast.symm, ?_⟩
  refine System.run_history (I := fun _ u => R.Flowed now w.store u ∧
    ∀ id, R.entry w.store id ≠ .dispatched → R.Paid id 0 u) hv ⟨Flowed.start hw hempty, ?_⟩ ?_
  · intro id hid
    refine ⟨fun hset => ?_, fun _ => Nat.le_refl _, Nat.zero_le _⟩
    rw [Settled, hempty] at hset
    exact hset.elim (absurd · hid) (by simp [stageOf])
  · intro past u a v hu hflow hstep
    refine ⟨hu.1.step T hstamp hflow hstep, fun id hid => ?_⟩
    have hpaid := (hu.2 id hid).step T hu.1.coherent hstep
    rwa [Flowing.not_fault hflow] at hpaid

theorem Flowed.outcome {id : EventId} (h : R.Flowed now s w) (hpaid : R.Paid id 0 w)
    (hempty : (w.instances ()).inFlight = []) (hsent : 0 < invocations w.log id) :
    invocations w.log id = deliveries w.log id+failures w.log id ∧
      (R.entry w.store id = .dispatched → deliveries w.log id = 1) ∧
      (R.entry w.store id ≠ .dispatched → deliveries w.log id = 0 ∧ 0 < failures w.log id) ∧
      ¬R.Overdue now w.store id := by
  have hcourse := h.course id
  rw [hempty] at hcourse
  have hacc : invocations w.log id = deliveries w.log id+failures w.log id := hcourse.account
  have hsettled : R.Settled w id ↔ R.entry w.store id = .dispatched := by
    simp [Settled, hempty, stageOf]
  have hdone : R.entry w.store id = .dispatched → deliveries w.log id = 1 := fun hd =>
    Nat.le_antisymm hpaid.le (hpaid.settled (hsettled.mpr hd))
  have hopen : R.entry w.store id ≠ .dispatched →
      deliveries w.log id = 0 ∧ 0 < failures w.log id := by
    intro hd
    have hzero := Nat.le_zero.mp (hpaid.unsettled fun hset => hd (hsettled.mp hset))
    exact ⟨hzero, by omega⟩
  refine ⟨hacc, hdone, hopen, fun hover => ?_⟩
  have hlive : R.entry w.store id ≠ .dispatched := by
    obtain ⟨u, f, hlive, -⟩ := hover
    simp [hlive]
  have hnone := (hcourse.fresh hover).resolve_right False.elim
  exact absurd (hopen hlive).2 (by omega)

theorem Flowed.listed_before {cap : Nat} (h : R.Flowed now s w) (hpages : R.Pages cap)
    (hs : R.Valid s) {limit n : UInt64} {due listed : List OutboxEvent} {f : OutboxEvent}
    (hdue : S.fetchDue limit now s = .ok due) (hall : due.length < min limit.toNat cap)
    (hl : S.fetchDue n now w.store = .ok listed) (hf : f ∈ listed) : f ∈ due := by
  obtain ⟨u, hlive, hu, hne⟩ := (fetchDue_ripe h.coherent.valid hl).2 f hf
  obtain ⟨l, hfirst, he⟩ := hpages s limit now hs
  rw [he, Except.ok.injEq] at hdue
  rw [← hdue, List.length_map, List.length_take] at hall
  rw [← hdue, List.take_of_length_le (by omega)]
  have hmem : (u, f) ∈ l := (hfirst.mem_iff u f).mpr ⟨h.aged f.id u f hlive hu, hu, hne⟩
  exact List.mem_map_of_mem hmem

/-- A stretch with rounds enough for all that a fetch lists serves it all; and if the fetch
did not reach its limit, nothing is left. -/
theorem served_run {cap : Nat} (T : R.Total) (hstamp : ∀ v, v ≤ R.stamp v) (hpages : R.Pages cap)
    (hw : R.Coherent w) (hsel : (w.instances ()).phase = .select) {limit : UInt64}
    {due : List OutboxEvent} (hdue : S.fetchDue limit now w.store = .ok due)
    {as : List (Action Unit)} (hrun : (single S c w.store).run (Flowing S now) w as = some w')
    (hend : (w'.instances ()).phase = .select)
    (hserved : due.length ≤
      served c.fetchBatch.saturated.max.toNat (w.instances ()).batchSize.toNat (rounds as)) :
    Served S (fun id => R.entry w'.store id = .dispatched) now due w w' ∧
      (due.length < min limit.toNat cap → ∀ n, S.fetchDue n now w'.store = .ok []) := by
  have hsent : ∀ e ∈ due, invocations w.log e.id < invocations w'.log e.id := by
    intro e he
    obtain ⟨p, hp⟩ := List.getElem?_of_mem he
    obtain ⟨hlen, -⟩ := List.getElem?_eq_some_iff.mp hp
    exact turn_run T hstamp hpages hw hsel hdue hp hrun (by omega)
  obtain ⟨v, rfl, hflowed, hpaid⟩ := flowed_run T hstamp hw (hw.tidy.drained (by simp [hsel])) hrun
  rw [World.after_instances] at hend
  have hempty : (v.instances ()).inFlight = [] := hflowed.coherent.tidy.drained (by simp [hend])
  have hout (e : OutboxEvent) (he : e ∈ due) :
      invocations v.log e.id = deliveries v.log e.id+failures v.log e.id ∧
        (R.entry v.store e.id = .dispatched → deliveries v.log e.id = 1) ∧
        (R.entry v.store e.id ≠ .dispatched → deliveries v.log e.id = 0 ∧ 0 < failures v.log e.id) ∧
        ¬R.Overdue now v.store e.id := by
    obtain ⟨stamp, hlive, -⟩ := (fetchDue_ripe hw.valid hdue).2 e he
    have hlt := hsent e he
    rw [World.invocations_after] at hlt
    exact hflowed.outcome (hpaid e.id (by simp [hlive])) hempty (by omega)
  have hgone : ∀ n listed, S.fetchDue n now v.store = .ok listed →
      ∀ f ∈ listed, ∀ e ∈ due, f.id ≠ e.id := by
    intro n listed hl f hf e he hid
    obtain ⟨u, hlive, hu, -⟩ := (fetchDue_ripe hflowed.coherent.valid hl).2 f hf
    obtain ⟨-, -, -, hnot⟩ := hout e he
    exact hnot ⟨u, f, hid ▸ hlive, hu⟩
  refine ⟨⟨hsent, fun e he => ?_, fun e he hd => ?_, fun e he hd => ?_, hgone⟩, fun hall n => ?_⟩
  · obtain ⟨hacc, -⟩ := hout e he
    rw [World.invocations_after, World.deliveries_after, World.failures_after, hacc]
    omega
  · obtain ⟨-, hdone, -⟩ := hout e he
    rw [World.deliveries_after, hdone hd]
  · obtain ⟨-, -, hopen, -⟩ := hout e he
    obtain ⟨hzero, hpos⟩ := hopen hd
    rw [World.deliveries_after, World.failures_after]
    omega
  · obtain ⟨l, m, -, -, hl⟩ := R.fetchDue_ok v.store n now hflowed.coherent.valid
    rw [World.after_store, hl, Except.ok.injEq, List.eq_nil_iff_forall_not_mem]
    intro f hf
    exact hgone n _ hl f hf f (hflowed.listed_before hpages hw.valid hdue hall hl hf) rfl

end Refinement

theorem Served.congr {σ : Type} {S : OutboxStore σ} {p q : EventId → Prop} {now : UInt64}
    {due : List OutboxEvent} {w w' : Solo σ} (h : Served S p now due w w')
    (hpq : ∀ id, q id ↔ p id) :
    Served S q now due w w' :=
  ⟨h.sent, h.answered, fun e he hd => h.delivered e he ((hpq e.id).mp hd),
    fun e he hd => h.failed e he fun hp => hd ((hpq e.id).mpr hp), h.gone⟩

/-- A backlog drains. Over the in-process store and over SQLite, from every state one
dispatcher reaches with its loop in the select, and through every run to another such state
in which the process stays up, the breaker lets calls through, marks go through, and clocks
and new stamps are past `now`: once the rounds make up batches enough for all that a fetch
at `now` lists, each of these events was sent, and is either dispatched after one delivery
or failed and scheduled past `now`. If that fetch was below its limit, every fetch at `now`
is empty. -/
theorem backlog_drains (U : UuidCrate) (c : DispatcherConfig) (limit now : UInt64)
    (due : List OutboxEvent) (as : List (Action Unit)) :
    (∀ w w', (single Memory.store c Memory.new).Reachable (fun _ _ => True) w →
      (w.instances ()).phase = .select → Memory.fetchDue limit now w.store = .ok due →
      (single Memory.store c w.store).run (Flowing Memory.store now) w as = some w' →
      (w'.instances ()).phase = .select → due.length ≤
        served c.fetchBatch.saturated.max.toNat (w.instances ()).batchSize.toNat (rounds as) →
      Served Memory.store (fun id => id ∈ w'.store.dispatched) now due w w' ∧
        (due.length < limit.toNat → ∀ n, Memory.fetchDue n now w'.store = .ok [])) ∧
    (∀ w w', (single (Sqlite.store U) c Sqlite.empty).Reachable (fun _ _ => True) w →
      (w.instances ()).phase = .select → Sqlite.fetchDue U limit now w.store = .ok due →
      (single (Sqlite.store U) c w.store).run (Flowing (Sqlite.store U) now) w as = some w' →
      (w'.instances ()).phase = .select → due.length ≤
        served c.fetchBatch.saturated.max.toNat (w.instances ()).batchSize.toNat (rounds as) →
      Served (Sqlite.store U)
          (fun id => ∃ row, w'.store.outboxEvents[id.text]? = some row ∧ row.dispatchedAt.isSome)
          now due w w' ∧
        (due.length < min limit.toNat (2^63-1) →
          ∀ n, Sqlite.fetchDue U n now w'.store = .ok [])) := by
  constructor
  · intro w w' hw hsel hdue hrun hend hserved
    have hc := Refinement.Coherent.reachable Memory.refinement_total Memory.valid_new hw
    obtain ⟨hall, hempty⟩ := Refinement.served_run Memory.refinement_total
      (fun v => UInt64.le_refl v) Memory.pages hc hsel hdue hrun hend hserved
    have hv : Memory.Valid w'.store := (hc.run Memory.refinement_total hrun).valid
    refine ⟨hall.congr fun id => (Memory.entry_dispatched_iff hv).symm, fun hlt n => hempty ?_ n⟩
    have hmax := limit.toNat_lt
    omega
  · intro w w' hw hsel hdue hrun hend hserved
    have hc := Refinement.Coherent.reachable (Sqlite.refinement_total U) Sqlite.valid_empty hw
    obtain ⟨hall, hempty⟩ := Refinement.served_run (Sqlite.refinement_total U) le_stampOf_clampI64
      (Sqlite.pages U) hc hsel hdue hrun hend hserved
    have hv : Sqlite.Valid w'.store := (hc.run (Sqlite.refinement_total U) hrun).valid
    exact ⟨hall.congr fun id => (Sqlite.entry_dispatched_iff U hv).symm, hempty⟩

def runsFirst (result : CallResult) (clock : UInt64) : List (Action Unit) :=
  [.move () (.permit 0), .move () (.invoke 0), .move () (.returned 0 result clock .zero),
    .mark () 0 clock true, .move () (.join 0)]

/-- Two rounds, in both of which the first event fails. -/
def failsThroughout : List (Action Unit) :=
  [.tick () 10 true, .fetched () true]++runsFirst (.failure (.delivery "down")) 20++
    runsFirst .ok 20++[.move () .drained, .move () .gauge, .tick () 30 true, .fetched () true]++
    runsFirst .ok 40++runsFirst (.failure (.delivery "down")) 40++
      [.move () .drained, .move () .gauge]

theorem backlog_drains_failsThroughout :
    ∃ w w', (single Memory.store (.sample 3) Memory.new).Reachable (fun _ _ => True) w ∧
      (single Memory.store (.sample 3) w.store).run (Flowing Memory.store 5) w failsThroughout =
        some w' ∧
      failures w'.log (.ofByte 1) = 2 ∧ deliveries w'.log (.ofByte 3) = 1 ∧
      Served Memory.store (fun id => id ∈ w'.store.dispatched) 5
        [.sample 1 5, .sample 2 5, .sample 3 5] w w' ∧
      Memory.fetchDue 8 5 w'.store = .ok [] := by
  have hrun : ((single Memory.store (.sample 3) Memory.new).run (fun _ _ => True)
      (World.start Unit _ Memory.new) threeDue).any (fun w =>
        (w.instances ()).phase.isSelect = true ∧
          (w.instances ()).batchSize = 2 ∧ (Memory.fetchDue 8 5 w.store).toOption =
            some [.sample 1 5, .sample 2 5, .sample 3 5] ∧
          ((single Memory.store (.sample 3) w.store).run (Flowing Memory.store 5) w
            failsThroughout).any (fun w' => (w'.instances ()).phase.isSelect = true ∧
              failures w'.log (.ofByte 1) = 2 ∧ deliveries w'.log (.ofByte 3) = 1) = true)
      = true := by
    decide +kernel
  obtain ⟨w, hw, hphase, hsize, hdue, hrun'⟩ := System.exists_reach hrun
  obtain ⟨w', hw', htest⟩ := (Option.any_eq_true _ _).mp hrun'
  obtain ⟨hend, hfailed, hone⟩ := of_decide_eq_true htest
  have hfetch : Memory.fetchDue 8 5 w.store = .ok [.sample 1 5, .sample 2 5, .sample 3 5] := by
    rw [Memory.fetchDue] at hdue ⊢
    exact congrArg Except.ok (Option.some.inj hdue)
  obtain ⟨hserved, hempty⟩ :=
    (backlog_drains .hyphenatedOnly (.sample 3) 8 5 _ failsThroughout).1 w w'
    hw (Phase.eq_select hphase) hfetch hw' (Phase.eq_select hend) (by rw [hsize]; decide)
  exact ⟨w, w', hw, hw', hfailed, hone, hserved, hempty (by decide) 8⟩

end OutboxKit
