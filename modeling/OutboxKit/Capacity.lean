import OutboxKit.Poll
import OutboxKit.MemorySpec
import OutboxKit.SqliteSpec
import OutboxKit.PostgresShared
import OutboxKit.Lib.Cells

/-! How much an instance does at once. A fetch hands over no more than the batch size, a
task sends only while it holds one of the permits, and the batch is drained before the
loop polls again; so sends and tasks stay below the configured bounds in every state,
whatever the other instances do. -/
namespace OutboxKit
open Machine Trace

def Task.isSending (task : Task) : Bool :=
  match task.stage with
  | .sending => true
  | .queued | .permitted | .marking _ | .paused | .finished => false

theorem Task.holdsPermit_of_isSending {task : Task} (h : task.isSending = true) :
    task.holdsPermit = true := by
  unfold isSending at h
  unfold holdsPermit
  cases hs : task.stage with
  | sending => rfl
  | queued | permitted | marking mark | paused | finished => simp [hs] at h

/-- A fetch hands over no more events than it was asked for. -/
structure Batched {σ γ : Type} (P : Shared σ γ) where
  size : γ → Nat
  open_le : ∀ limit now s, size (P.openFetch limit now s).1 ≤ limit.toNat
  close_le : ∀ claim s due, (P.closeFetch claim s).1 = .ok due → due.length ≤ size claim

section Instances
variable {γ : Type} {size : γ → Nat} {c : DispatcherConfig} {inst inst' : Instance γ}
  {n : Nat} {task : Task} {stage : Stage}

def Instance.sends (inst : Instance γ) : Nat := inst.inFlight.countP Task.isSending

theorem Instance.sends_le_permits (inst : Instance γ) : inst.sends ≤ inst.permits :=
  List.countP_mono_left fun _ _ => Task.holdsPermit_of_isSending

theorem Instance.countP_setStage (p : Task → Bool) (h : inst.inFlight[n]? = some task)
    (stage : Stage) : (inst.setStage n task stage).inFlight.countP p+(if p task then 1 else 0) =
      inst.inFlight.countP p+if p { task with stage := stage } then 1 else 0 := by
  obtain ⟨hn, rfl⟩ := List.getElem?_eq_some_iff.mp h
  rw [setStage, List.countP_set hn]
  cases hp : p inst.inFlight[n] with
  | false => simp
  | true =>
    have hpos : 0 < inst.inFlight.countP p :=
      List.countP_pos_iff.mpr ⟨_, List.getElem_mem hn, hp⟩
    simp only [if_true]
    omega

theorem Instance.permits_setStage (h : inst.inFlight[n]? = some task) (stage : Stage) :
    (inst.setStage n task stage).permits+(if task.holdsPermit then 1 else 0) =
      inst.permits+if ({ task with stage := stage } : Task).holdsPermit then 1 else 0 :=
  countP_setStage Task.holdsPermit h stage

/-- The loop's bounds: permits, the batch size and what is fetched or in flight under it,
and an empty batch outside the drain. -/
structure Instance.Bounded (size : γ → Nat) (c : DispatcherConfig) (inst : Instance γ) : Prop where
  permits : inst.permits ≤ max c.concurrency.toNat 1
  batch : inst.batchSize.toNat ≤ c.fetchBatch.saturated.max.toNat
  claim : ∀ claim, inst.phase = .fetching claim → size claim ≤ c.fetchBatch.saturated.max.toNat
  inFlight : inst.inFlight.length ≤ c.fetchBatch.saturated.max.toNat
  drained : inst.phase ≠ .draining → inst.inFlight = []

namespace Instance.Bounded

theorem off : Bounded size c (Instance.off : Instance γ) where
  permits := Nat.zero_le _
  batch := Nat.zero_le _
  claim claim h := by cases h
  inFlight := Nat.zero_le _
  drained _ := rfl

theorem of_empty (hempty : inst.inFlight = [])
    (hbatch : inst.batchSize.toNat ≤ c.fetchBatch.saturated.max.toNat)
    (hphase : ∀ claim, inst.phase ≠ .fetching claim) : Bounded size c inst where
  permits := by simp [Instance.permits, hempty]
  batch := hbatch
  claim claim h := absurd h (hphase claim)
  inFlight := by simp [hempty]
  drained _ := hempty

theorem draining (h : inst.Bounded size c) (ht : inst.inFlight[n]? = some task) :
    inst.phase = .draining := by
  by_contra hp
  rw [h.drained hp] at ht
  cases ht

theorem setStage (h : inst.Bounded size c) (ht : inst.inFlight[n]? = some task)
    (hpermits : (inst.setStage n task stage).permits ≤ max c.concurrency.toNat 1) :
    (inst.setStage n task stage).Bounded size c where
  permits := hpermits
  batch := h.batch
  claim := h.claim
  inFlight := by
    rw [Instance.setStage, List.length_set]
    exact h.inFlight
  drained hp := absurd (h.draining ht) hp

theorem advance (h : inst.Bounded size c) (ht : inst.inFlight[n]? = some task)
    (hs : ({ task with stage := stage } : Task).holdsPermit = true → task.holdsPermit = true) :
    (inst.setStage n task stage).Bounded size c := by
  refine h.setStage ht ?_
  have hcount := Instance.permits_setStage ht stage
  have hold := h.permits
  by_cases hp : ({ task with stage := stage } : Task).holdsPermit = true
  · rw [if_pos hp, if_pos (hs hp)] at hcount
    omega
  · rw [if_neg hp] at hcount
    omega

theorem move {m : Move} {obs : List Obs} (h : inst.Bounded size c)
    (hm : Moves c inst m inst' obs) : inst'.Bounded size c := by
  cases hm with
  | start hp =>
    exact of_empty rfl c.fetchBatch.saturated_bounds.2 (by simp [started])
  | shutdown hp => exact ⟨h.permits, h.batch, h.claim, h.inFlight, h.drained⟩
  | leave hp hs => exact of_empty (h.drained (by simp [hp])) h.batch (by simp)
  | stop hp hf => exact of_empty hf h.batch (by simp)
  | drained hp hf => exact of_empty hf h.batch (by simp)
  | gauge hp => exact of_empty (h.drained (by simp [hp])) h.batch (by simp)
  | permit n task ht hs hc =>
    refine h.setStage ht ?_
    have hcount := Instance.permits_setStage ht .permitted
    simp only [Task.holdsPermit, hs] at hcount
    simp only [if_true, Bool.false_eq_true, if_false] at hcount
    omega
  | invoke n task ht hs => exact h.advance ht fun _ => by simp [Task.holdsPermit, hs]
  | pause n task result now delay ht hs hr => exact h.advance ht fun hp => by cases hp
  | answer n task result now delay mark ht hs hj hr =>
    exact h.advance ht fun _ => by simp [Task.holdsPermit, hs]
  | join n task ht hs =>
    have hsub := List.eraseIdx_sublist inst.inFlight n
    exact ⟨hsub.countP_le.trans h.permits, h.batch, h.claim, hsub.length_le.trans h.inFlight,
      fun hp => absurd (h.draining ht) hp⟩

theorem nextSize_le (c : DispatcherConfig) (current fetched : UInt64) :
    (c.fetchBatch.saturated.nextSize current fetched).toNat ≤
      c.fetchBatch.saturated.max.toNat := by
  have hb := c.fetchBatch.saturated_bounds
  unfold FetchBatch.nextSize
  split
  · rw [FetchBatch.toNat_max, FetchBatch.toNat_min]
    omega
  · exact hb.2

theorem spawn {claim : γ} {due : List OutboxEvent} (h : inst.Bounded size c)
    (hp : inst.phase = .fetching claim) (hdue : due.length ≤ size claim) :
    (inst.spawn c due).Bounded size c := by
  have hempty := h.drained (by simp [hp])
  have hclaim := h.claim claim hp
  refine ⟨?_, nextSize_le c _ _, fun claim' hc => ?_, ?_, fun hne => absurd rfl hne⟩
  · have hnone : (inst.spawn c due).permits = 0 := by
      simp [Instance.permits, Instance.spawn, hempty, List.countP_map, Function.comp_def,
        Task.holdsPermit]
    omega
  · cases hc
  · simp only [Instance.spawn, hempty, List.nil_append, List.length_map]
    omega

end Instance.Bounded
end Instances

section Run
variable {ι σ γ : Type} [DecidableEq ι] {P : Shared σ γ} {config : ι → DispatcherConfig}
  {w w' : World ι σ γ}

theorem World.sum_put [Fintype ι] (f : Instance γ → Nat) (w : World ι σ γ) (i : ι)
    (inst : Instance γ) (s : σ) (obs : List Obs) :
    ∑ j, f ((w.put i inst s obs).instances j)+f (w.instances i) =
      ∑ j, f (w.instances j)+f inst := by
  rw [← Cells.sum_update_add (fun j => f (w.instances j)) i (f inst)]
  refine congrArg (·+_) (Finset.sum_congr rfl fun j _ => ?_)
  exact Function.apply_update (fun _ => f) w.instances i inst j

/-- One step of any instance, or of a producer, keeps every instance's bounds. -/
theorem Batched.bounded_step (B : Batched P) {a : Action ι}
    (h : ∀ i, (w.instances i).Bounded B.size (config i)) (hstep : w.step P config a = some w') :
    ∀ i, (w'.instances i).Bounded B.size (config i) := by
  -- the bounds differ from instance to instance, so the changed one is set apart
  have put : ∀ {i : ι} {inst : Instance γ} {s : σ} {obs : List Obs},
      inst.Bounded B.size (config i) →
      ∀ j, ((w.put i inst s obs).instances j).Bounded B.size (config j) := by
    intro i inst s obs hinst j
    by_cases hj : j = i
    · subst hj
      rwa [World.put_self]
    · rw [World.put_of_ne hj]
      exact h j
  cases World.steps_of_step hstep with
  | appended e s happ => exact h
  | refused e s err happ => exact h
  | appendLost e => exact h
  | moved i m inst obs hm => exact put ((h i).move hm)
  | idled i now reached hp =>
    exact put ⟨(h i).permits, (h i).batch, (h i).claim, (h i).inFlight, (h i).drained⟩
  | opened i now claim s hp hopen =>
    have hempty := (h i).drained (by simp [hp])
    have hsize := B.open_le (w.instances i).batchSize now w.store
    rw [hopen] at hsize
    refine put ⟨(h i).permits, (h i).batch, fun claim' hc => ?_, (h i).inFlight, fun _ => hempty⟩
    cases hc
    exact hsize.trans (h i).batch
  | spawned i claim due s hp hclose =>
    exact put ((h i).spawn hp (B.close_le claim w.store due (by rw [hclose])))
  | fetchFailed i claim err s hp hclose =>
    exact put (.of_empty ((h i).drained (by simp [hp])) (h i).batch (by simp))
  | fetchLost i claim hp =>
    exact put (.of_empty ((h i).drained (by simp [hp])) (h i).batch (by simp))
  | issued i n clock e mark ht hfree => exact put ((h i).advance ht fun hp => by cases hp)
  | markLost i n clock e mark ht => exact put ((h i).advance ht fun hp => by cases hp)
  | crashed i => exact put .off

theorem Batched.bounded_reachable (B : Batched P) {start : σ}
    (h : (dispatching P config start).Reachable (fun _ _ => True) w) :
    ∀ i, (w.instances i).Bounded B.size (config i) := by
  refine h.invariant (I := fun w => ∀ i, (w.instances i).Bounded B.size (config i))
    (fun _ => .off) ?_
  intro s a t hs _ hstep
  exact B.bounded_step hs hstep

end Run

def fetchedSize : Except StoreError (List OutboxEvent) → Nat
  | .ok due => due.length
  | .error _ => 0

theorem length_of_mapM_ok {α β ε : Type} {f : α → Except ε β} {l : List α} {ys : List β}
    (h : l.mapM f = .ok ys) : ys.length = l.length := by
  induction l generalizing ys with
  | nil =>
    cases h
    rfl
  | cons x l ih =>
    rw [List.mapM_cons] at h
    cases hx : f x with
    | error err => rw [hx] at h; cases h
    | ok z =>
      cases hl : l.mapM f with
      | error err => rw [hx, hl] at h; cases h
      | ok zs =>
        rw [hx, hl] at h
        cases h
        rw [List.length_cons, List.length_cons, ih hl]

theorem limitRows_le (limit : UInt64) : limitRows limit ≤ limit.toNat := by
  unfold limitRows tryI64 i64Max
  split
  · simp
  · rw [Option.getD_none]
    omega

def Batched.ofStore {σ : Type} (S : OutboxStore σ)
    (h : ∀ limit now s due, S.fetchDue limit now s = .ok due → due.length ≤ limit.toNat) :
    Batched (Shared.ofStore S) where
  size := fetchedSize
  open_le limit now s := by
    change fetchedSize (S.fetchDue limit now s) ≤ limit.toNat
    cases hf : S.fetchDue limit now s with
    | ok due => exact h limit now s due hf
    | error err => exact Nat.zero_le _
  close_le claim _ due hc := by
    change claim = .ok due at hc
    rw [hc]
    exact Nat.le_refl _

theorem Memory.fetchDue_length {limit now : UInt64} {s : Inner} {due : List OutboxEvent}
    (h : fetchDue limit now s = .ok due) : due.length ≤ limit.toNat := by
  cases h
  exact (List.length_filterMap_le _ _).trans (List.length_take_le _ _)

theorem Sqlite.fetchDue_length {U : UuidCrate} {limit now : UInt64} {t : Tables}
    {due : List OutboxEvent} (h : fetchDue U limit now t = .ok due) :
    due.length ≤ limit.toNat := by
  rw [length_of_mapM_ok h]
  exact (List.length_take_le _ _).trans (limitRows_le limit)

def Postgres.batched (U : UuidCrate) : Batched (shared U) where
  size := List.length
  open_le limit _ _ := (List.length_take_le _ _).trans (limitRows_le limit)
  close_le _ _ _ h := le_of_eq (length_of_mapM_ok h)

/-- No more sends open than `concurrency` allows (at least one), no more tasks than the
batch ceiling, and none outside the drain. -/
def WithinCapacity {ι σ γ : Type} (config : ι → DispatcherConfig) (w : World ι σ γ) : Prop :=
  ∀ i, (w.instances i).sends ≤ max (config i).concurrency.toNat 1 ∧
    (w.instances i).inFlight.length ≤ (config i).fetchBatch.saturated.max.toNat ∧
    ((w.instances i).phase ≠ .draining → (w.instances i).inFlight = [])

theorem Batched.withinCapacity {ι σ γ : Type} [DecidableEq ι] {P : Shared σ γ} (B : Batched P)
    {config : ι → DispatcherConfig} {start : σ} {w : World ι σ γ}
    (h : (dispatching P config start).Reachable (fun _ _ => True) w) : WithinCapacity config w :=
  fun i =>
    have hb := B.bounded_reachable h i
    ⟨(Instance.sends_le_permits _).trans hb.permits, hb.inFlight, hb.drained⟩

/-- Bounded concurrency. Over each of the three stores, with any number of dispatchers of
any configuration, failing calls, crashes and shutdowns anywhere, every instance is
within its capacity in every state reached, from any state of the store. -/
theorem dispatch_within_capacity (U : UuidCrate) {ι : Type} [DecidableEq ι]
    (config : ι → DispatcherConfig) :
    (∀ s w, (dispatching (Shared.ofStore Memory.store) config s).Reachable (fun _ _ => True) w →
      WithinCapacity config w) ∧
    (∀ t w, (dispatching (Shared.ofStore (Sqlite.store U)) config t).Reachable (fun _ _ => True) w →
      WithinCapacity config w) ∧
    (∀ db w, (dispatching (Postgres.shared U) config db).Reachable (fun _ _ => True) w →
      WithinCapacity config w) := by
  refine ⟨fun s w hw => ?_, fun t w hw => ?_, fun db w hw => ?_⟩
  · exact (Batched.ofStore Memory.store fun _ _ _ _ h => Memory.fetchDue_length h).withinCapacity hw
  · exact (Batched.ofStore (Sqlite.store U) fun _ _ _ _ h =>
      Sqlite.fetchDue_length h).withinCapacity hw
  · exact (Postgres.batched U).withinCapacity hw

theorem dispatch_within_capacity_midBatch :
    ∃ w, (dispatching (Shared.ofStore Memory.store) (fun _ : Unit => .sample 3)
        Memory.new).Reachable (fun _ _ => True) w ∧ (w.instances ()).inFlight.length = 2 ∧
      WithinCapacity (fun _ : Unit => .sample 3) w := by
  have hrun : ((dispatching (Shared.ofStore Memory.store) (fun _ : Unit => .sample 3)
      Memory.new).run (fun _ _ => True) (World.start Unit _ Memory.new)
      [.append (.sample 1 5) true, .append (.sample 2 5) true, .move () .start,
        .tick () 10 true, .fetched () true, .move () (.permit 0), .move () (.invoke 0),
        .move () (.permit 1), .move () (.invoke 1)]).any (fun w =>
        (w.instances ()).inFlight.length = 2) = true := by
    decide +kernel
  obtain ⟨w, hw, hlen⟩ := System.exists_reach hrun
  exact ⟨w, hw, hlen, (dispatch_within_capacity .hyphenatedOnly fun _ : Unit => .sample 3).1 _ w hw⟩

end OutboxKit
