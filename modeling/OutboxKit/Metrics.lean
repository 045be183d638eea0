import OutboxKit.Capacity
import OutboxKit.Lib.History

/-! What a dispatching process reports of itself. Each result of the breaker is counted
once, each call that ran is timed once, and the backlog is sampled after a batch has
drained. The series live in the process, so a crash takes them along; a process whose
registration failed reports nothing. -/
namespace OutboxKit
open Machine Trace

/-- A dispatch outcome, mapped onto the `outbox_dispatch_total{result}` counter. -/
inductive DispatchResult where
  | success
  | failure
  | breakerPaused

/-- What has gone into the registered series; of the durations, how many. -/
structure DispatchMetrics where
  success : Nat
  failure : Nat
  breakerPaused : Nat
  pending : UInt32
  duration : Nat
deriving DecidableEq

def DispatchMetrics.registered : DispatchMetrics := ⟨0, 0, 0, 0, 0⟩

def dispatchResult (result : DispatchResult) (metrics : Option DispatchMetrics) :
    Option DispatchMetrics :=
  metrics.map fun m =>
    match result with
    | .success => { m with success := m.success+1 }
    | .failure => { m with failure := m.failure+1 }
    | .breakerPaused => { m with breakerPaused := m.breakerPaused+1 }

def observeDuration (metrics : Option DispatchMetrics) : Option DispatchMetrics :=
  metrics.map fun m => { m with duration := m.duration+1 }

/-- The gauge holds what a `u32` can. -/
def setPending (count : UInt64) (metrics : Option DispatchMetrics) : Option DispatchMetrics :=
  metrics.map fun m => { m with pending := (tryU32OfNat count.toNat).getD u32Max }

/-- What `process` reports of the breaker's result. A pause is not timed: nothing ran. -/
def CallResult.report (metrics : Option DispatchMetrics) : CallResult → Option DispatchMetrics
  | .ok => observeDuration (dispatchResult .success metrics)
  | .circuitOpen | .rejected => dispatchResult .breakerPaused metrics
  | .failure _ | .other _ => observeDuration (dispatchResult .failure metrics)

/-- The dispatchers, and each process's own series. -/
structure Metered (ι σ γ : Type) where
  world : World ι σ γ
  metrics : ι → Option DispatchMetrics

section Step
variable {ι σ γ : Type} [DecidableEq ι]

def Metered.gauge (pendingCount : σ → Except StoreError UInt64) (m : Metered ι σ γ)
    (reached : Bool) (i : ι) : Option DispatchMetrics :=
  match reached, pendingCount m.world.store with
  | true, .ok pending => setPending pending (m.metrics i)
  | _, _ => m.metrics i

/-- The series after a step. `reached` says whether registration succeeds in a process
that starts, and whether the backlog is read when it is sampled. -/
def Metered.report (pendingCount : σ → Except StoreError UInt64) (m : Metered ι σ γ)
    (reached : Bool) : Action ι → ι → Option DispatchMetrics
  | .move i .start => Function.update m.metrics i (if reached then some .registered else none)
  | .move i (.returned _ result _ _) =>
    Function.update m.metrics i (result.report (m.metrics i))
  | .move i .gauge => Function.update m.metrics i (m.gauge pendingCount reached i)
  | .crash i => Function.update m.metrics i none
  | .append .. | .move .. | .tick .. | .fetched .. | .mark .. => m.metrics

variable (P : Shared σ γ) (pendingCount : σ → Except StoreError UInt64)
  (config : ι → DispatcherConfig)

def Metered.step (m : Metered ι σ γ) (a : Action ι × Bool) : Option (Metered ι σ γ) :=
  (m.world.step P config a.1).map fun w => ⟨w, m.report pendingCount a.2 a.1⟩

def metered (s : σ) : System (Metered ι σ γ) (Action ι × Bool) :=
  ⟨⟨World.start ι γ s, fun _ => none⟩, Metered.step P pendingCount config⟩

end Step

def Task.isOpen (task : Task) : Bool :=
  match task.stage with
  | .queued | .permitted | .sending => true
  | .marking _ | .paused | .finished => false

def Instance.openCalls {γ : Type} (inst : Instance γ) : Nat := inst.inFlight.countP Task.isOpen

def Shared.handing {ι σ γ : Type} (P : Shared σ γ) (w : World ι σ γ) (i : ι) : Nat :=
  match (w.instances i).phase with
  | .fetching claim =>
    match (P.closeFetch claim w.store).1 with
    | .ok due => due.length
    | .error _ => 0
  | .down | .select | .draining | .gauge | .stopping | .stopped => 0

/-- The events that `fetch_due` handed to a process since it started. -/
def handed {ι σ γ : Type} [DecidableEq ι] (P : Shared σ γ) (i : ι) (m : Metered ι σ γ)
    (a : Action ι × Bool) (n : Nat) : Nat :=
  match a.1 with
  | .fetched j true => if j = i then n+P.handing m.world i else n
  | .move j .start | .crash j => if j = i then 0 else n
  | .append .. | .move .. | .tick .. | .fetched .. | .mark .. => n

section Instances
variable {γ : Type} {inst inst' : Instance γ} {n : Nat} {task : Task} {stage : Stage}

theorem Instance.openCalls_same (h : inst.inFlight[n]? = some task)
    (hsame : ({ task with stage := stage } : Task).isOpen = task.isOpen) :
    (inst.setStage n task stage).openCalls = inst.openCalls := by
  have hcount := Instance.countP_setStage Task.isOpen h stage
  rw [hsame] at hcount
  exact Nat.add_right_cancel hcount

theorem Instance.openCalls_returned (h : inst.inFlight[n]? = some task) (hold : task.isOpen = true)
    (hnew : ({ task with stage := stage } : Task).isOpen = false) :
    (inst.setStage n task stage).openCalls+1 = inst.openCalls := by
  have hcount := Instance.countP_setStage Task.isOpen h stage
  rw [hold, hnew] at hcount
  simpa [openCalls] using hcount

theorem Instance.openCalls_join (h : inst.inFlight[n]? = some task) (hold : task.isOpen = false) :
    ({ inst with inFlight := inst.inFlight.eraseIdx n } : Instance γ).openCalls =
      inst.openCalls := by
  obtain ⟨hn, rfl⟩ := List.getElem?_eq_some_iff.mp h
  have hcount := (List.getElem_cons_eraseIdx_perm hn).countP_eq Task.isOpen
  rw [List.countP_cons, hold] at hcount
  simpa [openCalls] using hcount

theorem Instance.openCalls_spawn (c : DispatcherConfig) (inst : Instance γ)
    (due : List OutboxEvent) :
    (inst.spawn c due).openCalls = inst.openCalls+due.length := by
  have hnew : (due.map fun e => (⟨e, .queued⟩ : Task)).countP Task.isOpen = due.length := by
    rw [List.countP_map]
    exact List.countP_eq_length.mpr fun _ _ => rfl
  rw [openCalls, spawn, List.countP_append, hnew]
  rfl

end Instances

def Action.actor {ι : Type} : Action ι → Option ι
  | .append .. => none
  | .move i _ | .tick i .. | .fetched i _ | .mark i .. | .crash i => some i

/-- One process's series against its own history: each event handed to it is counted under
one result or its call is open, and what was timed is what ran. -/
structure CallsCounted {γ : Type} (inst : Instance γ) (metrics : Option DispatchMetrics) (n : Nat) :
    Prop where
  down : inst.phase = .down → metrics = none
  timed : ∀ m, metrics = some m → m.duration = m.success+m.failure
  counted : ∀ m, metrics = some m → m.success+m.failure+m.breakerPaused+inst.openCalls = n

theorem CallResult.report_pause {p : BackoffPolicy} {e : OutboxEvent} {now : UInt64}
    {delay : Duration} {result : CallResult} (h : result.mark p e now delay = none)
    (metrics : Option DispatchMetrics) :
    result.report metrics = dispatchResult .breakerPaused metrics := by
  cases result with
  | circuitOpen | rejected => rfl
  | ok | failure err | other message => cases h

namespace CallsCounted
variable {γ : Type} {inst inst' : Instance γ} {metrics : Option DispatchMetrics} {n : Nat}

theorem silent (inst : Instance γ) (n : Nat) : CallsCounted inst none n where
  down _ := rfl
  timed _ h := by cases h
  counted _ h := by cases h

theorem same (h : CallsCounted inst metrics n) (hdown : inst'.phase = .down → inst.phase = .down)
    (hopen : inst'.openCalls = inst.openCalls) : CallsCounted inst' metrics n where
  down hp := h.down (hdown hp)
  timed := h.timed
  counted m hm := by
    rw [hopen]
    exact h.counted m hm

theorem paused (h : CallsCounted inst metrics n) (hdown : inst'.phase = .down → inst.phase = .down)
    (hopen : inst'.openCalls+1 = inst.openCalls) :
    CallsCounted inst' (dispatchResult .breakerPaused metrics) n where
  down hp := by
    rw [h.down (hdown hp)]
    rfl
  timed m hm := by
    obtain ⟨old, hold, rfl⟩ := Option.map_eq_some_iff.mp hm
    exact h.timed old hold
  counted m hm := by
    obtain ⟨old, hold, rfl⟩ := Option.map_eq_some_iff.mp hm
    have hcount := h.counted old hold
    simp only
    omega

theorem answered (h : CallsCounted inst metrics n)
    (hdown : inst'.phase = .down → inst.phase = .down)
    (hopen : inst'.openCalls+1 = inst.openCalls) {p : BackoffPolicy} {e : OutboxEvent}
    {now : UInt64} {delay : Duration} {result : CallResult} {mark : Mark}
    (hr : result.mark p e now delay = some mark) :
    CallsCounted inst' (result.report metrics) n := by
  have ran : ∀ outcome, outcome ≠ .breakerPaused →
      CallsCounted inst' (observeDuration (dispatchResult outcome metrics)) n := by
    intro outcome hout
    refine ⟨fun hp => by rw [h.down (hdown hp)]; rfl, fun m hm => ?_, fun m hm => ?_⟩
    all_goals
      obtain ⟨mid, hmid, rfl⟩ := Option.map_eq_some_iff.mp hm
      obtain ⟨old, hold, rfl⟩ := Option.map_eq_some_iff.mp hmid
      have htimed := h.timed old hold
      have hcount := h.counted old hold
      cases outcome with
      | success | failure =>
        simp only
        omega
      | breakerPaused => exact absurd rfl hout
  cases result with
  | ok => exact ran .success (by simp)
  | circuitOpen | rejected => cases hr
  | failure err | other message => exact ran .failure (by simp)

theorem sampled (h : CallsCounted inst metrics n) (count : UInt64) :
    CallsCounted inst (setPending count metrics) n where
  down hp := by
    rw [h.down hp]
    rfl
  timed m hm := by
    obtain ⟨old, hold, rfl⟩ := Option.map_eq_some_iff.mp hm
    exact h.timed old hold
  counted m hm := by
    obtain ⟨old, hold, rfl⟩ := Option.map_eq_some_iff.mp hm
    exact h.counted old hold

theorem gauge {ι σ : Type} {m : Metered ι σ γ} {i : ι}
    (h : CallsCounted (m.world.instances i) (m.metrics i) n)
    (pendingCount : σ → Except StoreError UInt64) (reached : Bool) :
    CallsCounted (m.world.instances i) (m.gauge pendingCount reached i) n := by
  unfold Metered.gauge
  split
  · exact h.sampled _
  · exact h

end CallsCounted

section Run
variable {ι σ γ : Type} [DecidableEq ι] {P : Shared σ γ}
  {pendingCount : σ → Except StoreError UInt64} {config : ι → DispatcherConfig}
  {m m' : Metered ι σ γ} {a : Action ι × Bool} {i : ι} {n : Nat}

theorem World.Steps.other {w w' : World ι σ γ} {a : Action ι} (h : Steps P config w a w')
    (hi : a.actor ≠ some i) : w'.instances i = w.instances i := by
  have put : ∀ {j : ι} {inst : Instance γ} {s : σ} {obs : List Obs}, some j ≠ some i →
      (w.put j inst s obs).instances i = w.instances i :=
    fun hj => World.put_of_ne (fun he => hj (congrArg some he.symm)) _ _ _
  cases h with
  | appended e s happ | refused e s err happ | appendLost e => rfl
  | moved j m inst obs hm => exact put hi
  | idled j now reached hp => exact put hi
  | opened j now claim s hp hopen => exact put hi
  | spawned j claim due s hp hclose => exact put hi
  | fetchFailed j claim err s hp hclose => exact put hi
  | fetchLost j claim hp => exact put hi
  | issued j k clock e mark ht hfree => exact put hi
  | markLost j k clock e mark ht => exact put hi
  | crashed j => exact put hi

theorem Metered.report_other {a : Action ι} (hi : a.actor ≠ some i) (reached : Bool) :
    m.report pendingCount reached a i = m.metrics i := by
  cases a with
  | append e r | tick j now r | fetched j r | mark j k clock r => rfl
  | crash j => exact Function.update_of_ne (fun he => hi (congrArg some he.symm)) _ _
  | move j mv =>
    have hj : i ≠ j := fun he => hi (congrArg some he.symm)
    cases mv with
    | start | gauge | returned k result now delay => exact Function.update_of_ne hj _ _
    | shutdown | leave | stop | drained | permit k | invoke k | join k => rfl

theorem handed_other (hi : a.1.actor ≠ some i) : handed P i m a n = n := by
  obtain ⟨a, reached⟩ := a
  cases a with
  | append e r | tick j now r | mark j k clock r => rfl
  | crash j => exact if_neg fun he => hi (congrArg some he)
  | fetched j r =>
    cases r with
    | true => exact if_neg fun he => hi (congrArg some he)
    | false => rfl
  | move j mv =>
    cases mv with
    | start => exact if_neg fun he => hi (congrArg some he)
    | shutdown | leave | stop | drained | gauge | permit k | invoke k | returned k r now d
      | join k => rfl

theorem handed_fetched (reached : Bool) :
    handed P i m (.fetched i true, reached) n = n+P.handing m.world i :=
  if_pos rfl

theorem CallsCounted.moved {mv : Move} {inst : Instance γ} {obs : List Obs} (reached : Bool)
    (h : CallsCounted (m.world.instances i) (m.metrics i) n)
    (hm : Instance.Moves (config i) (m.world.instances i) mv inst obs) :
    CallsCounted inst (m.report pendingCount reached (.move i mv) i)
      (handed P i m (.move i mv, reached) n) := by
  have hself : ∀ x, Function.update m.metrics i x i = x := fun _ => Function.update_self ..
  cases hm with
  | start hp =>
    simp only [Metered.report, hself, handed, if_true]
    cases reached with
    | false => exact .silent _ _
    | true =>
      refine ⟨fun hd => (by cases hd), fun m hm => ?_, fun m hm => ?_⟩
      · cases hm
        rfl
      · cases hm
        rfl
  | shutdown hp => exact h.same id rfl
  | leave hp hs => exact h.same (fun hd => by cases hd) rfl
  | stop hp hf => exact h.same (fun hd => by cases hd) rfl
  | drained hp hf => exact h.same (fun hd => by cases hd) rfl
  | gauge hp =>
    simp only [Metered.report, hself]
    exact (h.gauge pendingCount reached).same (fun hd => by cases hd) rfl
  | permit k task ht hs hc =>
    exact h.same id (Instance.openCalls_same ht (by simp [Task.isOpen, hs]))
  | invoke k task ht hs =>
    exact h.same id (Instance.openCalls_same ht (by simp [Task.isOpen, hs]))
  | pause k task result now delay ht hs hr =>
    simp only [Metered.report, hself]
    have hopen : task.isOpen = true := by simp [Task.isOpen, hs]
    have hclosed : (Instance.setStage _ k task .paused).openCalls+1 = Instance.openCalls _ :=
      Instance.openCalls_returned ht hopen rfl
    rw [CallResult.report_pause hr]
    exact h.paused id hclosed
  | answer k task result now delay mark ht hs hj hr =>
    simp only [Metered.report, hself]
    have hopen : task.isOpen = true := by simp [Task.isOpen, hs]
    have hclosed : (Instance.setStage _ k task (.marking mark)).openCalls+1 =
        Instance.openCalls _ :=
      Instance.openCalls_returned ht hopen rfl
    refine h.answered ?_ hclosed hr
    exact id
  | join k task ht hs =>
    refine h.same id (Instance.openCalls_join ht ?_)
    cases hs with
    | inl hs => simp [Task.isOpen, hs]
    | inr hs => simp [Task.isOpen, hs]

/-- One step of any instance keeps every process's account. -/
theorem CallsCounted.step (h : CallsCounted (m.world.instances i) (m.metrics i) n)
    (hstep : m.step P pendingCount config a = some m') :
    CallsCounted (m'.world.instances i) (m'.metrics i) (handed P i m a n) := by
  obtain ⟨w, hw, rfl⟩ := Option.map_eq_some_iff.mp hstep
  obtain ⟨a, reached⟩ := a
  have hsteps : World.Steps P config m.world a w := World.steps_of_step hw
  change CallsCounted (w.instances i) (m.report pendingCount reached a i)
    (handed P i m (a, reached) n)
  by_cases hi : a.actor = some i
  · cases hsteps with
    | appended e s happ | refused e s err happ | appendLost e => cases hi
    | moved j mv inst obs hm =>
      cases hi
      rw [World.put_self]
      exact h.moved reached hm
    | idled j now r hp =>
      cases hi
      rw [World.put_self]
      exact h.same id rfl
    | opened j now claim s hp hopen =>
      cases hi
      rw [World.put_self]
      exact h.same (fun hd => by cases hd) rfl
    | spawned j claim due s hp hclose =>
      cases hi
      have hdue : P.handing m.world i = due.length := by
        simp only [Shared.handing, hp, hclose]
      have hopen := Instance.openCalls_spawn (config i) (m.world.instances i) due
      rw [World.put_self, handed_fetched, hdue]
      refine ⟨fun hd => (by cases hd), h.timed, fun x hx => ?_⟩
      have hcount := h.counted x hx
      omega
    | fetchFailed j claim err s hp hclose =>
      cases hi
      have hdue : P.handing m.world i = 0 := by
        simp only [Shared.handing, hp, hclose]
      rw [World.put_self, handed_fetched, hdue]
      exact h.same (fun hd => by cases hd) rfl
    | fetchLost j claim hp =>
      cases hi
      rw [World.put_self]
      exact h.same (fun hd => by cases hd) rfl
    | issued j k clock e mark ht hfree =>
      cases hi
      rw [World.put_self]
      exact h.same id (Instance.openCalls_same ht rfl)
    | markLost j k clock e mark ht =>
      cases hi
      rw [World.put_self]
      exact h.same id (Instance.openCalls_same ht rfl)
    | crashed j =>
      cases hi
      have hgone : m.report pendingCount reached (.crash i) i = none := Function.update_self ..
      rw [hgone]
      exact .silent _ _
  · rw [hsteps.other hi, Metered.report_other hi, handed_other hi]
    exact h

end Run

def Obs.isDelivered : Obs → Bool
  | .delivered _ => true
  | .appended _ | .invoked _ | .failed _ => false

def Obs.isFailed : Obs → Bool
  | .failed _ => true
  | .appended _ | .invoked _ | .delivered _ => false

/-- A series that goes up with one kind of record, and with nothing else. -/
structure Series (get : DispatchMetrics → Nat) (seen : Obs → Bool) : Prop where
  registered : get .registered = 0
  paused : ∀ metrics, (dispatchResult .breakerPaused metrics).elim 0 get = metrics.elim 0 get
  sampled : ∀ count metrics, (setPending count metrics).elim 0 get = metrics.elim 0 get
  answered : ∀ {p e now delay result mark}, CallResult.mark p e now delay result = some mark →
    ∀ m, (result.report (some m)).elim 0 get = get m+if seen (Obs.ofMark e.id mark) then 1 else 0
  appended : ∀ e, seen (.appended e) = false
  invoked : ∀ id, seen (.invoked id) = false

theorem Series.gauge {ι σ γ : Type} {m : Metered ι σ γ} {get : DispatchMetrics → Nat}
    {seen : Obs → Bool} (S : Series get seen) (pendingCount : σ → Except StoreError UInt64)
    (reached : Bool) (i : ι) :
    (m.gauge pendingCount reached i).elim 0 get = (m.metrics i).elim 0 get := by
  unfold Metered.gauge
  split
  · exact S.sampled _ _
  · rfl

theorem series_success : Series DispatchMetrics.success Obs.isDelivered where
  registered := rfl
  paused metrics := by cases metrics <;> rfl
  sampled count metrics := by cases metrics <;> rfl
  answered h m := by
    rename_i result mark
    cases result <;> cases h <;> rfl
  appended _ := rfl
  invoked _ := rfl

theorem series_failure : Series DispatchMetrics.failure Obs.isFailed where
  registered := rfl
  paused metrics := by cases metrics <;> rfl
  sampled count metrics := by cases metrics <;> rfl
  answered h m := by
    rename_i result mark
    cases result <;> cases h <;> rfl
  appended _ := rfl
  invoked _ := rfl

section Steady
variable {ι σ γ : Type} [DecidableEq ι] {P : Shared σ γ}
  {pendingCount : σ → Except StoreError UInt64} {config : ι → DispatcherConfig}
  {m m' : Metered ι σ γ} {a : Action ι × Bool} {i : ι}

def Steady : Action ι × Bool → Prop
  | (.crash _, _) => False
  | (.move _ .start, reached) => reached = true
  | _ => True

instance (a : Action ι × Bool) : Decidable (Steady a) := by
  unfold Steady
  split
  all_goals infer_instance

/-- A process that runs has its series registered. -/
structure Covers {γ : Type} (inst : Instance γ) (metrics : Option DispatchMetrics) : Prop where
  up : inst.phase ≠ .down → metrics.isSome = true
  down : inst.phase = .down → metrics = none
  idle : inst.phase = .down → inst.inFlight = []

namespace Covers
variable {inst inst' : Instance γ} {metrics metrics' : Option DispatchMetrics} {n : Nat}
  {task : Task}

theorem keep (h : Covers inst metrics) (hold : inst.phase ≠ .down) (hnew : inst'.phase ≠ .down)
    (hm : metrics.isSome = true → metrics'.isSome = true) : Covers inst' metrics' where
  up _ := hm (h.up hold)
  down hp := absurd hp hnew
  idle hp := absurd hp hnew

theorem running (h : Covers inst metrics) (ht : inst.inFlight[n]? = some task) :
    inst.phase ≠ .down := by
  intro hp
  rw [h.idle hp] at ht
  cases ht

theorem moved {mv : Move} {obs : List Obs} (pendingCount : σ → Except StoreError UInt64)
    (reached : Bool) (h : Covers (m.world.instances i) (m.metrics i))
    (hm : Instance.Moves (config i) (m.world.instances i) mv inst obs)
    (hsteady : Steady ((.move i mv, reached) : Action ι × Bool)) :
    Covers inst (m.report pendingCount reached (.move i mv) i) := by
  have hself : ∀ x, Function.update m.metrics i x i = x := fun _ => Function.update_self ..
  cases hm with
  | start hp =>
    simp only [Metered.report, hself]
    rw [show reached = true from hsteady]
    exact ⟨fun _ => rfl, fun hd => (by cases hd), fun hd => (by cases hd)⟩
  | shutdown hp => exact h.keep hp hp id
  | leave hp hs => exact h.keep (by simp [hp]) (by simp) id
  | stop hp hf => exact h.keep (by simp [hp]) (by simp) id
  | drained hp hf => exact h.keep (by simp [hp]) (by simp) id
  | gauge hp =>
    refine h.keep (by simp [hp]) (by simp) fun hsome => ?_
    simp only [Metered.report, hself, Metered.gauge]
    split
    · simpa [setPending] using hsome
    · exact hsome
  | permit k task ht hs hc => exact h.keep (h.running ht) (h.running ht) id
  | invoke k task ht hs => exact h.keep (h.running ht) (h.running ht) id
  | pause k task result now delay ht hs hr =>
    refine h.keep (h.running ht) (h.running ht) fun hsome => ?_
    simpa [Metered.report, CallResult.report_pause hr, dispatchResult] using hsome
  | answer k task result now delay mark ht hs hj hr =>
    refine h.keep (h.running ht) (h.running ht) fun hsome => ?_
    simp only [Metered.report, hself]
    cases result with
    | circuitOpen | rejected => cases hr
    | ok | failure err | other message =>
      simpa [CallResult.report, observeDuration, dispatchResult] using hsome
  | join k task ht hs => exact h.keep (h.running ht) (h.running ht) id

theorem step (h : Covers (m.world.instances i) (m.metrics i)) (hsteady : Steady a)
    (hstep : m.step P pendingCount config a = some m') :
    Covers (m'.world.instances i) (m'.metrics i) := by
  obtain ⟨a, reached⟩ := a
  obtain ⟨w, hw, rfl⟩ := Option.map_eq_some_iff.mp hstep
  have hsteps : World.Steps P config m.world a w := World.steps_of_step hw
  change Covers (w.instances i) (m.report pendingCount reached a i)
  by_cases hi : a.actor = some i
  · cases hsteps with
    | appended e s happ | refused e s err happ | appendLost e => cases hi
    | moved j mv inst obs hm =>
      cases hi
      rw [World.put_self]
      exact h.moved pendingCount reached hm hsteady
    | idled j now r hp =>
      cases hi
      rw [World.put_self]
      exact h.keep (by simp [hp]) (by simp [hp]) id
    | opened j now claim s hp hopen =>
      cases hi
      rw [World.put_self]
      exact h.keep (by simp [hp]) (by simp) id
    | spawned j claim due s hp hclose =>
      cases hi
      rw [World.put_self]
      exact h.keep (by simp [hp]) (by simp [Instance.spawn]) id
    | fetchFailed j claim err s hp hclose =>
      cases hi
      rw [World.put_self]
      exact h.keep (by simp [hp]) (by simp) id
    | fetchLost j claim hp =>
      cases hi
      rw [World.put_self]
      exact h.keep (by simp [hp]) (by simp) id
    | issued j k clock e mark ht hfree =>
      cases hi
      rw [World.put_self]
      exact h.keep (h.running ht) (h.running ht) id
    | markLost j k clock e mark ht =>
      cases hi
      rw [World.put_self]
      exact h.keep (h.running ht) (h.running ht) id
    | crashed j => exact hsteady.elim
  · rw [hsteps.other hi, Metered.report_other hi]
    exact h

end Covers
end Steady

section Totals
variable {ι σ γ : Type} [DecidableEq ι] [Fintype ι] {P : Shared σ γ}
  {pendingCount : σ → Except StoreError UInt64} {config : ι → DispatcherConfig}
  {m m' : Metered ι σ γ} {a : Action ι × Bool}

def Metered.total (get : DispatchMetrics → Nat) (m : Metered ι σ γ) : Nat :=
  ∑ i, (m.metrics i).elim 0 get

variable {get : DispatchMetrics → Nat} {seen : Obs → Bool} {i : ι}

theorem Metered.total_update (get : DispatchMetrics → Nat) (m : Metered ι σ γ) (i : ι)
    (w : World ι σ γ) (x : Option DispatchMetrics) :
    Metered.total get ⟨w, Function.update m.metrics i x⟩+(m.metrics i).elim 0 get =
      m.total get+x.elim 0 get := by
  rw [total, total, ← Cells.sum_update_add (fun j => (m.metrics j).elim 0 get) i (x.elim 0 get)]
  refine congrArg (·+_) (Finset.sum_congr rfl fun j _ => ?_)
  exact Function.apply_update (fun _ y => Option.elim y 0 get) m.metrics i x j

/-- A step moves a total as far as the record, or falls short where a process died or
reports nothing. -/
theorem Series.total_moved (S : Series get seen) (pendingCount : σ → Except StoreError UInt64)
    {mv : Move} {inst : Instance γ} {obs : List Obs} (reached : Bool)
    (hm : Instance.Moves (config i) (m.world.instances i) mv inst obs) :
    ∃ lost, Metered.total get ⟨m.world.put i inst m.world.store obs,
        m.report pendingCount reached (.move i mv)⟩+lost = m.total get+obs.countP seen ∧
      (Covers (m.world.instances i) (m.metrics i) → lost = 0) := by
  cases hm with
  | start hp =>
    have hup := m.total_update get i
      (m.world.put i (Instance.started (config i)) m.world.store [])
      (if reached then some .registered else none)
    have hzero : (if reached then some DispatchMetrics.registered else none).elim 0 get = 0 := by
      cases reached with
      | true => exact S.registered
      | false => rfl
    rw [hzero] at hup
    refine ⟨(m.metrics i).elim 0 get, hup, fun hc => ?_⟩
    rw [hc.down hp]
    rfl
  | shutdown hp | leave hp hs | stop hp hf | drained hp hf => exact ⟨0, rfl, fun _ => rfl⟩
  | gauge hp =>
    have hup := m.total_update get i
      (m.world.put i { m.world.instances i with phase := .select } m.world.store [])
      (m.gauge pendingCount reached i)
    rw [S.gauge] at hup
    exact ⟨0, Nat.add_right_cancel hup, fun _ => rfl⟩
  | permit k task ht hs hc => exact ⟨0, rfl, fun _ => rfl⟩
  | invoke k task ht hs =>
    refine ⟨0, ?_, fun _ => rfl⟩
    rw [List.countP_singleton, S.invoked]
    rfl
  | pause k task result now delay ht hs hr =>
    have hup := m.total_update get i
      (m.world.put i ((m.world.instances i).setStage k task .paused) m.world.store [])
      (result.report (m.metrics i))
    rw [CallResult.report_pause hr, S.paused] at hup
    refine ⟨0, ?_, fun _ => rfl⟩
    simp only [Metered.report, CallResult.report_pause hr]
    exact Nat.add_right_cancel hup
  | answer k task result now delay mark ht hs hj hr =>
    have hup := m.total_update get i
      (m.world.put i ((m.world.instances i).setStage k task (.marking mark)) m.world.store
        [Obs.ofMark task.event.id mark])
      (result.report (m.metrics i))
    rw [List.countP_singleton]
    simp only [Metered.report]
    cases hx : m.metrics i with
    | none =>
      have hsilent : result.report none = none := by cases result <;> rfl
      rw [hx, hsilent] at hup
      refine ⟨if seen (Obs.ofMark task.event.id mark) then 1 else 0, ?_, fun hc => ?_⟩
      · rw [hsilent]
        exact congrArg (·+_) (Nat.add_right_cancel hup)
      · -- a process that runs has its series registered
        have hdown : (m.world.instances i).phase = .down := by
          by_contra hp
          have hsome := hc.up hp
          simp at hsome
        rw [hc.idle hdown] at ht
        cases ht
    | some x =>
      rw [hx, S.answered hr x] at hup
      refine ⟨0, ?_, fun _ => rfl⟩
      simp only [Option.elim_some] at hup
      omega
  | join k task ht hs => exact ⟨0, rfl, fun _ => rfl⟩

theorem Series.total_step (S : Series get seen) (hstep : m.step P pendingCount config a = some m') :
    ∃ lost, m'.total get+m.world.log.countP seen+lost = m.total get+m'.world.log.countP seen ∧
      (Steady a → (∀ i, Covers (m.world.instances i) (m.metrics i)) → lost = 0) := by
  obtain ⟨a, reached⟩ := a
  obtain ⟨w, hw, rfl⟩ := Option.map_eq_some_iff.mp hstep
  have hsteps : World.Steps P config m.world a w := World.steps_of_step hw
  -- a step that reports nothing and puts nothing on record
  have still : ∀ {i : ι} {inst : Instance γ} {s : σ},
      m.report pendingCount reached a = m.metrics →
      ∃ lost, Metered.total get ⟨m.world.put i inst s [], m.report pendingCount reached a⟩+
          m.world.log.countP seen+lost =
        m.total get+(m.world.put i inst s []).log.countP seen ∧
      (Steady (a, reached) → (∀ i, Covers (m.world.instances i) (m.metrics i)) → lost = 0) := by
    intro i inst s hreport
    refine ⟨0, ?_, fun _ _ => rfl⟩
    rw [hreport, World.put, List.append_nil]
    rfl
  cases hsteps with
  | appended e s happ =>
    refine ⟨0, ?_, fun _ _ => rfl⟩
    rw [List.countP_append, List.countP_singleton, S.appended]
    rfl
  | refused e s err happ | appendLost e => exact ⟨0, rfl, fun _ _ => rfl⟩
  | moved i mv inst obs hm =>
    obtain ⟨lost, htotal, hnone⟩ := S.total_moved pendingCount reached hm
    refine ⟨lost, ?_, fun _ hc => hnone (hc i)⟩
    change Metered.total get ⟨m.world.put i inst m.world.store obs,
      m.report pendingCount reached (.move i mv)⟩+_+lost = _+(m.world.log++obs).countP seen
    rw [List.countP_append]
    omega
  | idled i now r hp => exact still rfl
  | opened i now claim s hp hopen => exact still rfl
  | spawned i claim due s hp hclose => exact still rfl
  | fetchFailed i claim err s hp hclose => exact still rfl
  | fetchLost i claim hp => exact still rfl
  | issued i k clock e mark ht hfree => exact still rfl
  | markLost i k clock e mark ht => exact still rfl
  | crashed i =>
    have hup := m.total_update get i
      (m.world.put i .off (P.release (m.world.instances i) m.world.store) []) none
    refine ⟨(m.metrics i).elim 0 get, ?_, fun hs => hs.elim⟩
    have hlog : (m.world.put i .off (P.release (m.world.instances i) m.world.store) []).log =
        m.world.log := List.append_nil _
    rw [hlog]
    change Metered.total get ⟨_, Function.update m.metrics i none⟩+_+_ = _
    simp only [Option.elim_none] at hup
    omega
end Totals

def handedInRun {ι σ γ : Type} [DecidableEq ι] (P : Shared σ γ)
    (pendingCount : σ → Except StoreError UInt64) (config : ι → DispatcherConfig) (s : σ) (i : ι)
    (as : List (Action ι × Bool)) : Nat :=
  (metered P pendingCount config s).record (handed P i) ⟨World.start ι γ s, fun _ => none⟩ as 0

/-- The metrics add up. Over any store, for any number of dispatchers and any run, with
failing calls, crashes and failed registrations anywhere: in a process that reports,
every event `fetch_due` handed over since it started is counted under exactly one result
or its call is open, and exactly the calls that ran are timed; and all processes
together never show more successes or failures than the senders had. In a run in which
every process registers its series and none dies, they show exactly those. -/
theorem metrics_account {ι σ γ : Type} [DecidableEq ι] [Fintype ι] (P : Shared σ γ)
    (pendingCount : σ → Except StoreError UInt64) (config : ι → DispatcherConfig) (s : σ)
    (as : List (Action ι × Bool)) :
    (∀ w, (metered P pendingCount config s).run (fun _ _ => True)
        ⟨World.start ι γ s, fun _ => none⟩ as = some w →
      (∀ i m, w.metrics i = some m → m.duration = m.success+m.failure ∧
        m.success+m.failure+m.breakerPaused+(w.world.instances i).openCalls =
          handedInRun P pendingCount config s i as) ∧
      w.total DispatchMetrics.success ≤ w.world.log.countP Obs.isDelivered ∧
      w.total DispatchMetrics.failure ≤ w.world.log.countP Obs.isFailed) ∧
    (∀ w, (metered P pendingCount config s).run (fun _ => Steady)
        ⟨World.start ι γ s, fun _ => none⟩ as = some w →
      w.total DispatchMetrics.success = w.world.log.countP Obs.isDelivered ∧
      w.total DispatchMetrics.failure = w.world.log.countP Obs.isFailed) := by
  have hzero : ∀ get, Metered.total get (⟨World.start ι γ s, fun _ => none⟩ : Metered ι σ γ) = 0 :=
    fun get => Finset.sum_const_zero
  have hle : ∀ {get seen}, Series get seen → ∀ w, (metered P pendingCount config s).run
      (fun _ _ => True) ⟨World.start ι γ s, fun _ => none⟩ as = some w →
      w.total get ≤ w.world.log.countP seen := by
    intro get seen S w hrun
    refine System.run_history (I := fun _ u => u.total get ≤ u.world.log.countP seen) hrun ?_ ?_
    · rw [hzero]
      exact Nat.zero_le _
    · intro past u a v hu _ hstep
      obtain ⟨lost, htotal, -⟩ := S.total_step hstep
      omega
  have heq : ∀ {get seen}, Series get seen → ∀ w, (metered P pendingCount config s).run
      (fun _ => Steady) ⟨World.start ι γ s, fun _ => none⟩ as = some w →
      w.total get = w.world.log.countP seen := by
    intro get seen S w hrun
    refine (System.run_history (I := fun _ u => u.total get = u.world.log.countP seen ∧
      ∀ i, Covers (u.world.instances i) (u.metrics i)) hrun ?_ ?_).1
    · refine ⟨hzero get, fun i => ⟨fun hp => absurd rfl hp, fun _ => rfl, fun _ => rfl⟩⟩
    · rintro past u a v ⟨hu, hc⟩ hsteady hstep
      obtain ⟨lost, htotal, hlost⟩ := S.total_step hstep
      have hnone := hlost hsteady hc
      exact ⟨by omega, fun i => (hc i).step hsteady hstep⟩
  refine ⟨fun w hrun => ⟨fun i m hm => ?_, hle series_success w hrun, hle series_failure w hrun⟩,
    fun w hrun => ⟨heq series_success w hrun, heq series_failure w hrun⟩⟩
  have hacc : CallsCounted (w.world.instances i) (w.metrics i)
      (handedInRun P pendingCount config s i as) :=
    System.run_record (I := fun n u => CallsCounted (u.world.instances i) (u.metrics i) n) hrun
      (.silent _ 0) fun n u a v hu _ hstep => hu.step hstep
  exact ⟨hacc.timed m hm, hacc.counted m hm⟩

/-- One event fails and is turned away by the breaker in the next round, in which a second
one waits for its permit. -/
def failsThenPauses : List (Action Unit × Bool) :=
  [(.append (.sample 1 5) true, true), (.append (.sample 2 25) true, true), (.move () .start, true),
    (.tick () 10 true, true), (.fetched () true, true), (.move () (.permit 0), true),
    (.move () (.invoke 0), true),
    (.move () (.returned 0 (.failure (.delivery "down")) 20 .zero), true),
    (.mark () 0 20 true, true), (.move () (.join 0), true), (.move () .drained, true),
    (.move () .gauge, true),
    (.tick () 30 true, true), (.fetched () true, true), (.move () (.permit 0), true),
    (.move () (.returned 0 .circuitOpen 30 .zero), true)]

theorem metrics_account_failsThenPauses :
    ∃ w, (metered (Shared.ofStore Memory.store) Memory.pendingCount (fun _ : Unit => .sample 3)
        Memory.new).run (fun _ => Steady) ⟨World.start Unit _ Memory.new, fun _ => none⟩
          failsThenPauses = some w ∧
      w.metrics () = some ⟨0, 1, 1, 2, 1⟩ ∧ (w.world.instances ()).openCalls = 1 ∧
      handedInRun (Shared.ofStore Memory.store) Memory.pendingCount (fun _ : Unit => .sample 3)
        Memory.new () failsThenPauses = 3 ∧
      w.total DispatchMetrics.failure = w.world.log.countP Obs.isFailed := by
  have hrun : ((metered (Shared.ofStore Memory.store) Memory.pendingCount
      (fun _ : Unit => .sample 3) Memory.new).run (fun _ => Steady)
        ⟨World.start Unit _ Memory.new, fun _ => none⟩
        failsThenPauses).any (fun w => w.metrics () = some ⟨0, 1, 1, 2, 1⟩ ∧
          (w.world.instances ()).openCalls = 1) = true := by
    decide +kernel
  obtain ⟨w, hw, hend⟩ := (Option.any_eq_true _ _).mp hrun
  obtain ⟨hmetrics, hopen⟩ := of_decide_eq_true hend
  have hfree : (metered (Shared.ofStore Memory.store) Memory.pendingCount
      (fun _ : Unit => .sample 3) Memory.new).run (fun _ _ => True)
        ⟨World.start Unit _ Memory.new, fun _ => none⟩
        failsThenPauses = some w := System.run_mono (fun _ _ _ => trivial) hw
  have hall := metrics_account (Shared.ofStore Memory.store) Memory.pendingCount
    (fun _ : Unit => .sample 3) Memory.new failsThenPauses
  have hcount := ((hall.1 w hfree).1 () _ hmetrics).2
  rw [hopen] at hcount
  exact ⟨w, hw, hmetrics, hopen, hcount.symm, (hall.2 w hw).2⟩

end OutboxKit
