import OutboxKit.Capacity
import OutboxKit.Lib.History

/-! The graceful stop. A signalled instance that polls no more has only so many steps of
its own left, each of its tasks four and a join; while any is left one of them can be
taken, whatever the sender, the breaker and the store answer; and where none is left it
has stopped with nothing in flight. Once it has left the loop it never sends again. -/
namespace OutboxKit
open Machine Trace

/-- The steps an instance takes to finish what it has begun: everything but a new tick,
a start, the signal itself and a crash. -/
def Action.finishes {ι : Type} [DecidableEq ι] (i : ι) : Action ι → Bool
  | .move _ .start | .move _ .shutdown => false
  | .move j _ | .fetched j _ | .mark j _ _ _ => j = i
  | .append .. | .tick .. | .crash _ => false

/-- The steps a task has before it: permit, send, result, mark, join. -/
def Stage.left : Stage → Nat
  | .queued => 5
  | .permitted => 4
  | .sending => 3
  | .marking _ => 2
  | .paused | .finished => 1

def tasksLeft (tasks : List Task) : Nat := (tasks.map (·.stage.left)).sum

/-- The steps the loop itself has before it. A fetch that is open may yet bring its events in. -/
def Phase.left {γ : Type} (size : γ → Nat) : Phase γ → Nat
  | .down | .stopped => 0
  | .stopping => 1
  | .select => 2
  | .gauge => 3
  | .draining => 4
  | .fetching claim => 5+5*size claim

def Instance.left {γ : Type} (size : γ → Nat) (inst : Instance γ) : Nat :=
  inst.phase.left size+tasksLeft inst.inFlight

section Tasks
variable {γ : Type} {size : γ → Nat} {inst inst' : Instance γ} {n : Nat} {task : Task}
  {stage : Stage}

theorem Stage.left_pos (stage : Stage) : 1 ≤ stage.left := by
  cases stage <;> simp [left]

theorem Stage.left_le (stage : Stage) : stage.left ≤ 5 := by
  cases stage <;> simp [left]

theorem tasksLeft_le (tasks : List Task) : tasksLeft tasks ≤ 5*tasks.length := by
  induction tasks with
  | nil => exact Nat.le_refl _
  | cons task tasks ih =>
    have h := task.stage.left_le
    simp only [tasksLeft, List.map_cons, List.sum_cons, List.length_cons] at ih ⊢
    omega

theorem tasksLeft_set {tasks : List Task} (h : tasks[n]? = some task) (stage : Stage) :
    tasksLeft (tasks.set n { task with stage := stage })+task.stage.left =
      tasksLeft tasks+stage.left := by
  induction tasks generalizing n with
  | nil => cases h
  | cons x xs ih =>
    cases n with
    | zero =>
      cases h
      simp only [tasksLeft, List.set_cons_zero, List.map_cons, List.sum_cons]
      omega
    | succ n =>
      have ih := ih h
      simp only [tasksLeft, List.set_cons_succ, List.map_cons, List.sum_cons] at ih ⊢
      omega

theorem tasksLeft_eraseIdx {tasks : List Task} (h : tasks[n]? = some task) :
    tasksLeft (tasks.eraseIdx n)+task.stage.left = tasksLeft tasks := by
  induction tasks generalizing n with
  | nil => cases h
  | cons x xs ih =>
    cases n with
    | zero =>
      cases h
      simp only [tasksLeft, List.eraseIdx_cons_zero, List.map_cons, List.sum_cons]
      omega
    | succ n =>
      have ih := ih h
      simp only [tasksLeft, List.eraseIdx_cons_succ, List.map_cons, List.sum_cons] at ih ⊢
      omega

theorem tasksLeft_append (tasks new : List Task) :
    tasksLeft (tasks++new) = tasksLeft tasks+tasksLeft new := by
  simp [tasksLeft]

theorem Instance.left_setStage (h : inst.inFlight[n]? = some task)
    (hlt : stage.left < task.stage.left) :
    (inst.setStage n task stage).left size < inst.left size := by
  have hset := tasksLeft_set h stage
  simp only [Instance.left, Instance.setStage]
  omega

theorem Instance.Moves.left_lt {c : DispatcherConfig} {m : Move} {obs : List Obs}
    (h : Moves c inst m inst' obs) (hm : m ≠ .start) (hm' : m ≠ .shutdown) :
    inst'.left size < inst.left size := by
  cases h with
  | start hp => exact absurd rfl hm
  | shutdown hp => exact absurd rfl hm'
  | leave hp hs => simp [Instance.left, hp, Phase.left]
  | stop hp hf => simp [Instance.left, hp, Phase.left]
  | drained hp hf => simp [Instance.left, hp, Phase.left]
  | gauge hp => simp [Instance.left, hp, Phase.left]
  | permit n task ht hs hc => exact left_setStage ht (by simp [hs, Stage.left])
  | invoke n task ht hs => exact left_setStage ht (by simp [hs, Stage.left])
  | pause n task result now delay ht hs hr => exact left_setStage ht (by simp [hs, Stage.left])
  | answer n task result now delay mark ht hs hj hr =>
    exact left_setStage ht (by simp [hs, Stage.left])
  | join n task ht hs =>
    have herase := tasksLeft_eraseIdx ht
    have hpos := task.stage.left_pos
    simp only [Instance.left]
    omega

theorem Instance.left_spawn (c : DispatcherConfig) {claim : γ} {due : List OutboxEvent}
    (hp : inst.phase = .fetching claim) (hdue : due.length ≤ size claim) :
    (inst.spawn c due).left size < inst.left size := by
  have hnew := tasksLeft_le (due.map fun e => ⟨e, .queued⟩)
  rw [List.length_map] at hnew
  simp only [Instance.left, Instance.spawn, hp, Phase.left, tasksLeft_append]
  omega

end Tasks

section Finish
variable {ι σ γ : Type} [DecidableEq ι] {P : Shared σ γ} {config : ι → DispatcherConfig}
  {w w' : World ι σ γ} {i : ι}

/-- A finishing step leaves its instance fewer, and touches no other. -/
theorem Batched.left_lt (B : Batched P) {a : Action ι} (ha : a.finishes i = true)
    (h : w.step P config a = some w') :
    (w'.instances i).left B.size < (w.instances i).left B.size := by
  have own : ∀ {j : ι}, decide (j = i) = true → i = j := fun h => (of_decide_eq_true h).symm
  cases World.steps_of_step h with
  | appended e s happ => cases ha
  | refused e s err happ => cases ha
  | appendLost e => cases ha
  | moved j m inst obs hm =>
    have hstart : m ≠ .start := by
      rintro rfl
      simp [Action.finishes] at ha
    have hshut : m ≠ .shutdown := by
      rintro rfl
      simp [Action.finishes] at ha
    have hj : i = j := by
      cases m with
      | start => exact absurd rfl hstart
      | shutdown => exact absurd rfl hshut
      | _ => exact own ha
    subst hj
    rw [World.put_self]
    exact hm.left_lt hstart hshut
  | idled j now reached hp => cases ha
  | opened j now claim s hp hopen => cases ha
  | spawned j claim due s hp hclose =>
    obtain rfl := own ha
    rw [World.put_self]
    exact Instance.left_spawn _ hp (B.close_le claim w.store due (by rw [hclose]))
  | fetchFailed j claim err s hp hclose =>
    obtain rfl := own ha
    rw [World.put_self]
    simp only [Instance.left, hp, Phase.left]
    omega
  | fetchLost j claim hp =>
    obtain rfl := own ha
    rw [World.put_self]
    simp only [Instance.left, hp, Phase.left]
    omega
  | issued j n clock e mark ht hfree =>
    obtain rfl := own ha
    rw [World.put_self]
    exact Instance.left_setStage ht (by simp [Stage.left])
  | markLost j n clock e mark ht =>
    obtain rfl := own ha
    rw [World.put_self]
    exact Instance.left_setStage ht (by simp [Stage.left])
  | crashed j => cases ha

theorem can_move {m : Move} (hm : (Action.move i m).finishes i = true)
    (h : ((w.instances i).move (config i) m).isSome) :
    ∃ a : Action ι, a.finishes i = true ∧ (w.step P config a).isSome := by
  obtain ⟨x, hx⟩ := Option.isSome_iff_exists.mp h
  exact ⟨.move i m, hm, by simp [World.step, hx]⟩

/-- No deadlock: a batch in flight has a task that can take its next step. A queued one
waits only while another holds the permit it wants. -/
theorem can_drain (ht : (w.instances i).inFlight ≠ []) :
    ∃ a : Action ι, a.finishes i = true ∧ (w.step P config a).isSome := by
  by_cases hall : ∀ task ∈ (w.instances i).inFlight, task.holdsPermit = false
  · obtain ⟨task, rest, hf⟩ := List.exists_cons_of_ne_nil ht
    have h0 : (w.instances i).inFlight[0]? = some task := by rw [hf]; rfl
    have hfree : (w.instances i).permits = 0 := by
      rw [Instance.permits, List.countP_eq_zero]
      intro t htask
      rw [hall t htask]
      simp
    have hhead := hall task (by rw [hf]; exact List.mem_cons_self)
    cases hs : task.stage with
    | queued =>
      apply can_move (m := .permit 0) (by simp [Action.finishes])
      rw [Instance.move, h0, Option.bind_some, Instance.moveTask, hs]
      simp only [if_pos
        (show (w.instances i).permits < max (config i).concurrency.toNat 1 by omega)]
      rfl
    | paused | finished =>
      apply can_move (m := .join 0) (by simp [Action.finishes])
      simp [Instance.move, h0, Instance.moveTask, hs]
    | permitted | sending | marking mark => simp [Task.holdsPermit, hs] at hhead
  · obtain ⟨task, hmem, hholds⟩ : ∃ task ∈ (w.instances i).inFlight, task.holdsPermit = true := by
      simpa using hall
    obtain ⟨n, hn⟩ := List.getElem?_of_mem hmem
    cases hs : task.stage with
    | permitted =>
      apply can_move (m := .invoke n) (by simp [Action.finishes])
      simp [Instance.move, hn, Instance.moveTask, hs]
    | sending =>
      have hj : (config i).backoff.Jittered (satAdd32 task.event.attempts 1) .zero :=
        Fin.zero_le _
      apply can_move (m := .returned n .ok 0 .zero) (by simp [Action.finishes])
      simp [Instance.move, hn, Instance.moveTask, hs, hj, CallResult.mark]
    | marking mark =>
      have hn' : (w.instances i).inFlight[n]? = some ⟨task.event, .marking mark⟩ := by
        rw [hn, ← hs]
      exact ⟨.mark i n 0 false, by simp [Action.finishes], by simp [World.step, hn']⟩
    | queued | paused | finished => simp [Task.holdsPermit, hs] at hholds

/-- No deadlock: a signalled instance that has not stopped can take a finishing step. -/
theorem can_finish {size : γ → Nat} (hb : (w.instances i).Bounded size (config i))
    (hup : (w.instances i).phase ≠ .down) (hsignal : (w.instances i).shutdown = true)
    (hstopped : (w.instances i).phase ≠ .stopped) :
    ∃ a : Action ι, a.finishes i = true ∧ (w.step P config a).isSome := by
  cases hp : (w.instances i).phase with
  | down => exact absurd hp hup
  | stopped => exact absurd hp hstopped
  | select =>
    apply can_move (m := .leave) (by simp [Action.finishes])
    simp [Instance.move, hp, hsignal]
  | fetching claim =>
    exact ⟨.fetched i false, by simp [Action.finishes], by simp [World.step, hp]⟩
  | gauge =>
    apply can_move (m := .gauge) (by simp [Action.finishes])
    simp [Instance.move, hp]
  | stopping =>
    have hempty := hb.drained (by simp [hp])
    apply can_move (m := .stop) (by simp [Action.finishes])
    simp [Instance.move, hp, hempty]
  | draining =>
    by_cases hempty : (w.instances i).inFlight = []
    · apply can_move (m := .drained) (by simp [Action.finishes])
      simp [Instance.move, hp, hempty]
    · exact can_drain hempty

theorem finishes_signalled {a : Action ι} (ha : a.finishes i = true)
    (h : w.step P config a = some w') (hup : (w.instances i).phase ≠ .down)
    (hsignal : (w.instances i).shutdown = true) :
    (w'.instances i).phase ≠ .down ∧ (w'.instances i).shutdown = true := by
  have own : ∀ {j : ι}, decide (j = i) = true → i = j := fun h => (of_decide_eq_true h).symm
  cases World.steps_of_step h with
  | appended e s happ => cases ha
  | refused e s err happ => cases ha
  | appendLost e => cases ha
  | moved j m inst obs hm =>
    have hj : i = j := by
      cases m with
      | start => cases ha
      | shutdown => cases ha
      | _ => exact own ha
    subst hj
    rw [World.put_self]
    cases hm with
    | start hp => exact absurd hp hup
    | shutdown hp => cases ha
    | leave hp hs => exact ⟨by simp, hsignal⟩
    | stop hp hf => exact ⟨by simp, hsignal⟩
    | drained hp hf => exact ⟨by simp, hsignal⟩
    | gauge hp => exact ⟨by simp, hsignal⟩
    | permit n task ht hs hc => exact ⟨hup, hsignal⟩
    | invoke n task ht hs => exact ⟨hup, hsignal⟩
    | pause n task result now delay ht hs hr => exact ⟨hup, hsignal⟩
    | answer n task result now delay mark ht hs hj hr => exact ⟨hup, hsignal⟩
    | join n task ht hs => exact ⟨hup, hsignal⟩
  | idled j now reached hp => cases ha
  | opened j now claim s hp hopen => cases ha
  | spawned j claim due s hp hclose =>
    obtain rfl := own ha
    rw [World.put_self]
    exact ⟨by simp [Instance.spawn], hsignal⟩
  | fetchFailed j claim err s hp hclose =>
    obtain rfl := own ha
    rw [World.put_self]
    exact ⟨by simp, hsignal⟩
  | fetchLost j claim hp =>
    obtain rfl := own ha
    rw [World.put_self]
    exact ⟨by simp, hsignal⟩
  | issued j n clock e mark ht hfree =>
    obtain rfl := own ha
    rw [World.put_self]
    exact ⟨hup, hsignal⟩
  | markLost j n clock e mark ht =>
    obtain rfl := own ha
    rw [World.put_self]
    exact ⟨hup, hsignal⟩
  | crashed j => cases ha

theorem Instance.Bounded.left_le {size : γ → Nat} {c : DispatcherConfig} {inst : Instance γ}
    (hb : inst.Bounded size c) : inst.left size ≤ 5*c.fetchBatch.saturated.max.toNat+5 := by
  have htasks := tasksLeft_le inst.inFlight
  have hlen := hb.inFlight
  have hempty := hb.drained
  cases hp : inst.phase with
  | fetching claim =>
    have hclaim := hb.claim claim hp
    rw [hempty (by simp [hp])] at htasks
    simp only [Instance.left, hp, Phase.left]
    rw [hempty (by simp [hp])]
    simp only [List.length_nil] at htasks
    omega
  | down | select | gauge | stopping | stopped | draining =>
    simp only [Instance.left, hp, Phase.left]
    omega

end Finish

section Leave
variable {ι σ γ : Type} [DecidableEq ι] {P : Shared σ γ} {config : ι → DispatcherConfig}
  {w w' : World ι σ γ} {i : ι}

def Instance.Left {γ : Type} (inst : Instance γ) : Prop :=
  (inst.phase = .stopping ∨ inst.phase = .stopped) ∧ inst.inFlight = []

theorem Instance.Left.not_mem {inst : Instance γ} (h : inst.Left) (n : Nat) :
    inst.inFlight[n]? = none := by
  rw [h.2]
  rfl

theorem Instance.Left.move {c : DispatcherConfig} {inst inst' : Instance γ} {m : Move}
    {obs : List Obs} (h : inst.Left) (hm : Moves c inst m inst' obs) : inst'.Left ∧ obs = [] := by
  have htask : ∀ {n : Nat} {task : Task}, inst.inFlight[n]? ≠ some task := by
    intro n task ht
    rw [h.not_mem n] at ht
    cases ht
  cases hm with
  | start hp => simp [Instance.Left, hp] at h
  | shutdown hp => exact ⟨h, rfl⟩
  | leave hp hs => simp [Instance.Left, hp] at h
  | stop hp hf => exact ⟨⟨Or.inr rfl, hf⟩, rfl⟩
  | drained hp hf => simp [Instance.Left, hp] at h
  | gauge hp => simp [Instance.Left, hp] at h
  | permit n task ht hs hc => exact absurd ht htask
  | invoke n task ht hs => exact absurd ht htask
  | pause n task result now delay ht hs hr => exact absurd ht htask
  | answer n task result now delay mark ht hs hj hr => exact absurd ht htask
  | join n task ht hs => exact absurd ht htask

theorem left_step {a : Action ι} (h : (w.instances i).Left) (ha : a ≠ .crash i)
    (hstep : w.step P config a = some w') : (w'.instances i).Left := by
  -- a step of another instance is none of its business
  have other : ∀ {j : ι} {inst : Instance γ} {s : σ} {obs : List Obs},
      (j = i → inst.Left) → ((w.put j inst s obs).instances i).Left := by
    intro j inst s obs hown
    by_cases hj : i = j
    · subst hj
      rw [World.put_self]
      exact hown rfl
    · rwa [World.put_of_ne hj]
  have hphase : ∀ {phase : Phase γ}, (w.instances i).phase = phase → phase ≠ .stopping →
      phase ≠ .stopped → False := by
    intro phase hp hne hne'
    cases h.1 with
    | inl hs => exact hne (hp.symm.trans hs)
    | inr hs => exact hne' (hp.symm.trans hs)
  cases World.steps_of_step hstep with
  | appended e s happ => exact h
  | refused e s err happ => exact h
  | appendLost e => exact h
  | moved j m inst obs hm =>
    apply other
    rintro rfl
    exact (h.move hm).1
  | idled j now reached hp =>
    apply other
    rintro rfl
    exact h
  | opened j now claim s hp hopen =>
    apply other
    rintro rfl
    exact (hphase hp (by simp) (by simp)).elim
  | spawned j claim due s hp hclose =>
    apply other
    rintro rfl
    exact (hphase hp (by simp) (by simp)).elim
  | fetchFailed j claim err s hp hclose =>
    apply other
    rintro rfl
    exact (hphase hp (by simp) (by simp)).elim
  | fetchLost j claim hp =>
    apply other
    rintro rfl
    exact (hphase hp (by simp) (by simp)).elim
  | issued j n clock e mark ht hfree =>
    apply other
    rintro rfl
    rw [h.not_mem n] at ht
    cases ht
  | markLost j n clock e mark ht =>
    apply other
    rintro rfl
    rw [h.not_mem n] at ht
    cases ht
  | crashed j =>
    apply other
    rintro rfl
    exact absurd rfl ha

/-- The promise of a graceful stop, of an instance that runs and has been signalled: the
lists of its own finishing steps, among which no tick is, are bounded in length, one such
step can be taken until it has stopped, and an instance that has left its loop stays out
until its process dies. -/
structure Drains (P : Shared σ γ) (config : ι → DispatcherConfig) (w : World ι σ γ) (i : ι) :
    Prop where
  ends : ∀ as w',
    (dispatching P config w.store).run (fun _ a => a.finishes i = true) w as = some w' →
    as.length ≤ 5*(config i).fetchBatch.saturated.max.toNat+5
  goesOn : ∀ as w',
    (dispatching P config w.store).run (fun _ a => a.finishes i = true) w as = some w' →
    (w'.instances i).phase = .stopped ∧ (w'.instances i).inFlight = [] ∨
      ∃ a : Action ι, a.finishes i = true ∧ (w'.step P config a).isSome
  silent : (w.instances i).Left → ∀ w',
    (dispatching P config w.store).Reach (fun _ a => a ≠ .crash i) w w' → (w'.instances i).Left

theorem Batched.drains (B : Batched P) {start : σ}
    (h : (dispatching P config start).Reachable (fun _ _ => True) w)
    (hup : (w.instances i).phase ≠ .down) (hsignal : (w.instances i).shutdown = true) :
    Drains P config w i where
  ends as w' hrun := by
    have hlen := System.length_le_of_measure (μ := fun w => (w.instances i).left B.size) hrun
      fun u a v ha hstep => B.left_lt ha hstep
    have hle := (B.bounded_reachable h i).left_le
    omega
  goesOn as w' hrun := by
    have hb := B.bounded_reachable h
    have hend := System.run_history
      (I := fun _ w => (∀ j, (w.instances j).Bounded B.size (config j)) ∧
        (w.instances i).phase ≠ .down ∧ (w.instances i).shutdown = true) hrun ⟨hb, hup, hsignal⟩ ?_
    · obtain ⟨hb', hup', hsignal'⟩ := hend
      by_cases hstopped : (w'.instances i).phase = .stopped
      · exact Or.inl ⟨hstopped, (hb' i).drained (by simp [hstopped])⟩
      · exact Or.inr (can_finish (hb' i) hup' hsignal' hstopped)
    · rintro past u a v ⟨hbu, hupu, hsignalu⟩ ha hstep
      exact ⟨B.bounded_step hbu hstep, finishes_signalled ha hstep hupu hsignalu⟩
  silent hleft w' hreach :=
    hreach.invariant (I := fun w => (w.instances i).Left)
      (fun _ _ _ hs ha hstep => left_step hs ha hstep) hleft

end Leave

/-- What a signalled instance has left to do is bounded. Over each of the three stores, with
any number of dispatchers and in every state their runs reach: a list of the instance's own
finishing steps, to which its ticks do not belong, is no longer than five for each event of
the largest batch and five more, whatever the sender, the breaker and the store answer; as
long as it has not stopped with nothing in flight it can take another such step; and once it
has left its loop, no run without a crash of its own brings it back to fetching or sending. -/
theorem shutdown_drains (U : UuidCrate) {ι : Type} [DecidableEq ι]
    (config : ι → DispatcherConfig) (i : ι) :
    (∀ s w, (dispatching (Shared.ofStore Memory.store) config s).Reachable (fun _ _ => True) w →
      (w.instances i).phase ≠ .down → (w.instances i).shutdown = true →
        Drains (Shared.ofStore Memory.store) config w i) ∧
    (∀ t w, (dispatching (Shared.ofStore (Sqlite.store U)) config t).Reachable (fun _ _ => True) w →
      (w.instances i).phase ≠ .down → (w.instances i).shutdown = true →
        Drains (Shared.ofStore (Sqlite.store U)) config w i) ∧
    (∀ db w, (dispatching (Postgres.shared U) config db).Reachable (fun _ _ => True) w →
      (w.instances i).phase ≠ .down → (w.instances i).shutdown = true →
        Drains (Postgres.shared U) config w i) := by
  refine ⟨fun s w hw hup hsignal => ?_, fun t w hw hup hsignal => ?_, fun db w hw hup hsignal => ?_⟩
  · exact (Batched.ofStore Memory.store fun _ _ _ _ h => Memory.fetchDue_length h).drains hw hup
      hsignal
  · exact (Batched.ofStore (Sqlite.store U) fun _ _ _ _ h =>
      Sqlite.fetchDue_length h).drains hw hup hsignal
  · exact (Postgres.batched U).drains hw hup hsignal

def signalledInFlight : List (Action Unit) :=
  [.append (.sample 1 5) true, .move () .start, .tick () 10 true, .fetched () true,
    .move () (.permit 0), .move () (.invoke 0), .move () .shutdown]

theorem shutdown_drains_signalledInFlight :
    ∃ w, (dispatching (Shared.ofStore Memory.store) (fun _ : Unit => .sample 3)
        Memory.new).Reachable (fun _ _ => True) w ∧ (w.instances ()).sends = 1 ∧
      Drains (Shared.ofStore Memory.store) (fun _ : Unit => .sample 3) w () := by
  have hrun : ((dispatching (Shared.ofStore Memory.store) (fun _ : Unit => .sample 3)
      Memory.new).run (fun _ _ => True) (World.start Unit _ Memory.new) signalledInFlight).any
      (fun w => (w.instances ()).sends = 1 ∧ (w.instances ()).shutdown = true) = true := by
    decide +kernel
  obtain ⟨w, hw, hsends, hsignal⟩ := System.exists_reach hrun
  have hup : (w.instances ()).phase ≠ .down := by
    intro hp
    have hempty := (Batched.ofStore Memory.store fun _ _ _ _ h =>
      Memory.fetchDue_length h).bounded_reachable hw () |>.drained (by simp [hp])
    simp [Instance.sends, hempty] at hsends
  exact ⟨w, hw, hsends,
    (shutdown_drains .hyphenatedOnly (fun _ : Unit => .sample 3) ()).1 _ w hw hup hsignal⟩

end OutboxKit
