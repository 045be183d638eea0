import OutboxKit.Dispatch

/-! What one step of the dispatchers can do, said once. `Moves` lists the moves of
an instance and `Steps` the steps of the whole system, each with its guard and
its effect; every invariant is a case analysis over these. -/
namespace OutboxKit
open Machine Trace

section Moves
variable {γ : Type} (c : DispatcherConfig)

inductive Instance.Moves : Instance γ → Move → Instance γ → List Obs → Prop
  | start (inst : Instance γ) : inst.phase = .down → Moves inst .start (Instance.started c) []
  | shutdown (inst : Instance γ) : inst.phase ≠ .down →
      Moves inst .shutdown { inst with shutdown := true } []
  | leave (inst : Instance γ) : inst.phase = .select → inst.shutdown = true →
      Moves inst .leave { inst with phase := .stopping } []
  | stop (inst : Instance γ) : inst.phase = .stopping → inst.inFlight = [] →
      Moves inst .stop { inst with phase := .stopped } []
  | drained (inst : Instance γ) : inst.phase = .draining → inst.inFlight = [] →
      Moves inst .drained { inst with phase := .gauge } []
  | gauge (inst : Instance γ) : inst.phase = .gauge →
      Moves inst .gauge { inst with phase := .select } []
  | permit (inst : Instance γ) (n : Nat) (task : Task) : inst.inFlight[n]? = some task →
      task.stage = .queued → inst.permits < max c.concurrency.toNat 1 →
      Moves inst (.permit n) (inst.setStage n task .permitted) []
  | invoke (inst : Instance γ) (n : Nat) (task : Task) : inst.inFlight[n]? = some task →
      task.stage = .permitted →
      Moves inst (.invoke n) (inst.setStage n task .sending) [.invoked task.event.id]
  | pause (inst : Instance γ) (n : Nat) (task : Task) (result : CallResult) (now : UInt64)
      (delay : Duration) : inst.inFlight[n]? = some task → task.stage = .permitted →
      result.mark c.backoff task.event now delay = none →
      Moves inst (.returned n result now delay) (inst.setStage n task .paused) []
  | answer (inst : Instance γ) (n : Nat) (task : Task) (result : CallResult) (now : UInt64)
      (delay : Duration) (mark : Mark) : inst.inFlight[n]? = some task → task.stage = .sending →
      c.backoff.Jittered (satAdd32 task.event.attempts 1) delay →
      result.mark c.backoff task.event now delay = some mark →
      Moves inst (.returned n result now delay) (inst.setStage n task (.marking mark))
        [Obs.ofMark task.event.id mark]
  | join (inst : Instance γ) (n : Nat) (task : Task) : inst.inFlight[n]? = some task →
      task.stage = .paused ∨ task.stage = .finished →
      Moves inst (.join n) { inst with inFlight := inst.inFlight.eraseIdx n } []

theorem Instance.moves_of_move {c : DispatcherConfig} {inst inst' : Instance γ} {m : Move}
    {obs : List Obs} (h : inst.move c m = some (inst', obs)) : Moves c inst m inst' obs := by
  cases m with
  | start =>
    simp only [move] at h
    split at h
    · rename_i hp
      cases h
      exact .start inst hp
    · cases h
  | shutdown =>
    simp only [move] at h
    split at h
    · cases h
    · rename_i hp
      cases h
      exact .shutdown inst hp
  | leave =>
    simp only [move] at h
    split at h
    · rename_i hp
      split at h
      · rename_i hs
        cases h
        exact .leave inst hp hs
      · cases h
    · cases h
  | stop =>
    simp only [move] at h
    split at h
    · rename_i hp hf
      cases h
      exact .stop inst hp hf
    · cases h
  | drained =>
    simp only [move] at h
    split at h
    · rename_i hp hf
      cases h
      exact .drained inst hp hf
    · cases h
  | gauge =>
    simp only [move] at h
    split at h
    · rename_i hp
      cases h
      exact .gauge inst hp
    · cases h
  | permit n =>
    obtain ⟨task, ht, h⟩ := Option.bind_eq_some_iff.mp h
    simp only [moveTask] at h
    split at h
    · rename_i hs
      split at h
      · rename_i hc
        cases h
        exact .permit inst n task ht hs hc
      · cases h
    · cases h
  | invoke n =>
    obtain ⟨task, ht, h⟩ := Option.bind_eq_some_iff.mp h
    simp only [moveTask] at h
    split at h
    · rename_i hs
      cases h
      exact .invoke inst n task ht hs
    · cases h
  | returned n result now delay =>
    obtain ⟨task, ht, h⟩ := Option.bind_eq_some_iff.mp h
    simp only [moveTask] at h
    split at h
    · rename_i hj
      split at h
      · rename_i hs hm
        cases h
        exact .pause inst n task result now delay ht hs hm
      · rename_i mark hs hm
        cases h
        exact .answer inst n task result now delay mark ht hs hj hm
      · cases h
    · cases h
  | join n =>
    obtain ⟨task, ht, h⟩ := Option.bind_eq_some_iff.mp h
    simp only [moveTask] at h
    split at h
    · rename_i hs
      cases h
      exact .join inst n task ht (Or.inl hs)
    · rename_i hs
      cases h
      exact .join inst n task ht (Or.inr hs)
    · cases h

theorem Instance.mem_setStage {inst : Instance γ} {n : Nat} {task t : Task} {stage : Stage}
    (h : t ∈ (inst.setStage n task stage).inFlight) :
    t ∈ inst.inFlight ∨ t = { task with stage := stage } :=
  List.mem_or_eq_of_mem_set h

/-- Where a task of the moved instance comes from: it was there, it advanced without
a result, or it now carries the mark its result asks for. -/
theorem Instance.Moves.mem_inFlight {c : DispatcherConfig} {inst inst' : Instance γ} {m : Move}
    {obs : List Obs} (h : Moves c inst m inst' obs) {task : Task} (ht : task ∈ inst'.inFlight) :
    task ∈ inst.inFlight ∨ ∃ old ∈ inst.inFlight, task.event = old.event ∧
      ((task.stage = .permitted ∨ task.stage = .sending ∨ task.stage = .paused) ∨
        ∃ n result now delay mark, m = .returned n result now delay ∧
          task.stage = .marking mark ∧ result.mark c.backoff old.event now delay = some mark ∧
          c.backoff.Jittered (satAdd32 old.event.attempts 1) delay ∧
          obs = [Obs.ofMark old.event.id mark]) := by
  cases h with
  | start hp => simp [started] at ht
  | shutdown hp => exact Or.inl ht
  | leave hp hs => exact Or.inl ht
  | stop hp hf => exact Or.inl ht
  | drained hp hf => exact Or.inl ht
  | gauge hp => exact Or.inl ht
  | permit n old hold hs hc =>
    refine (mem_setStage ht).imp_right fun he => ?_
    exact ⟨old, List.mem_of_getElem? hold, by rw [he], Or.inl (Or.inl (by rw [he]))⟩
  | invoke n old hold hs =>
    refine (mem_setStage ht).imp_right fun he => ?_
    exact ⟨old, List.mem_of_getElem? hold, by rw [he], Or.inl (Or.inr (Or.inl (by rw [he])))⟩
  | pause n old result now delay hold hs hm =>
    refine (mem_setStage ht).imp_right fun he => ?_
    exact ⟨old, List.mem_of_getElem? hold, by rw [he], Or.inl (Or.inr (Or.inr (by rw [he])))⟩
  | answer n old result now delay mark hold hs hj hm =>
    refine (mem_setStage ht).imp_right fun he => ?_
    exact ⟨old, List.mem_of_getElem? hold, by rw [he],
      Or.inr ⟨n, result, now, delay, mark, rfl, by rw [he], hm, hj, rfl⟩⟩
  | join n old hold hs => exact Or.inl (List.mem_of_mem_eraseIdx ht)

theorem Instance.Moves.not_appended {c : DispatcherConfig} {inst inst' : Instance γ} {m : Move}
    {obs : List Obs} (h : Moves c inst m inst' obs) (e : OutboxEvent) : .appended e ∉ obs := by
  cases h with
  | answer n old result now delay mark hold hs hj hm => cases mark <;> simp [Obs.ofMark]
  | _ => simp

end Moves

section Steps
variable {ι σ γ : Type} [DecidableEq ι] (P : Shared σ γ) (config : ι → DispatcherConfig)

inductive World.Steps : World ι σ γ → Action ι → World ι σ γ → Prop
  | appended (w : World ι σ γ) (e : OutboxEvent) (s : σ) : P.append e w.store = (.ok (), s) →
      Steps w (.append e true) { w with store := s, log := w.log++[.appended e] }
  | refused (w : World ι σ γ) (e : OutboxEvent) (s : σ) (err : StoreError) :
      P.append e w.store = (.error err, s) → Steps w (.append e true) { w with store := s }
  | appendLost (w : World ι σ γ) (e : OutboxEvent) : Steps w (.append e false) w
  | moved (w : World ι σ γ) (i : ι) (m : Move) (inst : Instance γ) (obs : List Obs) :
      Instance.Moves (config i) (w.instances i) m inst obs →
      Steps w (.move i m) (w.put i inst w.store obs)
  | idled (w : World ι σ γ) (i : ι) (now : UInt64) (reached : Bool) :
      (w.instances i).phase = .select → Steps w (.tick i now reached)
        (w.put i { w.instances i with idleTick := ((w.instances i).tick (config i)).1 } w.store [])
  | opened (w : World ι σ γ) (i : ι) (now : UInt64) (claim : γ) (s : σ) :
      (w.instances i).phase = .select →
      P.openFetch (w.instances i).batchSize now w.store = (claim, s) →
      Steps w (.tick i now true) (w.put i { w.instances i with
        idleTick := ((w.instances i).tick (config i)).1, phase := .fetching claim } s [])
  | spawned (w : World ι σ γ) (i : ι) (claim : γ) (due : List OutboxEvent) (s : σ) :
      (w.instances i).phase = .fetching claim → P.closeFetch claim w.store = (.ok due, s) →
      Steps w (.fetched i true) (w.put i ((w.instances i).spawn (config i) due) s [])
  | fetchFailed (w : World ι σ γ) (i : ι) (claim : γ) (err : StoreError) (s : σ) :
      (w.instances i).phase = .fetching claim → P.closeFetch claim w.store = (.error err, s) →
      Steps w (.fetched i true) (w.put i { w.instances i with phase := .select } s [])
  | fetchLost (w : World ι σ γ) (i : ι) (claim : γ) : (w.instances i).phase = .fetching claim →
      Steps w (.fetched i false)
        (w.put i { w.instances i with phase := .select } (P.abortFetch claim w.store) [])
  | issued (w : World ι σ γ) (i : ι) (n : Nat) (clock : UInt64) (e : OutboxEvent) (mark : Mark) :
      (w.instances i).inFlight[n]? = some ⟨e, .marking mark⟩ → P.free e.id w.store = true →
      Steps w (.mark i n clock true)
        (w.put i ((w.instances i).setStage n ⟨e, .marking mark⟩ .finished)
          (P.issue clock e.id mark w.store) [])
  | markLost (w : World ι σ γ) (i : ι) (n : Nat) (clock : UInt64) (e : OutboxEvent) (mark : Mark) :
      (w.instances i).inFlight[n]? = some ⟨e, .marking mark⟩ →
      Steps w (.mark i n clock false)
        (w.put i ((w.instances i).setStage n ⟨e, .marking mark⟩ .finished) w.store [])
  | crashed (w : World ι σ γ) (i : ι) :
      Steps w (.crash i) (w.put i .off (P.release (w.instances i) w.store) [])

theorem World.steps_of_step {P : Shared σ γ} {config : ι → DispatcherConfig} {w w' : World ι σ γ}
    {a : Action ι} (h : w.step P config a = some w') : Steps P config w a w' := by
  cases a with
  | append e reached =>
    cases reached with
    | false =>
      cases h
      exact .appendLost w e
    | true =>
      simp only [step, if_true] at h
      split at h
      · rename_i s happ
        cases h
        exact .appended w e s happ
      · rename_i err s happ
        cases h
        exact .refused w e s err happ
  | move i m =>
    simp only [step] at h
    split at h
    · rename_i inst obs hm
      cases h
      exact .moved w i m inst obs (Instance.moves_of_move hm)
    · cases h
  | tick i now reached =>
    simp only [step] at h
    split at h
    · rename_i hp
      split at h
      · rename_i hf
        cases reached with
        | false => simp at hf
        | true =>
          cases h
          exact .opened w i now _ _ hp rfl
      · cases h
        exact .idled w i now reached hp
    · cases h
  | fetched i reached =>
    simp only [step] at h
    split at h
    · rename_i claim hp
      cases reached with
      | false =>
        cases h
        exact .fetchLost w i claim hp
      | true =>
        simp only [if_true] at h
        split at h
        · rename_i due s hc
          cases h
          exact .spawned w i claim due s hp hc
        · rename_i err s hc
          cases h
          exact .fetchFailed w i claim err s hp hc
    · cases h
  | mark i n clock reached =>
    simp only [step] at h
    split at h
    · rename_i e mark ht
      cases reached with
      | false =>
        cases h
        exact .markLost w i n clock e mark ht
      | true =>
        simp only [if_true] at h
        split at h
        · rename_i hfree
          cases h
          exact .issued w i n clock e mark ht hfree
        · cases h
    · cases h
  | crash i =>
    cases h
    exact .crashed w i

theorem World.forall_put {w : World ι σ γ} (Q : Instance γ → Prop) (i : ι) {inst : Instance γ}
    {s : σ} {obs : List Obs} (h : ∀ j, Q (w.instances j)) (hi : Q inst) :
    ∀ j, Q ((w.put i inst s obs).instances j) := by
  intro j
  by_cases hj : j = i
  · subst hj
    simpa [put] using hi
  · simpa [put, Function.update_of_ne hj] using h j

theorem World.put_self (w : World ι σ γ) (i : ι) (inst : Instance γ) (s : σ) (obs : List Obs) :
    (w.put i inst s obs).instances i = inst := by
  simp [put]

theorem World.put_of_ne {w : World ι σ γ} {i j : ι} (h : j ≠ i) (inst : Instance γ) (s : σ)
    (obs : List Obs) : (w.put i inst s obs).instances j = w.instances j := by
  simp [put, Function.update_of_ne h]

/-- Where a mark comes from: a task that is about to issue one was so before, or its
result has just come in. -/
theorem World.Steps.mem_marking {P : Shared σ γ} {config : ι → DispatcherConfig}
    {w w' : World ι σ γ} {a : Action ι} (h : Steps P config w a w') {j : ι} {e : OutboxEvent}
    {mark : Mark} (ht : ⟨e, .marking mark⟩ ∈ (w'.instances j).inFlight) :
    ⟨e, .marking mark⟩ ∈ (w.instances j).inFlight ∨
      ∃ n result now delay, a = .move j (.returned n result now delay) ∧
        result.mark (config j).backoff e now delay = some mark ∧
        w'.log = w.log++[Obs.ofMark e.id mark] := by
  -- only a step of instance `j` itself is of interest
  have other : ∀ {i : ι} {inst : Instance γ} {s : σ} {obs : List Obs},
      ⟨e, .marking mark⟩ ∈ ((w.put i inst s obs).instances j).inFlight →
      (⟨e, .marking mark⟩ ∈ inst.inFlight → ⟨e, .marking mark⟩ ∈ (w.instances i).inFlight) →
      ⟨e, .marking mark⟩ ∈ (w.instances j).inFlight := by
    intro i inst s obs hmem hinst
    by_cases hj : j = i
    · subst hj
      rw [World.put_self] at hmem
      exact hinst hmem
    · rwa [World.put_of_ne hj] at hmem
  cases h with
  | appended e s happ => exact Or.inl ht
  | refused e s err happ => exact Or.inl ht
  | appendLost e => exact Or.inl ht
  | moved i m inst obs hm =>
    by_cases hj : j = i
    · subst hj
      rw [World.put_self] at ht
      refine (hm.mem_inFlight ht).imp_right ?_
      rintro ⟨old, -, he, (hs | hs | hs) | ⟨n, result, now, delay, mark', rfl, hs, hmark, -, rfl⟩⟩
      · cases hs
      · cases hs
      · cases hs
      · cases hs
        cases he
        exact ⟨n, result, now, delay, rfl, hmark, rfl⟩
    · rw [World.put_of_ne hj] at ht
      exact Or.inl ht
  | idled i now reached hp => exact Or.inl (other ht fun hm => hm)
  | opened i now claim s hp hopen => exact Or.inl (other ht fun hm => hm)
  | spawned i claim due s hp hclose =>
    refine Or.inl (other ht fun hm => ?_)
    refine (List.mem_append.mp hm).resolve_right fun hnew => ?_
    obtain ⟨f, -, hf⟩ := List.mem_map.mp hnew
    cases hf
  | fetchFailed i claim err s hp hclose => exact Or.inl (other ht fun hm => hm)
  | fetchLost i claim hp => exact Or.inl (other ht fun hm => hm)
  | issued i n clock f mark' hf hfree =>
    refine Or.inl (other ht fun hm => ?_)
    refine (Instance.mem_setStage hm).resolve_right fun hnew => ?_
    cases hnew
  | markLost i n clock f mark' hf =>
    refine Or.inl (other ht fun hm => ?_)
    refine (Instance.mem_setStage hm).resolve_right fun hnew => ?_
    cases hnew
  | crashed i =>
    refine Or.inl (other ht fun hm => ?_)
    cases hm

end Steps
end OutboxKit
