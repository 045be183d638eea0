import OutboxKit.Snapshot

/-! The course of one event under one dispatcher, as a small machine: an event waits,
is sent, and its result is recorded; a failure sends it back or parks it, a
success ends it. The number kept with each state is the number of failures the
store has on record. -/
namespace OutboxKit
open Machine Trace

inductive Life where
  | unknown
  | waiting (r : Nat)
  | sending (r : Nat)
  | failing (r : Nat)
  | delivering (r : Nat)
  | parked (r : Nat)
  | dispatched (r : Nat)

namespace Life

def recorded : Life → Nat
  | .unknown => 0
  | .waiting r | .sending r | .failing r | .delivering r | .parked r | .dispatched r => r

def invocations : Life → Nat
  | .unknown => 0
  | .waiting r | .parked r => r
  | .sending r | .failing r | .delivering r | .dispatched r => r+1

def failures : Life → Nat
  | .unknown => 0
  | .failing r => r+1
  | .waiting r | .sending r | .delivering r | .parked r | .dispatched r => r

def Settled : Life → Prop
  | .parked _ | .dispatched _ => True
  | .unknown | .waiting _ | .sending _ | .failing _ | .delivering _ => False

variable (a m : Nat)

/-- The steps, for an event that came in with `a` attempts under a budget of `m`. -/
inductive Next : Life → Life → Prop
  | append : Next .unknown (.waiting 0)
  | send (r : Nat) : Next (.waiting r) (.sending r)
  | succeed (r : Nat) : Next (.sending r) (.delivering r)
  | fail (r : Nat) : Next (.sending r) (.failing r)
  | retry (r : Nat) : a+r+1 < m → Next (.failing r) (.waiting (r+1))
  | park (r : Nat) : m ≤ a+r+1 → Next (.failing r) (.parked (r+1))
  | complete (r : Nat) : Next (.delivering r) (.dispatched r)

/-- The budget, as each state has kept it: what is not parked has failed never or
less often than allowed, and what is parked has just reached the limit. -/
def Within : Life → Prop
  | .unknown => True
  | .parked r => 1 ≤ r ∧ m ≤ a+r ∧ (r = 1 ∨ a+r ≤ m)
  | .waiting r | .sending r | .failing r | .delivering r | .dispatched r => r = 0 ∨ a+r < m

variable {a m} {l l' : Life}

theorem Within.next (h : l.Within a m) (hn : Next a m l l') : l'.Within a m := by
  cases hn with
  | append => exact Or.inl rfl
  | send r => exact h
  | succeed r => exact h
  | fail r => exact h
  | retry r hlt => exact Or.inr hlt
  | park r hle =>
    simp only [Within] at h ⊢
    omega
  | complete r => exact h

theorem Within.invocations_le (h : l.Within a m) : l.invocations ≤ max 1 (m-a) := by
  cases l with
  | unknown => exact Nat.zero_le _
  | waiting r | sending r | failing r | delivering r | parked r | dispatched r =>
    simp only [Within, invocations] at h ⊢
    omega

theorem Settled.not_next (h : l.Settled) : ¬Next a m l l' := by
  intro hn
  cases hn <;> exact h

end Life

def stageOf (tasks : List Task) (id : EventId) : Option Stage :=
  (tasks.find? fun task => task.event.id = id).map (·.stage)

section StageOf
variable {tasks : List Task} {n : Nat} {task : Task} {id : EventId}

theorem stageOf_set (hu : (tasks.map (·.event.id)).Nodup) (h : tasks[n]? = some task)
    (stage : Stage) (id : EventId) : stageOf (tasks.set n { task with stage := stage }) id =
      if task.event.id = id then some stage else stageOf tasks id := by
  induction tasks generalizing n with
  | nil => cases h
  | cons x xs ih =>
    rw [List.map_cons, List.nodup_cons] at hu
    obtain ⟨hx, hu⟩ := hu
    cases n with
    | zero =>
      cases h
      by_cases hid : task.event.id = id <;> simp [stageOf, hid]
    | succ n =>
      have hmem : task.event.id ∈ xs.map (·.event.id) :=
        List.mem_map_of_mem (List.mem_of_getElem? h)
      have ih := ih hu h
      by_cases hid : x.event.id = id
      · have hne : task.event.id ≠ id := by
          rintro rfl
          exact hx (hid ▸ hmem)
        simp [stageOf, hid, hne]
      · simpa [stageOf, hid] using ih

theorem stageOf_eraseIdx (hu : (tasks.map (·.event.id)).Nodup) (h : tasks[n]? = some task)
    (id : EventId) : stageOf (tasks.eraseIdx n) id =
      if task.event.id = id then none else stageOf tasks id := by
  induction tasks generalizing n with
  | nil => cases h
  | cons x xs ih =>
    rw [List.map_cons, List.nodup_cons] at hu
    obtain ⟨hx, hu⟩ := hu
    cases n with
    | zero =>
      cases h
      by_cases hid : task.event.id = id
      · subst hid
        have hnone : xs.find? (fun t => t.event.id = task.event.id) = none := by
          refine List.find?_eq_none.mpr fun t ht => ?_
          have hmem : t.event.id ∈ xs.map (·.event.id) := List.mem_map_of_mem ht
          simpa using fun he : t.event.id = task.event.id => hx (he ▸ hmem)
        simp [stageOf, hnone]
      · simp [stageOf, hid]
    | succ n =>
      have hmem : task.event.id ∈ xs.map (·.event.id) :=
        List.mem_map_of_mem (List.mem_of_getElem? h)
      have ih := ih hu h
      by_cases hid : x.event.id = id
      · have hne : task.event.id ≠ id := by
          rintro rfl
          exact hx (hid ▸ hmem)
        simp [stageOf, hid, hne]
      · simpa [stageOf, hid] using ih

theorem stageOf_getElem? (hu : (tasks.map (·.event.id)).Nodup) (h : tasks[n]? = some task) :
    stageOf tasks task.event.id = some task.stage := by
  have hset := stageOf_set hu h task.stage task.event.id
  obtain ⟨hn, rfl⟩ := List.getElem?_eq_some_iff.mp h
  rwa [List.set_getElem_self hn, if_pos rfl] at hset

theorem stageOf_eq_none : stageOf tasks id = none ↔ ∀ task ∈ tasks, task.event.id ≠ id := by
  simp [stageOf]

theorem stageOf_queued (evs : List OutboxEvent) (id : EventId) :
    stageOf (evs.map fun e => ⟨e, .queued⟩) id = none ∨
      stageOf (evs.map fun e => ⟨e, .queued⟩) id = some .queued ∧ ∃ e ∈ evs, e.id = id := by
  by_cases h : ∃ e ∈ evs, e.id = id
  · refine Or.inr ⟨?_, h⟩
    obtain ⟨e, he, hid⟩ := h
    cases hf : (evs.map fun e => (⟨e, .queued⟩ : Task)).find? fun task => task.event.id = id with
    | none =>
      have := List.find?_eq_none.mp hf ⟨e, .queued⟩ (List.mem_map_of_mem he)
      simp [hid] at this
    | some task =>
      obtain ⟨f, -, rfl⟩ := List.mem_map.mp (List.mem_of_find?_eq_some hf)
      rw [stageOf, hf, Option.map_some]
  · refine Or.inl (stageOf_eq_none.mpr fun task ht => ?_)
    obtain ⟨e, he, rfl⟩ := List.mem_map.mp ht
    exact fun hid => h ⟨e, he, hid⟩

end StageOf

def Obs.id : Obs → EventId
  | .appended e => e.id
  | .invoked id | .delivered id | .failed id => id

/-- What a move of the instance does to the task of one event. -/
inductive Stage.Moves {γ : Type} (c : DispatcherConfig) (inst : Instance γ) (m : Move)
    (id : EventId) : Option Stage → Option Stage → List Obs → Prop
  | other (stage : Option Stage) (obs : List Obs) : (∀ o ∈ obs, o.id ≠ id) →
      Moves c inst m id stage stage obs
  | permit : Moves c inst m id (some .queued) (some .permitted) []
  | invoke : Moves c inst m id (some .permitted) (some .sending) [.invoked id]
  | pause : Moves c inst m id (some .permitted) (some .paused) []
  | answer (n : Nat) (e : OutboxEvent) (result : CallResult) (now : UInt64) (delay : Duration)
      (mark : Mark) : ⟨e, .sending⟩ ∈ inst.inFlight → e.id = id → m = .returned n result now delay →
      c.backoff.Jittered (satAdd32 e.attempts 1) delay →
      result.mark c.backoff e now delay = some mark →
      Moves c inst m id (some .sending) (some (.marking mark)) [Obs.ofMark id mark]
  | join (stage : Stage) : stage = .paused ∨ stage = .finished →
    Moves c inst m id (some stage) none []

theorem Instance.Moves.stageOf {γ : Type} {c : DispatcherConfig} {inst inst' : Instance γ}
    {m : Move} {obs : List Obs} (h : Moves c inst m inst' obs)
    (hu : (inst.inFlight.map (·.event.id)).Nodup) (hdown : inst.phase = .down → inst.inFlight = [])
    (id : EventId) : Stage.Moves c inst m id (OutboxKit.stageOf inst.inFlight id)
      (OutboxKit.stageOf inst'.inFlight id) obs := by
  cases h with
  | start hp =>
    rw [hdown hp]
    exact .other _ _ (by simp)
  | shutdown hp => exact .other _ _ (by simp)
  | leave hp hs => exact .other _ _ (by simp)
  | stop hp hf => exact .other _ _ (by simp)
  | drained hp hf => exact .other _ _ (by simp)
  | gauge hp => exact .other _ _ (by simp)
  | permit n task ht hs hc =>
    rw [setStage, stageOf_set hu ht]
    split
    · rename_i hid
      subst hid
      rw [stageOf_getElem? hu ht, hs]
      exact .permit
    · exact .other _ _ (by simp)
  | invoke n task ht hs =>
    rw [setStage, stageOf_set hu ht]
    split
    · rename_i hid
      subst hid
      rw [stageOf_getElem? hu ht, hs]
      exact .invoke
    · rename_i hid
      exact .other _ _ (by simpa [Obs.id] using hid)
  | pause n task result now delay ht hs hr =>
    rw [setStage, stageOf_set hu ht]
    split
    · rename_i hid
      subst hid
      rw [stageOf_getElem? hu ht, hs]
      exact .pause
    · exact .other _ _ (by simp)
  | answer n task result now delay mark ht hs hj hr =>
    obtain ⟨e, stage⟩ := task
    cases hs
    rw [setStage, stageOf_set hu ht]
    split
    · rename_i hid
      subst hid
      rw [stageOf_getElem? hu ht]
      exact .answer n e result now delay mark (List.mem_of_getElem? ht) rfl rfl hj hr
    · rename_i hid
      refine .other _ _ fun o ho => ?_
      rw [List.mem_singleton.mp ho]
      cases mark <;> exact hid
  | join n task ht hs =>
    change Stage.Moves c inst _ id _ (OutboxKit.stageOf (inst.inFlight.eraseIdx n) id) _
    rw [stageOf_eraseIdx hu ht]
    split
    · rename_i hid
      subst hid
      rw [stageOf_getElem? hu ht]
      exact .join _ hs
    · exact .other _ _ (by simp)

end OutboxKit
