import OutboxKit.Capacity
import OutboxKit.Custody
import OutboxKit.Deliveries
import OutboxKit.Letters

/-! An event's turn. The queue is served by stamp and identifier, a failed event goes
behind those already due, and full batches double; so an event that has `p` others
before it is sent within as many rounds as growing batches need to serve `p` and one
more, and no stream of failures or of new events keeps it waiting longer. -/
namespace OutboxKit
open Std Machine Ordered Trace

/-- What `k` full batches take off a queue, the first of size `first` and each twice the
last up to `max`. -/
def served (max first : Nat) : Nat → Nat
  | 0 => 0
  | k+1 => served max first k+min max (first*2^k)

def Action.isRound : Action Unit → Bool
  | .move _ .drained => true
  | _ => false

def rounds (as : List (Action Unit)) : Nat := as.countP Action.isRound

def CallResult.isPause : CallResult → Bool
  | .circuitOpen | .rejected => true
  | .ok | .failure _ | .other _ => false

/-- The store takes the mark the task is about to issue. -/
def OutboxStore.takes {σ : Type} (S : OutboxStore σ) (clock : UInt64) (s : σ) (task : Task) :
    Bool :=
  match task.stage with
  | .marking .dispatched => (S.markDispatched clock task.event.id s).1.isOk
  | .marking (.failed error retryAt) => (S.markFailed task.event.id error retryAt s).1.isOk
  | .queued | .permitted | .sending | .paused | .finished => true

/-- After `now` the breaker lets every call through, every mark goes through, the process
stays up, and what is new is stamped later than `now`. Fetches may fail. -/
def Flowing {σ : Type} (S : OutboxStore σ) (now : UInt64) (w : Solo σ) : Action Unit → Prop
  | .append e _ => now < e.createdAt
  | .move _ (.returned _ result clock _) => now < clock ∧ result.isPause = false
  | .move .. | .fetched .. => True
  | .tick _ clock _ => now < clock
  | .mark i n clock reached =>
    reached = true ∧ ((w.instances i).inFlight[n]?.all (S.takes clock w.store)) = true
  | .crash _ => False

instance {σ : Type} (S : OutboxStore σ) (now : UInt64) (w : Solo σ) (a : Action Unit) :
    Decidable (Flowing S now w a) :=
  match a with
  | .append .. | .tick .. => inferInstanceAs (Decidable (_ < _))
  | .move _ (.returned ..) | .mark .. => inferInstanceAs (Decidable (_ ∧ _))
  | .move _ .start | .move _ .shutdown | .move _ .leave | .move _ .stop | .move _ .drained
  | .move _ .gauge | .move _ (.permit _) | .move _ (.invoke _) | .move _ (.join _) | .fetched .. =>
    inferInstanceAs (Decidable True)
  | .crash _ => inferInstanceAs (Decidable False)

theorem served_mono (max first : Nat) : Monotone (served max first) :=
  monotone_nat_of_le_succ fun _ => Nat.le_add_right _ _

theorem rounds_concat (as : List (Action Unit)) (a : Action Unit) :
    rounds (as++[a]) = rounds as+if a.isRound then 1 else 0 := by
  rw [rounds, List.countP_append, List.countP_singleton]
  rfl

theorem CallResult.mark_ne_none {result : CallResult} (h : result.isPause = false)
    (p : BackoffPolicy) (e : OutboxEvent) (now : UInt64) (delay : Duration) :
    result.mark p e now delay ≠ none := by
  cases result with
  | circuitOpen | rejected => cases h
  | ok | failure err | other message => simp [mark]

theorem le_retryAt (p : BackoffPolicy) (attempts : UInt32) (now : UInt64) (delay : Duration) :
    now ≤ retryAt p attempts now delay := by
  rw [UInt64.le_iff_toNat_le]
  cases hexh : p.isExhausted attempts with
  | true =>
    rw [retryAt, if_pos hexh]
    exact le_u64Max now
  | false =>
    have hlt := now.toNat_lt
    rw [retryAt_toNat now delay hexh]
    omega

theorem not_pairCmp_self (x : UInt64 × EventId) : pairCmp x x ≠ .lt := by
  have hself : pairCmp x x = .eq := ReflCmp.compare_self
  rw [hself]
  simp

theorem le_of_pairCmp_lt {u t : UInt64} {k id : EventId} (h : pairCmp (u, k) (t, id) = .lt) :
    u ≤ t := by
  by_contra hgt
  have hc : compare u t = .gt := LawfulLTCmp.eq_gt_iff_gt.mpr (UInt64.not_le.mp hgt)
  simp [pairCmp, hc] at h

theorem FetchBatch.nextSize_doubles (b : FetchBatch) {current fetched : UInt64}
    (h : current ≤ fetched) :
    Min.min b.max.toNat (2*current.toNat) ≤ (b.nextSize current fetched).toNat := by
  have htwo : (2 : UInt64).toNat = 2 := rfl
  have hmax := b.max.toNat_lt
  rw [nextSize, if_pos h, toNat_max, toNat_min, satMul64_toNat, htwo]
  omega

def Phase.round {γ : Type} : Phase γ → Nat
  | .draining => 1
  | .down | .select | .fetching _ | .gauge | .stopping | .stopped => 0

def Phase.isSelect {γ : Type} : Phase γ → Bool
  | .select => true
  | .down | .fetching _ | .draining | .gauge | .stopping | .stopped => false

theorem Phase.eq_select {γ : Type} {phase : Phase γ} (h : phase.isSelect = true) :
    phase = .select := by
  cases phase with
  | select => rfl
  | down | fetching claim | draining | gauge | stopping | stopped => cases h

namespace Instance
variable {γ : Type} {inst : Instance γ} {n : Nat} {task t : Task}

theorem self_mem_setStage (h : inst.inFlight[n]? = some task) (stage : Stage) :
    { task with stage := stage } ∈ (inst.setStage n task stage).inFlight := by
  obtain ⟨hn, -⟩ := List.getElem?_eq_some_iff.mp h
  exact List.mem_set hn _

theorem mem_setStage_of_mem (h : inst.inFlight[n]? = some task) (ht : t ∈ inst.inFlight)
    (stage : Stage) : t = task ∨ t ∈ (inst.setStage n task stage).inFlight := by
  obtain ⟨j, hj, rfl⟩ := List.getElem_of_mem ht
  obtain ⟨hn, rfl⟩ := List.getElem?_eq_some_iff.mp h
  by_cases hjn : j = n
  · subst hjn
    exact Or.inl rfl
  · refine Or.inr (List.mem_iff_getElem.mpr ⟨j, by simpa [setStage] using hj, ?_⟩)
    simp only [setStage]
    exact List.getElem_set_ne (Ne.symm hjn) _

theorem mem_eraseIdx_of_mem (h : inst.inFlight[n]? = some task) (ht : t ∈ inst.inFlight) :
    t = task ∨ t ∈ inst.inFlight.eraseIdx n := by
  obtain ⟨j, hj, rfl⟩ := List.getElem_of_mem ht
  obtain ⟨hn, rfl⟩ := List.getElem?_eq_some_iff.mp h
  by_cases hjn : j = n
  · subst hjn
    exact Or.inl rfl
  · exact Or.inr (List.mem_eraseIdx_iff_getElem.mpr ⟨j, hj, hjn, rfl⟩)

end Instance

/-- The task goes on: it is not paused, and what it is to record is stamped after `t`. -/
def Stage.Flows (t : UInt64) : Stage → Prop
  | .paused => False
  | .marking (.failed _ retryAt) => t < retryAt
  | .queued | .permitted | .sending | .marking .dispatched | .finished => True

theorem CallResult.flows_of_mark {result : CallResult} {p : BackoffPolicy} {e : OutboxEvent}
    {t clock : UInt64} {delay : Duration} {mark : Mark} (h : t < clock)
    (hr : result.mark p e clock delay = some mark) : Stage.Flows t (.marking mark) := by
  cases mark with
  | dispatched => trivial
  | failed error retry =>
    rw [mark_failed hr]
    exact UInt64.lt_of_lt_of_le h (le_retryAt _ _ _ _)

namespace Refinement
variable {σ : Type} {S : OutboxStore σ} (R : Refinement S)

/-- A fetch lists the first events of its due list, `limit` of them or `cap`. -/
def Pages (cap : Nat) : Prop := ∀ s limit now, R.Valid s → ∃ l, (R.entry s).DueList now l ∧
  S.fetchDue limit now s = .ok ((l.take (min limit.toNat cap)).map (·.2))

/-- The event `k` is live, with its stamp and identifier before the pair `(t, id)`. -/
def Before (s : σ) (t : UInt64) (id k : EventId) : Prop :=
  ∃ u f, R.entry s k = .live u f ∧ pairCmp (u, k) (t, id) = .lt

/-- The events before the pair that no unfinished task has in hand. -/
def Waiting (t : UInt64) (id : EventId) (w : Solo σ) : Set EventId :=
  {k | R.Before w.store t id k ∧
    ∀ task ∈ (w.instances ()).inFlight, task.stage ≠ .finished → task.event.id ≠ k}

variable {R} {s s' : σ} {t now : UInt64} {id k : EventId} {e f : OutboxEvent} {w w' : Solo σ}

theorem Before.of_entry (h : R.Before s t id k) (he : R.entry s' k = R.entry s k) :
    R.Before s' t id k := by
  obtain ⟨u, f, hlive, hlt⟩ := h
  exact ⟨u, f, he.trans hlive, hlt⟩

theorem Before.ne_absent (h : R.Before s t id k) : R.entry s k ≠ .absent := by
  obtain ⟨u, f, hlive, -⟩ := h
  simp [hlive]

theorem Total.lt_of_issue (T : R.Total) (hstamp : ∀ v, v ≤ R.stamp v) (hv : R.Valid s)
    (hheld : R.Holds s f) {clock u : UInt64} {mark : Mark} {g : OutboxEvent}
    (htakes : S.takes clock s ⟨f, .marking mark⟩ = true) (hflows : Stage.Flows t (.marking mark))
    (hlive : R.entry ((Shared.ofStore S).issue clock f.id mark s) f.id = .live u g) : t < u := by
  cases mark with
  | dispatched =>
    obtain ⟨-, -, he⟩ := R.markDispatched_ok s clock f.id hv hheld.ne_absent
    change R.entry (S.markDispatched clock f.id s).2 f.id = _ at hlive
    rw [he, Outbox.markDispatched, Function.update_self] at hlive
    cases hlive
  | failed error retryAt =>
    have hroom : R.Room s f.id error := by
      by_contra hfull
      obtain ⟨err, he⟩ := T.markFailed_refused s f.id error retryAt hv hfull
      change (S.markFailed f.id error retryAt s).1.isOk = true at htakes
      rw [he] at htakes
      cases htakes
    obtain ⟨stamp, hold, -⟩ := hheld
    obtain ⟨-, -, he⟩ := R.markFailed_ok s f.id error retryAt hv hroom
    change R.entry (S.markFailed f.id error retryAt s).2 f.id = _ at hlive
    rw [he, Outbox.markFailed_live hold, Function.update_self, Entry.live.injEq] at hlive
    obtain ⟨rfl, -⟩ := hlive
    exact UInt64.lt_of_lt_of_le hflows (hstamp retryAt)

/-- The events before a due one are in the due list, in front of it. -/
theorem mem_take_of_before (hv : R.Valid s) {l : List (UInt64 × OutboxEvent)} {p : Nat}
    (hl : (R.entry s).DueList now l) (hp : l[p]? = some (t, e)) (h : R.Before s t e.id k) :
    k ∈ (l.take p).map (·.2.id) := by
  obtain ⟨hlive, hle, hne⟩ := (hl.mem_iff t e).mp (List.mem_of_getElem? hp)
  obtain ⟨u, f, hk, hlt⟩ := h
  obtain rfl := R.filed s hv k u f hk
  have hu := le_of_pairCmp_lt hlt
  have hmem : (u, f) ∈ l := by
    refine (hl.mem_iff u f).mpr ⟨hk, UInt64.le_trans hu hle, ?_⟩
    rintro rfl
    exact hne (UInt64.le_antisymm (le_u64Max t) hu)
  obtain ⟨j, hj, hget⟩ := List.getElem_of_mem hmem
  have hjp : j < p := by
    by_contra hge
    obtain ⟨hplen, hpe⟩ := List.getElem?_eq_some_iff.mp hp
    rcases Nat.lt_or_ge p j with hlt' | hle'
    · have hsorted := List.pairwise_iff_getElem.mp hl.sorted p j hplen hj hlt'
      rw [hpe, hget] at hsorted
      rw [OrientedCmp.gt_of_lt hsorted] at hlt
      cases hlt
    · obtain rfl : j = p := by omega
      rw [hget] at hpe
      cases hpe
      exact not_pairCmp_self _ hlt
  refine List.mem_map.mpr ⟨(u, f), ?_, rfl⟩
  exact List.mem_take_iff_getElem.mpr ⟨j, by omega, hget⟩

theorem before_finite (hv : R.Valid s) (hlive : R.entry s e.id = .live t e) (hne : t ≠ never) :
    {k | R.Before s t e.id k}.Finite := by
  obtain ⟨l, n, hl, -, -⟩ := R.fetchDue_ok s 0 t hv
  obtain ⟨p, hp⟩ := List.getElem?_of_mem ((hl.mem_iff t e).mpr ⟨hlive, UInt64.le_refl t, hne⟩)
  refine Set.Finite.subset (List.finite_toSet ((l.take p).map (·.2.id))) fun k hk => ?_
  exact mem_take_of_before hv hl hp hk

/-- The tasks that hold their events go on holding them, or take new ones. -/
theorem waiting_subset (hbefore : ∀ k, R.Before w'.store t id k → R.Before w.store t id k)
    (htasks : ∀ task ∈ (w.instances ()).inFlight, task.stage ≠ .finished →
      R.Before w'.store t id task.event.id →
      ∃ new ∈ (w'.instances ()).inFlight, new.stage ≠ .finished ∧ new.event.id = task.event.id) :
    R.Waiting t id w' ⊆ R.Waiting t id w := by
  rintro k ⟨hk, hfree⟩
  refine ⟨hbefore k hk, fun task ht hs hid => ?_⟩
  subst hid
  obtain ⟨new, hnew, hstage, hid⟩ := htasks task ht hs hk
  exact hfree new hnew hstage hid

/-- The event `e`, stamped `t`, has its turn coming after `r` rounds. While it is not in
hand, those still before it and what the rounds have served make up no more than `p`,
and the batch size has grown with the rounds; a batch out or fetched has it or
is full of events before it. -/
structure Turn (max p first : Nat) (t : UInt64) (e : OutboxEvent) (r : Nat) (w : Solo σ) :
    Prop where
  due : t ≠ never
  coherent : R.Coherent w
  up : (w.instances ()).phase ≠ .down
  entry : R.entry w.store e.id = .live t e
  flows : ∀ task ∈ (w.instances ()).inFlight, task.stage.Flows t
  queued : stageOf (w.instances ()).inFlight e.id = none →
    (R.Waiting t e.id w).ncard+served max first (r+(w.instances ()).phase.round) ≤ p ∧
      min max (first*2^(r+(w.instances ()).phase.round)) ≤ (w.instances ()).batchSize.toNat
  taken : ∀ stage, stageOf (w.instances ()).inFlight e.id = some stage →
    (stage = .queued ∨ stage = .permitted) ∧ served max first r ≤ p
  fetched : ∀ evs, (w.instances ()).phase = .fetching (.ok evs) → e ∈ evs ∨
    evs.length = (w.instances ()).batchSize.toNat ∧ ∀ f ∈ evs, R.Before w.store t e.id f.id

namespace Turn
variable {max p first r : Nat} {inst : Instance Fetched} {obs : List Obs} {n : Nat} {task : Task}
  {stage : Stage}

theorem mono (h : R.Turn max p first t e r w) (hw : R.Coherent w')
    (hup : (w'.instances ()).phase ≠ .down)
    (hentry : R.entry w'.store e.id = R.entry w.store e.id)
    (hflows : ∀ task ∈ (w'.instances ()).inFlight, task.stage.Flows t)
    (hstage : stageOf (w'.instances ()).inFlight e.id = stageOf (w.instances ()).inFlight e.id ∨
      stageOf (w.instances ()).inFlight e.id = some .queued ∧
        stageOf (w'.instances ()).inFlight e.id = some .permitted)
    (hround : (w'.instances ()).phase.round = (w.instances ()).phase.round)
    (hbatch : (w'.instances ()).batchSize = (w.instances ()).batchSize)
    (hwaiting : R.Waiting t e.id w' ⊆ R.Waiting t e.id w)
    (hfetched : ∀ evs, (w'.instances ()).phase = .fetching (.ok evs) → e ∈ evs ∨
      evs.length = (w'.instances ()).batchSize.toNat ∧ ∀ f ∈ evs, R.Before w'.store t e.id f.id) :
    R.Turn max p first t e r w' where
  due := h.due
  coherent := hw
  up := hup
  entry := hentry.trans h.entry
  flows := hflows
  queued hnone := by
    have hold : stageOf (w.instances ()).inFlight e.id = none := by
      cases hstage with
      | inl hs => rwa [hs] at hnone
      | inr hs =>
        rw [hs.2] at hnone
        cases hnone
    obtain ⟨hp, hsize⟩ := h.queued hold
    have hle : (R.Waiting t e.id w').ncard ≤ (R.Waiting t e.id w).ncard :=
      Set.ncard_le_ncard hwaiting
        ((before_finite h.coherent.valid h.entry h.due).subset fun _ hk => hk.1)
    rw [hround, hbatch]
    exact ⟨by omega, hsize⟩
  taken stage hs := by
    cases hstage with
    | inl hsame => exact h.taken stage (hsame ▸ hs)
    | inr hpermit =>
      rw [hpermit.2, Option.some.injEq] at hs
      exact ⟨Or.inr hs.symm, (h.taken _ hpermit.1).2⟩
  fetched := hfetched

theorem advance (h : R.Turn max p first t e r w)
    (ht : (w.instances ()).inFlight[n]? = some task)
    (hw : R.Coherent (w.put () ((w.instances ()).setStage n task stage) w.store obs))
    (hs : stage ≠ .finished) (hflows : stage.Flows t)
    (hself : task.event.id = e.id → task.stage = .queued ∧ stage = .permitted) :
    R.Turn max p first t e r (w.put () ((w.instances ()).setStage n task stage) w.store obs) := by
  have hset := stageOf_set h.coherent.tidy.unique ht stage e.id
  have hdrain := h.coherent.tidy.draining_of_task ht
  refine h.mono hw ?_ rfl ?_ ?_ ?_ ?_ ?_ ?_
  · rw [World.put_self, Instance.setStage, hdrain]
    simp
  · rw [World.put_self]
    intro t' ht'
    cases Instance.mem_setStage ht' with
    | inl hold => exact h.flows t' hold
    | inr hnew => rwa [hnew]
  · rw [World.put_self, Instance.setStage, hset]
    by_cases hid : task.event.id = e.id
    · obtain ⟨hq, rfl⟩ := hself hid
      rw [if_pos hid]
      refine Or.inr ⟨?_, rfl⟩
      rw [← hid, stageOf_getElem? h.coherent.tidy.unique ht, hq]
    · rw [if_neg hid]
      exact Or.inl rfl
  · rw [World.put_self]
    rfl
  · rw [World.put_self]
    rfl
  · refine waiting_subset (fun _ hk => hk) fun old hold hunf _ => ?_
    rw [World.put_self]
    cases Instance.mem_setStage_of_mem ht hold stage with
    | inl hsame => exact ⟨_, Instance.self_mem_setStage ht stage, hs, by rw [hsame]⟩
    | inr hmem => exact ⟨old, hmem, hunf, rfl⟩
  · intro evs hp
    rw [World.put_self, Instance.setStage, hdrain] at hp
    cases hp

theorem still (h : R.Turn max p first t e r w)
    (hw : R.Coherent (w.put () inst w.store obs)) (hup : inst.phase ≠ .down)
    (htasks : inst.inFlight = (w.instances ()).inFlight)
    (hround : inst.phase.round = (w.instances ()).phase.round)
    (hbatch : inst.batchSize = (w.instances ()).batchSize)
    (hfetched : ∀ evs, inst.phase = .fetching (.ok evs) → e ∈ evs ∨
      evs.length = inst.batchSize.toNat ∧ ∀ f ∈ evs, R.Before w.store t e.id f.id) :
    R.Turn max p first t e r (w.put () inst w.store obs) := by
  refine h.mono hw ?_ rfl ?_ ?_ ?_ ?_ ?_ ?_
  · rwa [World.put_self]
  · rw [World.put_self, htasks]
    exact h.flows
  · rw [World.put_self, htasks]
    exact Or.inl rfl
  · rwa [World.put_self]
  · rwa [World.put_self]
  · refine waiting_subset (fun _ hk => hk) fun old hold hunf _ => ⟨old, ?_, hunf, rfl⟩
    rwa [World.put_self, htasks]
  · rw [World.put_self]
    exact hfetched

theorem joined (h : R.Turn max p first t e r w)
    (ht : (w.instances ()).inFlight[n]? = some task)
    (hs : task.stage = .paused ∨ task.stage = .finished)
    (hw : R.Coherent (w.put () { w.instances () with
      inFlight := (w.instances ()).inFlight.eraseIdx n } w.store obs)) :
    R.Turn max p first t e r (w.put () { w.instances () with
      inFlight := (w.instances ()).inFlight.eraseIdx n } w.store obs) := by
  have hdrain := h.coherent.tidy.draining_of_task ht
  have herase := stageOf_eraseIdx h.coherent.tidy.unique ht e.id
  have hid : task.event.id ≠ e.id := by
    intro hid
    have hstage := stageOf_getElem? h.coherent.tidy.unique ht
    rw [hid] at hstage
    rcases hs with hs | hs <;> rcases (h.taken _ hstage).1 with hq | hq <;> rw [hs] at hq <;>
      cases hq
  refine h.mono hw ?_ rfl ?_ ?_ ?_ ?_ ?_ ?_
  · rw [World.put_self]
    simp [hdrain]
  · rw [World.put_self]
    exact fun t' ht' => h.flows t' (List.mem_of_mem_eraseIdx ht')
  · rw [World.put_self, herase, if_neg hid]
    exact Or.inl rfl
  · rw [World.put_self]
  · rw [World.put_self]
  · refine waiting_subset (fun _ hk => hk) fun old hold hunf _ => ?_
    rw [World.put_self]
    cases Instance.mem_eraseIdx_of_mem ht hold with
    | inl hsame =>
      subst hsame
      have hflows := h.flows old hold
      rw [hs.resolve_right hunf] at hflows
      exact hflows.elim
    | inr hmem => exact ⟨old, hmem, hunf, rfl⟩
  · intro evs hp
    rw [World.put_self] at hp
    cases hdrain.symm.trans hp

/-- A batch has drained: one more round, in which the event was not. -/
theorem drained (h : R.Turn max p first t e r w) (hp : (w.instances ()).phase = .draining)
    (hempty : (w.instances ()).inFlight = [])
    (hw : R.Coherent (w.put () { w.instances () with phase := .gauge } w.store obs)) :
    R.Turn max p first t e (r+1)
      (w.put () { w.instances () with phase := .gauge } w.store obs) where
  due := h.due
  coherent := hw
  up := by
    rw [World.put_self]
    simp
  entry := h.entry
  flows := by
    rw [World.put_self]
    exact h.flows
  queued _ := by
    have hq := h.queued (by simp [hempty, stageOf])
    rw [hp] at hq
    rw [World.put_self]
    refine ⟨?_, hq.2⟩
    refine (Nat.add_le_add_right (Set.ncard_le_ncard ?_ ?_) _).trans hq.1
    · refine waiting_subset (fun _ hk => hk) fun old hold => ?_
      rw [hempty] at hold
      cases hold
    · exact (before_finite h.coherent.valid h.entry h.due).subset fun _ hk => hk.1
  taken stage hs := by
    rw [World.put_self] at hs
    simp [hempty, stageOf] at hs
  fetched evs hf := by
    rw [World.put_self] at hf
    cases hf

theorem moved {c : DispatcherConfig} {m : Move} (h : R.Turn max p first t e r w)
    (hm : Instance.Moves c (w.instances ()) m inst obs) (hflow : Flowing S now w (.move () m))
    (htn : t ≤ now) (hw : R.Coherent (w.put () inst w.store obs)) :
    R.Turn max p first t e (r+if (Action.move () m).isRound then 1 else 0)
      (w.put () inst w.store obs) ∨ .invoked e.id ∈ obs := by
  -- a task for the event itself is queued or permitted
  have hself : ∀ {n : Nat} {task : Task}, (w.instances ()).inFlight[n]? = some task →
      task.event.id = e.id → task.stage = .queued ∨ task.stage = .permitted := by
    intro n task ht hid
    have hstage := stageOf_getElem? h.coherent.tidy.unique ht
    rw [hid] at hstage
    exact (h.taken _ hstage).1
  cases hm with
  | start hp => exact absurd hp h.up
  | shutdown hp => exact Or.inl (h.still hw h.up rfl rfl rfl h.fetched)
  | leave hp hs =>
    refine Or.inl (h.still hw (by simp) rfl ?_ rfl (by simp))
    rw [hp]
    rfl
  | stop hp hf =>
    refine Or.inl (h.still hw (by simp) rfl ?_ rfl (by simp))
    rw [hp]
    rfl
  | drained hp hf => exact Or.inl (h.drained hp hf hw)
  | gauge hp =>
    refine Or.inl (h.still hw (by simp) rfl ?_ rfl (by simp))
    rw [hp]
    rfl
  | permit n task ht hs hc =>
    exact Or.inl (h.advance ht hw (by simp) trivial fun _ => ⟨hs, rfl⟩)
  | invoke n task ht hs =>
    by_cases hid : task.event.id = e.id
    · exact Or.inr (by simp [hid])
    · exact Or.inl (h.advance ht hw (by simp) trivial fun he => absurd he hid)
  | pause n task result clock delay ht hs hr =>
    exact absurd hr (CallResult.mark_ne_none hflow.2 _ _ _ _)
  | answer n task result clock delay mark ht hs hj hr =>
    refine Or.inl (h.advance ht hw (by simp) ?_ fun he => ?_)
    · exact CallResult.flows_of_mark (UInt64.lt_of_le_of_lt htn hflow.1) hr
    · rcases hself ht he with hq | hq <;> rw [hs] at hq <;> cases hq
  | join n task ht hs => exact Or.inl (h.joined ht hs hw)

theorem appended (T : R.Total) (hstamp : ∀ v, v ≤ R.stamp v) (h : R.Turn max p first t e r w)
    {f : OutboxEvent} (hlater : t < f.createdAt) (log : List Obs) :
    R.Turn max p first t e r ⟨(S.append f w.store).2, w.instances, log⟩ := by
  obtain ⟨hv, hknown⟩ := T.append_known h.coherent.valid f
  have hkeep : ∀ k, R.entry w.store k ≠ .absent →
      R.entry (S.append f w.store).2 k = R.entry w.store k := fun k hk => hknown k (Or.inr hk)
  have hbefore : ∀ k, R.Before (S.append f w.store).2 t e.id k → R.Before w.store t e.id k := by
    intro k hk
    cases T.append_entry h.coherent.valid f k with
    | inl hsame => exact hk.of_entry hsame.symm
    | inr hnew =>
      obtain ⟨u, g, hlive, hlt⟩ := hk
      obtain ⟨-, -, hadded⟩ := hnew
      rw [hadded, Entry.live.injEq] at hlive
      obtain ⟨rfl, -⟩ := hlive
      have hle := UInt64.le_trans (hstamp f.createdAt) (le_of_pairCmp_lt hlt)
      exact absurd (UInt64.lt_of_lt_of_le hlater hle) (UInt64.lt_irrefl t)
  have hc : R.Coherent ⟨(S.append f w.store).2, w.instances, log⟩ :=
    ⟨hv, h.coherent.tidy.mono fun g hg => hg.of_entry (hkeep _ hg.ne_absent)⟩
  refine h.mono hc h.up (hkeep _ (by simp [h.entry])) h.flows (Or.inl rfl) rfl rfl ?_
    fun evs hp => ?_
  · exact waiting_subset hbefore fun old hold hunf _ => ⟨old, hold, hunf, rfl⟩
  · refine (h.fetched evs hp).imp_right fun hfull => ⟨hfull.1, fun g hg => ?_⟩
    exact (hfull.2 g hg).of_entry (hkeep _ (hfull.2 g hg).ne_absent)

theorem issued (T : R.Total) (hstamp : ∀ v, v ≤ R.stamp v) (h : R.Turn max p first t e r w)
    {clock : UInt64} {f : OutboxEvent} {mark : Mark}
    (ht : (w.instances ()).inFlight[n]? = some ⟨f, .marking mark⟩)
    (htakes : S.takes clock w.store ⟨f, .marking mark⟩ = true)
    (hw : R.Coherent (w.put () ((w.instances ()).setStage n ⟨f, .marking mark⟩ .finished)
      ((Shared.ofStore S).issue clock f.id mark w.store) [])) :
    R.Turn max p first t e r (w.put () ((w.instances ()).setStage n ⟨f, .marking mark⟩ .finished)
      ((Shared.ofStore S).issue clock f.id mark w.store) []) := by
  have hheld : R.Holds w.store f := h.coherent.tidy.held _ (List.mem_of_getElem? ht) (by simp)
  obtain ⟨-, hother⟩ := T.issue_other h.coherent.valid clock hheld.ne_absent mark
  have hdrain := h.coherent.tidy.draining_of_task ht
  have hflows : Stage.Flows t (.marking mark) := h.flows _ (List.mem_of_getElem? ht)
  have hid : f.id ≠ e.id := by
    intro hid
    have hstage := stageOf_getElem? h.coherent.tidy.unique ht
    rw [hid] at hstage
    rcases (h.taken _ hstage).1 with hq | hq <;> cases hq
  -- the marked event is no longer before the other
  have hgone : ¬R.Before ((Shared.ofStore S).issue clock f.id mark w.store) t e.id f.id := by
    rintro ⟨u, g, hlive, hlt⟩
    have hlater := T.lt_of_issue hstamp h.coherent.valid hheld htakes hflows hlive
    exact absurd (UInt64.lt_of_lt_of_le hlater (le_of_pairCmp_lt hlt)) (UInt64.lt_irrefl t)
  have hset := stageOf_set h.coherent.tidy.unique ht .finished e.id
  refine h.mono hw ?_ (hother _ hid.symm) ?_ ?_ ?_ ?_ ?_ ?_
  · rw [World.put_self, Instance.setStage, hdrain]
    simp
  · rw [World.put_self]
    intro task hmem
    cases Instance.mem_setStage hmem with
    | inl hold => exact h.flows task hold
    | inr hnew =>
      rw [hnew]
      trivial
  · rw [World.put_self, Instance.setStage, hset, if_neg hid]
    exact Or.inl rfl
  · rw [World.put_self]
    rfl
  · rw [World.put_self]
    rfl
  · refine waiting_subset (fun k hk => ?_) fun old hold hunf hk => ?_
    · by_cases hkf : k = f.id
      · subst hkf
        exact absurd hk hgone
      · exact hk.of_entry (hother k hkf).symm
    · rw [World.put_self]
      cases Instance.mem_setStage_of_mem ht hold .finished with
      | inl hsame =>
        subst hsame
        exact absurd hk hgone
      | inr hmem => exact ⟨old, hmem, hunf, rfl⟩
  · intro evs hp
    rw [World.put_self, Instance.setStage, hdrain] at hp
    cases hp

theorem ids_waiting {evs : List OutboxEvent} (hnodup : (evs.map (·.id)).Nodup)
    (hempty : (w.instances ()).inFlight = []) (hbefore : ∀ f ∈ evs, R.Before w.store t e.id f.id) :
    {k | k ∈ evs.map (·.id)} ⊆ R.Waiting t e.id w ∧
      {k | k ∈ evs.map (·.id)}.ncard = evs.length := by
  constructor
  · intro k hk
    obtain ⟨f, hf, rfl⟩ := List.mem_map.mp hk
    exact ⟨hbefore f hf, by simp [hempty]⟩
  · have hcoe : {k | k ∈ evs.map (·.id)} = ((evs.map (·.id)).toFinset : Set EventId) := by
      ext k
      simp
    rw [hcoe, Set.ncard_coe_finset, List.toFinset_card_of_nodup hnodup, List.length_map]

theorem waiting_finite (h : R.Turn max p first t e r w) : (R.Waiting t e.id w).Finite :=
  (before_finite h.coherent.valid h.entry h.due).subset fun _ hk => hk.1

/-- What a fetch lists has the event, or is a full batch of events before it. -/
theorem listed {cap : Nat} (hpages : R.Pages cap) (hcap : p < cap)
    (h : R.Turn max p first t e r w) (hsel : (w.instances ()).phase = .select) {clock : UInt64}
    (hlate : t ≤ clock) {evs : List OutboxEvent}
    (hf : S.fetchDue (w.instances ()).batchSize clock w.store = .ok evs) :
    e ∈ evs ∨ evs.length = (w.instances ()).batchSize.toNat ∧
      ∀ f ∈ evs, R.Before w.store t e.id f.id := by
  have hempty := h.coherent.tidy.drained (by simp [hsel])
  obtain ⟨hnodup, -⟩ := fetchDue_holds h.coherent.valid hf
  obtain ⟨l, hl, he⟩ := hpages w.store (w.instances ()).batchSize clock h.coherent.valid
  rw [he, Except.ok.injEq] at hf
  obtain ⟨q, hq⟩ := List.getElem?_of_mem ((hl.mem_iff t e).mpr ⟨h.entry, hlate, h.due⟩)
  obtain ⟨hqlen, hqe⟩ := List.getElem?_eq_some_iff.mp hq
  rcases Nat.lt_or_ge q (min (w.instances ()).batchSize.toNat cap) with hin | hout
  · refine Or.inl ?_
    rw [← hf]
    exact List.mem_map.mpr ⟨(t, e), List.mem_take_iff_getElem.mpr ⟨q, by omega, hqe⟩, rfl⟩
  · have hlen : evs.length = min (w.instances ()).batchSize.toNat cap := by
      rw [← hf, List.length_map, List.length_take]
      omega
    have hbefore : ∀ f ∈ evs, R.Before w.store t e.id f.id := by
      intro f hmem
      rw [← hf] at hmem
      obtain ⟨⟨u, g⟩, hg, rfl⟩ := List.mem_map.mp hmem
      obtain ⟨j, hj, hjg⟩ := List.mem_take_iff_getElem.mp hg
      have hsorted := List.pairwise_iff_getElem.mp hl.sorted j q (by omega) hqlen (by omega)
      rw [hjg, hqe] at hsorted
      exact ⟨u, g, ((hl.mem_iff u g).mp (List.mem_of_mem_take hg)).1, hsorted⟩
    -- the waiting events are too few to fill a batch of `cap`
    obtain ⟨hsub, hcard⟩ := ids_waiting hnodup hempty hbefore
    have hle := Set.ncard_le_ncard hsub h.waiting_finite
    have hq := (h.queued (by simp [hempty, stageOf])).1
    exact Or.inr ⟨by omega, hbefore⟩

/-- A fetched batch goes out: it has the event, or is taken off those before it. -/
theorem spawned {c : DispatcherConfig} {evs : List OutboxEvent}
    (h : R.Turn c.fetchBatch.saturated.max.toNat p first t e r w)
    (hp : (w.instances ()).phase = .fetching (.ok evs))
    (hw : R.Coherent (w.put () ((w.instances ()).spawn c evs) w.store [])) :
    R.Turn c.fetchBatch.saturated.max.toNat p first t e r
      (w.put () ((w.instances ()).spawn c evs) w.store []) := by
  have hempty := h.coherent.tidy.drained (by simp [hp])
  have hnew : ((w.instances ()).spawn c evs).inFlight = evs.map fun f => ⟨f, .queued⟩ := by
    simp [Instance.spawn, hempty]
  obtain ⟨hwait, hsize⟩ := h.queued (by simp [hempty, stageOf])
  rw [hp] at hwait hsize
  refine ⟨h.due, hw, ?_, h.entry, ?_, fun hnone => ?_, fun stage hs => ?_, fun evs' hf => ?_⟩
  · rw [World.put_self]
    simp [Instance.spawn]
  · rw [World.put_self, hnew]
    intro task ht
    obtain ⟨f, -, rfl⟩ := List.mem_map.mp ht
    trivial
  · rw [World.put_self, hnew] at hnone
    have hout : ∀ f ∈ evs, f.id ≠ e.id := fun f hf =>
      stageOf_eq_none.mp hnone ⟨f, .queued⟩ (List.mem_map_of_mem hf)
    obtain ⟨hlen, hbefore⟩ := (h.fetched evs hp).resolve_left fun hmem => hout e hmem rfl
    obtain ⟨hnodup, -⟩ := h.coherent.tidy.fetched evs hp
    obtain ⟨hsub, hcard⟩ := ids_waiting hnodup hempty hbefore
    have hdiff := Set.ncard_sdiff_add_ncard_of_subset hsub h.waiting_finite
    have hrest : R.Waiting t e.id (w.put () ((w.instances ()).spawn c evs) w.store []) ⊆
        R.Waiting t e.id w \ {k | k ∈ evs.map (·.id)} := by
      rintro k ⟨hk, hfree⟩
      refine ⟨⟨hk, by simp [hempty]⟩, fun hmem => ?_⟩
      obtain ⟨f, hf, rfl⟩ := List.mem_map.mp hmem
      refine hfree ⟨f, .queued⟩ ?_ (by simp) rfl
      rw [World.put_self, hnew]
      exact List.mem_map_of_mem hf
    have hle := Set.ncard_le_ncard hrest (h.waiting_finite.subset Set.sdiff_subset)
    have hfull : UInt64.ofNat evs.length = (w.instances ()).batchSize := by
      rw [hlen, UInt64.ofNat_toNat]
    have hdouble := c.fetchBatch.saturated.nextSize_doubles
      (le_of_eq hfull.symm : (w.instances ()).batchSize ≤ UInt64.ofNat evs.length)
    have hpow : first*2^(r+1) = 2*(first*2^r) := by ring
    rw [World.put_self]
    change _+served _ first (r+1) ≤ p ∧ min _ (first*2^(r+1)) ≤
      (c.fetchBatch.saturated.nextSize _ _).toNat
    rw [hpow]
    simp only [Phase.round, Nat.add_zero] at hwait hsize
    rw [served]
    omega
  · refine ⟨Or.inl ?_, ?_⟩
    · rw [World.put_self, hnew] at hs
      cases stageOf_queued evs e.id with
      | inl hnone =>
        rw [hnone] at hs
        cases hs
      | inr hqueued =>
        rw [hqueued.1, Option.some.injEq] at hs
        exact hs.symm
    · simp only [Phase.round, Nat.add_zero] at hwait
      omega
  · rw [World.put_self] at hf
    cases hf

/-- One step: the event is sent, or keeps its turn. -/
theorem step {c : DispatcherConfig} {cap : Nat} (T : R.Total) (hstamp : ∀ v, v ≤ R.stamp v)
    (hpages : R.Pages cap) (hcap : p < cap) (htn : t ≤ now) {a : Action Unit}
    (h : R.Turn c.fetchBatch.saturated.max.toNat p first t e r w) (hflow : Flowing S now w a)
    (hstep : w.step (Shared.ofStore S) (fun _ => c) a = some w') :
    R.Turn c.fetchBatch.saturated.max.toNat p first t e (r+if a.isRound then 1 else 0) w' ∨
      invocations w.log e.id < invocations w'.log e.id := by
  have hw := h.coherent.step T hstep
  cases World.steps_of_step hstep with
  | appended f s happ =>
    rw [show s = (S.append f w.store).2 from (congrArg Prod.snd happ).symm]
    exact Or.inl (h.appended T hstamp (UInt64.lt_of_le_of_lt htn hflow) _)
  | refused f s err happ =>
    rw [show s = (S.append f w.store).2 from (congrArg Prod.snd happ).symm]
    exact Or.inl (h.appended T hstamp (UInt64.lt_of_le_of_lt htn hflow) _)
  | appendLost f => exact Or.inl h
  | moved i m inst obs hm =>
    refine (h.moved hm hflow htn hw).imp_right fun hsent => ?_
    have hpos : 0 < invocations obs e.id := List.count_pos_iff.mpr hsent
    have hlog : invocations (w.log++obs) e.id = invocations w.log e.id+invocations obs e.id :=
      List.count_append
    change _ < invocations (w.log++obs) e.id
    omega
  | idled i clock reached hp => exact Or.inl (h.still hw h.up rfl rfl rfl h.fetched)
  | opened i clock claim s hp hopen =>
    cases hopen
    have hlate := UInt64.le_of_lt (UInt64.lt_of_le_of_lt htn hflow)
    refine Or.inl (h.still hw (by simp) rfl ?_ rfl fun evs hf => ?_)
    · rw [hp]
      rfl
    · exact h.listed hpages hcap hp hlate (Phase.fetching.inj hf)
  | spawned i claim due s hp hclose =>
    cases hclose
    exact Or.inl (h.spawned hp hw)
  | fetchFailed i claim err s hp hclose =>
    cases hclose
    refine Or.inl (h.still hw (by simp) rfl ?_ rfl (by simp))
    rw [hp]
    rfl
  | fetchLost i claim hp =>
    refine Or.inl (h.still hw (by simp) rfl ?_ rfl (by simp))
    rw [hp]
    rfl
  | issued i n clock f mark ht hfree =>
    refine Or.inl (h.issued T hstamp ht ?_ hw)
    have htakes := hflow.2
    rwa [ht] at htakes
  | markLost i n clock f mark ht => cases hflow.1
  | crashed i => exact hflow.elim

theorem start {cap : Nat} (hpages : R.Pages cap) (hw : R.Coherent w)
    (hsel : (w.instances ()).phase = .select) {limit : UInt64} {due : List OutboxEvent}
    (hdue : S.fetchDue limit now w.store = .ok due) (hp : due[p]? = some e) :
    p < cap ∧ ∃ t ≤ now, R.Turn max p (w.instances ()).batchSize.toNat t e 0 w := by
  have hempty := hw.tidy.drained (by simp [hsel])
  obtain ⟨l, hl, he⟩ := hpages w.store limit now hw.valid
  rw [he, Except.ok.injEq] at hdue
  subst hdue
  rw [List.getElem?_map, Option.map_eq_some_iff] at hp
  obtain ⟨⟨t, f⟩, hget, rfl⟩ := hp
  obtain ⟨hplen, -⟩ := List.getElem?_eq_some_iff.mp hget
  rw [List.length_take] at hplen
  rw [List.getElem?_take_of_lt (by omega)] at hget
  obtain ⟨hlive, hle, hne⟩ := (hl.mem_iff t f).mp (List.mem_of_getElem? hget)
  refine ⟨by omega, t, hle, hne, hw, by simp [hsel], hlive, by simp [hempty], fun _ => ?_,
    fun stage hs => ?_, fun evs hf => ?_⟩
  · have hsub : R.Waiting t f.id w ⊆ {k | k ∈ (l.take p).map (·.2.id)} := fun k hk =>
      mem_take_of_before hw.valid hl hget hk.1
    have hle := Set.ncard_le_ncard hsub (List.finite_toSet _)
    have hcoe : {k | k ∈ (l.take p).map (·.2.id)} =
        (((l.take p).map (·.2.id)).toFinset : Set EventId) := by
      ext k
      simp
    rw [hcoe, Set.ncard_coe_finset] at hle
    have hcard := List.toFinset_card_le ((l.take p).map (·.2.id))
    rw [List.length_map, List.length_take] at hcard
    rw [hsel]
    simp only [Phase.round, served]
    omega
  · simp [hempty, stageOf] at hs
  · rw [hsel] at hf
    cases hf

end Turn

/-- A whole run: a turn that is due by then has come. -/
theorem turn_run {c : DispatcherConfig} {cap p : Nat} (T : R.Total) (hstamp : ∀ v, v ≤ R.stamp v)
    (hpages : R.Pages cap) (hw : R.Coherent w) (hsel : (w.instances ()).phase = .select)
    {limit : UInt64} {due : List OutboxEvent} (hdue : S.fetchDue limit now w.store = .ok due)
    (hp : due[p]? = some e) {as : List (Action Unit)}
    (hrun : (single S c w.store).run (Flowing S now) w as = some w')
    (hserved : p < served c.fetchBatch.saturated.max.toNat (w.instances ()).batchSize.toNat
      (rounds as)) :
    invocations w.log e.id < invocations w'.log e.id := by
  obtain ⟨hcap, t, htn, hturn⟩ := Turn.start hpages hw hsel hdue hp
  have hend := System.run_history
    (I := fun past u => invocations w.log e.id ≤ invocations u.log e.id ∧
      (R.Turn c.fetchBatch.saturated.max.toNat p (w.instances ()).batchSize.toNat t e
        (rounds past) u ∨ invocations w.log e.id < invocations u.log e.id)) hrun ⟨Nat.le_refl _, Or.inl hturn⟩ ?_
  · refine hend.2.resolve_left fun hturn => ?_
    cases hs : stageOf (w'.instances ()).inFlight e.id with
    | none =>
      have hq := (hturn.queued hs).1
      have hmono := served_mono c.fetchBatch.saturated.max.toNat (w.instances ()).batchSize.toNat
        (Nat.le_add_right (rounds as) (w'.instances ()).phase.round)
      omega
    | some stage =>
      have hle := (hturn.taken stage hs).2
      omega
  · rintro past u a v ⟨hle, hu⟩ hflow hstep
    have hmono := invocations_le_step hstep e.id
    rw [rounds_concat]
    refine ⟨hle.trans hmono, ?_⟩
    cases hu with
    | inr hsent => exact Or.inr (hsent.trans_le hmono)
    | inl hu => exact (hu.step T hstamp hpages hcap htn hflow hstep).imp_right hle.trans_lt

end Refinement

theorem Memory.pages : Memory.refinement.Pages (2^64) := by
  intro s limit now hv
  refine ⟨dueEntries now s, dueList_dueEntries hv now, ?_⟩
  have hlt := limit.toNat_lt
  rw [Nat.min_eq_left (by omega)]
  exact fetchDue_eq hv limit now

theorem Sqlite.pages (U : UuidCrate) : (Sqlite.refinement U).Pages (2^63-1) := by
  intro t limit now hv
  obtain ⟨l, hl, htake⟩ := (reading U hv).dueList (isDue now) now fun key row _ => by
    simp [isDue, and_assoc]
  rw [← limitRows_eq]
  exact ⟨l, hl, htake _⟩

theorem le_stampOf_clampI64 (v : UInt64) : v ≤ stampOf (clampI64 v) := by
  by_cases h : v.toNat < 2^63-1
  · rw [stampOf_clampI64 (Or.inl h)]
    exact UInt64.le_refl v
  · rw [(stampOf_clampI64_eq_never_iff v).mpr (by omega)]
    exact le_u64Max v

/-- No starvation. Over the in-process store and over SQLite, in every state one dispatcher
reaches, when the loop waits in its select: an event that a fetch at `now` would list at
position `p` is sent in every run that goes on from there with enough rounds, where
`served` says how many events that many full batches take, the first of the current
size and each twice the last up to the ceiling. The sender may fail every event, fetches
may fail and producers may append; the run is one in which the process stays up, the
breaker lets calls through, marks go through, and clocks and new stamps are past `now`. -/
theorem no_starvation (U : UuidCrate) (c : DispatcherConfig) (limit now : UInt64)
    (due : List OutboxEvent) (p : Nat) (e : OutboxEvent) (hp : due[p]? = some e)
    (as : List (Action Unit)) :
    (∀ w w', (single Memory.store c Memory.new).Reachable (fun _ _ => True) w →
      (w.instances ()).phase = .select → Memory.fetchDue limit now w.store = .ok due →
      (single Memory.store c w.store).run (Flowing Memory.store now) w as = some w' →
      p < served c.fetchBatch.saturated.max.toNat (w.instances ()).batchSize.toNat (rounds as) →
      invocations w.log e.id < invocations w'.log e.id) ∧
    (∀ w w', (single (Sqlite.store U) c Sqlite.empty).Reachable (fun _ _ => True) w →
      (w.instances ()).phase = .select → Sqlite.fetchDue U limit now w.store = .ok due →
      (single (Sqlite.store U) c w.store).run (Flowing (Sqlite.store U) now) w as = some w' →
      p < served c.fetchBatch.saturated.max.toNat (w.instances ()).batchSize.toNat (rounds as) →
      invocations w.log e.id < invocations w'.log e.id) := by
  constructor
  · intro w w' hw hsel hdue hrun hserved
    have hc := Refinement.Coherent.reachable Memory.refinement_total Memory.valid_new hw
    exact Refinement.turn_run Memory.refinement_total (fun v => UInt64.le_refl v)
      Memory.pages hc hsel
      hdue hp hrun hserved
  · intro w w' hw hsel hdue hrun hserved
    have hc := Refinement.Coherent.reachable (Sqlite.refinement_total U) Sqlite.valid_empty hw
    exact Refinement.turn_run (Sqlite.refinement_total U) le_stampOf_clampI64
      (Sqlite.pages U) hc hsel
      hdue hp hrun hserved

def threeDue : List (Action Unit) :=
  [.append (.sample 1 5) true, .append (.sample 2 5) true, .append (.sample 3 5) true,
    .move () .start]

/-- Two rounds, in the first of which both events fail. -/
def twoRounds : List (Action Unit) :=
  [.tick () 10 true, .fetched () true, .move () (.permit 0), .move () (.invoke 0),
    .move () (.returned 0 (.failure (.delivery "down")) 20 .zero), .mark () 0 20 true,
    .move () (.join 0), .move () (.permit 0), .move () (.invoke 0),
    .move () (.returned 0 (.failure (.delivery "down")) 20 .zero), .mark () 0 20 true,
    .move () (.join 0), .move () .drained, .move () .gauge, .tick () 30 true, .fetched () true,
    .move () (.permit 0), .move () (.invoke 0),
    .move () (.returned 0 .ok 40 .zero), .mark () 0 40 true, .move () (.join 0),
    .move () (.permit 0), .move () (.invoke 0), .move () (.returned 0 .ok 40 .zero),
    .mark () 0 40 true, .move () (.join 0), .move () (.permit 0), .move () (.invoke 0),
    .move () (.returned 0 .ok 40 .zero), .mark () 0 40 true, .move () (.join 0),
    .move () .drained]

theorem no_starvation_twoRounds :
    ∃ w w', (single Memory.store (.sample 3) Memory.new).Reachable (fun _ _ => True) w ∧
      (single Memory.store (.sample 3) w.store).run (Flowing Memory.store 5) w twoRounds = some w' ∧
      failures w'.log (.ofByte 1) = 1 ∧ failures w'.log (.ofByte 2) = 1 ∧
      invocations w.log (.ofByte 3) < invocations w'.log (.ofByte 3) := by
  have hrun : ((single Memory.store (.sample 3) Memory.new).run (fun _ _ => True)
      (World.start Unit _ Memory.new) threeDue).any (fun w =>
        (w.instances ()).phase.isSelect = true ∧
          (w.instances ()).batchSize = 2 ∧ (Memory.fetchDue 8 5 w.store).toOption =
            some [.sample 1 5, .sample 2 5, .sample 3 5] ∧
          ((single Memory.store (.sample 3) w.store).run (Flowing Memory.store 5) w twoRounds).any
            (fun w' => failures w'.log (.ofByte 1) = 1 ∧ failures w'.log (.ofByte 2) = 1) = true)
      = true := by
    decide +kernel
  obtain ⟨w, hw, hphase, hsize, hdue, hrun'⟩ := System.exists_reach hrun
  obtain ⟨w', hw', hfailed⟩ := (Option.any_eq_true _ _).mp hrun'
  have hsel : (w.instances ()).phase = .select := Phase.eq_select hphase
  have hfetch : Memory.fetchDue 8 5 w.store = .ok [.sample 1 5, .sample 2 5, .sample 3 5] := by
    rw [Memory.fetchDue] at hdue ⊢
    exact congrArg Except.ok (Option.some.inj hdue)
  obtain ⟨hone, htwo⟩ := of_decide_eq_true hfailed
  refine ⟨w, w', hw, hw', hone, htwo, ?_⟩
  refine (no_starvation .hyphenatedOnly (.sample 3) 8 5 _ 2 (.sample 3 5) rfl twoRounds).1
    w w' hw hsel
    hfetch hw' ?_
  rw [hsize]
  decide

end OutboxKit
