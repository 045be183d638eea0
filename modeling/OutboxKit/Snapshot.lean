import OutboxKit.DispatchSteps
import OutboxKit.MemorySpec
import OutboxKit.SqliteSpec

/-! One dispatcher over a store behind one mutex. It polls only after every task of
the last batch has been joined, so no event is in flight twice, and the event a
task works from is the one the store holds until that task's own mark. -/
namespace OutboxKit
open Machine Trace

abbrev Fetched := Except StoreError (List OutboxEvent)

abbrev Solo (σ : Type) := World Unit σ Fetched

def single {σ : Type} (S : OutboxStore σ) (c : DispatcherConfig) (s : σ) :
    System (Solo σ) (Action Unit) :=
  dispatching (Shared.ofStore S) (fun _ => c) s

namespace Instance
variable {γ : Type} {inst : Instance γ} {n : Nat} {task t : Task} {stage : Stage}

theorem ids_setStage (h : inst.inFlight[n]? = some task) :
    (inst.setStage n task stage).inFlight.map (·.event.id) = inst.inFlight.map (·.event.id) := by
  obtain ⟨hn, rfl⟩ := List.getElem?_eq_some_iff.mp h
  rw [setStage, List.map_set]
  apply List.ext_getElem
  · rw [List.length_set]
  · intro k hk hk'
    rw [List.getElem_set]
    split
    · rename_i he
      subst he
      rw [List.getElem_map]
    · rfl

/-- With distinct identifiers in flight, a task after one changed stage is the changed
one or an old one for another event. -/
theorem mem_setStage_unique (hu : (inst.inFlight.map (·.event.id)).Nodup)
    (h : inst.inFlight[n]? = some task) (ht : t ∈ (inst.setStage n task stage).inFlight) :
    t = { task with stage := stage } ∨ t ∈ inst.inFlight ∧ t.event.id ≠ task.event.id := by
  obtain ⟨hn, rfl⟩ := List.getElem?_eq_some_iff.mp h
  obtain ⟨k, hk, rfl⟩ := List.getElem_of_mem ht
  simp only [setStage, List.length_set] at hk
  simp only [setStage, List.getElem_set]
  split
  · exact Or.inl rfl
  · rename_i hne
    refine Or.inr ⟨List.getElem_mem hk, fun he => hne ?_⟩
    have hk' : k < (inst.inFlight.map (·.event.id)).length := by simpa
    have hn' : n < (inst.inFlight.map (·.event.id)).length := by simpa
    have hinj : (inst.inFlight.map (·.event.id))[k] = (inst.inFlight.map (·.event.id))[n] ↔ k = n :=
      hu.getElem_inj_iff
    rw [List.getElem_map, List.getElem_map] at hinj
    exact (hinj.mp he).symm

end Instance

/-- What the loop keeps of its batch, when `H` says which events the store holds: tasks
are in flight only while it drains, for distinct events, and an event fetched or
in flight is held as it is until its task has issued a mark. -/
structure Instance.Tidy (H : OutboxEvent → Prop) (inst : Instance Fetched) : Prop where
  drained : inst.phase ≠ .draining → inst.inFlight = []
  unique : (inst.inFlight.map (·.event.id)).Nodup
  held : ∀ task ∈ inst.inFlight, task.stage ≠ .finished → H task.event
  fetched : ∀ evs, inst.phase = .fetching (.ok evs) → (evs.map (·.id)).Nodup ∧ ∀ e ∈ evs, H e

namespace Instance.Tidy
variable {H H' : OutboxEvent → Prop} {inst inst' : Instance Fetched} {n : Nat} {task : Task}
  {stage : Stage}

theorem off : Tidy H Instance.off := ⟨fun _ => rfl, by simp [Instance.off], by simp [Instance.off],
  fun evs h => by cases h⟩

theorem mono (h : inst.Tidy H) (hle : ∀ e, H e → H' e) : inst.Tidy H' :=
  ⟨h.drained, h.unique, fun task ht hs => hle _ (h.held task ht hs),
    fun evs hp => ⟨(h.fetched evs hp).1, fun e he => hle e ((h.fetched evs hp).2 e he)⟩⟩

theorem of_empty (hempty : inst.inFlight = []) (hphase : ∀ evs, inst.phase ≠ .fetching (.ok evs)) :
    inst.Tidy H :=
  ⟨fun _ => hempty, by simp [hempty], by simp [hempty], fun evs hp => absurd hp (hphase evs)⟩

theorem draining_of_task (h : inst.Tidy H) (ht : inst.inFlight[n]? = some task) :
    inst.phase = .draining := by
  by_contra hp
  rw [h.drained hp] at ht
  cases ht

theorem setStage (h : inst.Tidy H) (ht : inst.inFlight[n]? = some task)
    (hother : ∀ e, e.id ≠ task.event.id → H e → H' e) (hself : stage ≠ .finished → H' task.event) :
    (inst.setStage n task stage).Tidy H' := by
  have hp := h.draining_of_task ht
  refine ⟨fun hne => absurd hp hne, ?_, fun t hmem hs => ?_, fun evs hf => ?_⟩
  · rw [ids_setStage ht]
    exact h.unique
  · cases mem_setStage_unique h.unique ht hmem with
    | inl he =>
      subst he
      exact hself hs
    | inr hold => exact hother _ hold.2 (h.held t hold.1 hs)
  · rw [Instance.setStage, hp] at hf
    cases hf

theorem advance (h : inst.Tidy H) (ht : inst.inFlight[n]? = some task)
    (hs : task.stage ≠ .finished) : (inst.setStage n task stage).Tidy H :=
  h.setStage ht (fun _ _ he => he) fun _ => h.held task (List.mem_of_getElem? ht) hs

theorem move {c : DispatcherConfig} {m : Move} {obs : List Obs} (h : inst.Tidy H)
    (hm : Moves c inst m inst' obs) : inst'.Tidy H := by
  cases hm with
  | start hp => exact of_empty rfl (by simp [started])
  | shutdown hp => exact ⟨h.drained, h.unique, h.held, h.fetched⟩
  | leave hp hs => exact of_empty (h.drained (by simp [hp])) (by simp)
  | stop hp hf => exact of_empty hf (by simp)
  | drained hp hf => exact of_empty hf (by simp)
  | gauge hp => exact of_empty (h.drained (by simp [hp])) (by simp)
  | permit n task ht hs hc => exact h.advance ht (by simp [hs])
  | invoke n task ht hs => exact h.advance ht (by simp [hs])
  | pause n task result now delay ht hs hr => exact h.advance ht (by simp [hs])
  | answer n task result now delay mark ht hs hj hr => exact h.advance ht (by simp [hs])
  | join n task ht hs =>
    have hp := h.draining_of_task ht
    refine ⟨fun hne => absurd hp hne, ?_,
      fun t hmem => h.held t (List.mem_of_mem_eraseIdx hmem), ?_⟩
    · exact h.unique.sublist (List.Sublist.map _ (List.eraseIdx_sublist _ _))
    · intro evs hf
      rw [hp] at hf
      cases hf

theorem spawn {evs : List OutboxEvent} (c : DispatcherConfig) (h : inst.Tidy H)
    (hp : inst.phase = .fetching (.ok evs)) : (inst.spawn c evs).Tidy H := by
  have hempty := h.drained (by simp [hp])
  obtain ⟨hnodup, hheld⟩ := h.fetched evs hp
  refine ⟨fun hne => absurd rfl hne, ?_, fun task ht _ => ?_, fun evs' hf => ?_⟩
  · simpa [Instance.spawn, hempty, Function.comp_def] using hnodup
  · simp only [Instance.spawn, hempty, List.nil_append, List.mem_map] at ht
    obtain ⟨e, he, rfl⟩ := ht
    exact hheld e he
  · cases hf

end Instance.Tidy

namespace Refinement
variable {σ : Type} {S : OutboxStore σ} {R : Refinement S}

/-- The store has this very event, live and not parked. -/
def Holds (R : Refinement S) (s : σ) (e : OutboxEvent) : Prop :=
  ∃ stamp, R.entry s e.id = .live stamp e ∧ stamp ≠ never

theorem Holds.of_entry {s t : σ} {e : OutboxEvent} (h : R.Holds s e)
    (he : R.entry t e.id = R.entry s e.id) : R.Holds t e := by
  obtain ⟨stamp, hlive, hne⟩ := h
  exact ⟨stamp, he.trans hlive, hne⟩

theorem Holds.ne_absent {s : σ} {e : OutboxEvent} (h : R.Holds s e) : R.entry s e.id ≠ .absent := by
  obtain ⟨stamp, hlive, -⟩ := h
  simp [hlive]

theorem Total.append_cases (T : R.Total) {s : σ} (hv : R.Valid s) (e : OutboxEvent) :
    (∃ err, S.append e s = (.error err, s)) ∨
    ((S.append e s).1 = .ok () ∧ R.Valid (S.append e s).2 ∧
      R.entry (S.append e s).2 = (R.entry s).append (R.stamp e.createdAt) (R.norm e)) := by
  by_cases hacc : R.Accepts e
  · exact Or.inr (R.append_ok s e hv hacc)
  · exact Or.inl (T.append_refused s e hacc)

theorem Total.append_known (T : R.Total) {s : σ} (hv : R.Valid s) (e : OutboxEvent) :
    R.Valid (S.append e s).2 ∧ ∀ k, k ≠ e.id ∨ R.entry s k ≠ .absent →
      R.entry (S.append e s).2 k = R.entry s k := by
  cases T.append_cases hv e with
  | inl h =>
    obtain ⟨err, h⟩ := h
    rw [h]
    exact ⟨hv, fun _ _ => rfl⟩
  | inr h =>
    obtain ⟨-, hv', he⟩ := h
    refine ⟨hv', fun k hk => ?_⟩
    rw [he]
    by_cases ha : R.entry s e.id = .absent
    · have hne : k ≠ (R.norm e).id := by
        rw [R.norm_id]
        rintro rfl
        exact hk.elim (fun h => h rfl) (fun h => h ha)
      rw [Outbox.append_absent (by rwa [R.norm_id]), Function.update_of_ne hne]
    · rw [Outbox.append_known (by rwa [R.norm_id])]

theorem Total.issue_other (T : R.Total) {s : σ} (hv : R.Valid s) (clock : UInt64) {id : EventId}
    (hknown : R.entry s id ≠ .absent) (mark : Mark) :
    R.Valid ((Shared.ofStore S).issue clock id mark s) ∧
      ∀ k, k ≠ id → R.entry ((Shared.ofStore S).issue clock id mark s) k = R.entry s k := by
  cases mark with
  | dispatched =>
    obtain ⟨-, hv', he⟩ := R.markDispatched_ok s clock id hv hknown
    refine ⟨hv', fun k hk => ?_⟩
    change R.entry (S.markDispatched clock id s).2 k = _
    rw [he, Outbox.markDispatched, Function.update_of_ne hk]
  | failed error retryAt =>
    change R.Valid (S.markFailed id error retryAt s).2 ∧
      ∀ k, k ≠ id → R.entry (S.markFailed id error retryAt s).2 k = R.entry s k
    by_cases hroom : R.Room s id error
    · obtain ⟨-, hv', he⟩ := R.markFailed_ok s id error retryAt hv hroom
      refine ⟨hv', fun k hk => ?_⟩
      rw [he, Outbox.markFailed_other hk]
    · obtain ⟨err, h⟩ := T.markFailed_refused s id error retryAt hv hroom
      rw [h]
      exact ⟨hv, fun _ _ => rfl⟩

theorem fetchDue_holds {s : σ} (hv : R.Valid s) {limit now : UInt64} {evs : List OutboxEvent}
    (h : S.fetchDue limit now s = .ok evs) : (evs.map (·.id)).Nodup ∧ ∀ e ∈ evs, R.Holds s e := by
  obtain ⟨l, n, hl, -, he⟩ := R.fetchDue_ok s limit now hv
  rw [he, Except.ok.injEq] at h
  subst h
  constructor
  · rw [List.map_map]
    exact hl.nodup_ids.sublist ((List.take_sublist n l).map _)
  · intro e hmem
    obtain ⟨⟨stamp, f⟩, hf, rfl⟩ := List.mem_map.mp hmem
    obtain ⟨hlive, -, hne⟩ := (hl.mem_iff stamp f).mp (List.mem_of_mem_take hf)
    exact ⟨stamp, hlive, hne⟩

/-- The store is readable and the dispatcher's snapshots are what it holds. -/
structure Coherent (R : Refinement S) (w : Solo σ) : Prop where
  valid : R.Valid w.store
  tidy : (w.instances ()).Tidy (R.Holds w.store)

/-- Any step, failing store calls, shutdown and crash included, keeps the snapshots
coherent. -/
theorem Coherent.step (T : R.Total) {c : DispatcherConfig} {w w' : Solo σ} {a : Action Unit}
    (h : R.Coherent w) (hstep : w.step (Shared.ofStore S) (fun _ => c) a = some w') :
    R.Coherent w' := by
  cases World.steps_of_step hstep with
  | appended e s happ =>
    obtain ⟨hv, hknown⟩ := T.append_known h.valid e
    rw [show s = (S.append e w.store).2 from (congrArg Prod.snd happ).symm]
    exact ⟨hv, h.tidy.mono fun f hf => hf.of_entry (hknown _ (Or.inr hf.ne_absent))⟩
  | refused e s err happ =>
    obtain ⟨hv, hknown⟩ := T.append_known h.valid e
    rw [show s = (S.append e w.store).2 from (congrArg Prod.snd happ).symm]
    exact ⟨hv, h.tidy.mono fun f hf => hf.of_entry (hknown _ (Or.inr hf.ne_absent))⟩
  | appendLost e => exact h
  | moved i m inst obs hm =>
    refine ⟨h.valid, ?_⟩
    rw [World.put_self]
    exact h.tidy.move hm
  | idled i now reached hp =>
    refine ⟨h.valid, ?_⟩
    rw [World.put_self]
    exact ⟨h.tidy.drained, h.tidy.unique, h.tidy.held, h.tidy.fetched⟩
  | opened i now claim s hp hopen =>
    cases hopen
    refine ⟨h.valid, ?_⟩
    rw [World.put_self]
    have hempty := h.tidy.drained (by simp [hp])
    refine ⟨fun _ => hempty, h.tidy.unique, h.tidy.held, fun evs hf => ?_⟩
    exact fetchDue_holds h.valid (Phase.fetching.inj hf)
  | spawned i claim due s hp hclose =>
    cases hclose
    refine ⟨h.valid, ?_⟩
    rw [World.put_self]
    exact h.tidy.spawn c hp
  | fetchFailed i claim err s hp hclose =>
    cases hclose
    refine ⟨h.valid, ?_⟩
    rw [World.put_self]
    exact .of_empty (h.tidy.drained (by simp [hp])) (by simp)
  | fetchLost i claim hp =>
    refine ⟨h.valid, ?_⟩
    rw [World.put_self]
    exact .of_empty (h.tidy.drained (by simp [hp])) (by simp)
  | issued i n clock e mark ht hfree =>
    have hheld : R.Holds w.store e := h.tidy.held _ (List.mem_of_getElem? ht) (by simp)
    obtain ⟨hv, hother⟩ := T.issue_other h.valid clock hheld.ne_absent mark
    refine ⟨hv, ?_⟩
    rw [World.put_self]
    exact h.tidy.setStage ht (fun f hf hh => hh.of_entry (hother _ hf)) (absurd rfl)
  | markLost i n clock e mark ht =>
    refine ⟨h.valid, ?_⟩
    rw [World.put_self]
    exact h.tidy.advance ht (by simp)
  | crashed i =>
    rw [show (Shared.ofStore S).release (w.instances i) w.store = w.store from ?_]
    · refine ⟨h.valid, ?_⟩
      rw [World.put_self]
      exact .off
    · unfold Shared.release
      split <;> rfl

theorem Coherent.reachable (T : R.Total) {c : DispatcherConfig} {s : σ} (hs : R.Valid s)
    {ok : Solo σ → Action Unit → Prop} {w : Solo σ} (h : (single S c s).Reachable ok w) :
    R.Coherent w :=
  h.invariant ⟨hs, .off⟩ fun _ _ _ hw _ hstep => hw.step T hstep

end Refinement

/-- One dispatcher, over the in-process store and over SQLite, in every state it
reaches: no two tasks in flight are for one event; a task that has not issued its
mark works from the event as the store holds it, live and not parked; and tasks
are in flight only while the loop drains its batch, so none is when it waits in
the select or has left it. -/
theorem snapshots_coherent (U : UuidCrate) (c : DispatcherConfig) :
    (∀ w, (single Memory.store c Memory.new).Reachable (fun _ _ => True) w →
      ((w.instances ()).inFlight.map (·.event.id)).Nodup ∧
      (∀ task ∈ (w.instances ()).inFlight, task.stage ≠ .finished →
        ∃ stamp, w.store.events[task.event.id]? = some (stamp, task.event) ∧ stamp ≠ never) ∧
      ((w.instances ()).phase ≠ .draining → (w.instances ()).inFlight = [])) ∧
    (∀ w, (single (Sqlite.store U) c Sqlite.empty).Reachable (fun _ _ => True) w →
      ((w.instances ()).inFlight.map (·.event.id)).Nodup ∧
      (∀ task ∈ (w.instances ()).inFlight, task.stage ≠ .finished →
        ∃ row, w.store.outboxEvents[task.event.id.text]? = some row ∧ row.dispatchedAt = none ∧
          row.nextAttemptAt < parkedAsI64 ∧
          Sqlite.eventFromRow U (task.event.id.text, row) = .ok task.event) ∧
      ((w.instances ()).phase ≠ .draining → (w.instances ()).inFlight = [])) := by
  constructor
  · intro w hw
    have h := Refinement.Coherent.reachable Memory.refinement_total Memory.valid_new hw
    refine ⟨h.tidy.unique, fun task ht hs => ?_, h.tidy.drained⟩
    obtain ⟨stamp, hlive, hne⟩ := h.tidy.held task ht hs
    exact ⟨stamp, Memory.entry_live_iff.mp hlive, hne⟩
  · intro w hw
    have h := Refinement.Coherent.reachable (Sqlite.refinement_total U) Sqlite.valid_empty hw
    refine ⟨h.tidy.unique, fun task ht hs => ?_, h.tidy.drained⟩
    obtain ⟨stamp, hlive, hne⟩ := h.tidy.held task ht hs
    obtain ⟨row, hget, hd, hdec, rfl⟩ := (Sqlite.entry_live_iff U).mp hlive
    exact ⟨row, hget, hd, (stampOf_ne_never_iff (h.valid _ _ hget).due).mp hne, hdec⟩

/-- Two events in flight, one of them marked, while a producer appends a third and
shutdown is signalled. -/
def midBatch : List (Action Unit) :=
  [.append (.sample 1 5) true, .append (.sample 2 5) true, .move () .start, .tick () 10 true,
    .fetched () true, .move () (.permit 0), .move () (.invoke 0), .move () (.permit 1),
    .move () (.invoke 1), .move () (.returned 0 .ok 20 .zero), .mark () 0 20 true,
    .append (.sample 3 6) true, .move () .shutdown]

theorem snapshots_coherent_midBatch :
    ∃ w, (single Memory.store (.sample 3) Memory.new).Reachable (fun _ _ => True) w ∧
      (w.instances ()).inFlight.map (·.event.id) = [.ofByte 1, .ofByte 2] ∧
      w.store.dispatched.toList = [.ofByte 1] ∧
      ∀ task ∈ (w.instances ()).inFlight, task.stage ≠ .finished →
        ∃ stamp, w.store.events[task.event.id]? = some (stamp, task.event) ∧ stamp ≠ never := by
  have hrun : ((single Memory.store (.sample 3) Memory.new).run (fun _ _ => True)
      (World.start Unit _ Memory.new) midBatch).any (fun w =>
        (w.instances ()).inFlight.map (·.event.id) = [.ofByte 1, .ofByte 2] ∧
          w.store.dispatched.toList = [.ofByte 1]) = true := by
    decide +kernel
  obtain ⟨w, hw, hids, hdone⟩ := System.exists_reach hrun
  exact ⟨w, hw, hids, hdone, ((snapshots_coherent .hyphenatedOnly (.sample 3)).1 w hw).2.1⟩

end OutboxKit
