import OutboxKit.Custody
import OutboxKit.Equivalence
import OutboxKit.Lib.History

/-! What dispatchers see of a store is what its calls return. Every call a dispatcher makes
is one the SQLite store answers as the in-process store does, so the two systems run in
lockstep: the same steps are open in both, and both put the same on record. -/
namespace OutboxKit
open Std Machine Ordered Trace

/-- Clocks and new events stay within the ranges of the columns. -/
def Action.Timely {ι : Type} : Action ι → Prop
  | .append e _ => topicValid e.topic = true → e.createdAt.toNat < 2^63-1 ∧ HeadersFit e.headers
  | .move _ (.returned _ _ now delay) => now.toNat+delay.asMillis < 2^63-1
  | .move .. | .tick .. | .fetched .. | .mark .. | .crash _ => True

instance {ι : Type} (a : Action ι) : Decidable a.Timely :=
  match a with
  | .append .. => inferInstanceAs (Decidable (_ → _ ∧ HeadersFit _))
  | .move _ (.returned ..) => inferInstanceAs (Decidable (_ < _))
  | .move _ .start | .move _ .shutdown | .move _ .leave | .move _ .stop | .move _ .drained
  | .move _ .gauge | .move _ (.permit _) | .move _ (.invoke _) | .move _ (.join _) | .tick ..
  | .fetched .. | .mark .. | .crash _ => inferInstanceAs (Decidable True)

theorem Record.failures_next {id : EventId} {r r' : Record} {c : Call}
    (h : Record.next id (some r) c = some r') : r'.failures ≤ r.failures+1 := by
  cases c with
  | markDispatched clock k =>
    simp only [Record.next] at h
    split at h
    · cases h
      exact Nat.le_succ _
    · cases h
      exact Nat.le_succ _
  | markFailed k error retryAt =>
    simp only [Record.next] at h
    split at h
    · cases h
      exact Nat.le_refl _
    · cases h
      exact Nat.le_succ _
  | append | fetchDue | pendingCount | parkedCount | deadLetter | deadLetters =>
    cases h
    exact Nat.le_succ _

theorem failures_le_length {id : EventId} {past : List Call} {r : Record}
    (h : record id past = some r) : r.failures ≤ past.length := by
  induction past using List.reverseRecOn generalizing r with
  | nil => cases h
  | append_singleton past c ih =>
    rw [record_concat] at h
    rw [List.length_append, List.length_singleton]
    cases hr : record id past with
    | some r' =>
      rw [hr] at h
      exact (Record.failures_next h).trans (Nat.succ_le_succ (ih hr))
    | none =>
      rw [hr] at h
      cases c with
      | append e =>
        simp only [Record.next] at h
        split at h
        · cases h
          exact Nat.zero_le _
        · cases h
      | fetchDue | markDispatched | markFailed | pendingCount | parkedCount | deadLetter
      | deadLetters => cases h

theorem Memory.entry_ne_absent {s : Memory.Inner} {id : EventId} (h : Memory.knows s id) :
    Memory.entry s id ≠ .absent := by
  intro habs
  obtain ⟨hev, hd⟩ := Memory.entry_absent_iff.mp habs
  cases h with
  | inl hmem => exact hev hmem
  | inr hmem => exact hd hmem

/-- A call within the ranges of any store that reads as the in-process store does is one
the in-process store has room for. -/
theorem Memory.fits_of_fits {σ : Type} {S : OutboxStore σ} {R : Refinement S} {s : σ}
    {m : Memory.Inner} {c : Call} (he : R.entry s = Memory.entry m) (h : R.Fits s c) :
    Memory.refinement.Fits m c := by
  cases c with
  | append e => exact fun ht => ⟨ht, fun _ => ⟨rfl, rfl⟩⟩
  | fetchDue limit now =>
    rw [Refinement.Fits, he] at h
    exact h
  | markDispatched clock id =>
    rw [Refinement.Fits, he] at h
    exact h
  | markFailed id error retryAt => exact ⟨trivial, rfl⟩
  | pendingCount | parkedCount => exact trivial
  | deadLetter | deadLetters => exact h.elim

/-- The two stores after the same calls. -/
structure Twins (U : UuidCrate) (calls : List Call) (t : Sqlite.Tables) (m : Memory.Inner) :
    Prop where
  tables : Sqlite.Valid t
  inner : Memory.Valid m
  tracks : SqliteTracks calls t
  entry : (Sqlite.refinement U).entry t = Memory.entry m

namespace Twins
variable {U : UuidCrate} {calls : List Call} {t : Sqlite.Tables} {m : Memory.Inner} {c : Call}

theorem empty (U : UuidCrate) : Twins U [] Sqlite.empty Memory.new where
  tables := Sqlite.valid_empty
  inner := Memory.valid_new
  tracks := tracks_empty
  entry := by
    funext id
    simp [Sqlite.refinement, Sqlite.entry, tableEntry, Sqlite.empty, Memory.entry, Memory.new]

theorem call (h : Twins U calls t m) (hok : SqliteFits calls c) :
    ((Sqlite.store U).call c t).1 = (Memory.store.call c m).1 ∧
      Twins U (calls++[c]) ((Sqlite.store U).call c t).2 (Memory.store.call c m).2 := by
  obtain ⟨hfits, htracks⟩ := sqlite_step U h.tables h.tracks hok
  obtain ⟨hreply, hentry⟩ := (Sqlite.refinement U).call_agrees Memory.refinement h.tables h.inner
    h.entry hfits (Memory.fits_of_fits h.entry hfits)
  exact ⟨hreply, ((Sqlite.refinement U).call_answers h.tables hfits).2,
    Memory.valid_call c h.inner, htracks, hentry⟩

theorem known (h : Twins U calls t m) {id : EventId} (hk : Memory.knows m id) :
    record id calls ≠ none := by
  intro hnone
  have hid := h.tracks id
  rw [hnone] at hid
  cases hget : t.outboxEvents[id.text]? with
  | some row =>
    rw [hget] at hid
    cases hid
  | none =>
    have habs : Memory.entry m id = .absent := by
      rw [← h.entry]
      exact Sqlite.entry_none U hget
    exact Memory.entry_ne_absent hk habs

end Twins

def Mark.Timely : Mark → Prop
  | .dispatched => True
  | .failed _ retryAt => retryAt.toNat < 2^63-1 ∨ retryAt = never

theorem CallResult.mark_timely {p : BackoffPolicy} {e : OutboxEvent} {now : UInt64}
    {delay : Duration} {result : CallResult} {mark : Mark}
    (h : result.mark p e now delay = some mark) (hnow : now.toNat+delay.asMillis < 2^63-1) :
    mark.Timely := by
  cases mark with
  | dispatched => trivial
  | failed error t =>
    rw [Mark.Timely, CallResult.mark_failed h]
    cases hexh : p.isExhausted (satAdd32 e.attempts 1) with
    | true =>
      right
      rw [retryAt, if_pos hexh]
    | false =>
      left
      rw [retryAt_toNat now delay hexh]
      omega

section Step
variable {ι : Type} {U : UuidCrate} {calls : List Call} {config : ι → DispatcherConfig}
  {w : World ι Sqlite.Tables Fetched} {v v' : World ι Memory.Inner Fetched} {a : Action ι}

/-- The marks a run over the in-process store has yet to issue are for events it knows and
fit the columns. -/
structure Marked (v : World ι Memory.Inner Fetched) : Prop where
  genuine : Memory.custody.EnvelopesGenuine v
  timely : ∀ i e mark, ⟨e, .marking mark⟩ ∈ (v.instances i).inFlight → mark.Timely

theorem Marked.knows (h : Marked v) {i : ι} {task : Task} (ht : task ∈ (v.instances i).inFlight) :
    Memory.knows v.store task.event.id := by
  obtain ⟨e, he, -⟩ := h.genuine.tasks i task ht
  obtain ⟨hmem, hid⟩ := firstAppended_eq_some he
  have hk := h.genuine.known e hmem
  rw [hid] at hk
  exact hk

variable [DecidableEq ι]

theorem Marked.step (h : Marked v) (hok : a.Timely)
    (hstep : v.step (Shared.ofStore Memory.store) config a = some v') : Marked v' where
  genuine := h.genuine.step hstep
  timely i e mark hmem := by
    cases (World.steps_of_step hstep).mem_marking hmem with
    | inl hold => exact h.timely i e mark hold
    | inr hnew =>
      obtain ⟨n, result, now, delay, rfl, hmark, -⟩ := hnew
      exact CallResult.mark_timely hmark hok

/-- The two worlds look the same from outside the stores. -/
structure Alike (U : UuidCrate) (calls : List Call) (w : World ι Sqlite.Tables Fetched)
    (v : World ι Memory.Inner Fetched) : Prop where
  instances : w.instances = v.instances
  log : w.log = v.log
  twins : Twins U calls w.store v.store

theorem Alike.put (h : Alike U calls w v) {calls' : List Call} {t : Sqlite.Tables}
    {m : Memory.Inner} (hstores : Twins U calls' t m) (i : ι) (inst : Instance Fetched)
    (obs : List Obs) : Alike U calls' (w.put i inst t obs) (v.put i inst m obs) where
  instances := by rw [World.put, World.put, h.instances]
  log := by rw [World.put, World.put, h.log]
  twins := hstores

/-- The two worlds after a step that made at most one call. -/
def Next (U : UuidCrate) (calls : List Call) (w : World ι Sqlite.Tables Fetched)
    (v : World ι Memory.Inner Fetched) : Prop :=
  ∃ calls', calls'.length ≤ calls.length+1 ∧ Alike U calls' w v

omit [DecidableEq ι] in
theorem Alike.next (h : Alike U calls w v) : Next U calls w v := ⟨calls, Nat.le_succ _, h⟩

omit [DecidableEq ι] in
theorem Alike.next_concat {c : Call} (h : Alike U (calls++[c]) w v) : Next U calls w v :=
  ⟨calls++[c], by simp, h⟩

theorem Alike.append (h : Alike U calls w v) {e : OutboxEvent} {reached : Bool}
    (hok : (Action.append e reached : Action ι).Timely) :
    Option.Rel (Next U calls) (w.step (Shared.ofStore (Sqlite.store U)) config (.append e reached))
      (v.step (Shared.ofStore Memory.store) config (.append e reached)) := by
  cases reached with
  | false => exact .some h.next
  | true =>
    obtain ⟨hreply, htwins⟩ := h.twins.call (c := .append e) ⟨hok, trivial⟩
    have hresult : ((Sqlite.store U).append e w.store).1 = (Memory.store.append e v.store).1 :=
      Reply.done.inj hreply
    simp only [World.step, if_true, Shared.ofStore]
    cases ht : (Sqlite.store U).append e w.store with
    | mk r t =>
      cases hm : Memory.store.append e v.store with
      | mk r' m =>
        simp only [OutboxStore.call, ht, hm] at hresult htwins
        subst hresult
        cases r with
        | ok _ => exact .some (Alike.next_concat ⟨h.instances, by rw [h.log], htwins⟩)
        | error err => exact .some (Alike.next_concat ⟨h.instances, h.log, htwins⟩)

theorem Alike.tick (h : Alike U calls w v) (hlen : calls.length < 2^63) (i : ι) (now : UInt64)
    (reached : Bool) :
    Option.Rel (Next U calls)
      (w.step (Shared.ofStore (Sqlite.store U)) config (.tick i now reached))
      (v.step (Shared.ofStore Memory.store) config (.tick i now reached)) := by
  simp only [World.step, h.instances, Shared.ofStore]
  split
  · split
    · obtain ⟨hreply, htwins⟩ := h.twins.call
        (c := .fetchDue (v.instances i).batchSize now) ⟨.inr hlen, trivial⟩
      have hfetch : (Sqlite.store U).fetchDue (v.instances i).batchSize now w.store =
          Memory.store.fetchDue (v.instances i).batchSize now v.store := Reply.events.inj hreply
      rw [hfetch]
      exact .some (Alike.next_concat (h.put htwins i _ []))
    · exact .some (h.put h.twins i _ []).next
  · exact .none

theorem Twins.issue {t : Sqlite.Tables} {m : Memory.Inner} (h : Twins U calls t m)
    (hlen : calls.length+1 < 2^63-2^32) (clock : UInt64) {id : EventId} {mark : Mark}
    (hk : Memory.knows m id) (hmark : mark.Timely) :
    ∃ c, Twins U (calls++[c]) ((Shared.ofStore (Sqlite.store U)).issue clock id mark t)
      ((Shared.ofStore Memory.store).issue clock id mark m) := by
  cases mark with
  | dispatched =>
    have hok : SqliteFits calls (.markDispatched clock id) := ⟨h.known hk, trivial⟩
    exact ⟨_, (h.call hok).2⟩
  | failed error retryAt =>
    have hok : SqliteFits calls (.markFailed id error retryAt) := by
      refine ⟨hmark, fun r hr => ?_⟩
      have hle := failures_le_length hr
      omega
    exact ⟨_, (h.call hok).2⟩

theorem Alike.mark (h : Alike U calls w v) (hmarked : Marked v)
    (hlen : calls.length+1 < 2^63-2^32) (i : ι) (n : Nat) (clock : UInt64) (reached : Bool) :
    Option.Rel (Next U calls)
      (w.step (Shared.ofStore (Sqlite.store U)) config (.mark i n clock reached))
      (v.step (Shared.ofStore Memory.store) config (.mark i n clock reached)) := by
  simp only [World.step, h.instances]
  split
  · rename_i e mark ht
    have hmem := List.mem_of_getElem? ht
    split
    · obtain ⟨c, htwins⟩ := h.twins.issue hlen clock (hmarked.knows hmem)
        (hmarked.timely i e mark hmem)
      exact .some (Alike.next_concat (h.put htwins i _ []))
    · exact .some (h.put h.twins i _ []).next
  · exact .none

/-- Any step is open in both worlds or in neither, and leads to worlds that look the same. -/
theorem Alike.step (h : Alike U calls w v) (hmarked : Marked v) (hok : a.Timely)
    (hlen : calls.length+1 < 2^63-2^32) :
    Option.Rel (Next U calls) (w.step (Shared.ofStore (Sqlite.store U)) config a)
      (v.step (Shared.ofStore Memory.store) config a) := by
  cases a with
  | append e reached => exact h.append hok
  | tick i now reached => exact h.tick (by omega) i now reached
  | mark i n clock reached => exact h.mark hmarked hlen i n clock reached
  | move i m =>
    simp only [World.step, h.instances]
    split
    · exact .some (h.put h.twins i _ _).next
    · exact .none
  | fetched i reached =>
    simp only [World.step, h.instances, Shared.ofStore]
    split
    · rename_i claim hp
      split
      · cases claim with
        | ok due => exact .some (h.put h.twins i _ _).next
        | error err => exact .some (h.put h.twins i _ _).next
      · exact .some (h.put h.twins i _ _).next
    · exact .none
  | crash i =>
    have hrelease : ∀ {σ : Type} (S : OutboxStore σ) (inst : Instance Fetched) (s : σ),
        (Shared.ofStore S).release inst s = s := by
      intro σ S inst s
      unfold Shared.release
      split <;> rfl
    simp only [World.step, hrelease]
    exact .some (h.put h.twins i _ _).next

/-- The worlds after the actions `past`, each of which made at most one call. -/
structure Matched (U : UuidCrate) (past : List (Action ι)) (w : World ι Sqlite.Tables Fetched)
    (v : World ι Memory.Inner Fetched) : Prop where
  alike : ∃ calls, calls.length ≤ past.length ∧ Alike U calls w v
  marked : Marked v

omit [DecidableEq ι] in
theorem matched_start (U : UuidCrate) :
    Matched U ([] : List (Action ι)) (World.start ι _ Sqlite.empty)
      (World.start ι _ Memory.new) where
  alike := ⟨[], Nat.le_refl _, rfl, rfl, .empty U⟩
  marked := by
    refine ⟨Custody.genuine_start _ ?_, ?_⟩
    · simp [Memory.custody, Memory.ledger, Memory.holds, Memory.new]
    · intro i e mark hmem
      cases hmem

theorem Matched.step {past : List (Action ι)} (h : Matched U past w v) (hok : a.Timely)
    (hlen : past.length+1 < 2^63-2^32) :
    Option.Rel (Matched U (past++[a])) (w.step (Shared.ofStore (Sqlite.store U)) config a)
      (v.step (Shared.ofStore Memory.store) config a) := by
  obtain ⟨calls, hcalls, halike⟩ := h.alike
  have hnext : Option.Rel (Next U calls) (w.step (Shared.ofStore (Sqlite.store U)) config a)
      (v.step (Shared.ofStore Memory.store) config a) := halike.step h.marked hok (by omega)
  cases hw : w.step (Shared.ofStore (Sqlite.store U)) config a with
  | none =>
    rw [hw] at hnext
    cases hv : v.step (Shared.ofStore Memory.store) config a with
    | none => exact .none
    | some v' =>
      rw [hv] at hnext
      cases hnext
  | some w' =>
    rw [hw] at hnext
    cases hv : v.step (Shared.ofStore Memory.store) config a with
    | none =>
      rw [hv] at hnext
      cases hnext
    | some v' =>
      rw [hv] at hnext
      cases hnext with
      | some hn =>
        obtain ⟨calls', hcalls', halike'⟩ := hn
        refine .some ⟨⟨calls', ?_, halike'⟩, h.marked.step hok hv⟩
        rw [List.length_append, List.length_singleton]
        omega

end Step

/-- The same instances, the same record, and the same answers to every read. -/
def SeenAlike (U : UuidCrate) {ι : Type} (w : World ι Sqlite.Tables Fetched)
    (v : World ι Memory.Inner Fetched) : Prop :=
  w.instances = v.instances ∧ w.log = v.log ∧
  (Sqlite.store U).pendingCount w.store = Memory.store.pendingCount v.store ∧
  (Sqlite.store U).parkedCount w.store = Memory.store.parkedCount v.store ∧
  ∀ limit now,
    (Sqlite.store U).fetchDue limit now w.store = Memory.store.fetchDue limit now v.store

theorem Alike.seen {U : UuidCrate} {ι : Type} {calls : List Call}
    {w : World ι Sqlite.Tables Fetched} {v : World ι Memory.Inner Fetched}
    (h : Alike U calls w v) (hlen : calls.length < 2^63) : SeenAlike U w v := by
  refine ⟨h.instances, h.log, ?_, ?_, fun limit now => ?_⟩
  · exact Reply.count.inj (h.twins.call (c := .pendingCount) ⟨trivial, trivial⟩).1
  · exact Reply.count.inj (h.twins.call (c := .parkedCount) ⟨trivial, trivial⟩).1
  · exact Reply.events.inj (h.twins.call (c := .fetchDue limit now) ⟨.inr hlen, trivial⟩).1

/-- Dispatchers cannot tell the SQLite store from the in-process one. Any number of them,
with failing calls, crashes and restarts anywhere: the same steps are open over either
store, and after them the instances, the record and the store's reads are the same. -/
theorem dispatchers_cannot_tell (U : UuidCrate) {ι : Type} [DecidableEq ι]
    (config : ι → DispatcherConfig) (as : List (Action ι)) (hlen : as.length < 2^63-2^32) :
    Option.Rel (SeenAlike U)
      ((dispatching (Shared.ofStore (Sqlite.store U)) config Sqlite.empty).run
        (fun _ => Action.Timely) (World.start ι _ Sqlite.empty) as)
      ((dispatching (Shared.ofStore Memory.store) config Memory.new).run
        (fun _ => Action.Timely) (World.start ι _ Memory.new) as) := by
  have hrel : Option.Rel (Matched U as)
      ((dispatching (Shared.ofStore (Sqlite.store U)) config Sqlite.empty).run
        (fun _ => Action.Timely) (World.start ι _ Sqlite.empty) as)
      ((dispatching (Shared.ofStore Memory.store) config Memory.new).run
        (fun _ => Action.Timely) (World.start ι _ Memory.new) as) := by
    refine System.run_rel (List.nil_append as) ?_ (matched_start U)
    intro past a w v hpre h hok
    have hpast := hpre.length_le
    rw [List.length_append, List.length_singleton] at hpast
    exact h.step hok (by omega)
  refine System.rel_mono hrel ?_
  intro w v h
  -- a `LIMIT` that turns negative only matters to a table of 2^63 rows
  obtain ⟨calls, hcalls, halike⟩ := h.alike
  exact halike.seen (by omega)

/-- A dispatcher fails an event and dies; a second one delivers it after a mark was lost. -/
def handedOver : List (Action Bool) :=
  [.append (.sample 1 5) true, .move true .start, .tick true 10 true, .fetched true true,
    .move true (.permit 0), .move true (.invoke 0),
    .move true (.returned 0 (.failure (.delivery "down")) 20 .zero), .mark true 0 20 true,
    .crash true, .move false .start, .tick false 30 true, .fetched false true,
    .move false (.permit 0), .move false (.invoke 0), .move false (.returned 0 .ok 40 .zero),
    .mark false 0 40 false, .move false (.join 0), .move false .drained, .move false .gauge,
    .tick false 50 true, .fetched false true]

theorem dispatchers_cannot_tell_handedOver :
    ((dispatching (Shared.ofStore Memory.store) (fun _ : Bool => .sample 3) Memory.new).run
      (fun _ => Action.Timely) (World.start Bool _ Memory.new) handedOver).any (fun v =>
        (v.instances false).inFlight.map (·.event.attempts) = [1]) = true ∧
    Option.Rel (SeenAlike .hyphenatedOnly)
      ((dispatching (Shared.ofStore (Sqlite.store .hyphenatedOnly)) (fun _ : Bool => .sample 3)
        Sqlite.empty).run (fun _ => Action.Timely) (World.start Bool _ Sqlite.empty) handedOver)
      ((dispatching (Shared.ofStore Memory.store) (fun _ : Bool => .sample 3) Memory.new).run
        (fun _ => Action.Timely) (World.start Bool _ Memory.new) handedOver) :=
  ⟨by decide +kernel, dispatchers_cannot_tell .hyphenatedOnly (fun _ => .sample 3) handedOver
    (by decide)⟩

end OutboxKit
