import OutboxKit.Capacity
import OutboxKit.Commutation
import OutboxKit.Snapshot

/-! A batch as one step. The tasks of a batch finish in any order, with appends, faults and
crashes between them; but their marks are about distinct known events, so every mark may
be moved back to the fetch that handed its event over. What the loop makes of the store
is then what a serial loop makes of it, which fetches and records in one go. -/
namespace OutboxKit
open Std Machine Trace Cells

/-- A mark the policy asks for after some send of the event. -/
def Settles (p : BackoffPolicy) (e : OutboxEvent) (mark : Mark) : Prop :=
  ∃ result now delay, p.Jittered (satAdd32 e.attempts 1) delay ∧
    CallResult.mark p e now delay result = some mark

/-- A step of the serial loop: an append, or a fetch with the outcome of each send. -/
inductive Serial where
  | append (event : OutboxEvent)
  | round (limit now : UInt64) (clock : EventId → UInt64) (outcome : EventId → Option Mark)

section Serial
variable {σ : Type} (S : OutboxStore σ)

def Serial.step (s : σ) : Serial → Option σ
  | .append e => some (S.append e s).2
  | .round limit now clock outcome =>
    match S.fetchDue limit now s with
    | .ok batch => some (after S.call s ((settle clock outcome batch).map Write.call))
    | .error _ => none

def serial (s : σ) : System σ Serial := ⟨s, Serial.step S⟩

/-- No round is larger than the ceiling, and each mark is one the policy asks for. -/
def Serial.Allowed (c : DispatcherConfig) (s : σ) : Serial → Prop
  | .append _ => True
  | .round limit now _ outcome => limit.toNat ≤ c.fetchBatch.saturated.max.toNat ∧
    ∀ batch, S.fetchDue limit now s = .ok batch → ∀ e ∈ batch, ∀ mark,
      outcome e.id = some mark → Settles c.backoff e mark

end Serial

theorem Instance.Moves.marking {γ : Type} {c : DispatcherConfig} {inst inst' : Instance γ}
    {m : Move} {obs : List Obs} (h : Moves c inst m inst' obs) {e : OutboxEvent} {mark : Mark}
    (ht : ⟨e, .marking mark⟩ ∈ inst'.inFlight) :
    ⟨e, .marking mark⟩ ∈ inst.inFlight ∨ Settles c.backoff e mark := by
  cases h.mem_inFlight ht with
  | inl hold => exact Or.inl hold
  | inr hnew =>
    obtain ⟨old, -, he, hstage⟩ := hnew
    rcases hstage with (hs | hs | hs) | ⟨n, result, now, delay, mark', -, hs, hmark, hj, -⟩
    · cases hs
    · cases hs
    · cases hs
    · cases hs
      cases he
      exact Or.inr ⟨result, now, delay, hj, hmark⟩

theorem settle_update (clock : EventId → UInt64) {outcome : EventId → Option Mark}
    {batch : List OutboxEvent} {e : OutboxEvent} (hn : (batch.map (·.id)).Nodup) (he : e ∈ batch)
    (hnone : outcome e.id = none) (ck : UInt64) (mark : Mark) :
    ∃ pre post, settle clock outcome batch = pre++post ∧
      settle (Function.update clock e.id ck) (Function.update outcome e.id (some mark)) batch =
        pre++mark.write ck e.id::post ∧ ∀ x ∈ post, x.id ≠ e.id := by
  obtain ⟨l, r, rfl⟩ := List.append_of_mem he
  have hne : ∀ f ∈ l++r, f.id ≠ e.id := by
    rw [List.map_append, List.map_cons, List.nodup_middle, ← List.map_append] at hn
    intro f hf hid
    exact (List.nodup_cons.mp hn).1 (hid ▸ List.mem_map_of_mem hf)
  have hpart : ∀ part ⊆ l++r, settle (Function.update clock e.id ck)
      (Function.update outcome e.id (some mark)) part = settle clock outcome part := by
    intro part hsub
    refine List.filterMap_congr fun f hf => ?_
    rw [Function.update_of_ne (hne f (hsub hf)), Function.update_of_ne (hne f (hsub hf))]
  refine ⟨settle clock outcome l, settle clock outcome r, ?_, ?_, fun x hx => ?_⟩
  · simp [settle, List.filterMap_append, hnone]
  · rw [← hpart l (List.subset_append_left l r), ← hpart r (List.subset_append_right l r)]
    simp [settle, List.filterMap_append]
  · obtain ⟨f, hf, hid⟩ := mem_settle hx
    rw [hid]
    exact hne f (List.mem_append_right l hf)

theorem tame_settle {clock : EventId → UInt64} {outcome : EventId → Option Mark}
    {batch : List OutboxEvent} {x : Write} (h : x ∈ settle clock outcome batch) :
    ∃ e ∈ batch, ∃ ck mark, x = Mark.write ck e.id mark := by
  obtain ⟨e, he, hx⟩ := List.mem_filterMap.mp h
  obtain ⟨mark, -, rfl⟩ := Option.map_eq_some_iff.mp hx
  exact ⟨e, he, clock e.id, mark, rfl⟩

namespace Refinement
variable {σ : Type} {S : OutboxStore σ} (R : Refinement S)

/-- Writes about different events commute, and an append of a known event does nothing. -/
structure Slides : Prop where
  commutes : ∀ s a b, R.Valid s → a.id ≠ b.id →
    (S.call (Write.call b) (S.call (Write.call a) s).2).2 =
      (S.call (Write.call a) (S.call (Write.call b) s).2).2
  known : ∀ s e, R.Valid s → R.entry s e.id ≠ .absent → (S.append e s).2 = s

variable {R} {s : σ} {clock : EventId → UInt64} {outcome : EventId → Option Mark}
  {batch : List OutboxEvent} {id : EventId}

theorem Total.issue_self (T : R.Total) (hv : R.Valid s) (clock : UInt64)
    (hknown : R.entry s id ≠ .absent) (mark : Mark) :
    R.entry ((Shared.ofStore S).issue clock id mark s) id ≠ .absent := by
  cases mark with
  | dispatched =>
    obtain ⟨-, -, he⟩ := R.markDispatched_ok s clock id hv hknown
    change R.entry (S.markDispatched clock id s).2 id ≠ .absent
    rw [he, Outbox.markDispatched, Function.update_self]
    simp
  | failed error retryAt =>
    change R.entry (S.markFailed id error retryAt s).2 id ≠ .absent
    by_cases hroom : R.Room s id error
    · obtain ⟨-, -, he⟩ := R.markFailed_ok s id error retryAt hv hroom
      rw [he, Outbox.markFailed_eq_update, Function.update_self]
      cases hentry : R.entry s id with
      | absent => exact absurd hentry hknown
      | live due e => simp [Entry.failed]
      | dispatched => simp [Entry.failed]
    · obtain ⟨err, h⟩ := T.markFailed_refused s id error retryAt hv hroom
      rwa [h]

theorem Total.issue_known (T : R.Total) (hv : R.Valid s) (clock : UInt64) {k : EventId}
    (hk : R.entry s k ≠ .absent) (mark : Mark) (hid : R.entry s id ≠ .absent) :
    R.entry ((Shared.ofStore S).issue clock k mark s) id ≠ .absent := by
  by_cases hne : id = k
  · subst hne
    exact T.issue_self hv clock hid mark
  · rw [(T.issue_other hv clock hk mark).2 id hne]
    exact hid

/-- Every event of the batch is known. -/
structure Holding (R : Refinement S) (batch : List OutboxEvent) (s : σ) : Prop where
  valid : R.Valid s
  known : ∀ e ∈ batch, R.entry s e.id ≠ .absent

/-- A call that may fall into the batch: an append, or a mark on one of its events. -/
def Tame (batch : List OutboxEvent) (c : Call) : Prop :=
  (∃ f, c = .append f) ∨ ∃ e ∈ batch, ∃ clock mark, c = (Mark.write clock e.id mark).call

theorem Holding.call (T : R.Total) (h : R.Holding batch s) {c : Call} (hc : Tame batch c) :
    R.Holding batch (S.call c s).2 := by
  cases hc with
  | inl happend =>
    obtain ⟨f, rfl⟩ := happend
    obtain ⟨hv, hknown⟩ := T.append_known h.valid f
    refine ⟨hv, fun e he => ?_⟩
    change R.entry (S.append f s).2 e.id ≠ .absent
    rw [hknown e.id (Or.inr (h.known e he))]
    exact h.known e he
  | inr hmark =>
    obtain ⟨k, hk, ck, mark, rfl⟩ := hmark
    rw [← issue_eq_write]
    exact ⟨(T.issue_other h.valid ck (h.known k hk) mark).1,
      fun e he => T.issue_known h.valid ck (h.known k hk) mark (h.known e he)⟩

theorem Holding.after (T : R.Total) (h : R.Holding batch s) {cs : List Call}
    (hcs : ∀ c ∈ cs, Tame batch c) : R.Holding batch (after S.call s cs) := by
  induction cs generalizing s with
  | nil => exact h
  | cons c cs ih =>
    exact ih (h.call T (hcs c List.mem_cons_self)) fun d hd => hcs d (List.mem_cons_of_mem _ hd)

/-- A mark moves past any call of the batch that is not a mark of its own event. -/
theorem Slides.move (L : R.Slides) (T : R.Total) (h : R.Holding batch s) {e : OutboxEvent}
    (he : e ∈ batch) (ck : UInt64) (mark : Mark) {c : Call} (hc : Tame batch c)
    (hother : c.target = some e.id → ∃ f, c = .append f) :
    (S.call c (S.call (mark.write ck e.id).call s).2).2 =
      (S.call (mark.write ck e.id).call (S.call c s).2).2 := by
  have hmark := h.call T (Or.inr ⟨e, he, ck, mark, rfl⟩)
  by_cases hid : c.target = some e.id
  · obtain ⟨f, rfl⟩ := hother hid
    have hf : f.id = e.id := Option.some.inj hid
    have hbefore : (S.append f s).2 = s := L.known s f h.valid (hf ▸ h.known e he)
    have hafter : (S.append f (S.call (mark.write ck e.id).call s).2).2 =
        (S.call (mark.write ck e.id).call s).2 := L.known _ f hmark.valid (hf ▸ hmark.known e he)
    change (S.append f _).2 = (S.call (mark.write ck e.id).call (S.append f s).2).2
    rw [hafter, hbefore]
  · cases hc with
    | inl happend =>
      obtain ⟨f, rfl⟩ := happend
      refine L.commutes s (mark.write ck e.id) (.append f) h.valid ?_
      rw [Mark.write_id]
      intro heq
      exact hid (congrArg some heq.symm)
    | inr hm =>
      obtain ⟨k, hk, ck', mark', rfl⟩ := hm
      refine L.commutes s (mark.write ck e.id) (mark'.write ck' k.id) h.valid ?_
      rw [Mark.write_id, Mark.write_id]
      intro heq
      cases mark' <;> exact hid (congrArg some heq.symm)

/-- A round that may still be under way: the state it fetched from, the batch, the
outcomes recorded so far, and the appends since. -/
structure Turnover (σ : Type) where
  state : σ
  limit : UInt64
  now : UInt64
  batch : List OutboxEvent
  clock : EventId → UInt64
  outcome : EventId → Option Mark
  appends : List OutboxEvent

/-- The calls of a round in their serial order: the marks as fetched, then the appends. -/
def Turnover.calls (t : Turnover σ) : List Call :=
  (settle t.clock t.outcome t.batch).map Write.call++t.appends.map Call.append

def Turnover.settled (t : Turnover σ) (id : EventId) (ck : UInt64) (mark : Mark) : Turnover σ :=
  { t with
    clock := Function.update t.clock id ck
    outcome := Function.update t.outcome id (some mark) }

def Turnover.Out (t : Turnover σ) (e : OutboxEvent) : Prop := e ∈ t.batch ∧ t.outcome e.id = none

/-- The round is one the serial loop may take, and the store is what it makes of it. -/
structure Turning (R : Refinement S) (c : DispatcherConfig) (start : σ) (t : Turnover σ)
    (w : Solo σ) : Prop where
  reached : (serial S start).Reachable (Serial.Allowed S c) t.state
  valid : R.Valid t.state
  size : t.limit.toNat ≤ c.fetchBatch.saturated.max.toNat
  fetched : S.fetchDue t.limit t.now t.state = .ok t.batch
  settles : ∀ e ∈ t.batch, ∀ mark, t.outcome e.id = some mark → Settles c.backoff e mark
  store : w.store = after S.call t.state t.calls
  tidy : (w.instances ()).Tidy t.Out
  marks : ∀ e mark, ⟨e, .marking mark⟩ ∈ (w.instances ()).inFlight → Settles c.backoff e mark

namespace Turning
variable {c : DispatcherConfig} {start : σ} {t : Turnover σ} {w w' : Solo σ}

theorem tame (t : Turnover σ) : ∀ c ∈ t.calls, Tame t.batch c := by
  intro c hc
  cases List.mem_append.mp hc with
  | inl hmark =>
    obtain ⟨x, hx, rfl⟩ := List.mem_map.mp hmark
    obtain ⟨e, he, ck, mark, rfl⟩ := tame_settle hx
    exact Or.inr ⟨e, he, ck, mark, rfl⟩
  | inr happend =>
    obtain ⟨f, -, rfl⟩ := List.mem_map.mp happend
    exact Or.inl ⟨f, rfl⟩

theorem holding (h : R.Turning c start t w) : R.Holding t.batch t.state :=
  ⟨h.valid, fun e he => ((fetchDue_holds h.valid h.fetched).2 e he).ne_absent⟩

theorem holding_store (T : R.Total) (h : R.Turning c start t w) : R.Holding t.batch w.store := by
  rw [h.store]
  exact h.holding.after T (tame t)

theorem reach (h : R.Turning c start t w) :
    (serial S start).Reachable (Serial.Allowed S c) w.store := by
  have hround : (serial S start).Reachable (Serial.Allowed S c)
      (after S.call t.state ((settle t.clock t.outcome t.batch).map Write.call)) := by
    refine h.reached.tail ⟨.round t.limit t.now t.clock t.outcome, ⟨h.size, ?_⟩, ?_⟩
    · intro batch hb
      rw [h.fetched, Except.ok.injEq] at hb
      exact hb ▸ h.settles
    · simp only [serial, Serial.step, h.fetched]
  rw [h.store, Turnover.calls, after_append]
  induction t.appends using List.reverseRecOn with
  | nil => exact hround
  | append_singleton appends f ih =>
    rw [List.map_append, List.map_singleton, after_concat]
    exact ih.tail ⟨.append f, trivial, rfl⟩

theorem appended (h : R.Turning c start t w) (e : OutboxEvent) (log : List Obs) :
    R.Turning c start { t with appends := t.appends++[e] }
      ⟨(S.append e w.store).2, w.instances, log⟩ where
  reached := h.reached
  valid := h.valid
  size := h.size
  fetched := h.fetched
  settles := h.settles
  store := by
    rw [h.store, Turnover.calls, Turnover.calls, List.map_append, ← List.append_assoc,
      List.map_singleton, after_concat]
    rfl
  tidy := h.tidy
  marks := h.marks

theorem still (h : R.Turning c start t w) {inst : Instance Fetched} {obs : List Obs}
    (htidy : inst.Tidy t.Out)
    (hmarks : ∀ e mark, ⟨e, .marking mark⟩ ∈ inst.inFlight → Settles c.backoff e mark) :
    R.Turning c start t (w.put () inst w.store obs) where
  reached := h.reached
  valid := h.valid
  size := h.size
  fetched := h.fetched
  settles := h.settles
  store := h.store
  tidy := by rwa [World.put_self]
  marks := by rwa [World.put_self]

/-- A mark is issued: it is moved back past the appends and the marks fetched after it. -/
theorem issued (L : R.Slides) (T : R.Total) (h : R.Turning c start t w) {n : Nat} {ck : UInt64}
    {e : OutboxEvent} {mark : Mark}
    (ht : (w.instances ()).inFlight[n]? = some ⟨e, .marking mark⟩) :
    R.Turning c start (t.settled e.id ck mark)
      (w.put () ((w.instances ()).setStage n ⟨e, .marking mark⟩ .finished)
        ((Shared.ofStore S).issue ck e.id mark w.store) []) := by
  have hmem := List.mem_of_getElem? ht
  obtain ⟨he, hnone⟩ : t.Out e := h.tidy.held _ hmem (by simp)
  have hn := (fetchDue_holds h.valid h.fetched).1
  obtain ⟨pre, post, hold, hnew, hpost⟩ := settle_update t.clock hn he hnone ck mark
  refine ⟨h.reached, h.valid, h.size, h.fetched, fun f hf mark' hmark' => ?_, ?_, ?_, ?_⟩
  · change Function.update t.outcome e.id (some mark) f.id = some mark' at hmark'
    by_cases hid : f.id = e.id
    · obtain rfl : f = e := List.inj_on_of_nodup_map hn hf he hid
      rw [Function.update_self, Option.some.injEq] at hmark'
      exact hmark' ▸ h.marks f mark hmem
    · rw [Function.update_of_ne hid] at hmark'
      exact h.settles f hf mark' hmark'
  · have hrest : ∀ d ∈ post.map Write.call++t.appends.map Call.append, Tame t.batch d ∧
        (d.target = some e.id → ∃ f, d = .append f) := by
      intro d hd
      refine ⟨tame t d ?_, fun htarget => ?_⟩
      · rw [Turnover.calls, hold, List.map_append, List.append_assoc]
        exact List.mem_append_right _ hd
      · cases List.mem_append.mp hd with
        | inl hmark =>
          obtain ⟨x, hx, rfl⟩ := List.mem_map.mp hmark
          refine absurd ?_ (hpost x hx)
          cases x <;> exact Option.some.inj htarget
        | inr happend =>
          obtain ⟨f, -, rfl⟩ := List.mem_map.mp happend
          exact ⟨f, rfl⟩
    have hpre : R.Holding t.batch (after S.call t.state (pre.map Write.call)) := by
      refine h.holding.after T fun d hd => tame t d ?_
      rw [Turnover.calls, hold, List.map_append, List.append_assoc]
      exact List.mem_append_left _ hd
    have hslide := after_slide (fun s d hd hs => hs.call T (hrest d hd).1)
      (fun s d hd hs => L.move T hs he ck mark (hrest d hd).1 (hrest d hd).2) hpre
    have hcalls : (t.settled e.id ck mark).calls = pre.map Write.call++(mark.write ck e.id).call::
        (post.map Write.call++t.appends.map Call.append) := by
      have hsettle : settle (t.settled e.id ck mark).clock (t.settled e.id ck mark).outcome
          (t.settled e.id ck mark).batch = pre++mark.write ck e.id::post := hnew
      rw [Turnover.calls, hsettle, List.map_append, List.map_cons, List.append_assoc,
        List.cons_append]
      rfl
    have hstate : (t.settled e.id ck mark).state = t.state := rfl
    rw [World.put, issue_eq_write, h.store, hcalls, hstate, after_append, hslide, ← after_append,
      Turnover.calls, hold, List.map_append, List.append_assoc]
  · rw [World.put_self]
    refine h.tidy.setStage ht (fun f hf hout => ⟨hout.1, ?_⟩) (absurd rfl)
    change Function.update t.outcome e.id (some mark) f.id = none
    rw [Function.update_of_ne hf]
    exact hout.2
  · intro f mark' hf
    rw [World.put_self] at hf
    cases Instance.mem_setStage hf with
    | inl hold => exact h.marks f mark' hold
    | inr hnew => cases hnew

/-- A poll closes the round before it and opens the next one. -/
theorem opened (T : R.Total) (hb : (w.instances ()).Bounded fetchedSize c)
    (h : R.Turning c start t w) (hp : (w.instances ()).phase = .select) (now : UInt64)
    (tick : UInt32) : ∃ t', R.Turning c start t' (w.put () { w.instances () with
      idleTick := tick
      phase := .fetching (S.fetchDue (w.instances ()).batchSize now w.store) } w.store []) := by
  have hempty := hb.drained (by simp [hp])
  cases hf : S.fetchDue (w.instances ()).batchSize now w.store with
  | error err =>
    refine ⟨t, h.still (.of_empty hempty (by simp)) fun e mark hmem => ?_⟩
    rw [hempty] at hmem
    cases hmem
  | ok evs =>
    have hv := (h.holding_store T).valid
    refine ⟨⟨w.store, (w.instances ()).batchSize, now, evs, fun _ => 0, fun _ => none, []⟩, h.reach,
      hv, hb.batch, hf, fun e _ mark hmark => (by cases hmark), ?_, ?_, ?_⟩
    · simp [Turnover.calls, settle, after, World.put]
    · rw [World.put_self]
      refine ⟨fun _ => hempty, ?_, fun task ht => ?_, fun evs' he => ?_⟩
      · simp [hempty]
      · rw [hempty] at ht
        cases ht
      · cases he
        exact ⟨(fetchDue_holds hv hf).1, fun e he => ⟨he, rfl⟩⟩
    · rw [World.put_self]
      intro e mark hmem
      rw [hempty] at hmem
      cases hmem

theorem step (L : R.Slides) (T : R.Total) {a : Action Unit}
    (hb : (w.instances ()).Bounded fetchedSize c) (h : R.Turning c start t w)
    (hstep : w.step (Shared.ofStore S) (fun _ => c) a = some w') :
    ∃ t', R.Turning c start t' w' := by
  cases World.steps_of_step hstep with
  | appended e s happ =>
    rw [show s = (S.append e w.store).2 from (congrArg Prod.snd happ).symm]
    exact ⟨_, h.appended e _⟩
  | refused e s err happ =>
    rw [show s = (S.append e w.store).2 from (congrArg Prod.snd happ).symm]
    exact ⟨_, h.appended e _⟩
  | appendLost e => exact ⟨t, h⟩
  | moved i m inst obs hm =>
    exact ⟨t, h.still (h.tidy.move hm) fun e mark hmem =>
      (hm.marking hmem).elim (h.marks e mark) fun hs => hs⟩
  | idled i now reached hp =>
    exact ⟨t, h.still ⟨h.tidy.drained, h.tidy.unique, h.tidy.held, h.tidy.fetched⟩ h.marks⟩
  | opened i now claim s hp hopen =>
    cases hopen
    exact h.opened T hb hp now _
  | spawned i claim due s hp hclose =>
    cases hclose
    refine ⟨t, h.still (h.tidy.spawn c hp) fun e mark hmem => ?_⟩
    cases List.mem_append.mp hmem with
    | inl hold => exact h.marks e mark hold
    | inr hnew =>
      obtain ⟨f, -, hf⟩ := List.mem_map.mp hnew
      cases hf
  | fetchFailed i claim err s hp hclose =>
    cases hclose
    have hempty := hb.drained (by simp [hp])
    exact ⟨t, h.still (.of_empty hempty (by simp)) h.marks⟩
  | fetchLost i claim hp =>
    have hempty := hb.drained (by simp [hp])
    exact ⟨t, h.still (.of_empty hempty (by simp)) h.marks⟩
  | issued i n clock e mark ht hfree => exact ⟨_, h.issued L T ht⟩
  | markLost i n clock e mark ht =>
    refine ⟨t, h.still (h.tidy.advance ht (by simp)) fun f mark' hf => ?_⟩
    cases Instance.mem_setStage hf with
    | inl hold => exact h.marks f mark' hold
    | inr hnew => cases hnew
  | crashed i =>
    rw [show (Shared.ofStore S).release (w.instances i) w.store = w.store from ?_]
    · exact ⟨t, h.still .off fun e mark hmem => (by cases hmem)⟩
    · unfold Shared.release
      split <;> rfl

theorem start_world (hv : R.Valid start) :
    ∃ t, R.Turning c start t (World.start Unit Fetched start) := by
  obtain ⟨l, n, -, -, hf⟩ := R.fetchDue_ok start 0 0 hv
  refine ⟨⟨start, 0, 0, (l.take n).map (·.2), fun _ => 0, fun _ => none, []⟩, .refl, hv,
    Nat.zero_le _, hf, fun e _ mark hmark => (by cases hmark), ?_, .off, fun e mark hmem => ?_⟩
  · simp [Turnover.calls, settle, after, World.start]
  · cases hmem

end Turning

theorem Slides.serial_reachable (L : R.Slides) (T : R.Total) {c : DispatcherConfig} {start : σ}
    (hv : R.Valid start)
    (hlimit : ∀ limit now s due, S.fetchDue limit now s = .ok due → due.length ≤ limit.toNat)
    {w : Solo σ} (hw : (single S c start).Reachable (fun _ _ => True) w) :
    (serial S start).Reachable (Serial.Allowed S c) w.store := by
  have hinv : (∀ i, (w.instances i).Bounded fetchedSize c) ∧ ∃ t, R.Turning c start t w := by
    refine hw.invariant (I := fun w => (∀ i, (w.instances i).Bounded fetchedSize c) ∧
      ∃ t, R.Turning c start t w) ⟨fun _ => .off, Turning.start_world hv⟩ ?_
    intro w a w' hI _ hstep
    obtain ⟨hb, t, h⟩ := hI
    exact ⟨(Batched.ofStore S hlimit).bounded_step hb hstep, h.step L T (hb ()) hstep⟩
  obtain ⟨-, t, h⟩ := hinv
  exact h.reach

end Refinement

theorem Memory.slides : Memory.refinement.Slides where
  commutes _ _ _ hv hab := (Memory.write_local.commutes hv hab).state
  known s e _ hk := by
    change (Memory.append e s).2 = s
    cases ht : topicValid e.topic with
    | false => rw [Memory.append_invalid s ht]
    | true =>
      cases Memory.append_cases s ht with
      | inl h => rw [h.2]
      | inr h => exact absurd (Memory.entry_absent_iff.mpr ⟨h.1, h.2.1⟩) hk

theorem Sqlite.slides (U : UuidCrate) : (Sqlite.refinement U).Slides where
  commutes t a b _ hab := by
    have hcall : ∀ w t, (Sqlite.perform (.none, w) t).2 = ((Sqlite.store U).call w.call t).2 := by
      intro w t
      obtain ⟨result, hp, -⟩ := Sqlite.perform_none U w t
      rw [hp]
    have hstate := (Sqlite.perform_local.commutes (s := t) trivial
      (a := (.none, a)) (b := (.none, b)) fun he => hab (EventId.text_inj.mp he)).state
    rwa [hcall, hcall, hcall, hcall] at hstate
  known t e _ hk := (Sqlite.appends e t).same fun hnone => hk (Sqlite.entry_none U hnone)

/-- Rounds are atomic. Whatever a dispatcher over the in-process store or over SQLite does,
its tasks interleaved with each other and with producers, with failing calls, lost
marks, crashes and shutdowns anywhere: each state of the store it reaches is one that a
serial loop reaches, in which every round fetches no more than the ceiling and at once
records an outcome the policy allows for each event it fetched, or none. -/
theorem rounds_atomic (U : UuidCrate) (c : DispatcherConfig) :
    (∀ w, (single Memory.store c Memory.new).Reachable (fun _ _ => True) w →
      (serial Memory.store Memory.new).Reachable (Serial.Allowed Memory.store c) w.store) ∧
    (∀ w, (single (Sqlite.store U) c Sqlite.empty).Reachable (fun _ _ => True) w →
      (serial (Sqlite.store U) Sqlite.empty).Reachable (Serial.Allowed (Sqlite.store U) c)
        w.store) := by
  constructor
  · intro w hw
    exact Memory.slides.serial_reachable Memory.refinement_total Memory.valid_new
      (fun _ _ _ _ h => Memory.fetchDue_length h) hw
  · intro w hw
    exact (Sqlite.slides U).serial_reachable (Sqlite.refinement_total U) Sqlite.valid_empty
      (fun _ _ _ _ h => Sqlite.fetchDue_length h) hw

/-- Two events in flight; the later one is marked first, after its append was repeated,
and then the process dies. -/
def outOfOrder : List (Action Unit) :=
  [.append (.sample 1 5) true, .append (.sample 2 6) true, .move () .start, .tick () 10 true,
    .fetched () true, .move () (.permit 1), .move () (.invoke 1), .append (.sample 2 6) true,
    .move () (.returned 1 .ok 20 .zero), .append (.sample 3 7) true, .mark () 1 20 true,
    .move () (.permit 0), .move () (.invoke 0),
    .move () (.returned 0 (.failure (.delivery "down")) 30 .zero), .mark () 0 30 true, .crash ()]

theorem rounds_atomic_outOfOrder :
    ∃ w, (single Memory.store (.sample 3) Memory.new).Reachable (fun _ _ => True) w ∧
      w.store.dispatched.toList = [.ofByte 2] ∧
      w.store.queue.toList = [(7, .ofByte 3), (30, .ofByte 1)] ∧
      (serial Memory.store Memory.new).Reachable (Serial.Allowed Memory.store (.sample 3))
        w.store := by
  have hrun : ((single Memory.store (.sample 3) Memory.new).run (fun _ _ => True)
      (World.start Unit _ Memory.new) outOfOrder).any (fun w =>
        w.store.dispatched.toList = [.ofByte 2] ∧
          w.store.queue.toList = [(7, .ofByte 3), (30, .ofByte 1)]) = true := by
    decide +kernel
  obtain ⟨w, hw, hdone, hqueue⟩ := System.exists_reach hrun
  exact ⟨w, hw, hdone, hqueue, (rounds_atomic .hyphenatedOnly (.sample 3)).1 w hw⟩

end OutboxKit
