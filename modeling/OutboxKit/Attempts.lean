import OutboxKit.Capacity
import OutboxKit.Custody
import OutboxKit.Lib.History

/-! No failure is lost between dispatchers. Several of them may send one event at a time,
each from a snapshot of its own; but a mark adds one to the counter in the table, not to
the snapshot's. So the counter is what the event came in with and one more for each
failed send, less those whose mark has yet to be issued or never took effect. -/
namespace OutboxKit
open Std Machine Ordered Trace

def Task.failing (id : EventId) (task : Task) : Bool :=
  match task.stage with
  | .marking (.failed ..) => decide (task.event.id = id)
  | .queued | .permitted | .sending | .marking .dispatched | .paused | .finished => false

def Instance.failing {γ : Type} (id : EventId) (inst : Instance γ) : Nat :=
  inst.inFlight.countP (Task.failing id)

/-- The failures of an event that were never recorded: the store refused the mark or was
not reached, or the process died before it. -/
def lostMarks {ι σ γ : Type} (P : Shared σ γ) (id : EventId) (w : World ι σ γ) (a : Action ι)
    (lost : Nat) : Nat :=
  match a with
  | .mark i n _ reached =>
    match (w.instances i).inFlight[n]? with
    | some ⟨e, .marking (.failed error retryAt)⟩ =>
      if e.id = id ∧ (reached && (P.markFailed e.id error retryAt w.store).1.isOk) = false
      then lost+1 else lost
    | _ => lost
  | .crash i => lost+(w.instances i).failing id
  | .append .. | .move .. | .tick .. | .fetched .. => lost

section Instances
variable {γ : Type} {inst inst' : Instance γ} {n : Nat} {task : Task} {stage : Stage}
  {id : EventId}

theorem Instance.failing_setStage (h : inst.inFlight[n]? = some task)
    (hold : task.failing id = false)
    (hnew : ({ task with stage := stage } : Task).failing id = false) :
    (inst.setStage n task stage).failing id = inst.failing id := by
  have hcount := Instance.countP_setStage (Task.failing id) h stage
  rw [hold, hnew] at hcount
  simpa [failing] using hcount

theorem Task.failing_of_stage (h : ∀ error retryAt, task.stage ≠ .marking (.failed error retryAt)) :
    task.failing id = false := by
  unfold failing
  cases hs : task.stage with
  | marking mark =>
    cases mark with
    | dispatched => rfl
    | failed error retryAt => exact absurd hs (h error retryAt)
  | queued | permitted | sending | paused | finished => rfl

/-- What a move adds to the failures yet to be recorded is what it puts on record. -/
theorem Instance.Moves.failing {c : DispatcherConfig} {m : Move} {obs : List Obs}
    (h : Moves c inst m inst' obs) (hdrained : inst.phase ≠ .draining → inst.inFlight = [])
    (id : EventId) : inst'.failing id = inst.failing id+failures obs id := by
  cases h with
  | start hp =>
    have hempty := hdrained (by simp [hp])
    simp [Instance.failing, Instance.started, hempty, failures]
  | shutdown hp => rfl
  | leave hp hs => rfl
  | stop hp hf => rfl
  | drained hp hf => rfl
  | gauge hp => rfl
  | permit n task ht hs hc =>
    exact failing_setStage ht (Task.failing_of_stage (by simp [hs]))
      (Task.failing_of_stage (by simp))
  | invoke n task ht hs =>
    exact failing_setStage ht (Task.failing_of_stage (by simp [hs]))
      (Task.failing_of_stage (by simp))
  | pause n task result now delay ht hs hr =>
    exact failing_setStage ht (Task.failing_of_stage (by simp [hs]))
      (Task.failing_of_stage (by simp))
  | answer n task result now delay mark ht hs hj hr =>
    have hcount := Instance.countP_setStage (Task.failing id) ht (.marking mark)
    rw [Task.failing_of_stage (by simp [hs])] at hcount
    cases mark with
    | dispatched => simpa [Instance.failing, Task.failing, failures, Obs.ofMark] using hcount
    | failed error retryAt =>
      by_cases hid : task.event.id = id
      · simpa [Instance.failing, Task.failing, failures, Obs.ofMark, hid] using hcount
      · simpa [Instance.failing, Task.failing, failures, Obs.ofMark, hid] using hcount
  | join n task ht hs =>
    obtain ⟨hn, rfl⟩ := List.getElem?_eq_some_iff.mp ht
    have hstage : (inst.inFlight[n]).failing id = false := by
      apply Task.failing_of_stage
      intro error retryAt
      cases hs with
      | inl hs => simp [hs]
      | inr hs => simp [hs]
    have hcount := (List.getElem_cons_eraseIdx_perm hn).countP_eq (Task.failing id)
    rw [List.countP_cons, hstage] at hcount
    simpa [Instance.failing, failures] using hcount

end Instances

def World.failing {ι σ γ : Type} [Fintype ι] (w : World ι σ γ) (id : EventId) : Nat :=
  ∑ i, (w.instances i).failing id

theorem World.failing_put {ι σ γ : Type} [Fintype ι] [DecidableEq ι] (w : World ι σ γ) (i : ι)
    (inst : Instance γ) (s : σ) (obs : List Obs) (id : EventId) :
    (w.put i inst s obs).failing id+(w.instances i).failing id = w.failing id+inst.failing id :=
  w.sum_put (Instance.failing id) i inst s obs

/-- The attempt counters of a ledger: an append that is the first sets one, a failure mark
that goes through adds one to it. -/
structure Counter {σ γ τ : Type} {P : Shared σ γ} (L : Ledger P τ) where
  keep : UInt32 → Int
  count : τ → EventId → Int
  absent : ∀ t id, ¬L.has t id → count t id = 0
  append_has : ∀ e s id, L.has (L.tables (P.append e s).2) id → L.has (L.tables s) id ∨
    id = e.id ∧ (P.append e s).1 = .ok ()
  append_known : ∀ e s id, L.has (L.tables s) id →
    count (L.tables (P.append e s).2) id = count (L.tables s) id
  append_new : ∀ e s, (P.append e s).1 = .ok () → ¬L.has (L.tables s) e.id →
    count (L.tables (P.append e s).2) e.id = keep e.attempts
  issue_has : ∀ clock k mark s id, L.has (L.tables (P.issue clock k mark s)) id →
    L.has (L.tables s) id
  dispatched : ∀ clock k s id,
    count (L.tables (P.markDispatched clock k s).2) id = count (L.tables s) id
  failed : ∀ k error retryAt s id, L.has (L.tables s) k →
    count (L.tables (P.markFailed k error retryAt s).2) id = count (L.tables s) id+
      if k = id ∧ (P.markFailed k error retryAt s).1.isOk = true then 1 else 0

namespace Counter
variable {ι σ γ τ : Type} {P : Shared σ γ} {L : Ledger P τ} (C : Counter L)
  {config : ι → DispatcherConfig} {id : EventId} {lost : Nat}

def initial (log : List Obs) (id : EventId) : Int :=
  (firstAppended log id).elim 0 fun e => C.keep e.attempts

theorem initial_append {obs : List Obs} (h : firstAppended obs id = none) (log : List Obs) :
    C.initial (log++obs) id = C.initial log id := by
  rw [initial, firstAppended_append, h, Option.or_none]
  rfl

variable [Fintype ι]

/-- The account of one event: its counter, with what is yet to be recorded and what was
lost, makes up what it came in with and its failed sends. -/
structure Balanced (id : EventId) (lost : Nat) (w : World ι σ γ) : Prop where
  known : L.has (L.tables w.store) id → firstAppended w.log id ≠ none
  account : C.count (L.tables w.store) id+(w.failing id+lost : Nat) =
    C.initial w.log id+failures w.log id

variable {C} {w w' : World ι σ γ}

theorem balanced_start (s : σ) (h : ∀ id, ¬L.has (L.tables s) id) (id : EventId) :
    C.Balanced id 0 (World.start ι γ s) where
  known hid := absurd hid (h id)
  account := by
    have hfailing : (World.start ι γ s).failing id = 0 := by
      simp [World.failing, World.start, Instance.failing, Instance.off]
    rw [hfailing]
    change C.count (L.tables s) id+_ = _
    rw [C.absent _ _ (h id)]
    simp [initial, World.start, firstAppended, failures]

omit [Fintype ι] in
theorem append_same (C : Counter L) {e : OutboxEvent} {s : σ}
    (h : id = e.id → (P.append e s).1 = .ok () → L.has (L.tables s) id) :
    (L.has (L.tables (P.append e s).2) id → L.has (L.tables s) id) ∧
      C.count (L.tables (P.append e s).2) id = C.count (L.tables s) id := by
  have hhas : L.has (L.tables (P.append e s).2) id → L.has (L.tables s) id := by
    intro hnew
    cases C.append_has e s id hnew with
    | inl hold => exact hold
    | inr hc => exact h hc.1 hc.2
  refine ⟨hhas, ?_⟩
  by_cases hold : L.has (L.tables s) id
  · exact C.append_known e s id hold
  · rw [C.absent _ _ hold, C.absent _ _ fun hnew => hold (hhas hnew)]

theorem Balanced.append_same (h : C.Balanced id lost w) {e : OutboxEvent} {log : List Obs}
    (hsame : id = e.id → (P.append e w.store).1 = .ok () → L.has (L.tables w.store) id)
    (hfirst : firstAppended log id = firstAppended w.log id)
    (hfailures : failures log id = failures w.log id) :
    C.Balanced id lost ⟨(P.append e w.store).2, w.instances, log⟩ := by
  obtain ⟨hhas, hcount⟩ := C.append_same hsame
  refine ⟨fun hnew => ?_, ?_⟩
  · rw [hfirst]
    exact h.known (hhas hnew)
  · rw [hcount, initial, hfirst, hfailures]
    exact h.account

theorem Balanced.appended (h : C.Balanced id lost w)
    (hknown : ∀ e, .appended e ∈ w.log → L.has (L.tables w.store) e.id) {e : OutboxEvent}
    (hok : (P.append e w.store).1 = .ok ()) :
    C.Balanced id lost ⟨(P.append e w.store).2, w.instances, w.log++[.appended e]⟩ := by
  have hfailures : failures (w.log++[.appended e]) id = failures w.log id := by
    simp [failures, List.count_append]
  by_cases hid : id = e.id
  · subst hid
    by_cases hhas : L.has (L.tables w.store) e.id
    · obtain ⟨f, hf⟩ := Option.ne_none_iff_exists'.mp (h.known hhas)
      exact h.append_same (fun _ _ => hhas) ((firstAppended_mono hf _).trans hf.symm) hfailures
    · have hnone : firstAppended w.log e.id = none :=
        firstAppended_eq_none fun f hf hfe => hhas (hfe ▸ hknown f hf)
      have hfirst : firstAppended (w.log++[.appended e]) e.id = some e := by
        rw [firstAppended_append, hnone, Option.none_or, firstAppended_self]
      refine ⟨fun _ => (by simp [hfirst]), ?_⟩
      have haccount := h.account
      rw [initial, hnone, C.absent _ _ hhas] at haccount
      change 0+((w.failing e.id+lost : Nat) : Int) = 0+(failures w.log e.id : Int) at haccount
      rw [C.append_new e w.store hok hhas, initial, hfirst, hfailures]
      change C.keep e.attempts+((w.failing e.id+lost : Nat) : Int) = C.keep e.attempts+_
      omega
  · have hother : firstAppended [.appended e] id = none :=
      firstAppended_other (by simpa [Obs.id] using Ne.symm hid)
    refine h.append_same (fun he => absurd he hid) ?_ hfailures
    rw [firstAppended_append, hother, Option.or_none]

variable [DecidableEq ι]

/-- A step of one instance moves failures from what is on record to what is to be recorded,
and from there to the counter or to what is lost. -/
theorem Balanced.put (h : C.Balanced id lost w) (i : ι) {inst : Instance γ} {s : σ}
    {obs : List Obs} {lost' : Nat} (hhas : L.has (L.tables s) id → L.has (L.tables w.store) id)
    (hfirst : firstAppended obs id = none)
    (haccount : C.count (L.tables s) id+(inst.failing id+lost' : Nat) =
      C.count (L.tables w.store) id+((w.instances i).failing id+lost+failures obs id : Nat)) :
    C.Balanced id lost' (w.put i inst s obs) where
  known hnew := by
    change firstAppended (w.log++obs) id ≠ none
    rw [firstAppended_append, hfirst, Option.or_none]
    exact h.known (hhas hnew)
  account := by
    have hsum := w.failing_put i inst s obs id
    have hold := h.account
    have hfailures : failures (w.log++obs) id = failures w.log id+failures obs id :=
      List.count_append
    change C.count (L.tables s) id+((w.put i inst s obs).failing id+lost' : Nat) =
      C.initial (w.log++obs) id+failures (w.log++obs) id
    rw [C.initial_append hfirst, hfailures]
    omega

theorem Balanced.still (h : C.Balanced id lost w) (i : ι) {inst : Instance γ} {s : σ}
    (hs : L.tables s = L.tables w.store)
    (hfailing : inst.failing id = (w.instances i).failing id) :
    C.Balanced id lost (w.put i inst s []) := by
  refine h.put i (fun hnew => hs ▸ hnew) rfl ?_
  rw [hs, hfailing]
  simp [failures]

omit [Fintype ι] [DecidableEq ι] in
theorem failing_finished (id : EventId) {i : ι} {n : Nat} {e : OutboxEvent} {error : String}
    {retryAt : UInt64}
    (ht : (w.instances i).inFlight[n]? = some ⟨e, .marking (.failed error retryAt)⟩) :
    ((w.instances i).setStage n ⟨e, .marking (.failed error retryAt)⟩ .finished).failing id+
      (if e.id = id then 1 else 0) = (w.instances i).failing id := by
  have hcount := Instance.countP_setStage (Task.failing id) ht .finished
  by_cases hid : e.id = id
  · simpa [Instance.failing, Task.failing, hid] using hcount
  · simpa [Instance.failing, Task.failing, hid] using hcount

theorem Balanced.issued (K : Custody L) (hk : K.EnvelopesGenuine w) (h : C.Balanced id lost w)
    {i : ι} {n : Nat} {clock : UInt64} {e : OutboxEvent} {mark : Mark}
    (ht : (w.instances i).inFlight[n]? = some ⟨e, .marking mark⟩) :
    C.Balanced id (lostMarks P id w (.mark i n clock true) lost)
      (w.put i ((w.instances i).setStage n ⟨e, .marking mark⟩ .finished)
        (P.issue clock e.id mark w.store) []) := by
  have hhas : L.has (L.tables w.store) e.id := by
    obtain ⟨f, hf, -⟩ := hk.tasks i _ (List.mem_of_getElem? ht)
    obtain ⟨hmem, hid⟩ := firstAppended_eq_some hf
    have hknown := hk.known f hmem
    rwa [hid] at hknown
  refine h.put i (C.issue_has clock e.id mark w.store id) rfl ?_
  cases mark with
  | dispatched =>
    have hfailing : ((w.instances i).setStage n ⟨e, .marking .dispatched⟩ .finished).failing id =
        (w.instances i).failing id := Instance.failing_setStage ht rfl rfl
    simp only [lostMarks, ht, hfailing]
    change C.count (L.tables (P.markDispatched clock e.id w.store).2) id+_ = _
    rw [C.dispatched]
    simp [failures]
  | failed error retryAt =>
    have hfailing := failing_finished id ht
    simp only [lostMarks, ht]
    change C.count (L.tables (P.markFailed e.id error retryAt w.store).2) id+_ = _
    rw [C.failed e.id error retryAt w.store id hhas]
    have hzero : failures [] id = 0 := rfl
    by_cases hid : e.id = id
    · rw [if_pos hid] at hfailing
      cases hok : (P.markFailed e.id error retryAt w.store).1.isOk with
      | true =>
        simp only [hid, Bool.and_true, Bool.true_eq_false, and_false, if_false, and_self, if_true]
        omega
      | false =>
        simp only [hid, Bool.and_false, and_self, if_true, Bool.false_eq_true, and_false, if_false]
        omega
    · rw [if_neg hid] at hfailing
      simp only [hid, false_and, if_false]
      omega

theorem Balanced.markLost (h : C.Balanced id lost w) {i : ι} {n : Nat} {clock : UInt64}
    {e : OutboxEvent} {mark : Mark} (ht : (w.instances i).inFlight[n]? = some ⟨e, .marking mark⟩) :
    C.Balanced id (lostMarks P id w (.mark i n clock false) lost)
      (w.put i ((w.instances i).setStage n ⟨e, .marking mark⟩ .finished) w.store []) := by
  refine h.put i (fun hnew => hnew) rfl ?_
  have hzero : failures [] id = 0 := rfl
  cases mark with
  | dispatched =>
    have hfailing : ((w.instances i).setStage n ⟨e, .marking .dispatched⟩ .finished).failing id =
        (w.instances i).failing id := Instance.failing_setStage ht rfl rfl
    simp only [lostMarks, ht, hfailing]
    omega
  | failed error retryAt =>
    have hfailing := failing_finished id ht
    simp only [lostMarks, ht]
    by_cases hid : e.id = id
    · rw [if_pos hid] at hfailing
      simp only [hid, Bool.false_and, and_self, if_true]
      omega
    · rw [if_neg hid] at hfailing
      simp only [hid, false_and, if_false]
      omega

/-- One step, whatever it is, keeps the account of every event. -/
theorem Balanced.step (B : Batched P) (K : Custody L) {a : Action ι}
    (hb : ∀ i, (w.instances i).Bounded B.size (config i)) (hk : K.EnvelopesGenuine w)
    (h : C.Balanced id lost w) (hstep : w.step P config a = some w') :
    C.Balanced id (lostMarks P id w a lost) w' := by
  cases World.steps_of_step hstep with
  | appended e s happ =>
    rw [show s = (P.append e w.store).2 by rw [happ]]
    exact h.appended hk.known (by rw [happ])
  | refused e s err happ =>
    rw [show s = (P.append e w.store).2 by rw [happ]]
    refine h.append_same (fun _ hok => ?_) rfl rfl
    rw [happ] at hok
    cases hok
  | appendLost e => exact h
  | moved i m inst obs hm =>
    have hnone : firstAppended obs id = none :=
      firstAppended_eq_none fun f hf => absurd hf (hm.not_appended f)
    refine h.put i (fun hnew => hnew) hnone ?_
    have hfailing := hm.failing (hb i).drained id
    simp only [lostMarks]
    omega
  | idled i now reached hp => exact h.still i rfl rfl
  | opened i now claim s hp hopen =>
    have hs := L.openFetch (w.instances i).batchSize now w.store
    rw [hopen] at hs
    exact h.still i hs rfl
  | spawned i claim due s hp hclose =>
    have hs := L.closeFetch claim w.store
    rw [hclose] at hs
    refine h.still i hs ?_
    have hnew : (due.map fun e => (⟨e, .queued⟩ : Task)).countP (Task.failing id) = 0 := by
      refine List.countP_eq_zero.mpr fun task ht => ?_
      obtain ⟨e, -, rfl⟩ := List.mem_map.mp ht
      simp [Task.failing]
    rw [Instance.failing, Instance.spawn, List.countP_append, hnew]
    rfl
  | fetchFailed i claim err s hp hclose =>
    have hs := L.closeFetch claim w.store
    rw [hclose] at hs
    exact h.still i hs rfl
  | fetchLost i claim hp => exact h.still i (L.abortFetch claim w.store) rfl
  | issued i n clock e mark ht hfree => exact h.issued K hk ht
  | markLost i n clock e mark ht => exact h.markLost ht
  | crashed i =>
    have hs := L.release (w.instances i) w.store
    refine h.put i (fun hnew => hs ▸ hnew) rfl ?_
    have hzero : failures [] id = 0 := rfl
    have hoff : (Instance.off : Instance γ).failing id = 0 := rfl
    simp only [lostMarks]
    rw [hs]
    omega

theorem balanced_run (B : Batched P) (K : Custody L) {start : σ}
    (hhas : ∀ id, ¬L.has (L.tables start) id) (hholds : ∀ v, ¬K.holds (L.tables start) v)
    {as : List (Action ι)}
    (h : (dispatching P config start).run (fun _ _ => True) (World.start ι γ start) as = some w)
    (id : EventId) : C.Balanced id
      ((dispatching P config start).record (lostMarks P id) (World.start ι γ start) as 0) w := by
  have hinv : (∀ i, (w.instances i).Bounded B.size (config i)) ∧ K.EnvelopesGenuine w ∧
      C.Balanced id
        ((dispatching P config start).record (lostMarks P id) (World.start ι γ start) as 0) w := by
    refine System.run_record (I := fun lost w => (∀ i, (w.instances i).Bounded B.size (config i)) ∧
      K.EnvelopesGenuine w ∧ C.Balanced id lost w) h ?_ ?_
    · exact ⟨fun _ => .off, Custody.genuine_start start hholds, balanced_start start hhas id⟩
    · intro lost w a w' hI _ hstep
      obtain ⟨hb, hk, hbal⟩ := hI
      exact ⟨B.bounded_step hb hstep, hk.step hstep, hbal.step B K hb hk hstep⟩
  exact hinv.2.2

end Counter

section Rows
variable {ρ : Type} (attempts : ρ → Int) {m : ExtTreeMap String ρ} {k id : EventId} {row : ρ}

def rowCount (m : ExtTreeMap String ρ) (id : EventId) : Int := m[id.text]?.elim 0 attempts

theorem rowCount_of_not_has (h : ¬Has m id) : rowCount attempts m id = 0 := by
  rw [Has, not_not] at h
  rw [rowCount, h]
  rfl

theorem rowCount_of_get (h : m[id.text]? = some row) : rowCount attempts m id = attempts row := by
  rw [rowCount, h]
  rfl

theorem rowCount_insert (k id : EventId) (m : ExtTreeMap String ρ) (row : ρ) :
    rowCount attempts (m.insert k.text row) id =
      if k = id then attempts row else rowCount attempts m id := by
  by_cases hk : k = id
  · subst hk
    simp [rowCount]
  · simp [rowCount, ExtTreeMap.getElem?_insert, EventId.text_inj, hk]

theorem rowCount_rewrite {old : ρ} (hget : m[k.text]? = some old)
    (hrow : attempts row = attempts old) (id : EventId) :
    rowCount attempts (m.insert k.text row) id = rowCount attempts m id := by
  rw [rowCount_insert]
  by_cases hk : k = id
  · subst hk
    rw [if_pos rfl, rowCount_of_get attempts hget, hrow]
  · rw [if_neg hk]

theorem rowCount_succ {old : ρ} (hget : m[k.text]? = some old)
    (hrow : attempts row = attempts old+1) (id : EventId) :
    rowCount attempts (m.insert k.text row) id =
      rowCount attempts m id+if k = id then 1 else 0 := by
  rw [rowCount_insert]
  by_cases hk : k = id
  · subst hk
    rw [if_pos rfl, if_pos rfl, rowCount_of_get attempts hget, hrow]
  · rw [if_neg hk, if_neg hk, Int.add_zero]

variable {τ : Type} {T : RowTable τ ρ} {t t' : τ} {result : Except StoreError Unit}
  {e : OutboxEvent} {skips : ρ → Prop} {rewrites : ρ → ρ → Prop}

theorem RowTable.Appends.rowCount_known (h : T.Appends e t result t') (hk : Has (T.rows t) id) :
    rowCount attempts (T.rows t') id = rowCount attempts (T.rows t) id := by
  rw [rowCount, rowCount, h.row_known hk]

theorem RowTable.Appends.rowCount_new (h : T.Appends e t result t') {n : Int}
    (hrow : ∀ row, T.Inserts e row → attempts row = n) (hok : result = .ok ())
    (hnew : ¬Has (T.rows t) e.id) : rowCount attempts (T.rows t') e.id = n := by
  cases h with
  | refused err hacc => cases hok
  | known row hacc hget => exact absurd (has_of_some hget) hnew
  | inserted row hacc hget hins =>
    rw [T.rows_write, rowCount_insert, if_pos rfl, hrow row hins]

theorem RowTable.Marks.rowCount_same (h : T.Marks skips rewrites k t result t')
    (hrow : ∀ old new, rewrites old new → attempts new = attempts old) (id : EventId) :
    rowCount attempts (T.rows t') id = rowCount attempts (T.rows t) id := by
  cases h with
  | refused err => rfl
  | unknown hget => rfl
  | skipped row hget hskip => rfl
  | written old new hget hnew =>
    rw [T.rows_write]
    exact rowCount_rewrite attempts hget (hrow old new hnew) id

theorem RowTable.Marks.rowCount_succ (h : T.Marks skips rewrites k t result t')
    (hskip : ∀ row, ¬skips row) (hrow : ∀ old new, rewrites old new → attempts new = attempts old+1)
    (id : EventId) (hk : Has (T.rows t) k) : rowCount attempts (T.rows t') id =
      rowCount attempts (T.rows t) id+if k = id ∧ result.isOk = true then 1 else 0 := by
  cases h with
  | refused err => simp [Except.isOk, Except.toBool]
  | unknown hget => exact absurd hget hk
  | skipped row hget hs => exact absurd hs (hskip row)
  | written old new hget hnew =>
    rw [T.rows_write]
    simpa [Except.isOk, Except.toBool] using
      OutboxKit.rowCount_succ attempts hget (hrow old new hnew) id

end Rows

namespace Sqlite

def count (t : Tables) : EventId → Int := rowCount EventRow.attempts t.outboxEvents

def attemptCounter (U : UuidCrate) : Counter (ledger U) where
  keep attempts := attempts.toNat
  count := count
  absent _ _ h := rowCount_of_not_has EventRow.attempts h
  append_has e t _ := (appends e t).has_iff.mp
  append_known e t _ := (appends e t).rowCount_known EventRow.attempts
  append_new e t := (appends e t).rowCount_new EventRow.attempts fun _ => attempts_of_inserts
  issue_has clock k mark t _ := by
    cases mark with
    | dispatched => exact (dispatches clock k t).has_iff.mp
    | failed error retryAt => exact (fails k error retryAt t).has_iff.mp
  dispatched clock k t := (dispatches clock k t).rowCount_same EventRow.attempts fun _ _ hrow => by
    rw [hrow]
  failed k error retryAt t := (fails k error retryAt t).rowCount_succ EventRow.attempts
    (fun _ => not_false) fun _ _ hrow => by rw [hrow, EventRow.failed]

end Sqlite

namespace Postgres

def count (t : Tables) : EventId → Int := rowCount EventRow.attempts t.outboxEvents

def attemptCounter (U : UuidCrate) : Counter (ledger U) where
  keep attempts := min (attempts.toNat : Int) i32Max
  count := count
  absent _ _ h := rowCount_of_not_has EventRow.attempts h
  append_has e db _ := (appends e db.tables).has_iff.mp
  append_known e db _ := (appends e db.tables).rowCount_known EventRow.attempts
  append_new e db := (appends e db.tables).rowCount_new EventRow.attempts fun _ =>
    attempts_of_inserts
  issue_has clock k mark db _ := by
    cases mark with
    | dispatched => exact (dispatches clock k db.tables).has_iff.mp
    | failed error retryAt => exact (fails k error retryAt db.tables).has_iff.mp
  dispatched clock k db := (dispatches clock k db.tables).rowCount_same EventRow.attempts
    fun _ _ hrow => by rw [hrow]
  failed k error retryAt db := (fails k error retryAt db.tables).rowCount_succ EventRow.attempts
    (fun _ => not_false) fun _ _ hrow => by rw [hrow, EventRow.failed]

end Postgres

def lostInRun {ι σ γ : Type} [DecidableEq ι] (P : Shared σ γ) (config : ι → DispatcherConfig)
    (start : σ) (id : EventId) (as : List (Action ι)) : Nat :=
  (dispatching P config start).record (lostMarks P id) (World.start ι γ start) as 0

/-- No failure is lost between dispatchers. For any number of them on one SQLite store, or on
one Postgres store, and any run, with failing calls, refused marks and crashes
anywhere: each row's attempts, with the failures an instance has yet to record and those
the run has lost, are what its first append came in with and one for each failed send. -/
theorem failures_counted (U : UuidCrate) {ι : Type} [DecidableEq ι] [Fintype ι]
    (config : ι → DispatcherConfig) (as : List (Action ι)) :
    (∀ w, (dispatching (Shared.ofStore (Sqlite.store U)) config Sqlite.empty).run
        (fun _ _ => True) (World.start ι _ Sqlite.empty) as = some w →
      ∀ id row, w.store.outboxEvents[id.text]? = some row →
        ∃ e, firstAppended w.log id = some e ∧
          row.attempts+((w.failing id+lostInRun (Shared.ofStore (Sqlite.store U)) config
            Sqlite.empty id as : Nat) : Int) = (e.attempts.toNat+failures w.log id : Nat)) ∧
    (∀ w, (dispatching (Postgres.shared U) config ⟨Postgres.empty, []⟩).run
        (fun _ _ => True) (World.start ι _ ⟨Postgres.empty, []⟩) as = some w →
      ∀ id row, w.store.tables.outboxEvents[id.text]? = some row →
        ∃ e, firstAppended w.log id = some e ∧
          row.attempts+((w.failing id+lostInRun (Postgres.shared U) config
            ⟨Postgres.empty, []⟩ id as : Nat) : Int) =
              (min e.attempts.toNat (2^31-1)+failures w.log id : Nat)) := by
  constructor
  · intro w hw id row hget
    have hbal := (Sqlite.attemptCounter U).balanced_run
      (.ofStore (Sqlite.store U) fun _ _ _ _ h => Sqlite.fetchDue_length h) (Sqlite.custody U)
      (by simp [Sqlite.ledger, Has, Sqlite.empty])
      (by simp [Sqlite.custody, Sqlite.ledger, Sqlite.holds, HoldsRow, Sqlite.empty]) hw id
    have hhas : Has w.store.outboxEvents id := has_of_some hget
    obtain ⟨e, he⟩ := Option.ne_none_iff_exists'.mp (hbal.known hhas)
    have haccount := hbal.account
    rw [Counter.initial, he] at haccount
    change Sqlite.count w.store id+_ = (e.attempts.toNat : Int)+_ at haccount
    rw [Sqlite.count, rowCount_of_get Sqlite.EventRow.attempts hget] at haccount
    refine ⟨e, he, ?_⟩
    rw [Nat.cast_add e.attempts.toNat]
    exact haccount
  · intro w hw id row hget
    have hbal := (Postgres.attemptCounter U).balanced_run (Postgres.batched U) (Postgres.custody U)
      (by simp [Postgres.ledger, Has, Postgres.empty])
      (by simp [Postgres.custody, Postgres.ledger, Postgres.holds, HoldsRow, Postgres.empty]) hw id
    have hhas : Has w.store.tables.outboxEvents id := has_of_some hget
    obtain ⟨e, he⟩ := Option.ne_none_iff_exists'.mp (hbal.known hhas)
    have haccount := hbal.account
    rw [Counter.initial, he] at haccount
    change Postgres.count w.store.tables id+_ = min (e.attempts.toNat : Int) i32Max+_ at haccount
    rw [Postgres.count, rowCount_of_get Postgres.EventRow.attempts hget, i32Max] at haccount
    refine ⟨e, he, ?_⟩
    rw [Nat.cast_add (min e.attempts.toNat (2^31-1)), Nat.cast_min]
    exact haccount

/-- Two dispatchers send one event at the same time and both fail; later a mark is lost. -/
def failsOnBoth : List (Action Bool) :=
  [.append (.sample 1 5) true, .move true .start, .move false .start, .tick true 10 true,
    .fetched true true, .tick false 11 true, .fetched false true, .move true (.permit 0),
    .move true (.invoke 0), .move false (.permit 0), .move false (.invoke 0),
    .move true (.returned 0 (.failure (.delivery "down")) 20 .zero),
    .move false (.returned 0 (.failure (.delivery "down")) 21 .zero), .mark true 0 20 true,
    .mark false 0 21 true, .move true (.join 0), .move true .drained, .move true .gauge,
    .tick true 30 true, .fetched true true, .move true (.permit 0), .move true (.invoke 0),
    .move true (.returned 0 (.failure (.delivery "down")) 31 .zero), .mark true 0 31 false]

theorem failures_counted_failsOnBoth :
    ∃ w, (dispatching (Postgres.shared .hyphenatedOnly) (fun _ : Bool => .sample 9)
        ⟨Postgres.empty, []⟩).run (fun _ _ => True) (World.start Bool _ ⟨Postgres.empty, []⟩)
        failsOnBoth = some w ∧
      ∃ row e, w.store.tables.outboxEvents[(EventId.ofByte 1).text]? = some row ∧
        row.attempts = 2 ∧ firstAppended w.log (.ofByte 1) = some e ∧
        row.attempts+((w.failing (.ofByte 1)+lostInRun (Postgres.shared .hyphenatedOnly)
          (fun _ : Bool => .sample 9) ⟨Postgres.empty, []⟩ (.ofByte 1) failsOnBoth : Nat) : Int) =
            (min e.attempts.toNat (2^31-1)+failures w.log (.ofByte 1) : Nat) := by
  have hrun : ((dispatching (Postgres.shared .hyphenatedOnly) (fun _ : Bool => .sample 9)
      ⟨Postgres.empty, []⟩).run (fun _ _ => True) (World.start Bool _ ⟨Postgres.empty, []⟩)
      failsOnBoth).any (fun w =>
        (w.store.tables.outboxEvents[(EventId.ofByte 1).text]?.map (·.attempts)) =
          some 2) = true := by
    decide +kernel
  obtain ⟨w, hw, hattempts⟩ := (Option.any_eq_true _ _).mp hrun
  obtain ⟨row, hget, hrow⟩ := Option.map_eq_some_iff.mp (of_decide_eq_true hattempts)
  obtain ⟨e, he, haccount⟩ := (failures_counted .hyphenatedOnly (fun _ : Bool => .sample 9)
    failsOnBoth).2 w hw _ row hget
  exact ⟨w, hw, row, e, hget, hrow, he, haccount⟩

end OutboxKit
