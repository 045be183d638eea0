import OutboxKit.Budget
import OutboxKit.Delivery

/-! What is sent is what was appended. A store writes an event's envelope once, when it
accepts the first append of its identifier; marks rewrite the retry state only. So the
envelope a task works from, whatever was interleaved with its fetch, is that first
append's, and no send comes before it. -/
namespace OutboxKit
open Std Machine Ordered Trace

/-- The part of an event that no mark writes. -/
structure Envelope where
  id : EventId
  topic : String
  payload : List UInt8
  headers : Headers
  createdAt : UInt64

def OutboxEvent.envelope (e : OutboxEvent) : Envelope :=
  ⟨e.id, e.topic, e.payload, e.headers, e.createdAt⟩

def Envelope.stamped (keep : UInt64 → UInt64) (v : Envelope) : Envelope :=
  { v with createdAt := keep v.createdAt }

section Log
variable {log obs : List Obs} {id : EventId} {e : OutboxEvent}

theorem firstAppended_eq_some (h : firstAppended log id = some e) :
    .appended e ∈ log ∧ e.id = id := by
  obtain ⟨o, ho, he⟩ := List.exists_of_findSome?_eq_some h
  cases o with
  | appended f =>
    change (if f.id = id then some f else none) = some e at he
    by_cases hid : f.id = id
    · rw [if_pos hid] at he
      cases he
      exact ⟨ho, hid⟩
    · rw [if_neg hid] at he
      cases he
  | invoked k | delivered k | failed k => cases he

theorem firstAppended_eq_none (h : ∀ f, .appended f ∈ log → f.id ≠ id) :
    firstAppended log id = none := by
  cases hf : firstAppended log id with
  | none => rfl
  | some f =>
    obtain ⟨hmem, hid⟩ := firstAppended_eq_some hf
    exact absurd hid (h f hmem)

theorem firstAppended_mono (h : firstAppended log id = some e) (obs : List Obs) :
    firstAppended (log++obs) id = some e := by
  rw [firstAppended_append, h, Option.some_or]

/-- Every send on record comes after an append of its event. -/
def Preceded (log : List Obs) : Prop :=
  ∀ k id, log[k]? = some (.invoked id) → (firstAppended (log.take k) id).isSome

theorem Preceded.append (h : Preceded log)
    (hobs : ∀ id, .invoked id ∈ obs → (firstAppended log id).isSome) : Preceded (log++obs) := by
  intro k id hk
  by_cases hlt : k < log.length
  · rw [List.getElem?_append_left hlt] at hk
    rw [List.take_append_of_le_length (by omega)]
    exact h k id hk
  · rw [List.getElem?_append_right (by omega)] at hk
    obtain ⟨e, he⟩ := Option.isSome_iff_exists.mp (hobs id (List.mem_of_getElem? hk))
    rw [List.take_append, List.take_of_length_le (by omega), firstAppended_mono he]
    rfl

end Log

theorem Instance.Moves.invoked {γ : Type} {c : DispatcherConfig} {inst inst' : Instance γ}
    {m : Move} {obs : List Obs} (h : Moves c inst m inst' obs) {id : EventId}
    (hmem : .invoked id ∈ obs) :
    ∃ task ∈ inst.inFlight, task.event.id = id := by
  cases h with
  | invoke n task ht hs =>
    cases List.mem_singleton.mp hmem
    exact ⟨task, List.mem_of_getElem? ht, rfl⟩
  | answer n task result now delay mark ht hs hj hm =>
    cases mark <;> cases List.mem_singleton.mp hmem
  | _ => cases hmem

theorem Instance.event_of_mem_setStage {γ : Type} {inst : Instance γ} {n : Nat} {task t : Task}
    {stage : Stage} (h : inst.inFlight[n]? = some task)
    (ht : t ∈ (inst.setStage n task stage).inFlight) :
    ∃ old ∈ inst.inFlight, t.event = old.event := by
  cases Instance.mem_setStage ht with
  | inl hold => exact ⟨t, hold, rfl⟩
  | inr he => exact ⟨task, List.mem_of_getElem? h, by rw [he]⟩

theorem Instance.Moves.fetching {γ : Type} {c : DispatcherConfig} {inst inst' : Instance γ}
    {m : Move} {obs : List Obs} (h : Moves c inst m inst' obs) {claim : γ}
    (hp : inst'.phase = .fetching claim) :
    inst.phase = .fetching claim := by
  cases h with
  | start _ | leave _ _ | stop _ _ | drained _ _ | gauge _ => cases hp
  | shutdown _ => exact hp
  | permit n task _ _ _ | invoke n task _ _ => exact hp
  | pause n task _ _ _ _ _ _ => exact hp
  | answer n task _ _ _ _ _ _ _ _ => exact hp
  | join n task _ _ => exact hp

theorem invocations_le_step {ι σ γ : Type} [DecidableEq ι] {P : Shared σ γ}
    {config : ι → DispatcherConfig} {w w' : World ι σ γ} {a : Action ι}
    (h : w.step P config a = some w') (id : EventId) :
    invocations w.log id ≤ invocations w'.log id := by
  have put : ∀ {i : ι} {inst : Instance γ} {s : σ} {obs : List Obs},
      invocations w.log id ≤ invocations (w.put i inst s obs).log id := by
    intro i inst s obs
    exact (List.sublist_append_left w.log obs).count_le _
  cases World.steps_of_step h with
  | appended e s happ => exact (List.sublist_append_left w.log _).count_le _
  | refused e s err happ => exact Nat.le_refl _
  | appendLost e => exact Nat.le_refl _
  | _ => exact put

theorem Ledger.issue_has {σ γ τ : Type} {P : Shared σ γ} (L : Ledger P τ) (clock : UInt64)
    (k : EventId) (mark : Mark) {s : σ} {id : EventId} (h : L.has (L.tables s) id) :
    L.has (L.tables (P.issue clock k mark s)) id := by
  cases mark with
  | dispatched => exact L.dispatched_has clock k s id h
  | failed error retryAt => exact L.failed_has k error retryAt s id h

theorem Ledger.release {σ γ τ : Type} {P : Shared σ γ} (L : Ledger P τ) (inst : Instance γ)
    (s : σ) : L.tables (P.release inst s) = L.tables s := by
  unfold Shared.release
  split
  · exact L.abortFetch _ s
  · rfl

/-- What a ledger has in custody: the envelopes its records read as, each written by the
append that made its identifier known. -/
structure Custody {σ γ τ : Type} {P : Shared σ γ} (L : Ledger P τ) where
  keep : UInt64 → UInt64
  holds : τ → Envelope → Prop
  claims : γ → Envelope → Prop
  append_holds : ∀ e s v, holds (L.tables (P.append e s).2) v → holds (L.tables s) v ∨
    (P.append e s).1 = .ok () ∧ ¬L.has (L.tables s) e.id ∧ v = e.envelope.stamped keep
  open_claims : ∀ limit now s v, claims (P.openFetch limit now s).1 v → holds (L.tables s) v
  close_claims : ∀ claim s due, (P.closeFetch claim s).1 = .ok due → ∀ e ∈ due,
    claims claim e.envelope
  issue_holds : ∀ clock k mark s v, holds (L.tables (P.issue clock k mark s)) v →
    holds (L.tables s) v

namespace Custody
variable {ι σ γ τ : Type} {P : Shared σ γ} {L : Ledger P τ} (C : Custody L)
  {config : ι → DispatcherConfig}

/-- The envelope is the one the first append of its identifier handed over. -/
def Genuine (log : List Obs) (v : Envelope) : Prop :=
  ∃ e, firstAppended log v.id = some e ∧ v = e.envelope.stamped C.keep

/-- The invariant: whatever the store, an open fetch or a task holds is genuine. -/
structure EnvelopesGenuine (w : World ι σ γ) : Prop where
  known : ∀ e, .appended e ∈ w.log → L.has (L.tables w.store) e.id
  held : ∀ v, C.holds (L.tables w.store) v → C.Genuine w.log v
  tasks : ∀ i, ∀ task ∈ (w.instances i).inFlight, C.Genuine w.log task.event.envelope
  claims : ∀ i claim, (w.instances i).phase = .fetching claim → ∀ v, C.claims claim v →
    C.Genuine w.log v
  sent : Preceded w.log

variable {C}

theorem Genuine.mono {log : List Obs} {v : Envelope} (h : C.Genuine log v) (obs : List Obs) :
    C.Genuine (log++obs) v := by
  obtain ⟨e, he, hv⟩ := h
  exact ⟨e, firstAppended_mono he obs, hv⟩

theorem genuine_start (s : σ) (h : ∀ v, ¬C.holds (L.tables s) v) :
    C.EnvelopesGenuine (World.start ι γ s) where
  known e he := by simp [World.start] at he
  held v hv := absurd hv (h v)
  tasks i task ht := by simp [World.start, Instance.off] at ht
  claims i claim hp := by cases hp
  sent k id hk := by simp [World.start] at hk

variable [DecidableEq ι]

theorem EnvelopesGenuine.put {w : World ι σ γ} (h : C.EnvelopesGenuine w) (i : ι)
    {inst : Instance γ} {s : σ} {obs : List Obs}
    (hhas : ∀ id, L.has (L.tables w.store) id → L.has (L.tables s) id)
    (hholds : ∀ v, C.holds (L.tables s) v → C.holds (L.tables w.store) v)
    (happended : ∀ e, .appended e ∉ obs)
    (hinvoked : ∀ id, .invoked id ∈ obs → ∃ task ∈ (w.instances i).inFlight, task.event.id = id)
    (htasks : ∀ task ∈ inst.inFlight, C.Genuine w.log task.event.envelope)
    (hclaims : ∀ claim, inst.phase = .fetching claim → ∀ v, C.claims claim v → C.Genuine w.log v) :
    C.EnvelopesGenuine (w.put i inst s obs) where
  known e he := hhas e.id (h.known e ((List.mem_append.mp he).resolve_right (happended e)))
  held v hv := (h.held v (hholds v hv)).mono obs
  tasks := World.forall_put (fun inst => ∀ task ∈ inst.inFlight,
    C.Genuine (w.log++obs) task.event.envelope) i
    (fun j task ht => (h.tasks j task ht).mono obs) fun task ht => (htasks task ht).mono obs
  claims := World.forall_put (fun inst => ∀ claim, inst.phase = .fetching claim → ∀ v,
    C.claims claim v → C.Genuine (w.log++obs) v) i
    (fun j claim hp v hv => (h.claims j claim hp v hv).mono obs)
    fun claim hp v hv => (hclaims claim hp v hv).mono obs
  sent := h.sent.append fun id hid => by
    obtain ⟨task, ht, rfl⟩ := hinvoked id hid
    obtain ⟨e, he, -⟩ := h.tasks i task ht
    exact Option.isSome_iff_exists.mpr ⟨e, he⟩

theorem EnvelopesGenuine.still {w : World ι σ γ} (h : C.EnvelopesGenuine w) (i : ι)
    {inst : Instance γ} {s : σ} {obs : List Obs} (hs : L.tables s = L.tables w.store)
    (happended : ∀ e, .appended e ∉ obs)
    (hinvoked : ∀ id, .invoked id ∈ obs → ∃ task ∈ (w.instances i).inFlight, task.event.id = id)
    (htasks : ∀ task ∈ inst.inFlight, C.Genuine w.log task.event.envelope)
    (hclaims : ∀ claim, inst.phase = .fetching claim → ∀ v, C.claims claim v → C.Genuine w.log v) :
    C.EnvelopesGenuine (w.put i inst s obs) :=
  h.put i (fun _ hid => hs ▸ hid) (fun _ hv => hs ▸ hv) happended hinvoked htasks hclaims

omit [DecidableEq ι] in
theorem EnvelopesGenuine.setStage {w : World ι σ γ} (h : C.EnvelopesGenuine w) {i : ι} {n : Nat}
    {task : Task} {stage : Stage} (ht : (w.instances i).inFlight[n]? = some task) :
    ∀ t ∈ ((w.instances i).setStage n task stage).inFlight, C.Genuine w.log t.event.envelope := by
  intro t hmem
  obtain ⟨old, hold, he⟩ := Instance.event_of_mem_setStage ht hmem
  rw [he]
  exact h.tasks i old hold

theorem EnvelopesGenuine.step {w w' : World ι σ γ} {a : Action ι} (h : C.EnvelopesGenuine w)
    (hstep : w.step P config a = some w') : C.EnvelopesGenuine w' := by
  cases World.steps_of_step hstep with
  | appended e s happ =>
    have hok : (P.append e w.store).1 = .ok () := by rw [happ]
    have hs : s = (P.append e w.store).2 := by rw [happ]
    subst hs
    refine ⟨fun f hf => ?_, fun v hv => ?_, fun i task ht => (h.tasks i task ht).mono _,
      fun i claim hp v hv => (h.claims i claim hp v hv).mono _, h.sent.append (by simp)⟩
    · cases List.mem_append.mp hf with
      | inl hold => exact L.append_has e w.store f.id (h.known f hold)
      | inr hnew =>
        cases List.mem_singleton.mp hnew
        exact L.append_ok e w.store hok
    · cases C.append_holds e w.store v hv with
      | inl hold => exact (h.held v hold).mono _
      | inr hnew =>
        obtain ⟨-, hunknown, rfl⟩ := hnew
        -- an earlier accepted append would have made the identifier known
        have hnone : firstAppended w.log e.id = none :=
          firstAppended_eq_none fun f hf hid => hunknown (hid ▸ h.known f hf)
        refine ⟨e, ?_, rfl⟩
        rw [firstAppended_append]
        change (firstAppended w.log e.id).or (firstAppended [.appended e] e.id) = some e
        rw [hnone, Option.none_or, firstAppended_self]
  | refused e s err happ =>
    have hs : s = (P.append e w.store).2 := by rw [happ]
    subst hs
    refine ⟨fun f hf => L.append_has e w.store f.id (h.known f hf), fun v hv => ?_, h.tasks,
      h.claims, h.sent⟩
    cases C.append_holds e w.store v hv with
    | inl hold => exact h.held v hold
    | inr hnew =>
      rw [happ] at hnew
      cases hnew.1
  | appendLost e => exact h
  | moved i m inst obs hm =>
    refine h.still i rfl hm.not_appended (fun id hid => hm.invoked hid) (fun task ht => ?_)
      fun claim hp => h.claims i claim (hm.fetching hp)
    cases hm.mem_inFlight ht with
    | inl hold => exact h.tasks i task hold
    | inr hnew =>
      obtain ⟨old, hold, he, -⟩ := hnew
      rw [he]
      exact h.tasks i old hold
  | idled i now reached hp =>
    exact h.still i rfl (by simp) (by simp) (h.tasks i) (h.claims i)
  | opened i now claim s hp hopen =>
    have hs : s = (P.openFetch (w.instances i).batchSize now w.store).2 := by rw [hopen]
    have hclaim : claim = (P.openFetch (w.instances i).batchSize now w.store).1 := by rw [hopen]
    subst hs hclaim
    refine h.still i (L.openFetch _ now w.store) (by simp) (by simp) (h.tasks i)
      fun claim hc v hv => ?_
    cases hc
    exact h.held v (C.open_claims _ now w.store v hv)
  | spawned i claim due s hp hclose =>
    have hs : s = (P.closeFetch claim w.store).2 := by rw [hclose]
    subst hs
    refine h.still i (L.closeFetch claim w.store) (by simp) (by simp) (fun task ht => ?_)
      fun claim' hc => by cases hc
    cases List.mem_append.mp ht with
    | inl hold => exact h.tasks i task hold
    | inr hnew =>
      obtain ⟨e, he, rfl⟩ := List.mem_map.mp hnew
      exact h.claims i claim hp _ (C.close_claims claim w.store due (by rw [hclose]) e he)
  | fetchFailed i claim err s hp hclose =>
    have hs : s = (P.closeFetch claim w.store).2 := by rw [hclose]
    subst hs
    exact h.still i (L.closeFetch claim w.store) (by simp) (by simp) (h.tasks i)
      fun claim' hc => by cases hc
  | fetchLost i claim hp =>
    exact h.still i (L.abortFetch claim w.store) (by simp) (by simp) (h.tasks i)
      fun claim' hc => by cases hc
  | issued i n clock e mark ht hfree =>
    exact h.put i (fun _ => L.issue_has clock e.id mark) (C.issue_holds clock e.id mark w.store)
      (by simp) (by simp) (h.setStage ht) (h.claims i)
  | markLost i n clock e mark ht =>
    exact h.still i rfl (by simp) (by simp) (h.setStage ht) (h.claims i)
  | crashed i =>
    exact h.still i (L.release _ w.store) (by simp) (by simp) (by simp [Instance.off])
      fun claim hc => by cases hc

theorem genuine_reachable {start : σ} {w : World ι σ γ} (hstart : ∀ v, ¬C.holds (L.tables start) v)
    (h : (dispatching P config start).Reachable (fun _ _ => True) w) : C.EnvelopesGenuine w := by
  refine h.invariant (I := C.EnvelopesGenuine) (genuine_start start hstart) ?_
  intro s a t hs _ hstep
  exact hs.step hstep

end Custody

def fetchedEnvelopes (result : Except StoreError (List OutboxEvent)) (v : Envelope) : Prop :=
  ∃ due, result = .ok due ∧ ∃ e ∈ due, v = e.envelope

namespace Memory

def knows (s : Inner) (id : EventId) : Prop := id ∈ s.events ∨ id ∈ s.dispatched

def holds (s : Inner) (v : Envelope) : Prop :=
  ∃ (id : EventId) (stamp : UInt64) (e : OutboxEvent),
    s.events[id]? = some (stamp, e) ∧ v = e.envelope

theorem append_custody (e : OutboxEvent) (s : Inner) :
    ((append e s).1 = .ok () → knows (append e s).2 e.id) ∧
    (∀ id, (knows s id → knows (append e s).2 id) ∧
      (id ∈ (append e s).2.dispatched → id ∈ s.dispatched)) ∧
    ∀ v, holds (append e s).2 v → holds s v ∨
      (append e s).1 = .ok () ∧ ¬knows s e.id ∧ v = e.envelope.stamped fun stamp => stamp := by
  cases ht : topicValid e.topic with
  | false =>
    rw [append_invalid s ht]
    refine ⟨fun h => ?_, fun _ => ⟨fun h => h, fun h => h⟩, fun _ h => Or.inl h⟩
    cases h
  | true =>
    cases append_cases s ht with
    | inl h =>
      obtain ⟨hknown, happ⟩ := h
      rw [happ]
      exact ⟨fun _ => hknown, fun _ => ⟨fun h => h, fun h => h⟩, fun _ h => Or.inl h⟩
    | inr h =>
      obtain ⟨hev, hd, happ⟩ := h
      rw [happ]
      refine ⟨fun _ => Or.inl (by simp), fun id => ⟨fun hid => ?_, fun h => h⟩, fun v hv => ?_⟩
      · exact hid.imp_left fun hmem => ExtTreeMap.mem_insert.mpr (Or.inr hmem)
      · obtain ⟨id, stamp, f, hget, rfl⟩ := hv
        simp only [ExtTreeMap.getElem?_insert, LawfulEqCmp.compare_eq_iff_eq] at hget
        split at hget
        · cases hget
          exact Or.inr ⟨rfl, fun hk => hk.elim hev hd, rfl⟩
        · exact Or.inl ⟨id, stamp, f, hget, rfl⟩

theorem markDispatched_custody (k : EventId) (s : Inner) :
    (∀ id, id ∈ (markDispatched k s).2.dispatched → id = k ∨ id ∈ s.dispatched) ∧
    ∀ v, holds (markDispatched k s).2 v → holds s v := by
  have hdispatched : ∀ id, id ∈ s.dispatched.insert k → id = k ∨ id ∈ s.dispatched := by
    intro id hid
    exact (ExtTreeSet.mem_insert.mp hid).imp_left fun h => (LawfulEqCmp.eq_of_compare h).symm
  unfold markDispatched
  split
  · refine ⟨hdispatched, fun v hv => ?_⟩
    obtain ⟨id, stamp, e, hget, rfl⟩ := hv
    simp only [ExtTreeMap.getElem?_erase] at hget
    split at hget
    · cases hget
    · exact ⟨id, stamp, e, hget, rfl⟩
  · exact ⟨hdispatched, fun _ hv => hv⟩

theorem markFailed_custody (k : EventId) (error : String) (retryAt : UInt64) (s : Inner) :
    (markFailed k error retryAt s).2.dispatched = s.dispatched ∧
    ∀ v, holds (markFailed k error retryAt s).2 v → holds s v := by
  unfold markFailed
  split
  · rename_i old f hf
    refine ⟨rfl, fun v hv => ?_⟩
    obtain ⟨id, stamp, e, hget, rfl⟩ := hv
    simp only [ExtTreeMap.getElem?_insert] at hget
    split at hget
    · cases hget
      exact ⟨k, old, f, hf, rfl⟩
    · exact ⟨id, stamp, e, hget, rfl⟩
  · exact ⟨rfl, fun _ hv => hv⟩

def ledger : Ledger (Shared.ofStore store) Inner where
  tables s := s
  has := knows
  done s id := id ∈ s.dispatched
  openFetch _ _ _ := rfl
  closeFetch _ _ := rfl
  abortFetch _ _ := rfl
  append_ok e s := (append_custody e s).1
  append_has e s id := ((append_custody e s).2.1 id).1
  append_done e s id := ((append_custody e s).2.1 id).2
  dispatched_has clock k _ _ h := known_call (.markDispatched clock k) h
  dispatched_done _ k s := (markDispatched_custody k s).1
  failed_has k error retryAt _ _ h := known_call (.markFailed k error retryAt) h
  failed_done k error retryAt s _ h := (markFailed_custody k error retryAt s).1 ▸ h

theorem fetchDue_custody (limit now : UInt64) (s : Inner) (v : Envelope)
    (h : fetchedEnvelopes (fetchDue limit now s) v) : holds s v := by
  obtain ⟨due, hdue, e, he, rfl⟩ := h
  rw [fetchDue] at hdue
  cases hdue
  obtain ⟨x, -, hx⟩ := List.mem_filterMap.mp he
  obtain ⟨y, hy, rfl⟩ := Option.map_eq_some_iff.mp hx
  exact ⟨x.2, y.1, y.2, hy, rfl⟩

def custody : Custody ledger where
  keep stamp := stamp
  holds := holds
  claims := fetchedEnvelopes
  append_holds e s := (append_custody e s).2.2
  open_claims := fetchDue_custody
  close_claims _ _ due h e he := ⟨due, h, e, he, rfl⟩
  issue_holds clock k mark s := by
    cases mark with
    | dispatched => exact (markDispatched_custody k s).2
    | failed error retryAt => exact (markFailed_custody k error retryAt s).2

end Memory

section Rows
variable {ρ : Type} {decode : String × ρ → Except StoreError OutboxEvent}
  {m : ExtTreeMap String ρ} {k : String} {row : ρ} {v : Envelope}

theorem nodup_selected_keys (stamp : ρ → Int) (sel : ρ → Bool) (m : ExtTreeMap String ρ) :
    ((selectOrdered stamp sel m).map (·.1)).Nodup := by
  refine List.Nodup.map_on ?_ ?_
  · rintro ⟨key, row⟩ hx ⟨key', row'⟩ hy he
    have hrow := (mem_selectOrdered.mp hx).1
    cases he
    rw [(mem_selectOrdered.mp hy).1, Option.some.injEq] at hrow
    rw [hrow]
  · exact nodup_of_pairwise (fun kr : String × ρ => (stamp kr.2, kr.1))
      (selectOrdered_pairwise _ _ _)

def HoldsRow (decode : String × ρ → Except StoreError OutboxEvent) (m : ExtTreeMap String ρ)
    (v : Envelope) : Prop :=
  ∃ (key : String) (row : ρ) (e : OutboxEvent),
    m[key]? = some row ∧ decode (key, row) = .ok e ∧ v = e.envelope

theorem holdsRow_insert (h : HoldsRow decode (m.insert k row) v) :
    (∃ e, decode (k, row) = .ok e ∧ v = e.envelope) ∨ HoldsRow decode m v := by
  obtain ⟨key, r, e, hget, hdec, hv⟩ := h
  simp only [ExtTreeMap.getElem?_insert, LawfulEqCmp.compare_eq_iff_eq] at hget
  split at hget
  · rename_i hk
    cases hget
    cases hk
    exact Or.inl ⟨e, hdec, hv⟩
  · exact Or.inr ⟨key, r, e, hget, hdec, hv⟩

theorem holdsRow_rewrite {old : ρ} (h : HoldsRow decode (m.insert k row) v)
    (hget : m[k]? = some old) (hdec : ∀ e, decode (k, row) = .ok e →
      ∃ e', decode (k, old) = .ok e' ∧ e'.envelope = e.envelope) : HoldsRow decode m v := by
  cases holdsRow_insert h with
  | inl hnew =>
    obtain ⟨e, he, hv⟩ := hnew
    obtain ⟨e', he', heq⟩ := hdec e he
    exact ⟨k, old, e', hget, he', hv.trans heq.symm⟩
  | inr hold => exact hold

section RowTable
variable {τ : Type} {T : RowTable τ ρ} {t t' : τ} {result : Except StoreError Unit}
  {e : OutboxEvent} {id : EventId} {skips : ρ → Prop} {rewrites : ρ → ρ → Prop}

/-- An append brings in no envelope but its event's, as the columns keep it. -/
theorem RowTable.Appends.holdsRow {keep : UInt64 → UInt64} (ha : T.Appends e t result t')
    (hnew : ∀ row f, T.Inserts e row → decode (e.id.text, row) = .ok f →
      f.envelope = e.envelope.stamped keep) (h : HoldsRow decode (T.rows t') v) :
    HoldsRow decode (T.rows t) v ∨
      result = .ok () ∧ ¬Has (T.rows t) e.id ∧ v = e.envelope.stamped keep := by
  cases ha with
  | refused err hacc => exact Or.inl h
  | known row hacc hget => exact Or.inl h
  | inserted row hacc hget hrow =>
    rw [T.rows_write] at h
    cases holdsRow_insert h with
    | inl hv =>
      obtain ⟨f, hf, rfl⟩ := hv
      exact Or.inr ⟨rfl, fun hk => hk hget, hnew row f hrow hf⟩
    | inr hold => exact Or.inl hold

theorem RowTable.Marks.holdsRow (hm : T.Marks skips rewrites id t result t')
    (hdec : ∀ old new, rewrites old new → ∀ e, decode (id.text, new) = .ok e →
      ∃ e', decode (id.text, old) = .ok e' ∧ e'.envelope = e.envelope)
    (h : HoldsRow decode (T.rows t') v) : HoldsRow decode (T.rows t) v := by
  cases hm with
  | refused err => exact h
  | unknown hget => exact h
  | skipped row hget hskip => exact h
  | written old new hget hrow =>
    rw [T.rows_write] at h
    exact holdsRow_rewrite h hget (hdec old new hrow)

end RowTable

theorem holdsRow_of_mapM {rows : List (String × ρ)} {due : List OutboxEvent} {e : OutboxEvent}
    (h : rows.mapM decode = .ok due) (he : e ∈ due) (hrows : ∀ kr ∈ rows, m[kr.1]? = some kr.2) :
    HoldsRow decode m e.envelope := by
  obtain ⟨kr, hkr, hdec⟩ := mem_of_mapM_ok h he
  exact ⟨kr.1, kr.2, e, hrows kr hkr, hdec, rfl⟩

end Rows

/-- The columns a mark writes are not in the envelope. -/
theorem decodeEvent_envelope (U : UuidCrate) {id topic : String} {payload headers : List UInt8}
    {createdAt attempts : Int} {lastError : Option String} {e : OutboxEvent}
    (h : decodeEvent U id topic payload headers createdAt attempts lastError = .ok e)
    (attempts' : Int) (lastError' : Option String) :
    ∃ e', decodeEvent U id topic payload headers createdAt attempts' lastError' = .ok e' ∧
      e'.envelope = e.envelope := by
  unfold decodeEvent at h ⊢
  cases hid : EventId.parse U id with
  | error err =>
    rw [hid] at h
    cases h
  | ok key =>
    cases hdec : decodeHeaders headers with
    | error err =>
      simp only [hid, hdec] at h
      cases h
    | ok decoded =>
      simp only [hid, hdec] at h ⊢
      cases h
      exact ⟨_, rfl, rfl⟩

namespace Sqlite

def holds (U : UuidCrate) (t : Tables) : Envelope → Prop := HoldsRow (eventFromRow U) t.outboxEvents

theorem decode_of_inserts (U : UuidCrate) {e f : OutboxEvent} {row : EventRow}
    (hrow : rowTable.Inserts e row) (h : eventFromRow U (e.id.text, row) = .ok f) :
    f.envelope = e.envelope.stamped fun stamp => unclampU64 (clampI64 stamp) := by
  obtain ⟨blob, hdec, rfl⟩ := hrow
  simp only [eventFromRow, rowOf, decodeEvent_ok U e.id _ _ _ _ _ hdec] at h
  cases h
  rfl

theorem issue_custody (U : UuidCrate) (clock : UInt64) (k : EventId) (mark : Mark) (t : Tables)
    (v : Envelope) (h : holds U ((Shared.ofStore (store U)).issue clock k mark t) v) :
    holds U t v := by
  cases mark with
  | dispatched =>
    refine (dispatches clock k t).holdsRow (fun old new hrow e he => ?_) h
    subst hrow
    exact decodeEvent_envelope U he _ _
  | failed error retryAt =>
    refine (fails k error retryAt t).holdsRow (fun old new hrow e he => ?_) h
    subst hrow
    exact decodeEvent_envelope U he _ _

theorem fetchDue_custody (U : UuidCrate) (limit now : UInt64) (t : Tables) (v : Envelope)
    (h : fetchedEnvelopes (fetchDue U limit now t) v) : holds U t v := by
  obtain ⟨due, hdue, e, he, rfl⟩ := h
  exact holdsRow_of_mapM hdue he fun kr hkr =>
    (mem_selectOrdered.mp (List.mem_of_mem_take hkr)).1

def custody (U : UuidCrate) : Custody (ledger U) where
  keep stamp := unclampU64 (clampI64 stamp)
  holds := holds U
  claims := fetchedEnvelopes
  append_holds e t _ := (appends e t).holdsRow fun _ _ => decode_of_inserts U
  open_claims := fetchDue_custody U
  close_claims _ _ due h e he := ⟨due, h, e, he, rfl⟩
  issue_holds := issue_custody U

end Sqlite

namespace Postgres

def holds (U : UuidCrate) (t : Tables) : Envelope → Prop := HoldsRow (eventFromRow U) t.outboxEvents

theorem decode_of_inserts (U : UuidCrate) {e f : OutboxEvent} {row : EventRow}
    (hrow : rowTable.Inserts e row) (h : eventFromRow U (e.id.text, row) = .ok f) :
    f.envelope = e.envelope.stamped fun stamp => unclampU64 (clampI64 stamp) := by
  obtain ⟨blob, hdec, rfl⟩ := hrow
  simp only [eventFromRow, rowOf, decodeEvent_ok U e.id _ _ _ _ _ hdec] at h
  cases h
  rfl

theorem issue_custody (U : UuidCrate) (clock : UInt64) (k : EventId) (mark : Mark) (db : Db)
    (v : Envelope) (h : holds U ((shared U).issue clock k mark db).tables v) :
    holds U db.tables v := by
  cases mark with
  | dispatched =>
    refine (dispatches clock k db.tables).holdsRow (fun old new hrow e he => ?_) h
    subst hrow
    exact decodeEvent_envelope U he _ _
  | failed error retryAt =>
    refine (fails k error retryAt db.tables).holdsRow (fun old new hrow e he => ?_) h
    subst hrow
    exact decodeEvent_envelope U he _ _

theorem mem_claim {locked : String → Bool} {limit now : UInt64} {t : Tables}
    {kr : String × EventRow} (h : kr ∈ claim locked limit now t) :
    t.outboxEvents[kr.1]? = some kr.2 ∧ isDue now kr.2 = true ∧ locked kr.1 = false := by
  obtain ⟨hsel, hfree⟩ := List.mem_filter.mp (List.mem_of_mem_take h)
  obtain ⟨hget, hdue⟩ := mem_selectOrdered.mp hsel
  exact ⟨hget, hdue, by simpa using hfree⟩

def custody (U : UuidCrate) : Custody (ledger U) where
  keep stamp := unclampU64 (clampI64 stamp)
  holds := holds U
  claims rows v := ∃ kr ∈ rows, ∃ e, eventFromRow U kr = .ok e ∧ v = e.envelope
  append_holds e db _ := (appends e db.tables).holdsRow fun _ _ => decode_of_inserts U
  open_claims limit now db v h := by
    obtain ⟨kr, hkr, e, hdec, hv⟩ := h
    exact ⟨kr.1, kr.2, e, (mem_claim hkr).1, hdec, hv⟩
  close_claims rows _ due h e he := by
    obtain ⟨kr, hkr, hdec⟩ := mem_of_mapM_ok h he
    exact ⟨kr, hkr, e, hdec, rfl⟩
  issue_holds := issue_custody U

end Postgres

/-- The events an instance has in flight are the appended ones: `keep` says how the store
keeps a creation stamp. -/
def Intact {ι σ γ : Type} (keep : Nat → Nat) (w : World ι σ γ) : Prop :=
  (∀ i, ∀ task ∈ (w.instances i).inFlight, ∃ e, firstAppended w.log task.event.id = some e ∧
    task.event.topic = e.topic ∧ task.event.payload = e.payload ∧ task.event.headers = e.headers ∧
    task.event.createdAt.toNat = keep e.createdAt.toNat) ∧
  ∀ k id, w.log[k]? = some (.invoked id) → ∃ e, firstAppended (w.log.take k) id = some e

theorem Custody.EnvelopesGenuine.intact {ι σ γ τ : Type} {P : Shared σ γ} {L : Ledger P τ}
    {C : Custody L} {w : World ι σ γ} (h : C.EnvelopesGenuine w) {keep : Nat → Nat}
    (hkeep : ∀ stamp, (C.keep stamp).toNat = keep stamp.toNat) :
    Intact keep w := by
  refine ⟨fun i task ht => ?_, fun k id hk => Option.isSome_iff_exists.mp (h.sent k id hk)⟩
  obtain ⟨e, he, hv⟩ := h.tasks i task ht
  have hcreated : task.event.createdAt = C.keep e.createdAt := congrArg Envelope.createdAt hv
  exact ⟨e, he, congrArg Envelope.topic hv, congrArg Envelope.payload hv,
    congrArg Envelope.headers hv, by rw [hcreated, hkeep]⟩

theorem unclampU64_clampI64_toNat (stamp : UInt64) :
    (unclampU64 (clampI64 stamp)).toNat = min stamp.toNat (2^63-1) := by
  have hlt := stamp.toNat_lt
  have heq := clampI64_eq stamp
  unfold i64Max at heq
  rw [unclampU64_toNat (clampI64_nonneg stamp) (by omega)]
  omega

/-- End to end, over each of the three stores and any number of dispatchers, with
failing calls, duplicate appends and crashes anywhere: the event in every task is the
one the first accepted append of its identifier handed over, all but its retry state
(a durable store cuts a creation stamp at `2^63-1`), and no send is on record before
such an append. -/
theorem envelopes_intact (U : UuidCrate) {ι : Type} [DecidableEq ι]
    (config : ι → DispatcherConfig) :
    (∀ w, (dispatching (Shared.ofStore Memory.store) config Memory.new).Reachable
        (fun _ _ => True) w → Intact (fun stamp => stamp) w) ∧
    (∀ w, (dispatching (Shared.ofStore (Sqlite.store U)) config Sqlite.empty).Reachable
        (fun _ _ => True) w → Intact (fun stamp => min stamp (2^63-1)) w) ∧
    (∀ w, (dispatching (Postgres.shared U) config ⟨Postgres.empty, []⟩).Reachable
        (fun _ _ => True) w → Intact (fun stamp => min stamp (2^63-1)) w) := by
  refine ⟨fun w hw => ?_, fun w hw => ?_, fun w hw => ?_⟩
  · have h := Memory.custody.genuine_reachable
      (by simp [Memory.custody, Memory.ledger, Memory.holds, Memory.new]) hw
    exact h.intact fun _ => rfl
  · have h := (Sqlite.custody U).genuine_reachable
      (by simp [Sqlite.custody, Sqlite.ledger, Sqlite.holds, HoldsRow, Sqlite.empty]) hw
    exact h.intact unclampU64_clampI64_toNat
  · have h := (Postgres.custody U).genuine_reachable
      (by simp [Postgres.custody, Postgres.ledger, Postgres.holds, HoldsRow, Postgres.empty]) hw
    exact h.intact unclampU64_clampI64_toNat

/-- A producer's retry of its append, with another payload, before the first send. -/
def retriedInFlight : List (Action Unit) :=
  [.append (.sample 1 5) true, .move () .start, .tick () 10 true,
    .append { OutboxEvent.sample 1 5 with payload := [2] } true, .fetched () true,
    .move () (.permit 0), .move () (.invoke 0)]

theorem envelopes_intact_retriedInFlight :
    ∃ w, (dispatching (Postgres.shared .hyphenatedOnly) (fun _ : Unit => .sample 3)
        ⟨Postgres.empty, []⟩).Reachable (fun _ _ => True) w ∧
      (w.instances ()).inFlight.map (·.event.payload) = [[1]] ∧
      Intact (fun stamp => min stamp (2^63-1)) w := by
  have hrun : ((dispatching (Postgres.shared .hyphenatedOnly) (fun _ : Unit => .sample 3)
      ⟨Postgres.empty, []⟩).run (fun _ _ => True) (World.start Unit _ ⟨Postgres.empty, []⟩)
      retriedInFlight).any (fun w =>
        (w.instances ()).inFlight.map (·.event.payload) = [[1]]) = true := by
    decide +kernel
  obtain ⟨w, hw, hpayload⟩ := System.exists_reach hrun
  exact ⟨w, hw, hpayload,
    (envelopes_intact .hyphenatedOnly fun _ : Unit => .sample 3).2.2 w hw⟩

end OutboxKit
