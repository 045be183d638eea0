import OutboxKit.Capacity
import OutboxKit.Claims
import OutboxKit.DeadLetter
import OutboxKit.Lib.History

/-! The last sends of an event. Operators and other clients work on the store beside the
dispatchers: they append, replay, mark and dead-letter. An event that has left the
dispatch path is in no later fetch, so what is still sent of it is what dispatchers have
in hand; and each of them has it in hand at most once. -/
namespace OutboxKit
open Std Machine Ordered Trace

/-- The dispatchers of a store, and every other client of it. A client's call may have to
wait for a lock. -/
def serving {ι σ γ : Type} [DecidableEq ι] (P : Shared σ γ) (client : Call → σ → Option σ)
    (config : ι → DispatcherConfig) (s : σ) : System (World ι σ γ) (Action ι ⊕ Call) :=
  ⟨World.start ι γ s, fun w => Sum.elim (fun a => w.step P config a)
    fun c => (client c w.store).map fun s => { w with store := s }⟩

def Appends {ι : Type} (id : EventId) : Action ι ⊕ Call → Bool
  | .inl (.append e _) | .inr (.append e) => decide (e.id = id)
  | _ => false

def OutboxStore.client {σ : Type} (S : OutboxStore σ) (c : Call) (s : σ) : Option σ :=
  some (S.call c s).2

/-- A call on the shared database: a mark or a letter waits for a locked row. -/
def Postgres.client (U : UuidCrate) (c : Call) (db : Postgres.Db) : Option Postgres.Db :=
  match c with
  | .markDispatched _ id | .markFailed id _ _ =>
    if db.locked.contains id.text then none
    else some { db with tables := ((Postgres.store U).call c db.tables).2 }
  | .deadLetter _ e _ =>
    if db.locked.contains e.id.text then none
    else some { db with tables := ((Postgres.store U).call c db.tables).2 }
  | .append _ | .fetchDue .. | .pendingCount | .parkedCount | .deadLetters _ =>
    some { db with tables := ((Postgres.store U).call c db.tables).2 }

def Task.waitsFor (id : EventId) (task : Task) : Bool :=
  match task.stage with
  | .queued | .permitted => decide (task.event.id = id)
  | .sending | .marking _ | .paused | .finished => false

def Phase.listed {γ : Type} (listed : γ → Nat) : Phase γ → Nat
  | .fetching claim => listed claim
  | .down | .select | .draining | .gauge | .stopping | .stopped => 0

/-- The sends of an event that an instance may still make of what it has. -/
def Instance.inHand {γ : Type} (listed : γ → Nat) (id : EventId) (inst : Instance γ) : Nat :=
  inst.inFlight.countP (Task.waitsFor id)+inst.phase.listed listed

section Instances
variable {γ : Type} {listed : γ → Nat} {inst inst' : Instance γ} {n : Nat} {task : Task}
  {id : EventId}

theorem Instance.inHand_setStage_le (h : inst.inFlight[n]? = some task) {stage : Stage}
    (hstage : ({ task with stage := stage } : Task).waitsFor id = true → task.waitsFor id = true) :
    (inst.setStage n task stage).inHand listed id ≤ inst.inHand listed id := by
  have hcount := Instance.countP_setStage (Task.waitsFor id) h stage
  refine Nat.add_le_add_right ?_ _
  by_cases hnew : ({ task with stage := stage } : Task).waitsFor id = true
  · rw [if_pos hnew, if_pos (hstage hnew)] at hcount
    omega
  · rw [if_neg hnew] at hcount
    omega

/-- A move of the instance turns what it has in hand into sends, and adds nothing. -/
theorem Instance.Moves.inHand {c : DispatcherConfig} {m : Move} {obs : List Obs}
    (h : Moves c inst m inst' obs) (id : EventId) :
    inst'.inHand listed id+invocations obs id ≤ inst.inHand listed id := by
  cases h with
  | start hp => exact Nat.zero_le _
  | shutdown hp => exact Nat.le_refl _
  | leave hp hs => exact Nat.add_le_add_left (Nat.zero_le _) _
  | stop hp hf => exact Nat.add_le_add_left (Nat.zero_le _) _
  | drained hp hf => exact Nat.add_le_add_left (Nat.zero_le _) _
  | gauge hp => exact Nat.add_le_add_left (Nat.zero_le _) _
  | permit n task ht hs hc =>
    exact inHand_setStage_le ht fun hw => by simpa [Task.waitsFor, hs] using hw
  | invoke n task ht hs =>
    have hcount := Instance.countP_setStage (Task.waitsFor id) ht .sending
    have hold : task.waitsFor id = decide (task.event.id = id) := by rw [Task.waitsFor, hs]
    rw [hold] at hcount
    change (inst.setStage n task .sending).inFlight.countP _+inst.phase.listed listed+_ ≤
      inst.inFlight.countP _+inst.phase.listed listed
    by_cases hid : task.event.id = id
    · simp [Task.waitsFor, hid, invocations] at hcount ⊢
      omega
    · simp [Task.waitsFor, hid, invocations] at hcount ⊢
      omega
  | pause n task result now delay ht hs hr => exact inHand_setStage_le ht fun hw => by cases hw
  | answer n task result now delay mark ht hs hj hr =>
    have hle : (inst.setStage n task (.marking mark)).inHand listed id ≤ inst.inHand listed id :=
      inHand_setStage_le ht fun hw => by cases hw
    cases mark with
    | dispatched | failed error retryAt => exact hle
  | join n task ht hs =>
    exact Nat.add_le_add_right (List.eraseIdx_sublist inst.inFlight n).countP_le _

theorem Instance.inHand_spawn {c : DispatcherConfig} {due : List OutboxEvent}
    (hempty : inst.inFlight = []) :
    (inst.spawn c due).inHand listed id = due.countP fun e => e.id = id := by
  rw [inHand, spawn, hempty, List.nil_append, List.countP_map]
  rfl

/-- Outside a drain nothing is in flight, and an event is in hand at most once. -/
structure Instance.Slim (listed : γ → Nat) (id : EventId) (inst : Instance γ) : Prop where
  drained : inst.phase ≠ .draining → inst.inFlight = []
  once : inst.inHand listed id ≤ 1

theorem Instance.Slim.mono (h : inst.Slim listed id)
    (hdrained : inst'.phase ≠ .draining → inst'.inFlight = [])
    (hle : inst'.inHand listed id ≤ inst.inHand listed id) : inst'.Slim listed id :=
  ⟨hdrained, hle.trans h.once⟩

theorem Instance.Slim.draining (h : inst.Slim listed id) (ht : inst.inFlight[n]? = some task) :
    inst.phase = .draining := by
  by_contra hp
  rw [h.drained hp] at ht
  cases ht

theorem Instance.Slim.move {c : DispatcherConfig} {m : Move} {obs : List Obs}
    (h : inst.Slim listed id) (hm : Moves c inst m inst' obs) : inst'.Slim listed id := by
  refine h.mono ?_ ((Nat.le_add_right _ _).trans (hm.inHand id))
  cases hm with
  | start hp => exact fun _ => rfl
  | shutdown hp => exact h.drained
  | leave hp hs => exact fun _ => h.drained (by simp [hp])
  | stop hp hf | drained hp hf => exact fun _ => hf
  | gauge hp => exact fun _ => h.drained (by simp [hp])
  | permit n task ht hs hc => exact fun hp => absurd (h.draining ht) hp
  | invoke n task ht hs => exact fun hp => absurd (h.draining ht) hp
  | pause n task result now delay ht hs hr => exact fun hp => absurd (h.draining ht) hp
  | answer n task result now delay mark ht hs hj hr => exact fun hp => absurd (h.draining ht) hp
  | join n task ht hs => exact fun hp => absurd (h.draining ht) hp

end Instances

/-- A store as it stands behind the dispatchers' interface and that of its other clients:
fetches leave its state alone, and every write is one of its calls. -/
structure Fronts {σ γ τ : Type} (P : Shared σ γ) (client : Call → σ → Option σ)
    (S : OutboxStore τ) where
  tables : σ → τ
  openFetch : ∀ limit now s, tables (P.openFetch limit now s).2 = tables s
  closeFetch : ∀ claim s, tables (P.closeFetch claim s).2 = tables s
  abortFetch : ∀ claim s, tables (P.abortFetch claim s) = tables s
  append : ∀ e s, tables (P.append e s).2 = (S.append e (tables s)).2
  markDispatched : ∀ clock id s,
    tables (P.markDispatched clock id s).2 = (S.markDispatched clock id (tables s)).2
  markFailed : ∀ id error retryAt s,
    tables (P.markFailed id error retryAt s).2 = (S.markFailed id error retryAt (tables s)).2
  client : ∀ c s s', client c s = some s' → tables s' = (S.call c (tables s)).2

theorem Fronts.issue {σ γ τ : Type} {P : Shared σ γ} {client : Call → σ → Option σ}
    {S : OutboxStore τ} (F : Fronts P client S) (clock : UInt64) (k : EventId) (mark : Mark)
    (s : σ) :
    ∃ c, (∀ e, c ≠ .append e) ∧ F.tables (P.issue clock k mark s) = (S.call c (F.tables s)).2 := by
  cases mark with
  | dispatched => exact ⟨.markDispatched clock k, by simp, F.markDispatched clock k s⟩
  | failed error retryAt =>
    exact ⟨.markFailed k error retryAt, by simp, F.markFailed k error retryAt s⟩

/-- How events leave the dispatch path for good: `out` says which have, calls other than
appends of the event keep it so, and fetches list each event once and those out not
at all. -/
structure Exit {σ γ τ : Type} {P : Shared σ γ} {client : Call → σ → Option σ} {S : OutboxStore τ}
    (F : Fronts P client S) where
  valid : τ → Prop
  valid_call : ∀ c t, valid t → valid (S.call c t).2
  out : τ → EventId → Prop
  out_call : ∀ c t id, out t id → (∀ e, c = .append e → e.id ≠ id) → out (S.call c t).2 id
  listed : EventId → γ → Nat
  listed_le : ∀ id limit now s, valid (F.tables s) → listed id (P.openFetch limit now s).1 ≤ 1
  listed_out : ∀ id limit now s, valid (F.tables s) → out (F.tables s) id →
    listed id (P.openFetch limit now s).1 = 0
  handed : ∀ id claim s due, (P.closeFetch claim s).1 = .ok due →
    (due.countP fun e => e.id = id) ≤ listed id claim

namespace Exit
variable {ι σ γ τ : Type} [DecidableEq ι] {P : Shared σ γ} {client : Call → σ → Option σ}
  {S : OutboxStore τ} {F : Fronts P client S} (E : Exit F) {config : ι → DispatcherConfig}
  {w w' : World ι σ γ} {a : Action ι ⊕ Call} {id : EventId}

/-- The store is valid, and no dispatcher has the event in hand twice. -/
structure Slim (id : EventId) (w : World ι σ γ) : Prop where
  valid : E.valid (F.tables w.store)
  slim : ∀ i, (w.instances i).Slim (E.listed id) id

def inHand [Fintype ι] (id : EventId) (w : World ι σ γ) : Nat :=
  ∑ i, (w.instances i).inHand (E.listed id) id

/-- A step comes down to calls on the store and to one instance, which uses up what it has
in hand or opens a fetch. -/
inductive Serves (id : EventId) (w : World ι σ γ) (a : Action ι ⊕ Call) : World ι σ γ → Prop
  | called (c : Call) (s : σ) (log : List Obs)
      (ht : F.tables s = (S.call c (F.tables w.store)).2)
      (happ : ∀ e, c = .append e → e.id = id → Appends id a = true)
      (hlog : invocations log id = invocations w.log id) : Serves id w a ⟨s, w.instances, log⟩
  | acted (i : ι) (inst : Instance γ) (s : σ) (obs : List Obs)
      (ht : F.tables s = F.tables w.store ∨ ∃ c, (∀ e, c ≠ .append e) ∧
        F.tables s = (S.call c (F.tables w.store)).2)
      (hdrained : inst.phase ≠ .draining → inst.inFlight = [])
      (hle : inst.inHand (E.listed id) id+invocations obs id ≤
        (w.instances i).inHand (E.listed id) id) : Serves id w a (w.put i inst s obs)
  | opened (i : ι) (inst : Instance γ) (s : σ) (limit now : UInt64)
      (ht : F.tables s = F.tables w.store) (hempty : inst.inFlight = [])
      (hphase : inst.phase = .fetching (P.openFetch limit now w.store).1) :
      Serves id w a (w.put i inst s [])

variable {E}

theorem serves_of_step (h : E.Slim id w)
    (hstep : (serving P client config w.store).step w a = some w') :
    E.Serves id w a w' := by
  cases a with
  | inr c =>
    obtain ⟨s, hs, rfl⟩ := Option.map_eq_some_iff.mp hstep
    refine .called c s w.log (F.client c w.store s hs) ?_ rfl
    rintro e rfl hid
    simp [Appends, hid]
  | inl a =>
    have hsteps : World.Steps P config w a w' := World.steps_of_step hstep
    cases hsteps with
    | appended e s happ =>
      have hs : s = (P.append e w.store).2 := by rw [happ]
      subst hs
      refine .called (.append e) _ _ (F.append e w.store) ?_ ?_
      · intro f hf hid
        cases hf
        simp [Appends, hid]
      · simp [invocations]
    | refused e s err happ =>
      have hs : s = (P.append e w.store).2 := by rw [happ]
      subst hs
      refine .called (.append e) _ _ (F.append e w.store) ?_ rfl
      intro f hf hid
      cases hf
      simp [Appends, hid]
    | appendLost e => exact .called .pendingCount w.store w.log rfl (by simp) rfl
    | moved i m inst obs hm =>
      exact .acted i inst _ obs (Or.inl rfl) ((h.slim i).move hm).drained (hm.inHand id)
    | idled i now reached hp =>
      exact .acted i _ _ [] (Or.inl rfl) (h.slim i).drained (Nat.le_refl _)
    | opened i now claim s hp hopen =>
      have hempty := (h.slim i).drained (by simp [hp])
      have hclaim : claim = (P.openFetch (w.instances i).batchSize now w.store).1 := by rw [hopen]
      have hs : s = (P.openFetch (w.instances i).batchSize now w.store).2 := by rw [hopen]
      subst hclaim hs
      exact .opened i _ _ _ now (F.openFetch _ now w.store) hempty rfl
    | spawned i claim due s hp hclose =>
      have hempty := (h.slim i).drained (by simp [hp])
      have hs : s = (P.closeFetch claim w.store).2 := by rw [hclose]
      have hdue := E.handed id claim w.store due (by rw [hclose])
      refine .acted i _ _ [] (Or.inl (hs ▸ F.closeFetch claim w.store))
        (fun hne => absurd rfl hne) ?_
      rw [Instance.inHand_spawn hempty, Instance.inHand, hempty, hp]
      simpa [Phase.listed, invocations] using hdue
    | fetchFailed i claim err s hp hclose =>
      have hs : s = (P.closeFetch claim w.store).2 := by rw [hclose]
      refine .acted i _ _ [] (Or.inl (hs ▸ F.closeFetch claim w.store))
        (fun _ => (h.slim i).drained (by simp [hp])) ?_
      exact Nat.add_le_add_left (Nat.zero_le _) _
    | fetchLost i claim hp =>
      refine .acted i _ _ [] (Or.inl (F.abortFetch claim w.store))
        (fun _ => (h.slim i).drained (by simp [hp])) ?_
      exact Nat.add_le_add_left (Nat.zero_le _) _
    | issued i n clock e mark ht hfree =>
      exact .acted i _ _ [] (Or.inr (F.issue clock e.id mark w.store))
        (fun hp => absurd ((h.slim i).draining ht) hp)
        (Instance.inHand_setStage_le ht fun hw => by cases hw)
    | markLost i n clock e mark ht =>
      exact .acted i _ _ [] (Or.inl rfl) (fun hp => absurd ((h.slim i).draining ht) hp)
        (Instance.inHand_setStage_le ht fun hw => by cases hw)
    | crashed i =>
      refine .acted i _ _ [] (Or.inl ?_) (fun _ => rfl) (Nat.zero_le _)
      unfold Shared.release
      split
      · exact F.abortFetch _ w.store
      · rfl

theorem Slim.step (h : E.Slim id w) (hstep : (serving P client config w.store).step w a = some w') :
    E.Slim id w' := by
  cases serves_of_step h hstep with
  | called c s log ht happ hlog =>
    exact ⟨ht ▸ E.valid_call c _ h.valid, h.slim⟩
  | acted i inst s obs ht hdrained hle =>
    refine ⟨?_, World.forall_put (Instance.Slim (E.listed id) id) i h.slim
      ((h.slim i).mono hdrained ((Nat.le_add_right _ _).trans hle))⟩
    rcases ht with ht | ⟨c, -, ht⟩
    · exact ht ▸ h.valid
    · exact ht ▸ E.valid_call c _ h.valid
  | opened i inst s limit now ht hempty hphase =>
    refine ⟨ht ▸ h.valid, World.forall_put (Instance.Slim (E.listed id) id) i h.slim
      ⟨fun _ => hempty, ?_⟩⟩
    rw [Instance.inHand, hempty, hphase]
    simpa [Phase.listed] using E.listed_le id limit now w.store h.valid

/-- Once the event is out, a step keeps it out, and sends it only from what is in hand. -/
theorem Slim.out_step [Fintype ι] (h : E.Slim id w) (hout : E.out (F.tables w.store) id)
    (ha : Appends id a = false)
    (hstep : (serving P client config w.store).step w a = some w') :
    E.out (F.tables w'.store) id ∧
      invocations w'.log id+E.inHand id w' ≤ invocations w.log id+E.inHand id w := by
  cases serves_of_step h hstep with
  | called c s log ht happ hlog =>
    refine ⟨?_, by rw [hlog]; exact Nat.le_refl _⟩
    refine ht ▸ E.out_call c _ id hout fun e hc hid => ?_
    rw [happ e hc hid] at ha
    cases ha
  | acted i inst s obs ht hdrained hle =>
    constructor
    · rcases ht with ht | ⟨c, hc, ht⟩
      · exact ht ▸ hout
      · exact ht ▸ E.out_call c _ id hout fun e he => absurd he (hc e)
    · have hsum := w.sum_put (Instance.inHand (E.listed id) id) i inst s obs
      have hlog : invocations (w.put i inst s obs).log id =
          invocations w.log id+invocations obs id := List.count_append
      rw [hlog, inHand, inHand]
      omega
  | opened i inst s limit now ht hempty hphase =>
    refine ⟨ht ▸ hout, ?_⟩
    have hsum := w.sum_put (Instance.inHand (E.listed id) id) i inst s []
    have hzero : inst.inHand (E.listed id) id = 0 := by
      rw [Instance.inHand, hempty, hphase, List.countP_nil, Nat.zero_add]
      exact E.listed_out id limit now w.store h.valid hout
    have hlog : (w.put i inst s []).log = w.log := List.append_nil _
    rw [hlog, inHand, inHand]
    omega

omit [DecidableEq ι] in
theorem slim_start (s : σ) (hs : E.valid (F.tables s)) : E.Slim id (World.start ι γ s) where
  valid := hs
  slim _ := ⟨fun _ => rfl, Nat.zero_le _⟩

omit [DecidableEq ι] in
theorem Slim.inHand_le [Fintype ι] (h : E.Slim id w) : E.inHand id w ≤ Fintype.card ι := by
  have hle := Finset.sum_le_card_nsmul Finset.univ
    (fun i => (w.instances i).inHand (E.listed id) id) 1 fun i _ => (h.slim i).once
  rw [inHand]
  simpa using hle

theorem sends_le [Fintype ι] {start : σ} (hstart : E.valid (F.tables start))
    (hw : (serving P client config start).Reachable (fun _ _ => True) w)
    (hout : E.out (F.tables w.store) id) {as : List (Action ι ⊕ Call)}
    (hrun : (serving P client config start).run (fun _ a => Appends id a = false) w as = some w') :
    E.out (F.tables w'.store) id ∧
      invocations w'.log id ≤ invocations w.log id+Fintype.card ι := by
  have hslim : E.Slim id w := hw.invariant (slim_start start hstart) fun _ _ _ h _ hstep =>
    h.step hstep
  have hend := System.run_history (I := fun _ u => E.Slim id u ∧ E.out (F.tables u.store) id ∧
    invocations u.log id+E.inHand id u ≤ invocations w.log id+E.inHand id w) hrun
    ⟨hslim, hout, Nat.le_refl _⟩ ?_
  · have hle := hslim.inHand_le
    exact ⟨hend.2.1, by omega⟩
  · rintro past u a v ⟨hu, ho, hle⟩ ha hstep
    obtain ⟨hout', hnext⟩ := hu.out_step ho ha hstep
    exact ⟨hu.step hstep, hout', hnext.trans hle⟩

end Exit

def fetchedCount (id : EventId) : Except StoreError (List OutboxEvent) → Nat
  | .ok due => due.countP fun e => e.id = id
  | .error _ => 0

def decodesTo {ρ : Type} (decode : String × ρ → Except StoreError OutboxEvent) (id : EventId)
    (kr : String × ρ) : Bool :=
  match decode kr with
  | .ok e => decide (e.id = id)
  | .error _ => false

section Rows
variable {ρ : Type} {decode : String × ρ → Except StoreError OutboxEvent} {m : ExtTreeMap String ρ}
  {rows : List (String × ρ)} {due : List OutboxEvent} {id : EventId}

theorem countP_mapM (h : rows.mapM decode = .ok due) :
    (due.countP fun e => e.id = id) = rows.countP (decodesTo decode id) := by
  induction rows generalizing due with
  | nil =>
    cases h
    rfl
  | cons kr rows ih =>
    rw [List.mapM_cons] at h
    cases hkr : decode kr with
    | error err => rw [hkr] at h; cases h
    | ok e =>
      cases hrest : rows.mapM decode with
      | error err => rw [hkr, hrest] at h; cases h
      | ok es =>
        rw [hkr, hrest] at h
        cases h
        rw [List.countP_cons, List.countP_cons, ih hrest, decodesTo, hkr]

theorem fetchedCount_mapM_le :
    fetchedCount id (rows.mapM decode) ≤ rows.countP (decodesTo decode id) := by
  cases h : rows.mapM decode with
  | error err => exact Nat.zero_le _
  | ok due => exact (countP_mapM h).le

theorem countP_decodesTo_le (hkeyed : Keyed m)
    (hdecode : ∀ (id : EventId) row e, decode (id.text, row) = .ok e → e.id = id)
    (hrows : ∀ kr ∈ rows, m[kr.1]? = some kr.2) :
    rows.countP (decodesTo decode id) ≤ rows.countP fun kr => kr.1 = id.text := by
  refine List.countP_mono_left fun kr hkr hd => ?_
  obtain ⟨key, row⟩ := kr
  obtain ⟨k, rfl⟩ := hkeyed key row (hrows _ hkr)
  unfold decodesTo at hd
  split at hd
  · rename_i e he
    rw [← of_decide_eq_true hd, hdecode k row e he]
    exact decide_eq_true rfl
  · cases hd

theorem countP_key_le {α κ : Type} [DecidableEq κ] {f : α → κ} {l : List α} (h : (l.map f).Nodup)
    (k : κ) : (l.countP fun x => f x = k) ≤ 1 := by
  have hcount : l.countP (fun x => f x = k) = (l.map f).count k := by
    rw [List.count, List.countP_map]
    refine List.countP_congr fun x _ => ?_
    simp
  rw [hcount]
  exact List.nodup_iff_count_le_one.mp h k

theorem countP_key_eq_zero {α κ : Type} [DecidableEq κ] {f : α → κ} {l : List α} {k : κ}
    (h : ∀ x ∈ l, f x ≠ k) : (l.countP fun x => f x = k) = 0 :=
  List.countP_eq_zero.mpr fun x hx he => h x hx (of_decide_eq_true he)

end Rows

def Fronts.ofStore {σ : Type} (S : OutboxStore σ) : Fronts (Shared.ofStore S) S.client S where
  tables s := s
  openFetch _ _ _ := rfl
  closeFetch _ _ := rfl
  abortFetch _ _ := rfl
  append _ _ := rfl
  markDispatched _ _ _ := rfl
  markFailed _ _ _ _ := rfl
  client _ _ _ h := (Option.some.inj h).symm

namespace Memory

/-- An event is out when it is not live: dispatched, or unknown. -/
def exit : Exit (Fronts.ofStore store) where
  valid := Valid
  valid_call c _ hv := valid_call c hv
  out s id := id ∉ s.events
  out_call c s id hout hc := by
    cases c with
    | append e =>
      have hid := hc e rfl
      change id ∉ (append e s).2.events
      cases ht : topicValid e.topic with
      | false => rwa [append_invalid s ht]
      | true =>
        rcases append_cases s ht with ⟨-, h⟩ | ⟨-, -, h⟩
        · rwa [h]
        · rw [h]
          simpa [ExtTreeMap.mem_insert, hid] using hout
    | markDispatched clock k =>
      change id ∉ (markDispatched k s).2.events
      unfold markDispatched
      split
      · exact fun h => hout (ExtTreeMap.mem_of_mem_erase h)
      · exact hout
    | markFailed k error retryAt =>
      change id ∉ (markFailed k error retryAt s).2.events
      unfold markFailed
      split
      · rename_i hget
        rw [ExtTreeMap.mem_insert]
        rintro (hk | hmem)
        · rw [LawfulEqCmp.compare_eq_iff_eq] at hk
          subst hk
          exact hout (mem_events_iff.mpr ⟨_, hget⟩)
        · exact hout hmem
      · exact hout
    | fetchDue | pendingCount | parkedCount | deadLetter | deadLetters => exact hout
  listed := fetchedCount
  listed_le id limit now s hv := by
    change fetchedCount id (fetchDue limit now s) ≤ 1
    cases hf : fetchDue limit now s with
    | error err => exact Nat.zero_le _
    | ok due => exact countP_key_le (Refinement.fetchDue_holds (R := refinement) hv hf).1 id
  listed_out id limit now s hv hout := by
    change fetchedCount id (fetchDue limit now s) = 0
    cases hf : fetchDue limit now s with
    | error err => rfl
    | ok due =>
      refine countP_key_eq_zero fun e he hid => hout ?_
      obtain ⟨stamp, hlive, -⟩ := (Refinement.fetchDue_holds (R := refinement) hv hf).2 e he
      rw [hid] at hlive
      exact mem_events_iff.mpr ⟨_, entry_live_iff.mp hlive⟩
  handed id claim s due h := by
    cases claim with
    | error err => cases h
    | ok evs =>
      cases h
      exact Nat.le_refl _

end Memory

namespace Sqlite

def Undispatched (row : EventRow) : Prop := row.dispatchedAt = none

theorem undispatched_call {U : UuidCrate} {t : Tables} {id : EventId} {c : Call}
    (hc : ∀ e, c = .append e → e.id ≠ id)
    (h : Finds Undispatched ((store U).call c t).2.outboxEvents id) :
    Finds Undispatched t.outboxEvents id := by
  cases c with
  | append e =>
    have hne : id.text ≠ e.id.text := by
      rw [Ne, EventId.text_inj]
      exact Ne.symm (hc e rfl)
    obtain ⟨row, hget, hrow⟩ := h
    exact ⟨row, ((appends e t).row_other hne).symm.trans hget, hrow⟩
  | markDispatched clock k =>
    refine (dispatches clock k t).finds (fun old new hrow hd => ?_) h
    subst hrow
    cases hd
  | markFailed k error retryAt =>
    refine (fails k error retryAt t).finds (fun old new hrow hd => ?_) h
    subst hrow
    exact hd
  | deadLetter clock e reason =>
    change Finds Undispatched (deadLetter clock e reason t).2.outboxEvents id at h
    rcases deadLetter_cases clock e reason t with ⟨blob, -, hl⟩ | ⟨err, hl⟩
    · rw [hl] at h
      obtain ⟨row, hget, hd⟩ := h
      simp only [completed, ExtTreeMap.getElem?_erase] at hget
      split at hget
      · cases hget
      · exact ⟨row, hget, hd⟩
    · rwa [hl] at h
  | fetchDue | pendingCount | parkedCount | deadLetters => exact h

/-- An event is out when it is dispatched, or has no row. -/
def exit (U : UuidCrate) : Exit (Fronts.ofStore (store U)) where
  valid t := Keyed t.outboxEvents
  valid_call c t hv := (letterBox U).keyed_call c hv
  out t id := ¬Finds Undispatched t.outboxEvents id
  out_call c t id hout hc h := hout (undispatched_call hc h)
  listed := fetchedCount
  listed_le id limit now t hv := by
    have hsel := nodup_selected_keys (·.nextAttemptAt) (isDue now) t.outboxEvents
    refine fetchedCount_mapM_le.trans ((countP_decodesTo_le hv (fun _ _ _ => decodeEvent_id U)
      fun kr hkr => (mem_selectOrdered.mp (List.mem_of_mem_take hkr)).1).trans ?_)
    exact countP_key_le (hsel.sublist ((List.take_sublist _ _).map _)) id.text
  listed_out id limit now t hv hout := by
    refine Nat.le_zero.mp (fetchedCount_mapM_le.trans ((countP_decodesTo_le hv
      (fun _ _ _ => decodeEvent_id U)
      fun kr hkr => (mem_selectOrdered.mp (List.mem_of_mem_take hkr)).1).trans ?_))
    refine (countP_key_eq_zero fun kr hkr hkey => hout ?_).le
    obtain ⟨hget, hdue⟩ := mem_selectOrdered.mp (List.mem_of_mem_take hkr)
    refine ⟨kr.2, hkey ▸ hget, ?_⟩
    rw [isDue, Bool.and_eq_true, Bool.and_eq_true, Option.isNone_iff_eq_none] at hdue
    exact hdue.1.1
  handed id claim s due h := by
    cases claim with
    | error err => cases h
    | ok evs =>
      cases h
      exact Nat.le_refl _

end Sqlite

namespace Postgres

theorem client_tables {U : UuidCrate} {c : Call} {db db' : Db} (h : client U c db = some db') :
    db'.tables = ((store U).call c db.tables).2 := by
  unfold client at h
  cases c with
  | markDispatched clock k | markFailed k error retryAt =>
    simp only at h
    split at h
    · cases h
    · cases h
      rfl
  | deadLetter clock e reason =>
    simp only at h
    split at h
    · cases h
    · cases h
      rfl
  | append e | fetchDue limit now | pendingCount | parkedCount | deadLetters limit =>
    cases h
    rfl

theorem openFetch_tables (U : UuidCrate) (limit now : UInt64) (db : Db) :
    ((shared U).openFetch limit now db).2.tables = db.tables := rfl

theorem closeFetch_tables (U : UuidCrate) (rows : List (String × EventRow)) (db : Db) :
    ((shared U).closeFetch rows db).2.tables = db.tables := rfl

theorem abortFetch_tables (U : UuidCrate) (rows : List (String × EventRow)) (db : Db) :
    ((shared U).abortFetch rows db).tables = db.tables := rfl

def fronts (U : UuidCrate) : Fronts (shared U) (client U) (store U) where
  tables db := db.tables
  openFetch := openFetch_tables U
  closeFetch := closeFetch_tables U
  abortFetch := abortFetch_tables U
  append _ _ := rfl
  markDispatched _ _ _ := rfl
  markFailed _ _ _ _ := rfl
  client _ _ _ h := client_tables h

theorem has_call {U : UuidCrate} {t : Tables} {id : EventId} {c : Call}
    (hc : ∀ e, c = .append e → e.id ≠ id) (h : Has ((store U).call c t).2.outboxEvents id) :
    Has t.outboxEvents id := by
  generalize hs : ((store U).call c t).2 = s at h
  cases hs ▸ (letterBox U).call_turns t c with
  | same c s ht => rwa [ht] at h
  | appended e row s hacc he hl =>
    rw [show s.outboxEvents = _ from he, has_insert] at h
    exact h.resolve_right (Ne.symm (hc e rfl))
  | marked c k old row s hold he hl =>
    rw [show s.outboxEvents = _ from he] at h
    exact (has_insert_known hold).mp h
  | lettered clock e reason row s he hl =>
    rw [show s.outboxEvents = _ from he, has_erase] at h
    exact h.1

/-- An event is out when it has no row. -/
def exit (U : UuidCrate) : Exit (fronts U) where
  valid t := Keyed t.outboxEvents
  valid_call c t hv := (letterBox U).keyed_call c hv
  out t id := ¬Has t.outboxEvents id
  out_call c t id hout hc h := hout (has_call hc h)
  listed id rows := rows.countP (decodesTo (eventFromRow U) id)
  listed_le id limit now db hv :=
    (countP_decodesTo_le hv (fun _ _ _ => decodeEvent_id U) fun kr hkr => (mem_claim hkr).1).trans
      (countP_key_le (nodup_claim _ limit now db.tables) id.text)
  listed_out id limit now db hv hout := by
    refine Nat.le_zero.mp ((countP_decodesTo_le hv (fun _ _ _ => decodeEvent_id U)
      fun kr hkr => (mem_claim hkr).1).trans (countP_key_eq_zero fun kr hkr hkey => hout ?_).le)
    have hget := (mem_claim hkr).1
    rw [hkey] at hget
    intro hnone
    rw [hnone] at hget
    cases hget
  handed id rows db due h := (countP_mapM h).le

end Postgres

/-- The last sends of an event. Any number of dispatchers, and operators and other clients
that call the store as they like, in any order, with failing calls and crashes: from the
moment an event is out of the dispatch path, dispatched or dead-lettered (on Postgres
dead-lettered), every dispatcher sends it at most once more as long as nobody appends it
again, and it stays out. -/
theorem last_sends (U : UuidCrate) {ι : Type} [DecidableEq ι] [Fintype ι]
    (config : ι → DispatcherConfig) (id : EventId) (as : List (Action ι ⊕ Call)) :
    (∀ w w', (serving (Shared.ofStore Memory.store) Memory.store.client config
        Memory.new).Reachable (fun _ _ => True) w → id ∉ w.store.events →
      (serving (Shared.ofStore Memory.store) Memory.store.client config Memory.new).run
        (fun _ a => Appends id a = false) w as = some w' →
      id ∉ w'.store.events ∧ invocations w'.log id ≤ invocations w.log id+Fintype.card ι) ∧
    (∀ w w', (serving (Shared.ofStore (Sqlite.store U)) (Sqlite.store U).client config
        Sqlite.empty).Reachable (fun _ _ => True) w →
      ¬Finds Sqlite.Undispatched w.store.outboxEvents id →
      (serving (Shared.ofStore (Sqlite.store U)) (Sqlite.store U).client config Sqlite.empty).run
        (fun _ a => Appends id a = false) w as = some w' →
      ¬Finds Sqlite.Undispatched w'.store.outboxEvents id ∧
        invocations w'.log id ≤ invocations w.log id+Fintype.card ι) ∧
    (∀ w w', (serving (Postgres.shared U) (Postgres.client U) config
        ⟨Postgres.empty, []⟩).Reachable (fun _ _ => True) w →
      ¬Has w.store.tables.outboxEvents id →
      (serving (Postgres.shared U) (Postgres.client U) config ⟨Postgres.empty, []⟩).run
        (fun _ a => Appends id a = false) w as = some w' →
      ¬Has w'.store.tables.outboxEvents id ∧
        invocations w'.log id ≤ invocations w.log id+Fintype.card ι) := by
  refine ⟨fun w w' hw hout hrun => ?_, fun w w' hw hout hrun => ?_, fun w w' hw hout hrun => ?_⟩
  · exact Exit.sends_le (E := Memory.exit) Memory.valid_new hw hout hrun
  · refine Exit.sends_le (E := Sqlite.exit U) ?_ hw hout hrun
    intro key row hget
    simp [Fronts.ofStore, Sqlite.empty] at hget
  · refine Exit.sends_le (E := Postgres.exit U) ?_ hw hout hrun
    intro key row hget
    simp [Postgres.fronts, Postgres.empty] at hget

/-- Two dispatchers take the event, and an operator dead-letters it. -/
def letteredInHand : List (Action Bool ⊕ Call) :=
  [.inl (.append (.sample 1 5) true), .inl (.move true .start), .inl (.move false .start),
    .inl (.tick true 10 true), .inl (.fetched true true), .inl (.tick false 10 true),
    .inl (.fetched false true), .inr (.deadLetter 20 (.sample 1 5) "poison")]

def bothSend : List (Action Bool ⊕ Call) :=
  [.inl (.move true (.permit 0)), .inl (.move true (.invoke 0)), .inl (.move false (.permit 0)),
    .inr (.markFailed (.ofByte 1) "replay" 0), .inl (.move false (.invoke 0))]

theorem last_sends_letteredInHand : ∃ w w',
    (serving (Postgres.shared .hyphenatedOnly) (Postgres.client .hyphenatedOnly)
      (fun _ : Bool => .sample 3) ⟨Postgres.empty, []⟩).run
        (fun _ a => Appends (.ofByte 1) a = false)
        w bothSend = some w' ∧
      invocations w.log (.ofByte 1) = 0 ∧ invocations w'.log (.ofByte 1) = 2 ∧
      ¬Has w'.store.tables.outboxEvents (.ofByte 1) ∧
      invocations w'.log (.ofByte 1) ≤ invocations w.log (.ofByte 1)+Fintype.card Bool := by
  have hrun : ((serving (Postgres.shared .hyphenatedOnly) (Postgres.client .hyphenatedOnly)
      (fun _ : Bool => .sample 3) ⟨Postgres.empty, []⟩).run (fun _ _ => True)
        (World.start Bool _ ⟨Postgres.empty, []⟩) letteredInHand).any (fun w =>
        w.store.tables.outboxEvents[(EventId.ofByte 1).text]? = none ∧
          invocations w.log (.ofByte 1) = 0 ∧
          ((serving (Postgres.shared .hyphenatedOnly) (Postgres.client .hyphenatedOnly)
            (fun _ : Bool => .sample 3) ⟨Postgres.empty, []⟩).run
              (fun _ a => Appends (.ofByte 1) a = false) w bothSend).any
            (fun w' => invocations w'.log (.ofByte 1) = 2) = true) = true := by
    decide +kernel
  obtain ⟨w, hw, hnone, hzero, hrun'⟩ := System.exists_reach hrun
  obtain ⟨w', hw', htwo⟩ := (Option.any_eq_true _ _).mp hrun'
  have hout : ¬Has w.store.tables.outboxEvents (.ofByte 1) := fun h => h hnone
  have hlast := (last_sends .hyphenatedOnly (fun _ : Bool => .sample 3) (.ofByte 1) bothSend).2.2
    w w' hw hout hw'
  exact ⟨w, w', hw', hzero, of_decide_eq_true htwo, hlast.1, hlast.2⟩

end OutboxKit
