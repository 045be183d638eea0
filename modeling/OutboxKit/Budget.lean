import OutboxKit.Life

/-! The retry budget under one dispatcher whose store calls go through. What a world
shows of one event follows the event's course step by step, so the counter, the
parking and the number of sends are those of the course. -/
namespace OutboxKit
open Std Machine Trace

def firstAppended (log : List Obs) (id : EventId) : Option OutboxEvent :=
  log.findSome? fun
    | .appended e => if e.id = id then some e else none
    | _ => none

def invocations (log : List Obs) (id : EventId) : Nat := log.count (.invoked id)

def failures (log : List Obs) (id : EventId) : Nat := log.count (.failed id)

section Log
variable {obs : List Obs} {id : EventId}

theorem firstAppended_append (log obs : List Obs) (id : EventId) :
    firstAppended (log++obs) id = (firstAppended log id).or (firstAppended obs id) :=
  List.findSome?_append

theorem firstAppended_self (e : OutboxEvent) : firstAppended [.appended e] e.id = some e := by
  simp [firstAppended]

theorem firstAppended_other (h : ∀ o ∈ obs, o.id ≠ id) : firstAppended obs id = none := by
  refine List.findSome?_eq_none_iff.mpr fun o ho => ?_
  cases o with
  | appended e => exact if_neg (h _ ho)
  | invoked k | delivered k | failed k => rfl

theorem invocations_other (h : ∀ o ∈ obs, o.id ≠ id) : invocations obs id = 0 :=
  List.count_eq_zero.mpr fun hmem => h _ hmem rfl

theorem failures_other (h : ∀ o ∈ obs, o.id ≠ id) : failures obs id = 0 :=
  List.count_eq_zero.mpr fun hmem => h _ hmem rfl

end Log

/-- A counter that may have saturated at `u32::MAX` stands for `k`. -/
def Counts (n k : Nat) : Prop := n ≤ k ∧ min n (2^32-1) = min k (2^32-1)

theorem Counts.succ {n n' k : Nat} (h : Counts n k) (h' : Counts n' (n+1)) : Counts n' (k+1) := by
  unfold Counts at *
  omega

/-- What a world shows of one event. -/
structure View where
  entry : Entry
  counter : Option Nat
  stage : Option Stage
  first : Option OutboxEvent
  invoked : Nat
  failed : Nat

def View.initial (v : View) : Nat := v.first.elim 0 (·.attempts.toNat)

def View.moved (v : View) (id : EventId) (stage : Option Stage) (obs : List Obs) : View :=
  { v with
    stage := stage
    first := v.first.or (firstAppended obs id)
    invoked := v.invoked+invocations obs id
    failed := v.failed+failures obs id }

theorem View.moved_other {v : View} {id : EventId} {obs : List Obs} (h : ∀ o ∈ obs, o.id ≠ id) :
    v.moved id v.stage obs = v := by
  simp [moved, firstAppended_other h, invocations_other h, failures_other h]

namespace Life

def Reads : Life → Entry → Prop
  | .unknown, .absent | .dispatched _, .dispatched => True
  | .parked _, .live stamp _ => stamp = never
  | .waiting _, .live stamp _ | .sending _, .live stamp _ | .failing _, .live stamp _
  | .delivering _, .live stamp _ => stamp ≠ never
  | _, _ => False

/-- The task an event can have in flight at this point. A failure that spends the
budget is to be recorded with `never`, any other with a stamp the columns hold. -/
def Admits (a m : Nat) : Life → Option Stage → Prop
  | .unknown, none | .waiting _, none | .parked _, none | .dispatched _, none => True
  | .waiting _, some .queued | .waiting _, some .permitted | .waiting _, some .paused
  | .waiting _, some .finished | .parked _, some .finished | .dispatched _, some .finished
  | .sending _, some .sending | .delivering _, some (.marking .dispatched) => True
  | .failing r, some (.marking (.failed _ retryAt)) =>
    if m ≤ a+r+1 then retryAt = never else retryAt.toNat < 2^63-1
  | _, _ => False

/-- A view shows an event at this point of its course. -/
structure Shows (m : Nat) (v : View) (l : Life) : Prop where
  within : l.Within v.initial m
  first : l = .unknown ↔ v.first = none
  entry : l.Reads v.entry
  counter : ∀ n, v.counter = some n → Counts n (v.initial+l.recorded)
  stage : l.Admits v.initial m v.stage
  invoked : v.invoked = l.invocations
  failed : v.failed = l.failures

/-- The event is live and has attempts left. -/
def Active : Life → Prop
  | .waiting _ | .sending _ | .failing _ | .delivering _ => True
  | .unknown | .parked _ | .dispatched _ => False

theorem reads_active {l : Life} (h : l.Active) {x : Entry} :
    l.Reads x ↔ ∃ stamp e, x = .live stamp e ∧ stamp ≠ never := by
  cases l with
  | unknown | parked r | dispatched r => exact h.elim
  | waiting r | sending r | failing r | delivering r => cases x <;> simp [Reads]

theorem retryAt_admitted {p : BackoffPolicy} {e : OutboxEvent} {a r : Nat} {now : UInt64}
    {delay : Duration} (hsnap : e.attempts.toNat = min (a+r) (2^32-1))
    (hdelay : delay.asMillis ≤ p.cap.asMillis) (hnow : now.toNat+p.cap.asMillis < 2^63-1) :
    if p.maxAttempts.toNat ≤ a+r+1 then retryAt p (satAdd32 e.attempts 1) now delay = never
    else (retryAt p (satAdd32 e.attempts 1) now delay).toNat < 2^63-1 := by
  have hm := p.maxAttempts.toNat_lt
  have hexh := p.isExhausted_succ e.attempts
  rw [hsnap] at hexh
  split
  · rename_i hle
    rw [retryAt, if_pos (hexh.mpr (by omega))]
  · rename_i hlt
    have hin : p.isExhausted (satAdd32 e.attempts 1) = false := by
      rw [Bool.eq_false_iff]
      exact fun h => hlt (by have := hexh.mp h; omega)
    rw [retryAt_toNat now delay hin]
    omega

namespace Shows
variable {m : Nat} {v : View} {l l' : Life} {id : EventId} {stage : Option Stage} {obs : List Obs}

theorem advance (h : l.Shows m v) (hobs : firstAppended obs id = none)
    (hwithin : l'.Within v.initial m) (hl : l.Active) (hl' : l'.Active)
    (hrec : l'.recorded = l.recorded) (hstage : l'.Admits v.initial m stage)
    (hinv : l'.invocations = l.invocations+OutboxKit.invocations obs id)
    (hfail : l'.failures = l.failures+OutboxKit.failures obs id) :
    l'.Shows m (v.moved id stage obs) := by
  have hfirst : (v.moved id stage obs).first = v.first := by simp [View.moved, hobs]
  have hinit : (v.moved id stage obs).initial = v.initial := by
    rw [View.initial, hfirst, View.initial]
  have hne : v.first ≠ none := by
    rw [ne_eq, ← h.first]
    rintro rfl
    exact hl
  refine ⟨hinit ▸ hwithin, ?_, ?_, fun n hn => ?_, hinit ▸ hstage, ?_, ?_⟩
  · rw [hfirst]
    refine iff_of_false ?_ hne
    rintro rfl
    exact hl'
  · exact (reads_active hl').mpr ((reads_active hl).mp h.entry)
  · rw [hinit, hrec]
    exact h.counter n hn
  · rw [hinv, ← h.invoked]
    rfl
  · rw [hfail, ← h.failed]
    rfl

theorem restage (h : l.Shows m v) (hstage : l.Admits v.initial m stage) :
    l.Shows m (v.moved id stage []) := by
  have he : v.moved id stage [] = { v with stage := stage } := by
    simp [View.moved, firstAppended, OutboxKit.invocations, OutboxKit.failures]
  rw [he]
  exact ⟨h.within, h.first, h.entry, h.counter, hstage, h.invoked, h.failed⟩

/-- A move of the dispatcher, as one event sees it: the event stays where it is or
takes one step of its course. -/
theorem move {γ : Type} {c : DispatcherConfig} {inst : Instance γ} {mv : Move}
    (h : l.Shows c.backoff.maxAttempts.toNat v) (hm : Stage.Moves c inst mv id v.stage stage obs)
    (hclock : ∀ n result now delay, mv = .returned n result now delay →
      now.toNat+c.backoff.cap.asMillis < 2^63-1)
    (hsnap : ∀ e, ⟨e, .sending⟩ ∈ inst.inFlight → e.id = id →
      e.attempts.toNat = min (v.initial+l.recorded) (2^32-1)) :
    ∃ l', (l' = l ∨ Next v.initial c.backoff.maxAttempts.toNat l l') ∧
      l'.Shows c.backoff.maxAttempts.toNat (v.moved id stage obs) := by
  have hadm := h.stage
  generalize hs : v.stage = old at hm hadm
  cases hm with
  | other stage obs hother =>
    refine ⟨l, Or.inl rfl, ?_⟩
    rw [← hs, View.moved_other hother]
    exact h
  | permit =>
    refine ⟨l, Or.inl rfl, h.restage ?_⟩
    cases l with
    | waiting r => trivial
    | _ => exact False.elim hadm
  | invoke =>
    cases l with
    | waiting r =>
      refine ⟨_, Or.inr (.send r), h.advance rfl h.within trivial trivial rfl trivial ?_ rfl⟩
      simp [Life.invocations, OutboxKit.invocations]
    | _ => exact False.elim hadm
  | pause =>
    refine ⟨l, Or.inl rfl, h.restage ?_⟩
    cases l with
    | waiting r => trivial
    | _ => exact False.elim hadm
  | answer n e result now delay mark hmem hid hmv hj hmark =>
    cases l with
    | sending r =>
      cases mark with
      | dispatched =>
        exact ⟨_, Or.inr (.succeed r), h.advance rfl h.within trivial trivial rfl trivial rfl rfl⟩
      | failed error retryAt =>
        refine ⟨_, Or.inr (.fail r), h.advance rfl h.within trivial trivial rfl ?_ rfl ?_⟩
        · rw [result.mark_failed hmark]
          exact retryAt_admitted (hsnap e hmem hid) hj.asMillis_le (hclock n result now delay hmv)
        · simp [Life.failures, OutboxKit.failures, Obs.ofMark]
    | _ => exact False.elim hadm
  | join old hold =>
    refine ⟨l, Or.inl rfl, h.restage ?_⟩
    cases l with
    | unknown | waiting r | parked r | dispatched r => trivial
    | sending r | failing r | delivering r => cases hold <;> subst old <;> exact False.elim hadm

/-- With no task in flight every failure is on record, and the event is parked exactly
when the failures have spent its budget. -/
theorem quiet (h : l.Shows m v) (hnone : v.stage = none) : v.failed = l.recorded ∧
    ∀ stamp e, v.entry = .live stamp e →
      (stamp = never ↔ 1 ≤ v.failed ∧ m ≤ v.initial+v.failed) := by
  have hadm := h.stage
  have hread := h.entry
  have hwithin := h.within
  have hfailed := h.failed
  rw [hnone] at hadm
  cases l with
  | unknown =>
    refine ⟨hfailed, fun stamp e he => ?_⟩
    rw [he] at hread
    exact False.elim hread
  | waiting r =>
    refine ⟨hfailed, fun stamp e he => ?_⟩
    rw [he] at hread
    simp only [Within, failures] at hwithin hfailed
    exact iff_of_false hread (by omega)
  | parked r =>
    refine ⟨hfailed, fun stamp e he => ?_⟩
    rw [he] at hread
    simp only [Within, failures] at hwithin hfailed
    exact iff_of_true hread (by omega)
  | dispatched r =>
    refine ⟨hfailed, fun stamp e he => ?_⟩
    rw [he] at hread
    exact False.elim hread
  | sending r | failing r | delivering r => exact False.elim hadm

end Shows
end Life

/-- A store's own counter of attempts, kept as long as it has a row for the event, and
what the stamps do: one below the columns' ceiling is not taken for `never`. -/
structure Refinement.Meter {σ : Type} {S : OutboxStore σ} (R : Refinement S) where
  counter : σ → EventId → Option Nat
  live : ∀ s id stamp e, R.Valid s → R.entry s id = .live stamp e →
    ∃ n, counter s id = some n ∧ e.attempts.toNat = min n (2^32-1)
  room : ∀ s id error, R.Valid s → (∀ n, counter s id = some n → n < 2^63-1) → R.Room s id error
  append_known : ∀ s e id, R.Valid s → id ≠ e.id ∨ R.entry s id ≠ .absent →
    counter (S.append e s).2 id = counter s id
  append_new : ∀ s e, R.Valid s → (S.append e s).1 = .ok () → R.entry s e.id = .absent →
    counter (S.append e s).2 e.id = some e.attempts.toNat
  dispatched_other : ∀ s clock k id, R.Valid s → id ≠ k →
    counter (S.markDispatched clock k s).2 id = counter s id
  dispatched_self : ∀ s clock id n, R.Valid s →
    counter (S.markDispatched clock id s).2 id = some n → counter s id = some n
  failed_other : ∀ s k error retryAt id, R.Valid s → id ≠ k →
    counter (S.markFailed k error retryAt s).2 id = counter s id
  failed_self : ∀ s id error retryAt n, R.Valid s → R.Room s id error →
    counter (S.markFailed id error retryAt s).2 id = some n →
      ∃ n₀, counter s id = some n₀ ∧ Counts n (n₀+1)
  stamp_never : R.stamp never = never
  stamp_due : ∀ v, v.toNat < 2^63-1 → R.stamp v ≠ never

/-- The dispatcher stays up, its store calls go through, and no clock reading or due
stamp comes near the columns' ceiling. -/
def Orderly {σ : Type} (c : DispatcherConfig) (_ : Solo σ) : Action Unit → Prop
  | .append e reached => reached = true ∧ e.createdAt.toNat < 2^63-1
  | .move _ (.returned _ _ now _) => now.toNat+c.backoff.cap.asMillis < 2^63-1
  | .move .. => True
  | .tick _ _ reached | .fetched _ reached | .mark _ _ _ reached => reached = true
  | .crash _ => False

instance {σ : Type} (c : DispatcherConfig) (w : Solo σ) (a : Action Unit) :
    Decidable (Orderly c w a) :=
  match a with
  | .append .. => inferInstanceAs (Decidable (_ ∧ _))
  | .move _ (.returned ..) => inferInstanceAs (Decidable (_ < _))
  | .move _ .start | .move _ .shutdown | .move _ .leave | .move _ .stop | .move _ .drained
  | .move _ .gauge | .move _ (.permit _) | .move _ (.invoke _) | .move _ (.join _) =>
    inferInstanceAs (Decidable True)
  | .tick .. | .fetched .. | .mark .. => inferInstanceAs (Decidable (_ = _))
  | .crash _ => inferInstanceAs (Decidable False)

namespace Refinement
variable {σ : Type} {S : OutboxStore σ} {R : Refinement S} (K : R.Meter)

def Meter.view (w : Solo σ) (id : EventId) : View where
  entry := R.entry w.store id
  counter := K.counter w.store id
  stage := stageOf (w.instances ()).inFlight id
  first := firstAppended w.log id
  invoked := invocations w.log id
  failed := failures w.log id

variable {K} {w w' : Solo σ} {id : EventId}

theorem Meter.view_put (inst : Instance Fetched) (obs : List Obs) :
    K.view (w.put () inst w.store obs) id =
      (K.view w id).moved id (stageOf inst.inFlight id) obs := by
  simp [Meter.view, World.put, View.moved, firstAppended, invocations, failures,
    List.findSome?_append]

theorem Meter.view_put_same {inst : Instance Fetched}
    (h : inst.inFlight = (w.instances ()).inFlight) :
    K.view (w.put () inst w.store []) id = K.view w id := by
  rw [Meter.view_put, h]
  exact View.moved_other (by simp)

variable {c : DispatcherConfig} {m : Nat} {l : Life}

theorem Meter.view_appended (T : R.Total) (hv : R.Valid w.store) {e : OutboxEvent}
    (h : id ≠ e.id ∨ R.entry w.store id ≠ .absent ∧ firstAppended w.log id ≠ none) :
    K.view { w with store := (S.append e w.store).2, log := w.log++[.appended e] } id =
      K.view w id := by
  have hknown := h.imp_right And.left
  have hfirst : firstAppended (w.log++[.appended e]) id = firstAppended w.log id := by
    rw [firstAppended_append]
    cases h with
    | inl hne =>
      have hother : firstAppended [.appended e] id = none :=
        firstAppended_other (by simpa [Obs.id] using hne.symm)
      rw [hother, Option.or_none]
    | inr hin =>
      obtain ⟨f, hf⟩ := Option.ne_none_iff_exists'.mp hin.2
      rw [hf, Option.some_or]
  simp [Meter.view, (T.append_known hv e).2 id hknown, K.append_known w.store e id hv hknown,
    hfirst, invocations, failures]

theorem Meter.shows_first (T : R.Total) (hv : R.Valid w.store) {e : OutboxEvent}
    (h : Life.unknown.Shows m (K.view w e.id)) (hok : (S.append e w.store).1 = .ok ())
    (hcreated : e.createdAt.toNat < 2^63-1) :
    (Life.waiting 0).Shows m
      (K.view { w with store := (S.append e w.store).2, log := w.log++[.appended e] } e.id) := by
  have habsent : R.entry w.store e.id = .absent := by
    have hread := h.entry
    cases hentry : R.entry w.store e.id with
    | absent => rfl
    | _ =>
      simp only [Meter.view, hentry] at hread
      exact False.elim hread
  have hentry : R.entry (S.append e w.store).2 e.id = .live (R.stamp e.createdAt) (R.norm e) := by
    cases T.append_cases hv e with
    | inl hbad =>
      obtain ⟨err, hbad⟩ := hbad
      rw [hbad] at hok
      cases hok
    | inr hgood =>
      rw [hgood.2.2, Outbox.append_absent (by rwa [R.norm_id]), R.norm_id, Function.update_self]
  have hfirst : firstAppended (w.log++[.appended e]) e.id = some e := by
    have hnone : firstAppended w.log e.id = none := h.first.mp rfl
    rw [firstAppended_append, hnone, Option.none_or, firstAppended_self]
  refine ⟨Or.inl rfl, ?_, ?_, fun n hn => ?_, ?_, ?_, ?_⟩
  · simp [Meter.view, hfirst]
  · simpa [Meter.view, hentry, Life.Reads] using K.stamp_due _ hcreated
  · rw [show (K.view { w with store := (S.append e w.store).2, log := w.log++[.appended e] }
      e.id).counter = some e.attempts.toNat from K.append_new w.store e hv hok habsent] at hn
    cases hn
    simp [View.initial, Meter.view, hfirst, Life.recorded, Counts]
  · have hstage := h.stage
    simp only [Meter.view] at hstage ⊢
    cases hs : stageOf (w.instances ()).inFlight e.id with
    | none => trivial
    | some stage =>
      rw [hs] at hstage
      exact False.elim hstage
  · simpa [Meter.view, invocations, Life.invocations] using h.invoked
  · simpa [Meter.view, failures, Life.failures] using h.failed

theorem Meter.view_issued (inst : Instance Fetched) (s : σ) :
    K.view (w.put () inst s []) id =
      { K.view w id with
        entry := R.entry s id
        counter := K.counter s id
        stage := stageOf inst.inFlight id } := by
  simp [Meter.view, World.put]

theorem Meter.issue_other (T : R.Total) {s : σ} (hv : R.Valid s) (clock : UInt64) {k : EventId}
    (hknown : R.entry s k ≠ .absent) (mark : Mark) (hne : id ≠ k) :
    R.entry ((Shared.ofStore S).issue clock k mark s) id = R.entry s id ∧
      K.counter ((Shared.ofStore S).issue clock k mark s) id = K.counter s id := by
  refine ⟨(T.issue_other hv clock hknown mark).2 id hne, ?_⟩
  cases mark with
  | dispatched => exact K.dispatched_other s clock k id hv hne
  | failed error retryAt => exact K.failed_other s k error retryAt id hv hne

theorem Meter.shows_dispatched (hv : R.Valid w.store) {r : Nat}
    (h : (Life.delivering r).Shows m (K.view w id)) (clock : UInt64) (inst : Instance Fetched)
    (hstage : stageOf inst.inFlight id = some .finished) :
    (Life.dispatched r).Shows m (K.view (w.put () inst
      ((Shared.ofStore S).issue clock id .dispatched w.store) []) id) := by
  obtain ⟨stamp, e, hlive, -⟩ := (Life.reads_active (l := .delivering r) trivial).mp h.entry
  have hknown : R.entry w.store id ≠ .absent := fun habsent => by
    simp only [Meter.view, habsent] at hlive
    cases hlive
  obtain ⟨-, -, hentry⟩ := R.markDispatched_ok w.store clock id hv hknown
  have hentry : R.entry ((Shared.ofStore S).issue clock id .dispatched w.store) id =
      .dispatched := by
    change R.entry (S.markDispatched clock id w.store).2 id = _
    rw [hentry, Outbox.markDispatched, Function.update_self]
  rw [Meter.view_issued, hentry, hstage]
  refine ⟨h.within, ?_, trivial, fun n hn => ?_, trivial, h.invoked, h.failed⟩
  · simpa using h.first
  · exact h.counter n (K.dispatched_self w.store clock id n hv hn)

theorem Meter.room_of_shows (hv : R.Valid w.store) {r : Nat} (hm : m < 2^32)
    (h : (Life.failing r).Shows m (K.view w id)) (error : String) : R.Room w.store id error := by
  refine K.room w.store id error hv fun n hn => ?_
  obtain ⟨hle, -⟩ := h.counter n hn
  have hwithin := h.within
  have hinit : (K.view w id).initial < 2^32 := by
    unfold View.initial
    cases (K.view w id).first with
    | none => simp
    | some e => exact e.attempts.toNat_lt
  simp only [Life.Within, Life.recorded] at hwithin hle
  omega

theorem Meter.shows_failed (hv : R.Valid w.store) {r : Nat} (hm : m < 2^32)
    (h : (Life.failing r).Shows m (K.view w id)) {error : String} {retryAt : UInt64}
    (hmark : (K.view w id).stage = some (.marking (.failed error retryAt))) (clock : UInt64)
    (inst : Instance Fetched) (hstage : stageOf inst.inFlight id = some .finished) :
    ∃ l', (Life.failing r).Next (K.view w id).initial m l' ∧ l'.Shows m (K.view (w.put () inst
      ((Shared.ofStore S).issue clock id (.failed error retryAt) w.store) []) id) := by
  have hroom := Meter.room_of_shows hv hm h error
  obtain ⟨stamp, e, hlive, -⟩ := (Life.reads_active (l := .failing r) trivial).mp h.entry
  obtain ⟨-, -, hentry⟩ := R.markFailed_ok w.store id error retryAt hv hroom
  have hentry : R.entry ((Shared.ofStore S).issue clock id (.failed error retryAt) w.store) id =
      .live (R.stamp retryAt) (e.failed error) := by
    change R.entry (S.markFailed id error retryAt w.store).2 id = _
    rw [hentry, Outbox.markFailed_live hlive, Function.update_self]
  have hcounter : ∀ n, K.counter ((Shared.ofStore S).issue clock id (.failed error retryAt)
      w.store) id = some n → Counts n ((K.view w id).initial+(r+1)) := by
    intro n hn
    obtain ⟨n₀, hn₀, hsucc⟩ := K.failed_self w.store id error retryAt n hv hroom hn
    exact (h.counter n₀ hn₀).succ hsucc
  have hadm := h.stage
  rw [hmark] at hadm
  rw [Meter.view_issued, hentry, hstage]
  simp only [Life.Admits] at hadm
  split at hadm
  · rename_i hle
    refine ⟨_, .park r hle, h.within.next (.park r hle), ?_, ?_, hcounter, trivial, h.invoked,
      h.failed⟩
    · simpa using h.first
    · rw [hadm]
      exact K.stamp_never
  · rename_i hlt
    have hlt : (K.view w id).initial+r+1 < m := by omega
    refine ⟨_, .retry r hlt, h.within.next (.retry r hlt), ?_, ?_, hcounter, trivial, h.invoked,
      h.failed⟩
    · simpa using h.first
    · exact K.stamp_due _ hadm

theorem Meter.shows_spawned {due : List OutboxEvent}
    (ht : (w.instances ()).Tidy (R.Holds w.store))
    (hp : (w.instances ()).phase = .fetching (.ok due)) (h : l.Shows m (K.view w id)) :
    l.Shows m ((K.view w id).moved id
      (stageOf ((w.instances ()).spawn c due).inFlight id) []) := by
  have hempty := ht.drained (by simp [hp])
  have hnone : (K.view w id).stage = none := by simp [Meter.view, hempty, stageOf]
  have hadm := h.stage
  rw [hnone] at hadm
  refine h.restage ?_
  simp only [Instance.spawn, hempty, List.nil_append]
  cases stageOf_queued due id with
  | inl hother =>
    rw [hother]
    exact hadm
  | inr hqueued =>
    obtain ⟨hs, e, he, rfl⟩ := hqueued
    obtain ⟨stamp, hlive, hne⟩ := (ht.fetched due hp).2 e he
    have hread := h.entry
    simp only [Meter.view, hlive] at hread
    rw [hs]
    cases l with
    | waiting r => trivial
    | parked r => exact absurd hread hne
    | unknown | dispatched r => exact False.elim hread
    | sending r | failing r | delivering r => exact False.elim hadm

/-- One step of the dispatcher, as one event sees it: the event stays where it is on its
course or takes one step of it. -/
theorem Meter.shows_step (T : R.Total) {a : Action Unit} (hw : R.Coherent w)
    (hok : Orderly c w a) (hstep : w.step (Shared.ofStore S) (fun _ => c) a = some w')
    (h : l.Shows c.backoff.maxAttempts.toNat (K.view w id)) :
    ∃ l', (l' = l ∨ l.Next (K.view w id).initial c.backoff.maxAttempts.toNat l') ∧
      l'.Shows c.backoff.maxAttempts.toNat (K.view w' id) := by
  -- a step that shows nothing of the event
  have same : K.view w' id = K.view w id → ∃ l', (l' = l ∨
      l.Next (K.view w id).initial c.backoff.maxAttempts.toNat l') ∧
      l'.Shows c.backoff.maxAttempts.toNat (K.view w' id) :=
    fun he => ⟨l, Or.inl rfl, by rwa [he]⟩
  cases World.steps_of_step hstep with
  | appended e s happ =>
    have hs : s = (S.append e w.store).2 := (congrArg Prod.snd happ).symm
    subst hs
    by_cases hnew : id = e.id ∧ l = .unknown
    · obtain ⟨rfl, rfl⟩ := hnew
      exact ⟨_, Or.inr .append, shows_first T hw.valid h (congrArg Prod.fst happ) hok.2⟩
    · refine same (view_appended T hw.valid ?_)
      by_cases hid : id = e.id
      · have hl : l ≠ .unknown := fun hl => hnew ⟨hid, hl⟩
        refine Or.inr ⟨fun habsent => hl ?_, fun hnone => hl (h.first.mpr hnone)⟩
        have hread := h.entry
        simp only [Meter.view, habsent] at hread
        cases l with
        | unknown => rfl
        | _ => exact False.elim hread
      · exact Or.inl hid
  | refused e s err happ =>
    have hs : s = w.store := by
      cases T.append_cases hw.valid e with
      | inl hbad =>
        obtain ⟨err', hbad⟩ := hbad
        exact (congrArg Prod.snd happ).symm.trans (congrArg Prod.snd hbad)
      | inr hgood =>
        have := (congrArg Prod.fst happ).symm.trans hgood.1
        cases this
    subst hs
    exact same rfl
  | appendLost e => exact same rfl
  | moved i mv inst obs hm =>
    rw [view_put]
    refine h.move (hm.stageOf hw.tidy.unique (fun hp => hw.tidy.drained (by simp [hp])) id) ?_ ?_
    · rintro n result now delay rfl
      exact hok
    · intro e hmem hid
      obtain ⟨stamp, hlive, -⟩ := hw.tidy.held _ hmem (by simp)
      obtain ⟨n, hn, hattempts⟩ := K.live w.store _ stamp e hw.valid hlive
      rw [hid] at hn
      rw [hattempts, (h.counter n hn).2]
  | idled i now reached hp => exact same (view_put_same rfl)
  | opened i now claim s hp hopen =>
    cases hopen
    exact same (view_put_same rfl)
  | spawned i claim due s hp hclose =>
    cases hclose
    rw [view_put]
    exact ⟨l, Or.inl rfl, shows_spawned hw.tidy hp h⟩
  | fetchFailed i claim err s hp hclose =>
    cases hclose
    exact same (view_put_same rfl)
  | fetchLost i claim hp => exact same (view_put_same rfl)
  | issued i n clock e mark ht hfree =>
    have hheld : R.Holds w.store e := hw.tidy.held _ (List.mem_of_getElem? ht) (by simp)
    have hset := stageOf_set hw.tidy.unique ht .finished id
    by_cases hid : e.id = id
    · subst hid
      rw [if_pos rfl] at hset
      have hold : (K.view w e.id).stage = some (.marking mark) := stageOf_getElem? hw.tidy.unique ht
      have hadm := h.stage
      rw [hold] at hadm
      cases mark with
      | dispatched =>
        cases l with
        | delivering r =>
          exact ⟨_, Or.inr (.complete r), shows_dispatched hw.valid h clock _ hset⟩
        | _ => exact False.elim hadm
      | failed error retryAt =>
        cases l with
        | failing r =>
          obtain ⟨l', hnext, hshows⟩ := shows_failed hw.valid c.backoff.maxAttempts.toNat_lt h hold
            clock ((w.instances ()).setStage n ⟨e, _⟩ .finished) hset
          exact ⟨l', Or.inr hnext, hshows⟩
        | _ => exact False.elim hadm
    · obtain ⟨hentry, hcounter⟩ := issue_other (K := K) T hw.valid clock hheld.ne_absent mark
        (Ne.symm hid)
      rw [if_neg hid] at hset
      refine same ?_
      rw [view_issued, hentry, hcounter]
      simp only [Meter.view, Instance.setStage, hset]
  | markLost i n clock e mark ht => cases hok
  | crashed i => exact False.elim hok

theorem Meter.shows_reachable (T : R.Total) {s : σ} (hs : R.Valid s)
    (hstart : ∀ id, R.entry s id = .absent ∧ K.counter s id = none)
    (h : (single S c s).Reachable (Orderly c) w) (id : EventId) :
    ∃ l : Life, l.Shows c.backoff.maxAttempts.toNat (K.view w id) := by
  refine (h.invariant (I := fun w => R.Coherent w ∧
    ∃ l : Life, l.Shows c.backoff.maxAttempts.toNat (K.view w id)) ⟨⟨hs, .off⟩, .unknown, ?_⟩ ?_).2
  · have hentry : (K.view (World.start Unit Fetched s) id).entry = .absent := (hstart id).1
    refine ⟨trivial, iff_of_true rfl rfl, ?_, fun n hn => ?_, trivial, rfl, rfl⟩
    · rw [show (single S c s).start = World.start Unit Fetched s from rfl, hentry]
      trivial
    · rw [show (K.view (single S c s).start id).counter = none from (hstart id).2] at hn
      cases hn
  · rintro w a w' ⟨hw, l, hl⟩ hok hstep
    obtain ⟨l', -, hl'⟩ := shows_step T hw hok hstep hl
    exact ⟨hw.step T hstep, l', hl'⟩

theorem Meter.settled_reach (T : R.Total) {s : σ} (hw : R.Coherent w)
    (h : (single S c s).Reach (Orderly c) w w') (hl : l.Settled)
    (hshows : l.Shows c.backoff.maxAttempts.toNat (K.view w id)) :
    l.Shows c.backoff.maxAttempts.toNat (K.view w' id) := by
  refine (h.invariant (I := fun w => R.Coherent w ∧
    l.Shows c.backoff.maxAttempts.toNat (K.view w id)) ?_ ⟨hw, hshows⟩).2
  rintro w a w' ⟨hw, hshows⟩ hok hstep
  obtain ⟨l', hnext, hl'⟩ := shows_step T hw hok hstep hshows
  cases hnext with
  | inl he => exact ⟨hw.step T hstep, he ▸ hl'⟩
  | inr hnext => exact absurd hnext hl.not_next

theorem Meter.budget (T : R.Total) {s : σ} (hs : R.Valid s)
    (hstart : ∀ id, R.entry s id = .absent ∧ K.counter s id = none)
    (h : (single S c s).Reachable (Orderly c) w) {e₀ : OutboxEvent}
    (hfirst : firstAppended w.log id = some e₀) :
    ((∀ task ∈ (w.instances ()).inFlight, task.event.id ≠ id) →
      R.entry w.store id ≠ .absent ∧
      (∀ n, K.counter w.store id = some n → Counts n (e₀.attempts.toNat+failures w.log id)) ∧
      ∀ stamp e, R.entry w.store id = .live stamp e → (stamp = never ↔ 1 ≤ failures w.log id ∧
        c.backoff.maxAttempts.toNat ≤ e₀.attempts.toNat+failures w.log id)) ∧
    invocations w.log id ≤ max 1 (c.backoff.maxAttempts.toNat-e₀.attempts.toNat) ∧
    ((R.entry w.store id = .dispatched ∨ ∃ e, R.entry w.store id = .live never e) →
      ∀ w', (single S c s).Reach (Orderly c) w w' →
        invocations w'.log id = invocations w.log id) := by
  obtain ⟨l, hl⟩ := shows_reachable T hs hstart h id
  have hinit : (K.view w id).initial = e₀.attempts.toNat := by
    rw [View.initial, show (K.view w id).first = some e₀ from hfirst, Option.elim_some]
  have hinvoked : invocations w.log id = l.invocations := hl.invoked
  refine ⟨fun hnone => ?_, ?_, fun hrest w' hr => ?_⟩
  · obtain ⟨hfailed, hparked⟩ := hl.quiet (stageOf_eq_none.mpr hnone)
    rw [hinit] at hparked
    refine ⟨fun habsent => ?_, fun n hn => ?_, hparked⟩
    · have hread := hl.entry
      simp only [Meter.view, habsent] at hread
      cases l with
      | unknown =>
        have := hl.first.mp rfl
        simp only [Meter.view, hfirst] at this
        cases this
      | _ => exact False.elim hread
    · have hcounts := hl.counter n hn
      rwa [hinit, ← hfailed] at hcounts
  · rw [hinvoked, ← hinit]
    exact hl.within.invocations_le
  · have hsettled : l.Settled := by
      have hread := hl.entry
      simp only [Meter.view] at hread
      rcases hrest with hd | ⟨e, hp⟩
      · rw [hd] at hread
        cases l with
        | dispatched r => trivial
        | _ => exact False.elim hread
      · rw [hp] at hread
        cases l with
        | parked r => trivial
        | unknown | dispatched r => exact False.elim hread
        | waiting r | sending r | failing r | delivering r => exact absurd rfl hread
    have hl' := settled_reach T (Coherent.reachable T hs h) hr hsettled hl
    exact hl'.invoked.trans hinvoked.symm

end Refinement

theorem pause_step {σ : Type} {S : OutboxStore σ} {c : DispatcherConfig} {w w' : Solo σ} {n : Nat}
    {result : CallResult} {now : UInt64} {delay : Duration}
    (hr : result = .circuitOpen ∨ result = .rejected)
    (h : w.step (Shared.ofStore S) (fun _ => c) (.move () (.returned n result now delay)) =
      some w') :
    w'.store = w.store ∧ ∃ e, (w'.instances ()).inFlight[n]? = some ⟨e, .paused⟩ := by
  cases World.steps_of_step h with
  | moved i mv inst obs hm =>
    refine ⟨rfl, ?_⟩
    rw [World.put_self]
    cases hm with
    | pause n task result now delay ht hs hmark =>
      obtain ⟨hn, -⟩ := List.getElem?_eq_some_iff.mp ht
      exact ⟨task.event, by simp [Instance.setStage, hn]⟩
    | answer n task result now delay mark ht hs hj hmark => rcases hr with rfl | rfl <;> cases hmark

def Entry.attempts : Entry → Option Nat
  | .live _ e => some e.attempts.toNat
  | .absent | .dispatched => none

theorem ne_never_of_lt {v : UInt64} (h : v.toNat < 2^63-1) : v ≠ never := by
  rintro rfl
  revert h
  decide

namespace Memory

def counter (s : Inner) (id : EventId) : Option Nat := (entry s id).attempts

theorem counter_live {s : Inner} {id : EventId} {stamp : UInt64} {e : OutboxEvent}
    (h : entry s id = .live stamp e) :
    ∃ n, counter s id = some n ∧ e.attempts.toNat = min n (2^32-1) := by
  have hlt := e.attempts.toNat_lt
  exact ⟨e.attempts.toNat, by rw [counter, h, Entry.attempts], by omega⟩

theorem counter_append_new {s : Inner} {e : OutboxEvent} (hv : Valid s)
    (hok : (append e s).1 = .ok ()) (h : entry s e.id = .absent) :
    counter (append e s).2 e.id = some e.attempts.toNat := by
  cases refinement_total.append_cases hv e with
  | inl hbad =>
    obtain ⟨err, hbad⟩ := hbad
    rw [show append e s = _ from hbad] at hok
    cases hok
  | inr hgood =>
    have hentry : entry (append e s).2 = (entry s).append e.createdAt e := hgood.2.2
    rw [counter, hentry, Outbox.append_absent h, Function.update_self, Entry.attempts]

theorem counter_markDispatched (s : Inner) (k id : EventId) :
    counter (markDispatched k s).2 id = if id = k then none else counter s id := by
  rw [counter, entry_markDispatched, Outbox.markDispatched, counter]
  split
  · rename_i h
    rw [h, Function.update_self, Entry.attempts]
  · rename_i h
    rw [Function.update_of_ne h]

theorem counter_markFailed_other (s : Inner) {k id : EventId} (error : String) (retryAt : UInt64)
    (h : id ≠ k) : counter (markFailed k error retryAt s).2 id = counter s id := by
  rw [counter, entry_markFailed, Outbox.markFailed_other h, counter]

theorem counter_markFailed_self {s : Inner} {id : EventId} {error : String} {retryAt : UInt64}
    {n : Nat} (h : counter (markFailed id error retryAt s).2 id = some n) :
    ∃ n₀, counter s id = some n₀ ∧ Counts n (n₀+1) := by
  rw [counter, entry_markFailed] at h
  cases hentry : entry s id with
  | live stamp e =>
    have hone : (1 : UInt32).toNat = 1 := rfl
    rw [Outbox.markFailed_live hentry, Function.update_self, Entry.attempts, Option.some.injEq,
      OutboxEvent.failed, satAdd32_toNat, hone] at h
    refine ⟨e.attempts.toNat, by rw [counter, hentry, Entry.attempts], ?_⟩
    unfold Counts
    omega
  | absent | dispatched =>
    rw [Outbox.markFailed_not_live (by simp [hentry]), hentry] at h
    cases h

theorem counter_dispatched_other (s : Inner) {k id : EventId} (h : id ≠ k) :
    counter (markDispatched k s).2 id = counter s id := by
  rw [counter_markDispatched, if_neg h]

theorem counter_dispatched_self {s : Inner} {id : EventId} {n : Nat}
    (h : counter (markDispatched id s).2 id = some n) : counter s id = some n := by
  rw [counter_markDispatched, if_pos rfl] at h
  cases h

def meter : refinement.Meter where
  counter := counter
  live _ _ _ _ _ := counter_live
  room _ _ _ _ _ := trivial
  append_known _ e id hv h := congrArg Entry.attempts ((refinement_total.append_known hv e).2 id h)
  append_new _ _ := counter_append_new
  dispatched_other s _ _ _ _ := counter_dispatched_other s
  dispatched_self _ _ _ _ _ := counter_dispatched_self
  failed_other s _ error retryAt _ _ := counter_markFailed_other s error retryAt
  failed_self _ _ _ _ _ _ _ := counter_markFailed_self
  stamp_never := rfl
  stamp_due _ := ne_never_of_lt

end Memory

namespace Sqlite

theorem row_write (t : Tables) (k id : EventId) (row : EventRow) :
    (t.write k.text row).outboxEvents[id.text]? =
      if k = id then some row else t.outboxEvents[id.text]? := by
  simp [Tables.write, ExtTreeMap.getElem?_insert, EventId.text_inj]

def counter (t : Tables) (id : EventId) : Option Nat :=
  t.outboxEvents[id.text]?.map (·.attempts.toNat)

theorem counter_some {t : Tables} {id : EventId} {row : EventRow}
    (h : t.outboxEvents[id.text]? = some row) : counter t id = some row.attempts.toNat := by
  rw [counter, h, Option.map_some]

theorem counter_write (t : Tables) (k id : EventId) (row : EventRow) :
    counter (t.write k.text row) id = if k = id then some row.attempts.toNat else counter t id := by
  rw [counter, row_write]
  split
  · rfl
  · rfl

theorem counter_live (U : UuidCrate) {t : Tables} {id : EventId} {stamp : UInt64} {e : OutboxEvent}
    (hv : Valid t) (h : entry U t id = .live stamp e) :
    ∃ n, counter t id = some n ∧ e.attempts.toNat = min n (2^32-1) := by
  obtain ⟨row, hget, -, hdec, -⟩ := (entry_live_iff U).mp h
  exact ⟨row.attempts.toNat, counter_some hget,
    decodeEvent_attempts U (hv _ _ hget).attempts hdec⟩

theorem room_of_counter {t : Tables} {id : EventId} (h : ∀ n, counter t id = some n → n < 2^63-1)
    (row : EventRow) (hget : t.outboxEvents[id.text]? = some row) : row.attempts < i64Max := by
  have hlt := h row.attempts.toNat (counter_some hget)
  rw [i64Max]
  omega

theorem counter_append_known (U : UuidCrate) {t : Tables} {e : OutboxEvent} {id : EventId}
    (h : id ≠ e.id ∨ entry U t id ≠ .absent) : counter (append e t).2 id = counter t id := by
  by_cases hacc : Accepts e
  · rcases append_cases t hacc with ⟨row, -, happ⟩ | ⟨hnone, blob, -, happ⟩
    · rw [happ]
    · have hne : e.id ≠ id := by
        rintro rfl
        exact h.elim (fun hne => hne rfl) fun hne => hne (entry_none U hnone)
      rw [happ, counter_write, if_neg hne]
  · obtain ⟨err, happ⟩ := append_refused t hacc
    rw [happ]

theorem counter_append_new (U : UuidCrate) {t : Tables} {e : OutboxEvent} (hv : Valid t)
    (hok : (append e t).1 = .ok ()) (habsent : entry U t e.id = .absent) :
    counter (append e t).2 e.id = some e.attempts.toNat := by
  by_cases hacc : Accepts e
  · rcases append_cases t hacc with ⟨row, hget, -⟩ | ⟨-, blob, -, happ⟩
    · exact absurd ((entry_some U hget).symm.trans habsent) (read_ne_absent U (hv _ _ hget))
    · rw [happ, counter_write, if_pos rfl, rowOf]
      simp only [clampI64_attempts, Int.toNat_natCast]
  · obtain ⟨err, happ⟩ := append_refused t hacc
    rw [happ] at hok
    cases hok

theorem counter_markDispatched (clock : UInt64) (k id : EventId) (t : Tables) :
    counter (markDispatched clock k t).2 id = counter t id := by
  cases markDispatched_cases clock k t with
  | inl h => rw [h.2]
  | inr h =>
    obtain ⟨row, hget, -, h⟩ := h
    rw [h, counter_write]
    split
    · rename_i hk
      rw [← hk, counter_some hget]
    · rfl

theorem counter_markFailed_other (t : Tables) {k id : EventId} (error : String) (retryAt : UInt64)
    (hne : id ≠ k) : counter (markFailed k error retryAt t).2 id = counter t id := by
  rcases markFailed_cases k error retryAt t with ⟨-, h⟩ | ⟨row, -, -, h⟩ | ⟨row, -, -, h⟩
  · rw [h]
  · rw [h, counter_write, if_neg hne.symm]
  · rw [h]

theorem counter_markFailed_self {t : Tables} {id : EventId} {error : String} {retryAt : UInt64}
    {n : Nat} (hv : Valid t)
    (hroom : ∀ row, t.outboxEvents[id.text]? = some row → row.attempts < i64Max)
    (h : counter (markFailed id error retryAt t).2 id = some n) :
    ∃ n₀, counter t id = some n₀ ∧ Counts n (n₀+1) := by
  rcases markFailed_cases id error retryAt t with
    ⟨hnone, hm⟩ | ⟨row, hget, -, hm⟩ | ⟨row, hget, hn, -⟩
  · rw [hm, counter, hnone] at h
    cases h
  · rw [hm, counter_write, if_pos rfl, Option.some.injEq, EventRow.failed] at h
    have hnonneg := (hv _ _ hget).attempts
    refine ⟨row.attempts.toNat, counter_some hget, ?_⟩
    unfold Counts
    simp only at h
    omega
  · exact absurd (hroom row hget) hn

theorem stamp_due {v : UInt64} (h : v.toNat < 2^63-1) : stampOf (clampI64 v) ≠ never := by
  rw [stampOf_clampI64 (Or.inl h)]
  exact ne_never_of_lt h

def meter (U : UuidCrate) : (refinement U).Meter where
  counter := counter
  live _ _ _ _ := counter_live U
  room _ _ _ _ := room_of_counter
  append_known _ _ _ _ := counter_append_known U
  append_new _ _ := counter_append_new U
  dispatched_other t clock k id _ _ := counter_markDispatched clock k id t
  dispatched_self t clock id _ _ h := (counter_markDispatched clock id id t).symm.trans h
  failed_other t _ error retryAt _ _ := counter_markFailed_other t error retryAt
  failed_self _ _ _ _ _ := counter_markFailed_self
  stamp_never := stampOf_clampI64 (Or.inr rfl)
  stamp_due _ := stamp_due

end Sqlite

/-- The retry budget of one dispatcher, over the in-process store and over SQLite, for
an event that came in as `e₀`, in every state an orderly run reaches. With none of
its tasks in flight, its stored attempts are those it came with and one for each
failed send, and it is parked exactly when a failure has spent the budget. The
sender is called for it at most `max 1 (m-a₀)` times, and not again once it is
parked or dispatched; and a pause of the breaker leaves the store as it was. -/
theorem retry_budget (U : UuidCrate) (c : DispatcherConfig) :
    (∀ w, (single Memory.store c Memory.new).Reachable (Orderly c) w →
      (∀ id e₀, firstAppended w.log id = some e₀ →
        ((∀ task ∈ (w.instances ()).inFlight, task.event.id ≠ id) →
          id ∈ w.store.dispatched ∨ ∃ stamp e, w.store.events[id]? = some (stamp, e) ∧
            e.attempts.toNat = min (e₀.attempts.toNat+failures w.log id) (2^32-1) ∧
            (stamp = never ↔ 1 ≤ failures w.log id ∧
              c.backoff.maxAttempts.toNat ≤ e₀.attempts.toNat+failures w.log id)) ∧
        invocations w.log id ≤ max 1 (c.backoff.maxAttempts.toNat-e₀.attempts.toNat) ∧
        ((id ∈ w.store.dispatched ∨ ∃ e, w.store.events[id]? = some (never, e)) →
          ∀ w', (single Memory.store c Memory.new).Reach (Orderly c) w w' →
            invocations w'.log id = invocations w.log id)) ∧
      ∀ n result now delay w', result = .circuitOpen ∨ result = .rejected →
        w.step (Shared.ofStore Memory.store) (fun _ => c)
          (.move () (.returned n result now delay)) = some w' →
        w'.store = w.store ∧ ∃ e, (w'.instances ()).inFlight[n]? = some ⟨e, .paused⟩) ∧
    (∀ w, (single (Sqlite.store U) c Sqlite.empty).Reachable (Orderly c) w →
      (∀ id e₀, firstAppended w.log id = some e₀ →
        ((∀ task ∈ (w.instances ()).inFlight, task.event.id ≠ id) →
          ∃ row e, w.store.outboxEvents[id.text]? = some row ∧
            Sqlite.eventFromRow U (id.text, row) = .ok e ∧
            e.attempts.toNat = min (e₀.attempts.toNat+failures w.log id) (2^32-1) ∧
            (row.dispatchedAt = none → (parkedAsI64 ≤ row.nextAttemptAt ↔ 1 ≤ failures w.log id ∧
              c.backoff.maxAttempts.toNat ≤ e₀.attempts.toNat+failures w.log id))) ∧
        invocations w.log id ≤ max 1 (c.backoff.maxAttempts.toNat-e₀.attempts.toNat) ∧
        ((∃ row, w.store.outboxEvents[id.text]? = some row ∧
            (row.dispatchedAt.isSome ∨ parkedAsI64 ≤ row.nextAttemptAt)) →
          ∀ w', (single (Sqlite.store U) c Sqlite.empty).Reach (Orderly c) w w' →
            invocations w'.log id = invocations w.log id)) ∧
      ∀ n result now delay w', result = .circuitOpen ∨ result = .rejected →
        w.step (Shared.ofStore (Sqlite.store U)) (fun _ => c)
          (.move () (.returned n result now delay)) = some w' →
        w'.store = w.store ∧ ∃ e, (w'.instances ()).inFlight[n]? = some ⟨e, .paused⟩) := by
  constructor
  · intro w hw
    have hv := (Refinement.Coherent.reachable Memory.refinement_total Memory.valid_new hw).valid
    refine ⟨fun id e₀ hfirst => ?_, fun n result now delay w' hr h => pause_step hr h⟩
    obtain ⟨hquiet, hle, hrest⟩ := Memory.meter.budget Memory.refinement_total Memory.valid_new
      (fun id => ⟨Memory.entry_new id, congrArg Entry.attempts (Memory.entry_new id)⟩) hw hfirst
    refine ⟨fun hnone => ?_, hle, fun hend => hrest ?_⟩
    · obtain ⟨hknown, hcounts, hparked⟩ := hquiet hnone
      cases hentry : Memory.entry w.store id with
      | absent => exact absurd hentry hknown
      | dispatched => exact Or.inl ((Memory.entry_dispatched_iff hv).mp hentry)
      | live stamp e =>
        refine Or.inr ⟨stamp, e, Memory.entry_live_iff.mp hentry, ?_, hparked stamp e hentry⟩
        have hattempts := (hcounts e.attempts.toNat (congrArg Entry.attempts hentry)).2
        have := e.attempts.toNat_lt
        omega
    · rcases hend with hd | ⟨e, he⟩
      · exact Or.inl ((Memory.entry_dispatched_iff hv).mpr hd)
      · exact Or.inr ⟨e, Memory.entry_live_iff.mpr he⟩
  · intro w hw
    have hv :=
      (Refinement.Coherent.reachable (Sqlite.refinement_total U) Sqlite.valid_empty hw).valid
    refine ⟨fun id e₀ hfirst => ?_, fun n result now delay w' hr h => pause_step hr h⟩
    have hempty (k : EventId) : Sqlite.empty.outboxEvents[k.text]? = none := by simp [Sqlite.empty]
    obtain ⟨hquiet, hle, hrest⟩ := (Sqlite.meter U).budget (Sqlite.refinement_total U)
      Sqlite.valid_empty (fun id => ⟨Sqlite.entry_none (t := Sqlite.empty) U (hempty id),
        congrArg (Option.map (·.attempts.toNat)) (hempty id)⟩) hw hfirst
    refine ⟨fun hnone => ?_, hle, fun hend => hrest ?_⟩
    · obtain ⟨hknown, hcounts, hparked⟩ := hquiet hnone
      cases hget : w.store.outboxEvents[id.text]? with
      | none => exact absurd (Sqlite.entry_none U hget) hknown
      | some row =>
        have hcol := hv _ _ hget
        obtain ⟨e, -, hdec⟩ := hcol.decode U row.topic row.payload row.createdAt row.lastError
        refine ⟨row, e, rfl, hdec, ?_, fun hd => ?_⟩
        · rw [decodeEvent_attempts U hcol.attempts hdec]
          exact (hcounts _ (Sqlite.counter_some hget)).2
        · rw [← stampOf_eq_never_iff hcol.due]
          exact hparked _ e ((Sqlite.entry_live_iff U).mpr ⟨row, hget, hd, hdec, rfl⟩)
    · obtain ⟨row, hget, hend⟩ := hend
      cases hd : row.dispatchedAt with
      | some d =>
        exact Or.inl ((Sqlite.entry_some U hget).trans (Sqlite.read_dispatched U id (by simp [hd])))
      | none =>
        have hpark := hend.resolve_left (by simp [hd])
        rw [← stampOf_eq_never_iff (hv _ _ hget).due] at hpark
        obtain ⟨e, -, hdec⟩ := (hv _ _ hget).decode U row.topic row.payload row.createdAt
          row.lastError
        exact Or.inr ⟨e, (Sqlite.entry_live_iff U).mpr ⟨row, hget, hd, hdec, hpark.symm⟩⟩

theorem retry_budget_failsTwice :
    ∃ w, (single Memory.store (.sample 2) Memory.new).Reachable (Orderly (.sample 2)) w ∧
      firstAppended w.log (.ofByte 1) = some (.sample 1 5) ∧ failures w.log (.ofByte 1) = 2 ∧
      (w.store.events[EventId.ofByte 1]?.map fun x => (x.1, x.2.attempts)) = some (never, 2) ∧
      invocations w.log (.ofByte 1) ≤ 2 := by
  have hrun : ((single Memory.store (.sample 2) Memory.new).run (Orderly (.sample 2))
      (World.start Unit _ Memory.new) failsTwice).any (fun w =>
        firstAppended w.log (.ofByte 1) = some (.sample 1 5) ∧ failures w.log (.ofByte 1) = 2 ∧
        (w.store.events[EventId.ofByte 1]?.map fun x => (x.1, x.2.attempts)) =
          some (never, 2)) = true := by
    decide +kernel
  obtain ⟨w, hw, hfirst, hfailed, hparked⟩ := System.exists_reach hrun
  exact ⟨w, hw, hfirst, hfailed, hparked,
    (((retry_budget .hyphenatedOnly (.sample 2)).1 w hw).1 _ _ hfirst).2.1⟩

end OutboxKit
