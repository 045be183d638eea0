import OutboxKit.Store

/-! The dispatch loop. An instance polls its store, spawns one task per fetched
event, and waits for all of them before it polls again; a task takes a permit,
goes through the breaker to the sender, and records the outcome. Everything the
loop does not decide itself (clocks, jitter, breaker and sender outcomes, store
faults, crashes) comes with the action, so a run is a list of actions. -/
namespace OutboxKit
open Machine Trace

def idlePollDivisor : UInt32 := 10

/-- Batch-fetch tuning of the poll loop; `usize` is 64 bits wide. -/
structure FetchBatch where
  min : UInt64
  max : UInt64
  parkAfter : UInt32

namespace FetchBatch

def saturated (b : FetchBatch) : FetchBatch where
  min := Max.max b.min 1
  max := Max.max b.max (Max.max b.min 1)
  parkAfter := Max.max b.parkAfter 1

def nextSize (b : FetchBatch) (current fetched : UInt64) : UInt64 :=
  if current ≤ fetched then Max.max (Min.min (satMul64 current 2) b.max) b.min else b.min

def isIdleParked (b : FetchBatch) (emptyStreak : UInt32) : Bool :=
  decide (b.parkAfter ≤ emptyStreak)

end FetchBatch

structure DispatcherConfig where
  fetchBatch : FetchBatch
  concurrency : UInt64
  backoff : BackoffPolicy

def DispatcherConfig.sample (m : UInt32) : DispatcherConfig where
  fetchBatch := ⟨2, 8, 3⟩
  concurrency := 4
  backoff := ⟨.zero, Binary64.ofNat 2, .fromMillis 1000, m⟩

/-- What `breaker.call` returns: the sender's own result, or the breaker's word
that the sender was not invoked, or any other class of breaker error. -/
inductive CallResult where
  | ok
  | circuitOpen
  | rejected
  | failure (err : DispatchError)
  | other (message : String)

inductive Mark where
  | dispatched
  | failed (error : String) (retryAt : UInt64)

/-- `NEVER` once the budget is spent, else the clock plus a jittered delay. -/
def retryAt (p : BackoffPolicy) (attempts : UInt32) (now : UInt64) (delay : Duration) : UInt64 :=
  if p.isExhausted attempts then never
  else satAdd64 now ((tryU64OfNat delay.asMillis).getD u64Max)

/-- The match on the breaker's result in `process`; a pause asks nothing. -/
def CallResult.mark (p : BackoffPolicy) (e : OutboxEvent) (now : UInt64) (delay : Duration) :
    CallResult → Option Mark
  | .ok => some .dispatched
  | .circuitOpen | .rejected => none
  | .failure err => some (.failed err.text (retryAt p (satAdd32 e.attempts 1) now delay))
  | .other message => some (.failed message (retryAt p (satAdd32 e.attempts 1) now delay))

theorem CallResult.mark_failed {p : BackoffPolicy} {e : OutboxEvent} {now t : UInt64}
    {delay : Duration} {result : CallResult} {error : String}
    (h : result.mark p e now delay = some (.failed error t)) :
    t = retryAt p (satAdd32 e.attempts 1) now delay := by
  cases result <;> cases h <;> rfl

theorem retryAt_toNat {p : BackoffPolicy} {attempts : UInt32} (now : UInt64) (delay : Duration)
    (h : p.isExhausted attempts = false) :
    (retryAt p attempts now delay).toNat = min (now.toNat+delay.asMillis) (2^64-1) := by
  rw [retryAt, if_neg (by simp [h]), satAdd64_toNat, tryU64OfNat]
  split
  · rename_i hlt
    rw [Option.getD_some, UInt64.toNat_ofNat', Nat.mod_eq_of_lt hlt]
  · rw [Option.getD_none, u64Max_toNat]
    omega

/-- How far a spawned task has come: `paused` returned without a mark, `finished`
after it issued one. It holds a permit from `permitted` until it returns. -/
inductive Stage where
  | queued
  | permitted
  | sending
  | marking (mark : Mark)
  | paused
  | finished

/-- One `process(event)`. -/
structure Task where
  event : OutboxEvent
  stage : Stage

def Task.holdsPermit (task : Task) : Bool :=
  match task.stage with
  | .permitted | .sending | .marking _ => true
  | .queued | .paused | .finished => false

/-- Where `run` is. `γ` is what an open fetch holds. -/
inductive Phase (γ : Type) where
  | down
  | select
  | fetching (claim : γ)
  | draining
  | gauge
  | stopping
  | stopped

/-- The loop variables of one instance and its set of in-flight tasks. -/
structure Instance (γ : Type) where
  phase : Phase γ
  inFlight : List Task
  batchSize : UInt64
  emptyStreak : UInt32
  idleTick : UInt32
  shutdown : Bool

/-- What a run leaves on record: appends that returned `Ok`, and what the sender saw. -/
inductive Obs where
  | appended (event : OutboxEvent)
  | invoked (id : EventId)
  | delivered (id : EventId)
  | failed (id : EventId)
deriving DecidableEq

namespace Instance
variable {γ : Type}

def off : Instance γ := ⟨.down, [], 0, 0, 0, false⟩

def started (c : DispatcherConfig) : Instance γ :=
  ⟨.select, [], c.fetchBatch.saturated.min, 0, 0, false⟩

def setStage (inst : Instance γ) (n : Nat) (task : Task) (stage : Stage) : Instance γ :=
  { inst with inFlight := inst.inFlight.set n { task with stage := stage } }

def permits (inst : Instance γ) : Nat := inst.inFlight.countP Task.holdsPermit

end Instance

/-- Steps of one instance that do not touch the store. -/
inductive Move where
  | start
  | shutdown
  | leave
  | stop
  | drained
  | gauge
  | permit (n : Nat)
  | invoke (n : Nat)
  | returned (n : Nat) (result : CallResult) (now : UInt64) (delay : Duration)
  | join (n : Nat)

def Obs.ofMark (id : EventId) : Mark → Obs
  | .dispatched => .delivered id
  | .failed .. => .failed id

/-- A task's move, once the task is known. The breaker turns a call away before
the sender runs, and returns the sender's result only after it ran. -/
def Instance.moveTask {γ : Type} (c : DispatcherConfig) (inst : Instance γ) (n : Nat)
    (task : Task) : Move → Option (Instance γ × List Obs)
  | .permit _ =>
    match task.stage with
    | .queued => if inst.permits < max c.concurrency.toNat 1 then
        some (inst.setStage n task .permitted, []) else none
    | _ => none
  | .invoke _ =>
    match task.stage with
    | .permitted => some (inst.setStage n task .sending, [.invoked task.event.id])
    | _ => none
  | .returned _ result now delay =>
    if c.backoff.Jittered (satAdd32 task.event.attempts 1) delay then
      match task.stage, result.mark c.backoff task.event now delay with
      | .permitted, none => some (inst.setStage n task .paused, [])
      | .sending, some mark => some (inst.setStage n task (.marking mark),
          [Obs.ofMark task.event.id mark])
      | _, _ => none
    else none
  | .join _ =>
    match task.stage with
    | .paused | .finished => some ({ inst with inFlight := inst.inFlight.eraseIdx n }, [])
    | _ => none
  | _ => none

def Instance.move {γ : Type} (c : DispatcherConfig) (inst : Instance γ) :
    Move → Option (Instance γ × List Obs)
  | .start =>
    match inst.phase with
    | .down => some (Instance.started c, [])
    | _ => none
  | .shutdown =>
    match inst.phase with
    | .down => none
    | _ => some ({ inst with shutdown := true }, [])
  | .leave =>
    match inst.phase with
    | .select => if inst.shutdown then some ({ inst with phase := .stopping }, []) else none
    | _ => none
  | .stop =>
    match inst.phase, inst.inFlight with
    | .stopping, [] => some ({ inst with phase := .stopped }, [])
    | _, _ => none
  | .drained =>
    match inst.phase, inst.inFlight with
    | .draining, [] => some ({ inst with phase := .gauge }, [])
    | _, _ => none
  | .gauge =>
    match inst.phase with
    | .gauge => some ({ inst with phase := .select }, [])
    | _ => none
  | .permit n => inst.inFlight[n]?.bind fun task => inst.moveTask c n task (.permit n)
  | .invoke n => inst.inFlight[n]?.bind fun task => inst.moveTask c n task (.invoke n)
  | .returned n result now delay =>
    inst.inFlight[n]?.bind fun task => inst.moveTask c n task (.returned n result now delay)
  | .join n => inst.inFlight[n]?.bind fun task => inst.moveTask c n task (.join n)

/-- A store as several instances share it. A fetch opens (its query runs), and
closes (its result is handed over) or is given up; in between it may hold rows
against writes of others. -/
structure Shared (σ γ : Type) where
  append : OutboxEvent → σ → Except StoreError Unit × σ
  openFetch (limit now : UInt64) : σ → γ × σ
  closeFetch : γ → σ → Except StoreError (List OutboxEvent) × σ
  abortFetch : γ → σ → σ
  free : EventId → σ → Bool
  markDispatched (clock : UInt64) : EventId → σ → Except StoreError Unit × σ
  markFailed (id : EventId) (error : String) (retryAtMs : UInt64) : σ → Except StoreError Unit × σ

def Shared.ofStore {σ : Type} (S : OutboxStore σ) :
    Shared σ (Except StoreError (List OutboxEvent)) where
  append := S.append
  openFetch limit now s := (S.fetchDue limit now s, s)
  closeFetch result s := (result, s)
  abortFetch _ s := s
  free _ _ := true
  markDispatched := S.markDispatched
  markFailed := S.markFailed

/-- The store, every instance, and the record of the run so far. -/
structure World (ι σ γ : Type) where
  store : σ
  instances : ι → Instance γ
  log : List Obs

/-- A step. `reached` is false when the store call fails without effect. -/
inductive Action (ι : Type) where
  | append (event : OutboxEvent) (reached : Bool)
  | move (i : ι) (m : Move)
  | tick (i : ι) (now : UInt64) (reached : Bool)
  | fetched (i : ι) (reached : Bool)
  | mark (i : ι) (n : Nat) (clock : UInt64) (reached : Bool)
  | crash (i : ι)

/-- The loop's bookkeeping on a result of `fetch_due`, and the spawns. -/
def Instance.spawn {γ : Type} (c : DispatcherConfig) (inst : Instance γ)
    (due : List OutboxEvent) : Instance γ :=
  { inst with
    phase := .draining
    inFlight := inst.inFlight++due.map fun e => ⟨e, .queued⟩
    emptyStreak := if due.isEmpty then satAdd32 inst.emptyStreak 1 else 0
    batchSize := c.fetchBatch.saturated.nextSize inst.batchSize (UInt64.ofNat due.length) }

def Instance.tick {γ : Type} (c : DispatcherConfig) (inst : Instance γ) : UInt32 × Bool :=
  if c.fetchBatch.saturated.isIdleParked inst.emptyStreak then
    ((inst.idleTick+1)%idlePollDivisor, (inst.idleTick+1)%idlePollDivisor == 0)
  else (inst.idleTick, true)

section Step
variable {ι σ γ : Type} [DecidableEq ι]

def World.put (w : World ι σ γ) (i : ι) (inst : Instance γ) (s : σ) (obs : List Obs) :
    World ι σ γ :=
  ⟨s, Function.update w.instances i inst, w.log++obs⟩

/-- Issue a mark; the dispatcher ignores what it returns. -/
def Shared.issue (P : Shared σ γ) (clock : UInt64) (id : EventId) : Mark → σ → σ
  | .dispatched, s => (P.markDispatched clock id s).2
  | .failed error retryAt, s => (P.markFailed id error retryAt s).2

def Shared.release (P : Shared σ γ) (inst : Instance γ) (s : σ) : σ :=
  match inst.phase with
  | .fetching claim => P.abortFetch claim s
  | _ => s

variable (P : Shared σ γ) (config : ι → DispatcherConfig)

def World.step (w : World ι σ γ) : Action ι → Option (World ι σ γ)
  | .append e reached =>
    if reached then
      match P.append e w.store with
      | (.ok (), s) => some { w with store := s, log := w.log++[.appended e] }
      | (.error _, s) => some { w with store := s }
    else some w
  | .move i m =>
    match (w.instances i).move (config i) m with
    | some (inst, obs) => some (w.put i inst w.store obs)
    | none => none
  | .tick i now reached =>
    match (w.instances i).phase with
    | .select =>
      let (idleTick, fetches) := (w.instances i).tick (config i)
      if fetches && reached then
        let (claim, s) := P.openFetch (w.instances i).batchSize now w.store
        some (w.put i { w.instances i with idleTick, phase := .fetching claim } s [])
      else some (w.put i { w.instances i with idleTick } w.store [])
    | _ => none
  | .fetched i reached =>
    match (w.instances i).phase with
    | .fetching claim =>
      if reached then
        match P.closeFetch claim w.store with
        | (.ok due, s) => some (w.put i ((w.instances i).spawn (config i) due) s [])
        | (.error _, s) => some (w.put i { w.instances i with phase := .select } s [])
      else some (w.put i { w.instances i with phase := .select } (P.abortFetch claim w.store) [])
    | _ => none
  | .mark i n clock reached =>
    match (w.instances i).inFlight[n]? with
    | some ⟨e, .marking mark⟩ =>
      if reached then
        if P.free e.id w.store then
          some (w.put i ((w.instances i).setStage n ⟨e, .marking mark⟩ .finished)
            (P.issue clock e.id mark w.store) [])
        else none
      else some (w.put i ((w.instances i).setStage n ⟨e, .marking mark⟩ .finished) w.store [])
    | _ => none
  | .crash i => some (w.put i .off (P.release (w.instances i) w.store) [])

def World.start (ι : Type) {σ : Type} (γ : Type) (s : σ) : World ι σ γ := ⟨s, fun _ => .off, []⟩

def dispatching (s : σ) : System (World ι σ γ) (Action ι) :=
  ⟨World.start ι γ s, World.step P config⟩

end Step

/-- A run for examples: one instance, one event, which fails once, is fetched again
and fails again. -/
def failsTwice : List (Action Unit) :=
  [.append (.sample 1 5) true, .move () .start, .tick () 10 true, .fetched () true,
    .move () (.permit 0), .move () (.invoke 0),
    .move () (.returned 0 (.failure (.delivery "first")) 20 .zero), .mark () 0 20 true,
    .move () (.join 0), .move () .drained, .move () .gauge, .tick () 30 true, .fetched () true,
    .move () (.permit 0), .move () (.invoke 0),
    .move () (.returned 0 (.failure (.delivery "second")) 40 .zero), .mark () 0 40 true]

end OutboxKit
