import OutboxKit.DispatchSteps

/-! The poll loop's controller. Three variables decide what a tick does: the batch
size, the streak of empty fetches, and a counter that lets one tick in ten
through while the loop is parked. Over any sequence of ticks they are functions
of what became of the ticks so far. -/
namespace OutboxKit
open Machine Trace

/-- What became of a tick: it was skipped, its fetch failed, or its fetch asked for so
many events and got so many. -/
inductive Tick where
  | skipped
  | failed
  | fetched (asked got : Nat)
deriving DecidableEq

namespace Tick

def attempts : Tick → Bool
  | .skipped => false
  | .failed | .fetched .. => true

/-- The full batches in a row; a failed fetch neither counts nor ends the row. -/
def nextFull (k : Nat) : Tick → Nat
  | .fetched asked got => if asked ≤ got then k+1 else 0
  | .skipped | .failed => k

def nextEmpty (k : Nat) : Tick → Nat
  | .fetched _ got => if got = 0 then k+1 else 0
  | .skipped | .failed => k

def nextSkip (k : Nat) : Tick → Nat
  | .skipped => k+1
  | .failed | .fetched .. => 0

def fullRun (ticks : List Tick) : Nat := ticks.foldl nextFull 0
def emptyRun (ticks : List Tick) : Nat := ticks.foldl nextEmpty 0
def skipRun (ticks : List Tick) : Nat := ticks.foldl nextSkip 0

@[simp] theorem fullRun_concat (ticks : List Tick) (t : Tick) :
    fullRun (ticks++[t]) = nextFull (fullRun ticks) t := by
  simp [fullRun]

@[simp] theorem emptyRun_concat (ticks : List Tick) (t : Tick) :
    emptyRun (ticks++[t]) = nextEmpty (emptyRun ticks) t := by
  simp [emptyRun]

@[simp] theorem skipRun_concat (ticks : List Tick) (t : Tick) :
    skipRun (ticks++[t]) = nextSkip (skipRun ticks) t := by
  simp [skipRun]

theorem skipRun_attempt {a : Tick} (h : a.attempts = true) (ticks : List Tick) :
    skipRun (ticks++[a]) = 0 := by
  rw [skipRun_concat]
  cases a with
  | skipped => cases h
  | failed => rfl
  | fetched asked got => rfl

theorem runs_skipped (ticks : List Tick) {skips : List Tick} (h : ∀ t ∈ skips, t = .skipped) :
    skipRun (ticks++skips) = skipRun ticks+skips.length ∧
      emptyRun (ticks++skips) = emptyRun ticks := by
  induction skips using List.reverseRecOn with
  | nil => simp
  | append_singleton skips t ih =>
    obtain ⟨hskip, hempty⟩ := ih fun t ht => h t (List.mem_append_left _ ht)
    rw [h t (by simp), ← List.append_assoc, skipRun_concat, emptyRun_concat, hskip, hempty]
    simp [nextSkip, nextEmpty, Nat.add_assoc]

end Tick

namespace FetchBatch

theorem toNat_max (a b : UInt64) : (Max.max a b).toNat = Max.max a.toNat b.toNat := by
  change (if a ≤ b then b else a).toNat = _
  split
  all_goals
    rename_i h
    rw [UInt64.le_iff_toNat_le] at h
    omega

theorem toNat_min (a b : UInt64) : (Min.min a b).toNat = Min.min a.toNat b.toNat := by
  change (if a ≤ b then a else b).toNat = _
  split
  all_goals
    rename_i h
    rw [UInt64.le_iff_toNat_le] at h
    omega

theorem saturated_bounds (b : FetchBatch) :
    1 ≤ b.saturated.min.toNat ∧ b.saturated.min.toNat ≤ b.saturated.max.toNat := by
  have hone : (1 : UInt64).toNat = 1 := rfl
  simp only [saturated, toNat_max, hone]
  omega

theorem saturated_parkAfter (b : FetchBatch) : 1 ≤ b.saturated.parkAfter.toNat := by
  have hone : (1 : UInt32).toNat = 1 := rfl
  change 1 ≤ (if b.parkAfter ≤ 1 then 1 else b.parkAfter).toNat
  split
  · exact le_of_eq hone.symm
  · rename_i h
    rw [UInt32.le_iff_toNat_le, hone] at h
    omega

theorem nextSize_full {b : FetchBatch} {current fetched : UInt64} {k : Nat}
    (hb : b.min.toNat ≤ b.max.toNat)
    (hsize : current.toNat = Min.min b.max.toNat (b.min.toNat*2^k)) (h : current ≤ fetched) :
    (b.nextSize current fetched).toNat = Min.min b.max.toNat (b.min.toNat*2^(k+1)) := by
  have htwo : (2 : UInt64).toNat = 2 := rfl
  have hmax := b.max.toNat_lt
  have hpow : b.min.toNat*2^(k+1) = 2*(b.min.toNat*2^k) := by ring
  have hle : b.min.toNat ≤ b.min.toNat*2^k := Nat.le_mul_of_pos_right _ (Nat.two_pow_pos k)
  rw [nextSize, if_pos h, toNat_max, toNat_min, satMul64_toNat, htwo, hsize, hpow]
  omega

theorem nextSize_partial {b : FetchBatch} {current fetched : UInt64} (h : ¬current ≤ fetched) :
    b.nextSize current fetched = b.min := by
  rw [nextSize, if_neg h]

end FetchBatch

namespace Instance
variable {γ : Type} (c : DispatcherConfig)

/-- One tick as the loop takes it; `result` is what `fetch_due` returns if the tick
comes to it. -/
def poll (result : Except StoreError (List OutboxEvent)) (inst : Instance γ) :
    Tick × Instance γ :=
  if (inst.tick c).2 then
    match result with
    | .error _ => (.failed, { inst with idleTick := (inst.tick c).1 })
    | .ok due => (.fetched inst.batchSize.toNat due.length,
        { inst with idleTick := (inst.tick c).1 }.spawn c due)
  else (.skipped, { inst with idleTick := (inst.tick c).1 })

/-- The loop's variables are what the ticks so far make them. -/
structure Controls (b : FetchBatch) (ticks : List Tick) (inst : Instance γ) : Prop where
  size : inst.batchSize.toNat = min b.max.toNat (b.min.toNat*2^Tick.fullRun ticks)
  streak : inst.emptyStreak.toNat = min (Tick.emptyRun ticks) (2^32-1)
  idle : inst.idleTick.toNat = Tick.skipRun ticks
  skips : Tick.skipRun ticks < 10
  parked : Tick.skipRun ticks ≠ 0 → b.parkAfter.toNat ≤ Tick.emptyRun ticks

variable {c}

theorem Controls.start : Controls c.fetchBatch.saturated [] (started c : Instance γ) := by
  have hb := c.fetchBatch.saturated_bounds
  refine ⟨?_, rfl, rfl, by decide, fun h => absurd rfl h⟩
  simp only [started, Tick.fullRun, List.foldl_nil]
  omega

/-- The streak saturates, which hides no threshold. -/
theorem Controls.isIdleParked {b : FetchBatch} {ticks : List Tick} {inst : Instance γ}
    (h : Controls b ticks inst) :
    b.isIdleParked inst.emptyStreak = true ↔ b.parkAfter.toNat ≤ Tick.emptyRun ticks := by
  have hp := b.parkAfter.toNat_lt
  rw [FetchBatch.isIdleParked, decide_eq_true_eq, UInt32.le_iff_toNat_le, h.streak]
  omega

theorem Controls.tick {ticks : List Tick} {inst : Instance γ}
    (h : Controls c.fetchBatch.saturated ticks inst) :
    ((inst.tick c).2 = true ↔
      Tick.emptyRun ticks < c.fetchBatch.saturated.parkAfter.toNat ∨ Tick.skipRun ticks = 9) ∧
    (inst.tick c).1.toNat = if (inst.tick c).2 then 0 else Tick.skipRun ticks+1 := by
  have hskips := h.skips
  have hparked := h.parked
  unfold Instance.tick
  cases hp : c.fetchBatch.saturated.isIdleParked inst.emptyStreak with
  | false =>
    have hlt : Tick.emptyRun ticks < c.fetchBatch.saturated.parkAfter.toNat := by
      rw [← Nat.not_le, ← h.isIdleParked, hp]
      simp
    have hzero : Tick.skipRun ticks = 0 := by
      by_contra hne
      exact absurd (hparked hne) (Nat.not_le.mpr hlt)
    simp [hlt, h.idle, hzero]
  | true =>
    have hle := h.isIdleParked.mp hp
    have hnext : ((inst.idleTick+1)%idlePollDivisor).toNat = (Tick.skipRun ticks+1)%10 := by
      have hten : idlePollDivisor.toNat = 10 := rfl
      have hone : (1 : UInt32).toNat = 1 := rfl
      rw [UInt32.toNat_mod, UInt32.toNat_add, hten, hone, h.idle,
        Nat.mod_eq_of_lt (show Tick.skipRun ticks+1 < 2^32 by omega)]
    have hfetches : ((inst.idleTick+1)%idlePollDivisor == 0) = true ↔ Tick.skipRun ticks = 9 := by
      have hzero : (0 : UInt32).toNat = 0 := rfl
      rw [beq_iff_eq, ← UInt32.toNat_inj, hnext, hzero]
      omega
    simp only [if_true, hnext, hfetches]
    refine ⟨by omega, ?_⟩
    split <;> omega

/-- One tick keeps the account. -/
theorem Controls.poll {ticks : List Tick} {inst : Instance γ}
    (h : Controls c.fetchBatch.saturated ticks inst)
    (result : Except StoreError (List OutboxEvent))
    (hw : ∀ asked got, (inst.poll c result).1 = .fetched asked got → got ≤ asked) :
    Controls c.fetchBatch.saturated (ticks++[(inst.poll c result).1]) (inst.poll c result).2 := by
  obtain ⟨hfetches, hidle⟩ := h.tick
  have hskips := h.skips
  unfold Instance.poll at hw ⊢
  cases ht : (inst.tick c).2 with
  | false =>
    rw [ht] at hfetches hidle
    simp only [Bool.false_eq_true, false_iff, not_or, not_lt, if_false] at hfetches hidle
    simp only [Bool.false_eq_true, if_false]
    refine ⟨?_, ?_, ?_, ?_, fun _ => ?_⟩
    · simpa [Tick.nextFull] using h.size
    · simpa [Tick.nextEmpty] using h.streak
    · simpa [Tick.nextSkip] using hidle
    · simp only [Tick.skipRun_concat, Tick.nextSkip]
      omega
    · simpa [Tick.nextEmpty] using hfetches.1
  | true =>
    rw [ht] at hidle
    simp only [if_true] at hidle
    simp only [ht, if_true] at hw ⊢
    cases result with
    | error err =>
      refine ⟨?_, ?_, ?_, ?_, fun hne => ?_⟩
      · simpa [Tick.nextFull] using h.size
      · simpa [Tick.nextEmpty] using h.streak
      · simpa [Tick.nextSkip] using hidle
      · simp [Tick.nextSkip]
      · simp [Tick.nextSkip] at hne
    | ok due =>
      have hle : due.length ≤ inst.batchSize.toNat := hw _ _ rfl
      have hlen : (UInt64.ofNat due.length).toNat = due.length := by
        have hlt := inst.batchSize.toNat_lt
        rw [UInt64.toNat_ofNat', Nat.mod_eq_of_lt (by omega)]
      have hfull : inst.batchSize ≤ UInt64.ofNat due.length ↔
          inst.batchSize.toNat ≤ due.length := by
        rw [UInt64.le_iff_toNat_le, hlen]
      have hb := c.fetchBatch.saturated_bounds
      refine ⟨?_, ?_, ?_, ?_, fun hne => ?_⟩
      · simp only [spawn, Tick.fullRun_concat, Tick.nextFull]
        by_cases hf : inst.batchSize.toNat ≤ due.length
        · rw [if_pos hf]
          exact FetchBatch.nextSize_full hb.2 h.size (hfull.mpr hf)
        · rw [if_neg hf, FetchBatch.nextSize_partial (fun hn => hf (hfull.mp hn))]
          omega
      · simp only [spawn, Tick.emptyRun_concat, Tick.nextEmpty, List.length_eq_zero_iff]
        cases due with
        | nil =>
          have hone : (1 : UInt32).toNat = 1 := rfl
          rw [List.isEmpty_nil, if_pos rfl, if_pos rfl, satAdd32_toNat, h.streak, hone]
          omega
        | cons e rest => simp
      · simpa [spawn, Tick.nextSkip] using hidle
      · simp [Tick.nextSkip]
      · simp [Tick.nextSkip] at hne

variable (γ) (c)

def ticks (results : List (Except StoreError (List OutboxEvent))) : List Tick :=
  answers (poll c) (started c : Instance γ) results

def polled (results : List (Except StoreError (List OutboxEvent))) : Instance γ :=
  after (poll c) (started c) results

variable {γ c} {results : List (Except StoreError (List OutboxEvent))}

def Within (ticks : List Tick) : Prop := ∀ asked got, .fetched asked got ∈ ticks → got ≤ asked

theorem controls_polled (hw : Within (ticks γ c results)) :
    Controls c.fetchBatch.saturated (ticks γ c results) (polled γ c results) := by
  induction results using List.reverseRecOn with
  | nil => exact Controls.start
  | append_singleton results result ih =>
    rw [ticks, answers_concat] at hw
    rw [ticks, polled, answers_concat, after_concat]
    refine (ih fun asked got hmem => hw asked got (List.mem_append_left _ hmem)).poll result ?_
    intro asked got he
    exact hw asked got (List.mem_append_right _ (List.mem_singleton.mpr he.symm))

theorem attempts_poll (result : Except StoreError (List OutboxEvent)) (inst : Instance γ) :
    (inst.poll c result).1.attempts = (inst.tick c).2 := by
  unfold Instance.poll
  cases (inst.tick c).2 with
  | false => rfl
  | true => cases result <;> rfl

/-- Between two fetch attempts in a row no tick is skipped, or nine are, by the empty
fetches before them. -/
theorem skips_between (hw : Within (ticks γ c results)) {pre skips post : List Tick} {a z : Tick}
    (h : ticks γ c results = pre++a::(skips++z::post)) (ha : a.attempts = true)
    (hz : z.attempts = true) (hskips : ∀ t ∈ skips, t = .skipped) :
    skips.length =
      if Tick.emptyRun (pre++[a]) < c.fetchBatch.saturated.parkAfter.toNat then 0 else 9 := by
  have hsplit : ticks γ c results = (pre++[a]++skips)++z::post := by simpa using h
  obtain ⟨before, result, rest, -, hbefore, hlast⟩ := answers_split hsplit
  have hctl : Controls c.fetchBatch.saturated (pre++[a]++skips) (polled γ c before) := by
    rw [← hbefore]
    refine controls_polled fun asked got hmem => hw asked got ?_
    rw [hsplit, ← hbefore]
    exact List.mem_append_left _ hmem
  obtain ⟨hskip, hempty⟩ := Tick.runs_skipped (pre++[a]) hskips
  have hfetch := hctl.tick.1
  have hpark := hctl.parked
  rw [← attempts_poll result, polled, hlast, hz] at hfetch
  rw [hskip, hempty, Tick.skipRun_attempt ha] at hfetch hpark
  simp only [true_iff, Nat.zero_add] at hfetch hpark
  split <;> omega

theorem batchSize_partial {result : Except StoreError (List OutboxEvent)} {inst : Instance γ}
    {asked got : Nat} (h : (inst.poll c result).1 = .fetched asked got) (hlt : got < asked) :
    (inst.poll c result).2.batchSize = c.fetchBatch.saturated.min := by
  unfold Instance.poll at h ⊢
  cases ht : (inst.tick c).2 with
  | false => simp [ht] at h
  | true =>
    cases result with
    | error err => simp [ht] at h
    | ok due =>
      simp only [ht, if_true, Tick.fetched.injEq] at h
      obtain ⟨rfl, rfl⟩ := h
      have hsize := inst.batchSize.toNat_lt
      refine FetchBatch.nextSize_partial ?_
      rw [UInt64.le_iff_toNat_le, UInt64.toNat_ofNat', Nat.mod_eq_of_lt (by omega)]
      exact Nat.not_le.mpr hlt

end Instance

section World
variable {ι σ γ : Type} [DecidableEq ι] {P : Shared σ γ} {config : ι → DispatcherConfig}

def Instance.SameLoop (inst q : Instance γ) : Prop :=
  inst.batchSize = q.batchSize ∧ inst.emptyStreak = q.emptyStreak ∧ inst.idleTick = q.idleTick

/-- An instance that runs has the variables of some run of ticks; while a fetch is
open, its tick has been taken and got to fetch. -/
def Instance.Follows (c : DispatcherConfig) (inst : Instance γ) : Prop :=
  match inst.phase with
  | .down => True
  | .fetching _ => ∃ results, let q := polled γ c results
    (q.tick c).2 = true ∧ inst.SameLoop { q with idleTick := (q.tick c).1 }
  | _ => ∃ results, inst.SameLoop (polled γ c results)

theorem Instance.SameLoop.tick {c : DispatcherConfig} {inst q : Instance γ} (h : inst.SameLoop q) :
    inst.tick c = q.tick c := by
  rw [Instance.tick, Instance.tick, h.2.1, h.2.2]

theorem Instance.polled_concat (c : DispatcherConfig)
    (results : List (Except StoreError (List OutboxEvent)))
    (result : Except StoreError (List OutboxEvent)) :
    polled γ c (results++[result]) = ((polled γ c results).poll c result).2 :=
  after_concat _ _ _ _

def Phase.Settled : Phase γ → Prop
  | .down | .fetching _ => False
  | .select | .draining | .gauge | .stopping | .stopped => True

theorem Instance.follows_iff {c : DispatcherConfig} {inst : Instance γ} (h : inst.phase.Settled) :
    inst.Follows c ↔ ∃ results, inst.SameLoop (polled γ c results) := by
  unfold Instance.Follows
  cases hp : inst.phase with
  | down | fetching => rw [hp] at h; exact h.elim
  | select | draining | gauge | stopping | stopped => rfl

theorem Instance.follows_of {c : DispatcherConfig} {inst : Instance γ} (h : inst.phase.Settled)
    (results : List (Except StoreError (List OutboxEvent)))
    (hsame : inst.SameLoop (polled γ c results)) : inst.Follows c :=
  (follows_iff h).mpr ⟨results, hsame⟩

theorem Instance.Follows.settle {c : DispatcherConfig} {inst inst' : Instance γ}
    (h : inst.Follows c) (hs : inst.phase.Settled) (hs' : inst'.phase.Settled)
    (hsame : inst'.SameLoop inst) : inst'.Follows c := by
  obtain ⟨results, h₁, h₂, h₃⟩ := (follows_iff hs).mp h
  exact follows_of hs' results ⟨hsame.1.trans h₁, hsame.2.1.trans h₂, hsame.2.2.trans h₃⟩

theorem Instance.Follows.keep {c : DispatcherConfig} {inst inst' : Instance γ}
    (h : inst.Follows c) (hp : inst'.phase = inst.phase) (hsame : inst'.SameLoop inst) :
    inst'.Follows c := by
  obtain ⟨h₁, h₂, h₃⟩ := hsame
  unfold Instance.Follows SameLoop at h ⊢
  rwa [hp, h₁, h₂, h₃]

theorem Instance.Follows.move {c : DispatcherConfig} {inst inst' : Instance γ} {m : Move}
    {obs : List Obs} (h : inst.Follows c) (hm : Moves c inst m inst' obs) : inst'.Follows c := by
  cases hm with
  | start hp => exact follows_of trivial [] ⟨rfl, rfl, rfl⟩
  | shutdown hp => exact h.keep rfl ⟨rfl, rfl, rfl⟩
  | leave hp hs => exact h.settle (by rw [hp]; trivial) trivial ⟨rfl, rfl, rfl⟩
  | stop hp hf => exact h.settle (by rw [hp]; trivial) trivial ⟨rfl, rfl, rfl⟩
  | drained hp hf => exact h.settle (by rw [hp]; trivial) trivial ⟨rfl, rfl, rfl⟩
  | gauge hp => exact h.settle (by rw [hp]; trivial) trivial ⟨rfl, rfl, rfl⟩
  | permit n task ht hs hc => exact h.keep rfl ⟨rfl, rfl, rfl⟩
  | invoke n task ht hs => exact h.keep rfl ⟨rfl, rfl, rfl⟩
  | pause n task result now delay ht hs hmark => exact h.keep rfl ⟨rfl, rfl, rfl⟩
  | answer n task result now delay mark ht hs hj hmark => exact h.keep rfl ⟨rfl, rfl, rfl⟩
  | join n task ht hs => exact h.keep rfl ⟨rfl, rfl, rfl⟩

theorem World.fetches_of_opened {w w' : World ι σ γ} {i : ι} {now : UInt64} {reached : Bool}
    (claim : γ) (h : w.step P config (.tick i now reached) = some w')
    (hp : (w'.instances i).phase = .fetching claim) :
    ((w.instances i).tick (config i)).2 = true := by
  simp only [step] at h
  split at h
  · rename_i hselect
    split at h
    · rename_i hf
      exact (Bool.and_eq_true_iff.mp hf).1
    · cases h
      rw [put_self] at hp
      simp only [hselect] at hp
      cases hp
  · cases h

theorem World.follows_step {w w' : World ι σ γ} {a : Action ι}
    (h : w.step P config a = some w') (hw : ∀ j, (w.instances j).Follows (config j)) (j : ι) :
    (w'.instances j).Follows (config j) := by
  have put : ∀ {i : ι} {inst : Instance γ} {s : σ} {obs : List Obs},
      inst.Follows (config i) → ((w.put i inst s obs).instances j).Follows (config j) := by
    intro i inst s obs hi
    by_cases hj : j = i
    · subst hj
      rwa [put_self]
    · rw [put_of_ne hj]
      exact hw j
  cases World.steps_of_step h with
  | appended e s happ => exact hw j
  | refused e s err happ => exact hw j
  | appendLost e => exact hw j
  | moved i m inst obs hm => exact put ((hw i).move hm)
  | idled i now reached hp =>
    -- a skipped tick, or one whose fetch failed at once: either way a failed result fits
    obtain ⟨results, hsame⟩ := (Instance.follows_iff (by rw [hp]; trivial)).mp (hw i)
    refine put (Instance.follows_of (by simp only [hp]; trivial)
      (results++[.error (.backend (.driver .unavailable))]) ?_)
    rw [Instance.polled_concat, Instance.poll]
    split
    all_goals exact ⟨hsame.1, hsame.2.1, by rw [hsame.tick]⟩
  | opened i now claim s hp hopen =>
    have hfetches := World.fetches_of_opened claim h (by rw [put_self])
    obtain ⟨results, hsame⟩ := (Instance.follows_iff (by rw [hp]; trivial)).mp (hw i)
    rw [hsame.tick] at hfetches
    exact put ⟨results, hfetches, hsame.1, hsame.2.1, by rw [hsame.tick]⟩
  | spawned i claim due s hp hclose =>
    have hi := hw i
    rw [Instance.Follows, hp] at hi
    obtain ⟨results, hfetches, h₁, h₂, h₃⟩ := hi
    refine put (Instance.follows_of trivial (results++[.ok due]) ?_)
    rw [Instance.polled_concat, Instance.poll, if_pos hfetches]
    simp only [Instance.SameLoop, Instance.spawn, h₁, h₂, h₃, and_self]
  | fetchFailed i claim err s hp hclose =>
    have hi := hw i
    rw [Instance.Follows, hp] at hi
    obtain ⟨results, hfetches, hsame⟩ := hi
    refine put (Instance.follows_of trivial (results++[.error err]) ?_)
    rw [Instance.polled_concat, Instance.poll, if_pos hfetches]
    exact hsame
  | fetchLost i claim hp =>
    have hi := hw i
    rw [Instance.Follows, hp] at hi
    obtain ⟨results, hfetches, hsame⟩ := hi
    refine put (Instance.follows_of trivial
      (results++[.error (.backend (.driver .unavailable))]) ?_)
    rw [Instance.polled_concat, Instance.poll, if_pos hfetches]
    exact hsame
  | issued i n clock e mark ht hfree => exact put ((hw i).keep rfl ⟨rfl, rfl, rfl⟩)
  | markLost i n clock e mark ht => exact put ((hw i).keep rfl ⟨rfl, rfl, rfl⟩)
  | crashed i => exact put trivial

/-- In every state a run of the dispatchers reaches, each running loop has the
variables of some run of ticks. -/
theorem follows_reachable {start : σ} {ok : World ι σ γ → Action ι → Prop} {w : World ι σ γ}
    (h : (dispatching P config start).Reachable ok w) (j : ι) :
    (w.instances j).Follows (config j) := by
  refine h.invariant (I := fun w => ∀ j, (w.instances j).Follows (config j)) (fun _ => trivial)
    (fun w a w' hw _ hstep => ?_) j
  exact World.follows_step hstep hw

end World

/-- The controller over a whole run of ticks in which no fetch returns more than it was
asked for: how large the next batch is, which ticks fetch, and what a non-empty
fetch restores. `fullRun`, `emptyRun` and `skipRun` count full fetches, empty
fetches and skipped ticks in a row, failed fetches not counting. Every running loop of
every dispatcher run is in the state of some such run: `follows_reachable`. -/
theorem poll_controller {γ : Type} (c : DispatcherConfig)
    (results : List (Except StoreError (List OutboxEvent)))
    (hw : Instance.Within (Instance.ticks γ c results)) :
    let b := c.fetchBatch.saturated
    let ticks := Instance.ticks γ c results
    let inst := Instance.polled γ c results
    (b.min ≤ inst.batchSize ∧ inst.batchSize ≤ b.max ∧ 1 ≤ inst.batchSize ∧
      inst.batchSize.toNat = min b.max.toNat (b.min.toNat*2^Tick.fullRun ticks)) ∧
    (∀ result asked got, (inst.poll c result).1 = .fetched asked got → got < asked →
      (inst.poll c result).2.batchSize = b.min) ∧
    (inst.idleTick < 10 ∧ (inst.idleTick ≠ 0 → b.isIdleParked inst.emptyStreak = true)) ∧
    (∀ result, (inst.poll c result).1.attempts = true ↔
      Tick.emptyRun ticks < b.parkAfter.toNat ∨ Tick.skipRun ticks = 9) ∧
    (∀ pre a, ticks = pre++[a] → a.attempts = true → ∀ result,
      ((inst.poll c result).1.attempts = true ↔ Tick.emptyRun ticks < b.parkAfter.toNat)) ∧
    (∀ pre a skips z post, ticks = pre++a::(skips++z::post) → a.attempts = true →
      z.attempts = true → (∀ t ∈ skips, t = .skipped) →
      skips.length = if Tick.emptyRun (pre++[a]) < b.parkAfter.toNat then 0 else 9) ∧
    (∀ pre asked got, ticks = pre++[.fetched asked (got+1)] →
      inst.emptyStreak = 0 ∧ inst.idleTick = 0 ∧
        ∀ result, (inst.poll c result).1.attempts = true) := by
  intro b ticks inst
  have hctl : Instance.Controls b ticks inst := Instance.controls_polled hw
  have hb : 1 ≤ b.min.toNat ∧ b.min.toNat ≤ b.max.toNat := c.fetchBatch.saturated_bounds
  have hattempts : ∀ result, (inst.poll c result).1.attempts = true ↔
      Tick.emptyRun ticks < b.parkAfter.toNat ∨ Tick.skipRun ticks = 9 := by
    intro result
    rw [Instance.attempts_poll]
    exact hctl.tick.1
  refine ⟨?_, fun _ _ _ => Instance.batchSize_partial, ?_, hattempts, ?_, ?_, ?_⟩
  · have hsize := hctl.size
    have hle : b.min.toNat ≤ b.min.toNat*2^Tick.fullRun ticks :=
      Nat.le_mul_of_pos_right _ (Nat.two_pow_pos _)
    have hone : (1 : UInt64).toNat = 1 := rfl
    simp only [UInt64.le_iff_toNat_le, hone]
    omega
  · have hten : (10 : UInt32).toNat = 10 := rfl
    refine ⟨?_, fun hne => hctl.isIdleParked.mpr (hctl.parked fun hzero => hne ?_)⟩
    · rw [UInt32.lt_iff_toNat_lt, hctl.idle, hten]
      exact hctl.skips
    · exact UInt32.toNat_inj.mp (hctl.idle.trans hzero)
  · intro pre a hlast ha result
    rw [hattempts result, hlast, Tick.skipRun_attempt ha]
    simp
  · exact fun pre a skips z post h ha hz hskips => Instance.skips_between hw h ha hz hskips
  · intro pre asked got hlast
    have hempty : Tick.emptyRun ticks = 0 := by simp [hlast, Tick.nextEmpty]
    have hskip : Tick.skipRun ticks = 0 := by simp [hlast, Tick.nextSkip]
    have hstreak := hctl.streak
    have hidle := hctl.idle
    rw [hempty] at hstreak
    rw [hskip] at hidle
    refine ⟨UInt32.toNat_inj.mp hstreak, UInt32.toNat_inj.mp hidle, fun result => ?_⟩
    have hpark : 1 ≤ b.parkAfter.toNat := c.fetchBatch.saturated_parkAfter
    rw [hattempts result, hempty]
    omega

/-- A full fetch, a failed one, then nothing but empty ones. -/
def fullThenQuiet : List (Except StoreError (List OutboxEvent)) :=
  .ok [.sample 1 5, .sample 2 6]::.error (.backend (.driver .unavailable))::
    List.replicate 13 (.ok [])

theorem poll_controller_fullThenQuiet :
    (Instance.polled Unit (.sample 3) fullThenQuiet).idleTick < 10 ∧
    Instance.ticks Unit (.sample 3) fullThenQuiet =
      [.fetched 2 2, .failed, .fetched 4 0, .fetched 2 0, .fetched 2 0]++
        List.replicate 9 .skipped++[.fetched 2 0] := by
  refine (and_iff_right_of_imp fun hticks => ?_).mpr (by decide +kernel)
  have hwithin : Instance.Within (Instance.ticks Unit (.sample 3) fullThenQuiet) := by
    rw [hticks]
    intro asked got hmem
    simp at hmem
    omega
  obtain ⟨-, -, ⟨hidle, -⟩, -⟩ := poll_controller (.sample 3) fullThenQuiet hwithin
  exact hidle

end OutboxKit
