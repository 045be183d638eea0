import OutboxKit.Lib.Rounding
import OutboxKit.Backoff

/-! The schedule of un-jittered delays over all attempts. Each round scales whole
milliseconds in binary64 and drops the fraction, so what the schedule does follows
from one map on milliseconds, `climb`, iterated until it passes the cap. -/
namespace OutboxKit

/-- Whole milliseconds after one growth step that stays below the cap. -/
def climb (q : ℚ) (k : ℕ) : ℕ := ⌊Binary64.nearest (k*q)⌋.toNat

theorem le_climb_iff {q : ℚ} {k n : ℕ} (hq : 0 ≤ q) :
    n ≤ climb q k ↔ (n : ℚ) ≤ Binary64.nearest (k*q) := by
  have hnonneg : 0 ≤ Binary64.nearest (k*q) := Binary64.nearest_nonneg (by positivity)
  have hfloor : 0 ≤ ⌊Binary64.nearest (k*q)⌋ := Int.floor_nonneg.mpr hnonneg
  rw [climb, Int.le_toNat hfloor, Int.le_floor]
  norm_num

theorem le_climb {q : ℚ} {k : ℕ} (hq : 1 ≤ q) (hk : k ≤ 2^53) : k ≤ climb q k := by
  rw [le_climb_iff (by linarith)]
  apply Binary64.natCast_le_nearest hk
  exact le_mul_of_one_le_right (Nat.cast_nonneg k) hq

theorem climb_natCast {k n : ℕ} (h : n*k ≤ 2^53) : climb k n = n*k := by
  rw [climb, ← Nat.cast_mul, Binary64.nearest_natCast h, Int.floor_natCast, Int.toNat_natCast]

theorem succ_le_climb {q : ℚ} {b c : ℕ} (hq : 1 < q) (hb : b+1 ≤ climb q b) (hbc : b ≤ c)
    (hc : c+1 ≤ 2^53) : c+1 ≤ climb q c := by
  induction c, hbc using Nat.le_induction with
  | base => exact hb
  | succ c hle ih =>
    have hprev := ih (by omega)
    rw [le_climb_iff (by linarith)] at hprev ⊢
    push_cast at hprev
    exact_mod_cast Binary64.succ_le_nearest_mul hq (by omega) hprev

/-- From a first gain on, `r` steps gain `r` units or pass the bound. -/
theorem climb_iterate {q : ℚ} {b c : ℕ} (hq : 1 < q) (hb : b+1 ≤ climb q b) (hc : c ≤ 2^53)
    (r : ℕ) : (∃ i ≤ r, c ≤ (climb q)^[i] b) ∨ b+r ≤ (climb q)^[r] b := by
  induction r with
  | zero => exact .inr (le_refl _)
  | succ r ih =>
    cases ih with
    | inl h =>
      obtain ⟨i, hi, hle⟩ := h
      exact .inl ⟨i, by omega, hle⟩
    | inr h =>
      by_cases hpast : c ≤ (climb q)^[r] b
      · exact .inl ⟨r, by omega, hpast⟩
      · have hgain := succ_le_climb hq hb (by omega) (c := (climb q)^[r] b) (by omega)
        rw [Function.iterate_succ_apply']
        exact .inr (by omega)

theorem climb_stuck {q : ℚ} {b : ℕ} (hq : 1 ≤ q) (hb : b ≤ 2^53) (h : ¬b+1 ≤ climb q b) (r : ℕ) :
    (climb q)^[r] b = b := by
  have hfix : climb q b = b := by
    have := le_climb hq hb
    omega
  exact Function.iterate_fixed hfix r

namespace BackoffPolicy
variable {p : BackoffPolicy} {q : ℚ} {hr : Binary64.Representable q}

theorem growLoop_of_cap_le {d : Duration} (h : p.cap ≤ d) (n : ℕ) : p.growLoop n d = p.cap := by
  cases n with
  | zero => exact min_eq_right h
  | succ n => rw [growLoop, if_pos h]

theorem growLoop_of_lt {d : Duration} (h : d < p.cap) (n : ℕ) :
    p.growLoop (n+1) d = p.growLoop n (p.grow d) := by
  rw [growLoop, if_neg (not_le.mpr h)]

/-- What a growth step returns: the cap once the product reaches its milliseconds, else the
product without its fraction. An overflow to infinity is past every cap. -/
theorem grow_val (hf : p.factor = .finite q hr) (hq : 0 ≤ q) (hcap : p.cap.asMillis ≤ 2^53)
    {d : Duration} (hd : d.asMillis ≤ 2^53) :
    (p.grow d).val =
      if p.cap.asMillis ≤ climb q d.asMillis then p.cap.val
      else climb q d.asMillis*1000000 := by
  have hmul : Binary64.mul (Binary64.ofNat d.asMillis) p.factor =
      Binary64.round (d.asMillis*q) := by
    rw [Binary64.ofNat_eq hd, hf, Binary64.mul]
  have hiff := le_climb_iff (k := d.asMillis) (n := p.cap.asMillis) hq
  have hnonneg : 0 ≤ Binary64.nearest (d.asMillis*q) := Binary64.nearest_nonneg (by positivity)
  rw [grow, hmul, Binary64.ofNat_eq hcap, Binary64.round]
  by_cases hfin : |Binary64.nearest (d.asMillis*q)| < 2^1024
  · rw [dif_pos hfin]
    by_cases hle : p.cap.asMillis ≤ climb q d.asMillis
    · simp [Binary64.isFinite, Binary64.ge, hle, hiff.mp hle]
    · have hword : (Binary64.toU64 (.finite (Binary64.nearest (d.asMillis*q))
          (Binary64.nearest_representable hfin))).toNat = climb q d.asMillis :=
        Binary64.toU64_finite _ (show climb q d.asMillis < 2^64 by omega)
      simp only [Binary64.isFinite, Binary64.ge, if_neg hle, ← hiff]
      simp [hle, Duration.fromMillis, hword]
  · have hpast : p.cap.asMillis ≤ climb q d.asMillis := by
      have hcast : (p.cap.asMillis : ℚ) ≤ 2^53 := by exact_mod_cast hcap
      rw [abs_of_nonneg hnonneg, not_lt] at hfin
      rw [hiff]
      exact hcast.trans ((pow_le_pow_right₀ (by norm_num) (by norm_num)).trans hfin)
    simp [dif_neg hfin, if_pos hpast, Binary64.isFinite]

/-- A delay below the cap is taken down by its growth step only when it carries a fraction of
a millisecond that the step drops and does not make up for. -/
theorem le_grow_iff (hf : p.factor = .finite q hr) (hq : 1 ≤ q) (hcap : p.cap.asMillis ≤ 2^53)
    {d : Duration} (hd : d < p.cap) :
    d ≤ p.grow d ↔
      d.val%1000000 = 0 ∨ min p.cap.asMillis (d.asMillis+1) ≤ climb q d.asMillis := by
  have hlt : d.val < p.cap.val := hd
  have hms : d.asMillis ≤ p.cap.asMillis := Duration.asMillis_le hd.le
  have hval := grow_val hf (by linarith) hcap (hms.trans hcap)
  have hclimb := le_climb hq (hms.trans hcap)
  rw [Fin.le_def, hval]
  unfold Duration.asMillis at *
  split <;> omega

theorem grow_whole (hf : p.factor = .finite q hr) (hq : 0 ≤ q) (hcap : p.cap.asMillis ≤ 2^53)
    {d : Duration} (hd : d < p.cap) : p.cap ≤ p.grow d ∨ (p.grow d).val%1000000 = 0 := by
  have hms : d.asMillis ≤ p.cap.asMillis := Duration.asMillis_le hd.le
  have hval := grow_val hf hq hcap (hms.trans hcap)
  split at hval
  · exact .inl (Fin.le_def.mpr hval.ge)
  · exact .inr (by omega)

/-- One more round never shortens a delay that its first growth step does not shorten. -/
theorem growLoop_le_succ (hf : p.factor = .finite q hr) (hq : 1 ≤ q)
    (hcap : p.cap.asMillis ≤ 2^53) (n : ℕ) (d : Duration) (hd : d < p.cap → d ≤ p.grow d) :
    p.growLoop n d ≤ p.growLoop (n+1) d := by
  induction n generalizing d with
  | zero =>
    by_cases hlt : d < p.cap
    · rw [growLoop_of_lt hlt]
      exact min_le_min_right p.cap (hd hlt)
    · rw [growLoop_of_cap_le (not_lt.mp hlt), growLoop_of_cap_le (not_lt.mp hlt)]
  | succ n ih =>
    by_cases hlt : d < p.cap
    · rw [growLoop_of_lt hlt, growLoop_of_lt hlt]
      apply ih
      intro hgrown
      -- after a step the delay is whole, or the cap
      rw [le_grow_iff hf hq hcap hgrown]
      cases grow_whole hf (by linarith) hcap hlt with
      | inl h => exact absurd hgrown (not_lt.mpr h)
      | inr h => exact .inl h
    · rw [growLoop_of_cap_le (not_lt.mp hlt), growLoop_of_cap_le (not_lt.mp hlt)]

theorem growLoop_mono (hf : p.factor = .finite q hr) (hq : 1 ≤ q) (hcap : p.cap.asMillis ≤ 2^53)
    {d : Duration} (hd : d < p.cap → d ≤ p.grow d) : Monotone fun n => p.growLoop n d :=
  monotone_nat_of_le_succ fun n => growLoop_le_succ hf hq hcap n d hd

theorem exponentialDelay_one : p.exponentialDelay 1 = min p.base p.cap := rfl

theorem exponentialDelay_two (h : p.base < p.cap) :
    p.exponentialDelay 2 = min (p.grow p.base) p.cap :=
  growLoop_of_lt h 0

def Monotonic (p : BackoffPolicy) : Prop :=
  ∀ m n : UInt32, m ≤ n →
    p.exponentialDelay m ≤ p.exponentialDelay n ∧ p.exponentialDelay n ≤ p.cap

theorem monotonic_of_le_grow (hf : p.factor = .finite q hr) (hq : 1 ≤ q)
    (hcap : p.cap.asMillis ≤ 2^53) (h : p.base < p.cap → p.base ≤ p.grow p.base) :
    p.Monotonic := by
  intro m n hmn
  have hrounds : max m.toNat 1-1 ≤ max n.toNat 1-1 := by
    have := UInt32.le_iff_toNat_le.mp hmn
    omega
  exact ⟨growLoop_mono hf hq hcap h hrounds, growLoop_le_cap p _ _⟩

/-- The first two attempts decide the whole schedule. -/
theorem monotonic_iff (hf : p.factor = .finite q hr) (hq : 1 ≤ q)
    (hcap : p.cap.asMillis ≤ 2^53) :
    p.Monotonic ↔ p.base.val%1000000 = 0 ∨ p.cap ≤ p.base ∨
      min p.cap.asMillis (p.base.asMillis+1) ≤ climb q p.base.asMillis := by
  by_cases hlt : p.base < p.cap
  · have hiff := le_grow_iff hf hq hcap hlt
    have hfar : ¬p.cap ≤ p.base := not_le.mpr hlt
    simp only [hfar, false_or]
    rw [← hiff]
    constructor
    · intro hmono
      have htwo := (hmono 1 2 (by decide)).1
      rw [exponentialDelay_one, exponentialDelay_two hlt, min_eq_left hlt.le] at htwo
      exact htwo.trans (min_le_left _ _)
    · intro hle
      exact monotonic_of_le_grow hf hq hcap fun _ => hle
  · have hle : p.cap ≤ p.base := not_lt.mp hlt
    simp only [hle, true_or, or_true, iff_true]
    exact monotonic_of_le_grow hf hq hcap fun h => absurd h hlt

/-- For a factor of at least one the schedule is monotone exactly when the base is whole
milliseconds, or not below the cap, or its first product makes up for the dropped fraction.
The second half is the same with the product taken as exact. -/
theorem exponentialDelay_monotonic_iff (p : BackoffPolicy) (q : ℚ) (hr : Binary64.Representable q)
    (hf : p.factor = .finite q hr) (hq : 1 ≤ q) (hcap : p.cap.asMillis ≤ 2^53) :
    (p.Monotonic ↔ p.base.val%1000000 = 0 ∨ p.cap ≤ p.base ∨
      ((min p.cap.asMillis (p.base.asMillis+1) : ℕ) : ℚ) ≤
        Binary64.nearest (p.base.asMillis*q)) ∧
    (Binary64.Representable (p.base.asMillis*q) →
      (p.Monotonic ↔ p.base.val%1000000 = 0 ∨ p.cap ≤ p.base ∨
        ((min p.cap.asMillis (p.base.asMillis+1) : ℕ) : ℚ) ≤ p.base.asMillis*q)) := by
  have hiff := monotonic_iff hf hq hcap
  rw [le_climb_iff (by linarith)] at hiff
  refine ⟨hiff, ?_⟩
  intro hexact
  rwa [Binary64.nearest_of_representable hexact] at hiff

/-- A base of one and a half milliseconds, a cap of ten and an integral factor. -/
def halfMilli (factor : ℕ) : BackoffPolicy :=
  ⟨⟨1500000, by decide⟩, Binary64.ofNat factor, ⟨10000000, by decide⟩, 12⟩

theorem halfMilli_two_monotonic : (halfMilli 2).Monotonic := by
  have hf := Binary64.ofNat_eq (n := 2) (by norm_num)
  apply (exponentialDelay_monotonic_iff (halfMilli 2) _ _ hf (by norm_num) (by decide)).1.mpr
  have hprod : (((halfMilli 2).base.asMillis : ℕ) : ℚ)*((2 : ℕ) : ℚ) = ((2 : ℕ) : ℚ) := by
    norm_num [halfMilli, Duration.asMillis]
  rw [hprod, Binary64.nearest_natCast (by norm_num)]
  exact .inr (.inr (by norm_num [halfMilli, Duration.asMillis]))

/-- With factor one the second attempt waits less than the first. -/
theorem halfMilli_one_shrinks :
    ((halfMilli 1).exponentialDelay 1).val = 1500000 ∧
      ((halfMilli 1).exponentialDelay 2).val = 1000000 ∧ ¬(halfMilli 1).Monotonic := by
  have hf := Binary64.ofNat_eq (n := 1) (by norm_num)
  have hval : ((halfMilli 1).grow (halfMilli 1).base).val = 1000000 := by
    rw [grow_val (p := halfMilli 1) hf (by norm_num) (by decide) (by decide),
      climb_natCast (by decide)]
    decide
  have hgrow : (halfMilli 1).grow (halfMilli 1).base = ⟨1000000, by decide⟩ := Fin.ext hval
  have hone : ((halfMilli 1).exponentialDelay 1).val = 1500000 := by decide
  have htwo : ((halfMilli 1).exponentialDelay 2).val = 1000000 := by
    rw [exponentialDelay_two (by decide), hgrow]
    decide
  refine ⟨hone, htwo, ?_⟩
  intro hmono
  have hle := Fin.le_def.mp (hmono 1 2 (by decide)).1
  omega

theorem growLoop_eq_cap_iff (hf : p.factor = .finite q hr) (hq : 0 ≤ q)
    (hcap : p.cap.asMillis ≤ 2^53) (hwhole : p.cap.val%1000000 = 0) (n : ℕ) (d : Duration)
    (hd : d.val%1000000 = 0) :
    p.growLoop n d = p.cap ↔ ∃ r ≤ n, p.cap.asMillis ≤ (climb q)^[r] d.asMillis := by
  have hle : ∀ d : Duration, d.val%1000000 = 0 → (p.cap ≤ d ↔ p.cap.asMillis ≤ d.asMillis) := by
    intro d hd
    rw [Fin.le_def]
    unfold Duration.asMillis
    omega
  induction n generalizing d with
  | zero =>
    rw [growLoop, min_eq_right_iff, hle d hd]
    simp
  | succ n ih =>
    by_cases hlt : d < p.cap
    · have hms : d.asMillis < p.cap.asMillis := by
        have := (hle d hd).not.mp (not_le.mpr hlt)
        omega
      have hval := grow_val hf hq hcap (hms.le.trans hcap)
      rw [growLoop_of_lt hlt]
      by_cases hpast : p.cap.asMillis ≤ climb q d.asMillis
      · rw [if_pos hpast] at hval
        rw [growLoop_of_cap_le (Fin.le_def.mpr hval.ge)]
        exact ⟨fun _ => ⟨1, by omega, hpast⟩, fun _ => rfl⟩
      · rw [if_neg hpast] at hval
        have hmillis : (p.grow d).asMillis = climb q d.asMillis := by
          unfold Duration.asMillis at *
          omega
        have hwholeGrown : (p.grow d).val%1000000 = 0 := by omega
        apply (ih (p.grow d) hwholeGrown).trans
        rw [hmillis]
        constructor
        · intro h
          obtain ⟨r, hr, hge⟩ := h
          exact ⟨r+1, by omega, hge⟩
        · intro h
          obtain ⟨r, hr, hge⟩ := h
          cases r with
          | zero => exact absurd hge (not_le.mpr hms)
          | succ r => exact ⟨r, by omega, hge⟩
    · have hge : p.cap ≤ d := not_lt.mp hlt
      rw [growLoop_of_cap_le hge]
      exact ⟨fun _ => ⟨0, by omega, (hle d hd).mp hge⟩, fun _ => rfl⟩

/-- Some attempt reaches the cap and every later one stays there. -/
def ReachesCap (p : BackoffPolicy) : Prop :=
  ∃ n : UInt32, ∀ k : UInt32, n ≤ k → p.exponentialDelay k = p.cap

/-- Attempts are counted in a `u32`, so the last number there is decides. -/
theorem reachesCap_iff : p.ReachesCap ↔ p.growLoop (2^32-2) p.base = p.cap := by
  have hword : (4294967295 : UInt32).toNat = 4294967295 := rfl
  constructor
  · intro h
    obtain ⟨n, hn⟩ := h
    have hmax : n ≤ 4294967295 := by
      rw [UInt32.le_iff_toNat_le]
      have := n.toNat_lt
      omega
    exact hn 4294967295 hmax
  · intro h
    refine ⟨4294967295, ?_⟩
    intro k hk
    have hlast : k = 4294967295 := by
      have := k.toNat_lt
      apply UInt32.toNat_inj.mp
      exact Nat.le_antisymm (by omega) (UInt32.le_iff_toNat_le.mp hk)
    rw [hlast]
    exact h

section Climbing
variable (hf : p.factor = .finite q hr) (hq : 1 < q) (hcap : p.cap.asMillis ≤ 2^53)
  (hbase : p.base.val%1000000 = 0) (hwhole : p.cap.val%1000000 = 0)
include hf hq hcap hbase hwhole

theorem gains_of_growLoop_eq_cap (hle : p.base ≤ p.cap) {n : ℕ} (h : p.growLoop n p.base = p.cap) :
    p.base = p.cap ∨ p.base.asMillis+1 ≤ climb q p.base.asMillis := by
  obtain ⟨r, -, hpast⟩ := (growLoop_eq_cap_iff hf (by linarith) hcap hwhole n p.base hbase).mp h
  by_cases hgain : p.base.asMillis+1 ≤ climb q p.base.asMillis
  · exact .inr hgain
  · have hms : p.base.asMillis ≤ p.cap.asMillis := Duration.asMillis_le hle
    rw [climb_stuck hq.le (hms.trans hcap) hgain] at hpast
    apply Or.inl
    apply Fin.ext
    unfold Duration.asMillis at *
    omega

theorem growLoop_eq_cap_of_gains
    (h : p.base = p.cap ∨ p.base.asMillis+1 ≤ climb q p.base.asMillis) {n : ℕ}
    (hn : p.cap.asMillis-p.base.asMillis ≤ n) : p.growLoop n p.base = p.cap := by
  cases h with
  | inl heq => exact growLoop_of_cap_le heq.ge n
  | inr hgain =>
    rw [growLoop_eq_cap_iff hf (by linarith) hcap hwhole n p.base hbase]
    cases climb_iterate hq hgain hcap n with
    | inl hpast => exact hpast
    | inr hfar => exact ⟨n, le_refl n, by omega⟩

/-- For a factor above one the loop itself, given rounds enough, reaches the cap exactly when
the base is the cap or the first step gains a whole millisecond. -/
theorem eventually_cap_iff (hle : p.base ≤ p.cap) :
    (∃ n, ∀ k ≥ n, p.growLoop k p.base = p.cap) ↔
      p.base = p.cap ∨ p.base.asMillis+1 ≤ climb q p.base.asMillis := by
  constructor
  · intro h
    obtain ⟨n, hn⟩ := h
    exact gains_of_growLoop_eq_cap hf hq hcap hbase hwhole hle (hn n (le_refl n))
  · intro h
    refine ⟨p.cap.asMillis-p.base.asMillis, ?_⟩
    intro k hk
    exact growLoop_eq_cap_of_gains hf hq hcap hbase hwhole h hk

theorem reachesCap_iff_gains (hle : p.base ≤ p.cap) :
    p.ReachesCap ↔ p.base = p.cap ∨ p.base.asMillis+1 ≤ climb q p.base.asMillis ∧
      ∃ r ≤ 2^32-2, p.cap.asMillis ≤ (climb q)^[r] p.base.asMillis := by
  have hloop := growLoop_eq_cap_iff hf (by linarith) hcap hwhole (2^32-2) p.base hbase
  rw [reachesCap_iff]
  constructor
  · intro h
    cases gains_of_growLoop_eq_cap hf hq hcap hbase hwhole hle h with
    | inl heq => exact .inl heq
    | inr hgain => exact .inr ⟨hgain, hloop.mp h⟩
  · intro h
    cases h with
    | inl heq => exact growLoop_of_cap_le heq.ge _
    | inr h => exact hloop.mpr h.2

end Climbing

/-- Growth to the cap. In `u32` attempts the cap is reached exactly when the base is the cap,
or the first product gains a whole millisecond and the rounds suffice for the climb, which they
do when the cap is within `2^32-2` milliseconds; a loop with rounds enough needs the gain only. -/
theorem exponentialDelay_reachesCap_iff (p : BackoffPolicy) (q : ℚ)
    (hr : Binary64.Representable q) (hf : p.factor = .finite q hr) (hq : 1 < q)
    (hcap : p.cap.asMillis ≤ 2^53) (hbase : p.base.val%1000000 = 0)
    (hwhole : p.cap.val%1000000 = 0) (hle : p.base ≤ p.cap) :
    (p.ReachesCap ↔ p.base = p.cap ∨
      (p.base.asMillis : ℚ)+1 ≤ Binary64.nearest (p.base.asMillis*q) ∧
        ∃ r ≤ 2^32-2, p.cap.asMillis ≤ (climb q)^[r] p.base.asMillis) ∧
    (p.cap.asMillis-p.base.asMillis ≤ 2^32-2 →
      (p.ReachesCap ↔ p.base = p.cap ∨
        (p.base.asMillis : ℚ)+1 ≤ Binary64.nearest (p.base.asMillis*q))) ∧
    ((∃ n, ∀ k ≥ n, p.growLoop k p.base = p.cap) ↔ p.base = p.cap ∨
      (p.base.asMillis : ℚ)+1 ≤ Binary64.nearest (p.base.asMillis*q)) := by
  have hgain : p.base.asMillis+1 ≤ climb q p.base.asMillis ↔
      (p.base.asMillis : ℚ)+1 ≤ Binary64.nearest (p.base.asMillis*q) := by
    rw [le_climb_iff (by linarith)]
    push_cast
    exact Iff.rfl
  rw [← hgain]
  refine ⟨reachesCap_iff_gains hf hq hcap hbase hwhole hle, ?_,
    eventually_cap_iff hf hq hcap hbase hwhole hle⟩
  intro hnear
  rw [reachesCap_iff]
  constructor
  · exact gains_of_growLoop_eq_cap hf hq hcap hbase hwhole hle
  · intro h
    exact growLoop_eq_cap_of_gains hf hq hcap hbase hwhole h hnear

/-- `BackoffPolicy::default`. -/
def defaultPolicy : BackoffPolicy :=
  ⟨.fromMillis 1000, Binary64.ofNat 2, .fromMillis 600000, 12⟩

theorem defaultPolicy_reachesCap : defaultPolicy.ReachesCap := by
  have hf := Binary64.ofNat_eq (n := 2) (by norm_num)
  have hbase : defaultPolicy.base.asMillis = 1000 := by decide
  apply ((exponentialDelay_reachesCap_iff defaultPolicy _ _ hf (by norm_num) (by decide)
    (by decide) (by decide) (by decide)).2.1 (by decide)).mpr
  rw [hbase, ← Nat.cast_mul, Binary64.nearest_natCast (by norm_num)]
  exact .inr (by norm_num)

theorem growLoop_fixed {d : Duration} (hlt : d < p.cap) (hfix : p.grow d = d) (n : ℕ) :
    p.growLoop n d = d := by
  induction n with
  | zero => exact min_eq_left hlt.le
  | succ n ih => rw [growLoop_of_lt hlt, hfix, ih]

/-- One millisecond, growing by half of itself up to ten. -/
def halfAgain : BackoffPolicy :=
  ⟨.fromMillis 1, Binary64.round (3/2), .fromMillis 10, 12⟩

/-- The half millisecond is dropped in every round: the delay never leaves the base. -/
theorem halfAgain_stuck :
    (∀ k : UInt32, (halfAgain.exponentialDelay k).val = 1000000) ∧ ¬halfAgain.ReachesCap := by
  have hr : Binary64.Representable (3/2) := by
    refine ⟨?_, 3, -1, by norm_num, by norm_num, by norm_num⟩
    rw [abs_of_pos (by norm_num)]
    exact lt_trans (by norm_num) (pow_lt_pow_right₀ (one_lt_two) (show 1 < 1024 by norm_num))
  have hf := Binary64.round_of_representable hr
  have hclimb : climb (3/2) 1 = 1 := by
    rw [climb, Nat.cast_one, one_mul, Binary64.nearest_of_representable hr]
    norm_num
  have hval : (halfAgain.grow halfAgain.base).val = 1000000 := by
    have hbase : halfAgain.base.asMillis = 1 := by decide
    rw [grow_val (p := halfAgain) hf (by norm_num) (by decide) (by decide), hbase, hclimb]
    decide
  have hstay : ∀ k : UInt32, halfAgain.exponentialDelay k = halfAgain.base :=
    fun k => growLoop_fixed (by decide) (Fin.ext hval) _
  refine ⟨?_, ?_⟩
  · intro k
    rw [hstay k]
    decide
  · intro h
    obtain ⟨n, hn⟩ := h
    have hcap := hn n (UInt32.le_refl n)
    rw [hstay n] at hcap
    exact absurd hcap (by decide)

theorem growLoop_integral {k : ℕ} {hr : Binary64.Representable k}
    (hf : p.factor = .finite k hr) (hk : 1 ≤ k) (hcap : p.cap.asMillis*k ≤ 2^53)
    (hwhole : p.cap.val%1000000 = 0) (n : ℕ) (d : Duration) (hd : d.val%1000000 = 0) :
    (p.growLoop n d).val = min p.cap.val (d.val*k^n) := by
  have hcapms : p.cap.asMillis ≤ 2^53 := (Nat.le_mul_of_pos_right _ hk).trans hcap
  induction n generalizing d with
  | zero =>
    rw [growLoop, pow_zero, mul_one, min_comm]
    exact Fin.coe_min p.cap d
  | succ n ih =>
    have hpow : d.val ≤ d.val*k^(n+1) := Nat.le_mul_of_pos_right _ (by positivity)
    by_cases hlt : d < p.cap
    · have hms : d.asMillis ≤ p.cap.asMillis := Duration.asMillis_le hlt.le
      have hprod : d.asMillis*k ≤ 2^53 := (Nat.mul_le_mul_right k hms).trans hcap
      have hval := grow_val hf (by positivity) hcapms (hms.trans hcapms)
      rw [climb_natCast hprod] at hval
      have hscale : d.asMillis*k*1000000 = d.val*k := by
        rw [mul_right_comm]
        exact congrArg (·*k) (Nat.div_mul_cancel (Nat.dvd_of_mod_eq_zero hd))
      rw [growLoop_of_lt hlt]
      by_cases hpast : p.cap.asMillis ≤ d.asMillis*k
      · -- the product passes the cap, and so does every higher power
        have hreach : p.cap.val ≤ d.val*k^(n+1) :=
          calc p.cap.val = p.cap.asMillis*1000000 :=
                (Nat.div_mul_cancel (Nat.dvd_of_mod_eq_zero hwhole)).symm
            _ ≤ d.asMillis*k*1000000 := Nat.mul_le_mul_right _ hpast
            _ = d.val*k := hscale
            _ ≤ d.val*k*k^n := Nat.le_mul_of_pos_right _ (by positivity)
            _ = d.val*k^(n+1) := by rw [mul_assoc, ← pow_succ']
        rw [if_pos hpast] at hval
        rw [growLoop_of_cap_le (Fin.le_def.mpr hval.ge), min_eq_left hreach]
      · rw [if_neg hpast] at hval
        have hgrown : (p.grow d).val%1000000 = 0 := by omega
        rw [ih (p.grow d) hgrown, hval, hscale, mul_assoc, ← pow_succ']
    · have hge : p.cap ≤ d := not_lt.mp hlt
      have hle := Fin.le_def.mp hge
      rw [growLoop_of_cap_le hge, min_eq_left (hle.trans hpow)]

/-- Closed form at an integral factor: the uncapped power, then one minimum. -/
theorem exponentialDelay_integral (p : BackoffPolicy) (k : ℕ) (hr : Binary64.Representable k)
    (hf : p.factor = .finite k hr) (hk : 1 ≤ k) (hbase : p.base.val%1000000 = 0)
    (hwhole : p.cap.val%1000000 = 0) (hcap : p.cap.asMillis*k ≤ 2^53) (attempt : UInt32) :
    (p.exponentialDelay attempt).val =
      min p.cap.val (p.base.val*k^(max attempt.toNat 1-1)) :=
  growLoop_integral hf hk hcap hwhole _ p.base hbase

theorem defaultPolicy_delay :
    (defaultPolicy.exponentialDelay 4).val = 8000000000 ∧
      (defaultPolicy.exponentialDelay 12).val = 600000000000 := by
  have hdelay := exponentialDelay_integral defaultPolicy 2 _ (Binary64.ofNat_eq (by norm_num))
    (by norm_num) (by decide) (by decide) (by decide)
  rw [hdelay 4, hdelay 12]
  decide

end BackoffPolicy
end OutboxKit
