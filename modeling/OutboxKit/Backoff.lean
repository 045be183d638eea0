import OutboxKit.Lib.Binary64
import OutboxKit.Event

/-! The retry schedule: an un-jittered delay that grows by a factor up to a cap,
a jitter anywhere below it, and the attempt budget. -/
namespace OutboxKit
open Machine

/-- The sentinel `retry_at` that parks an event. -/
def never : UInt64 := u64Max

/-- A span of time in nanoseconds; seconds are a `u64` and nanoseconds stay below `10^9`. -/
abbrev Duration := Fin (2^64*1000000000)

def Duration.asMillis (d : Duration) : Nat := d.val/1000000

def Duration.fromMillis (ms : UInt64) : Duration :=
  ⟨ms.toNat*1000000, by have := ms.toNat_lt; omega⟩

theorem Duration.asMillis_le {c d : Duration} (h : c ≤ d) : c.asMillis ≤ d.asMillis :=
  Nat.div_le_div_right (Fin.le_def.mp h)

def Duration.zero : Duration := ⟨0, by decide⟩

structure BackoffPolicy where
  base : Duration
  factor : Binary64.F64
  cap : Duration
  maxAttempts : UInt32

namespace BackoffPolicy

def grow (p : BackoffPolicy) (delay : Duration) : Duration :=
  let scaled := Binary64.mul (Binary64.ofNat delay.asMillis) p.factor
  if !Binary64.isFinite scaled || Binary64.ge scaled (Binary64.ofNat p.cap.asMillis) then p.cap
  else .fromMillis (Binary64.toU64 scaled)

/-- The loop of `exponential_delay` with `n` rounds left; the final minimum is
what a delay that never reached the cap goes through. -/
def growLoop (p : BackoffPolicy) : Nat → Duration → Duration
  | 0, delay => min delay p.cap
  | n+1, delay => if p.cap ≤ delay then p.cap else growLoop p n (p.grow delay)

def exponentialDelay (p : BackoffPolicy) (attempt : UInt32) : Duration :=
  growLoop p (max attempt.toNat 1-1) p.base

/-- The delays `retry_delay` may return: zero when the bound is zero, else a
uniform draw from `0..=bound`. -/
def Jittered (p : BackoffPolicy) (attempt : UInt32) (delay : Duration) : Prop :=
  delay ≤ p.exponentialDelay attempt

instance (p : BackoffPolicy) (attempt : UInt32) (delay : Duration) :
    Decidable (p.Jittered attempt delay) :=
  inferInstanceAs (Decidable (_ ≤ _))

def isExhausted (p : BackoffPolicy) (attempts : UInt32) : Bool := decide (p.maxAttempts ≤ attempts)

/-- The counter saturates, which hides no budget: one is at most the counter's limit. -/
theorem isExhausted_succ (p : BackoffPolicy) (n : UInt32) :
    p.isExhausted (satAdd32 n 1) = true ↔ p.maxAttempts.toNat ≤ n.toNat+1 := by
  have hp := p.maxAttempts.toNat_lt
  have hone : (1 : UInt32).toNat = 1 := rfl
  rw [isExhausted, decide_eq_true_eq, UInt32.le_iff_toNat_le, satAdd32_toNat, hone]
  omega

theorem growLoop_le_cap (p : BackoffPolicy) (n : Nat) (delay : Duration) :
    p.growLoop n delay ≤ p.cap := by
  induction n generalizing delay with
  | zero => exact min_le_right _ _
  | succ n ih =>
    rw [growLoop]
    split
    · exact le_refl _
    · exact ih _

theorem Jittered.asMillis_le {p : BackoffPolicy} {attempt : UInt32} {delay : Duration}
    (h : p.Jittered attempt delay) : delay.asMillis ≤ p.cap.asMillis :=
  Duration.asMillis_le (le_trans h (p.growLoop_le_cap _ _))

end BackoffPolicy
end OutboxKit
