import Mathlib

/-! IEEE 754 binary64, as far as a program scales an integer by a factor and
truncates: conversion from an integer, product, comparison and conversion back,
each rounding to nearest with ties to even. A finite value is the rational it
stands for; the sign of zero is not kept. -/
namespace Binary64

/-- The rationals a finite binary64 holds. A significand of `2^53` is allowed
since the same value has significand `2^52` one exponent up. -/
def Representable (q : ℚ) : Prop :=
  |q| < 2^1024 ∧ ∃ m e : ℤ, |m| ≤ 2^53 ∧ -1074 ≤ e ∧ q = m*(2 : ℚ)^e

inductive F64 where
  | nan
  | inf (negative : Bool)
  | finite (q : ℚ) (repr : Representable q)

/-- Exponent of the last place at `q`; below the normal range it stays fixed. -/
def exponent (q : ℚ) : ℤ := max (Int.log 2 |q| - 52) (-1074)

def halfEven (x : ℚ) : ℤ :=
  if x-⌊x⌋ < 1/2 then ⌊x⌋
  else if 1/2 < x-⌊x⌋ then ⌊x⌋+1
  else if ⌊x⌋%2 = 0 then ⌊x⌋ else ⌊x⌋+1

def nearest (q : ℚ) : ℚ := halfEven (q/2^exponent q)*(2 : ℚ)^exponent q

theorem halfEven_bounds (x : ℚ) : ⌊x⌋ ≤ halfEven x ∧ halfEven x ≤ ⌊x⌋+1 := by
  unfold halfEven
  split
  · omega
  · split
    · omega
    · split <;> omega

theorem abs_halfEven_le {x : ℚ} {n : ℤ} (h : |x| < n) : |halfEven x| ≤ n := by
  obtain ⟨hlo, hhi⟩ := halfEven_bounds x
  obtain ⟨hneg, hpos⟩ := abs_lt.mp h
  have hfloor : -n ≤ ⌊x⌋ := Int.le_floor.mpr (by push_cast; exact hneg.le)
  have hceil : ⌊x⌋ < n := Int.floor_lt.mpr hpos
  exact abs_le.mpr ⟨by omega, by omega⟩

theorem abs_div_exponent_lt (q : ℚ) : |q/2^exponent q| < (2^53 : ℤ) := by
  have hpos : (0 : ℚ) < 2^exponent q := by positivity
  rw [abs_div, abs_of_pos hpos, div_lt_iff₀ hpos]
  have hlog : |q| < ((2 : ℕ) : ℚ)^(Int.log 2 |q|+1) := Int.lt_zpow_succ_log_self (by norm_num) _
  have hexp : Int.log 2 |q|+1 ≤ 53+exponent q := by
    unfold exponent
    omega
  calc |q| < (2 : ℚ)^(Int.log 2 |q|+1) := by exact_mod_cast hlog
    _ ≤ (2 : ℚ)^(53+exponent q) := zpow_le_zpow_right₀ (by norm_num) hexp
    _ = (2^53 : ℤ)*(2 : ℚ)^exponent q := by
      rw [zpow_add₀ (by norm_num)]
      norm_num

theorem nearest_representable {q : ℚ} (h : |nearest q| < 2^1024) : Representable (nearest q) :=
  ⟨h, halfEven (q/2^exponent q), exponent q, abs_halfEven_le (abs_div_exponent_lt q),
    le_max_right _ _, rfl⟩

/-- Round to nearest even, overflowing to an infinity. -/
def round (q : ℚ) : F64 :=
  if h : |nearest q| < 2^1024 then .finite (nearest q) (nearest_representable h)
  else .inf (decide (q < 0))

def ofNat (n : Nat) : F64 := round n

def mul : F64 → F64 → F64
  | .nan, _ => .nan
  | _, .nan => .nan
  | .inf a, .inf b => .inf (a ^^ b)
  | .inf a, .finite q _ => if q = 0 then .nan else .inf (a ^^ decide (q < 0))
  | .finite q _, .inf a => if q = 0 then .nan else .inf (a ^^ decide (q < 0))
  | .finite p _, .finite q _ => round (p*q)

def isFinite : F64 → Bool
  | .finite _ _ => true
  | _ => false

def ge : F64 → F64 → Bool
  | .nan, _ => false
  | _, .nan => false
  | .inf false, _ => true
  | .inf true, .inf b => b
  | .inf true, .finite _ _ => false
  | .finite _ _, .inf b => b
  | .finite p _, .finite q _ => decide (q ≤ p)

/-- `x.max(0.0) as u64`: negative and not-a-number give zero, the fraction is
dropped, and values past the range saturate. -/
def toU64 : F64 → UInt64
  | .nan => 0
  | .inf negative => if negative then 0 else 18446744073709551615
  | .finite q _ => UInt64.ofNat (min ⌊q⌋.toNat 18446744073709551615)

end Binary64
