import Mathlib

/-! Fixed-width integers of the host language: their limits, the checked
conversions between widths and the saturating sums. Signed 64-bit and 32-bit
columns are plain integers, so a conversion that can fail says so. -/
namespace Machine

def i64Max : Int := 2^63-1
def i32Max : Int := 2^31-1
def u64Max : UInt64 := 18446744073709551615
def u32Max : UInt32 := 4294967295

def tryI64 (v : UInt64) : Option Int := if v.toNat < 2^63 then some v.toNat else none

def tryU64 (v : Int) : Option UInt64 :=
  if 0 ≤ v ∧ v < 2^64 then some (UInt64.ofNat v.toNat) else none

def tryI32 (v : UInt32) : Option Int := if v.toNat < 2^31 then some v.toNat else none

def tryU32 (v : Int) : Option UInt32 :=
  if 0 ≤ v ∧ v < 2^32 then some (UInt32.ofNat v.toNat) else none

/-- `u64::try_from(u128)`, the wider value being a natural number. -/
def tryU64OfNat (n : Nat) : Option UInt64 := if n < 2^64 then some (UInt64.ofNat n) else none

def tryU32OfNat (n : Nat) : Option UInt32 := if n < 2^32 then some (UInt32.ofNat n) else none

def satAdd64 (a b : UInt64) : UInt64 :=
  if a.toNat+b.toNat < 2^64 then a+b else u64Max

def satMul64 (a b : UInt64) : UInt64 :=
  if a.toNat*b.toNat < 2^64 then a*b else u64Max

def satAdd32 (a b : UInt32) : UInt32 :=
  if a.toNat+b.toNat < 2^32 then a+b else u32Max

@[simp] theorem u64Max_toNat : u64Max.toNat = 2^64-1 := rfl
@[simp] theorem u32Max_toNat : u32Max.toNat = 2^32-1 := rfl

theorem satAdd64_toNat (a b : UInt64) :
    (satAdd64 a b).toNat = min (a.toNat+b.toNat) (2^64-1) := by
  unfold satAdd64
  split
  · rename_i h
    rw [UInt64.toNat_add, Nat.mod_eq_of_lt h]
    omega
  · rw [u64Max_toNat]
    omega

theorem satMul64_toNat (a b : UInt64) :
    (satMul64 a b).toNat = min (a.toNat*b.toNat) (2^64-1) := by
  unfold satMul64
  split
  · rename_i h
    rw [UInt64.toNat_mul, Nat.mod_eq_of_lt h]
    omega
  · rw [u64Max_toNat]
    omega

theorem satAdd32_toNat (a b : UInt32) :
    (satAdd32 a b).toNat = min (a.toNat+b.toNat) (2^32-1) := by
  unfold satAdd32
  split
  · rename_i h
    rw [UInt32.toNat_add, Nat.mod_eq_of_lt h]
    omega
  · rw [u32Max_toNat]
    omega

theorem le_u64Max (a : UInt64) : a ≤ u64Max := by
  rw [UInt64.le_iff_toNat_le, u64Max_toNat]
  have := a.toNat_lt
  omega

/-- A count read back through a signed column and through the host's own
unsigned width gives the same number, whatever its size. -/
theorem tryU64_natCast (n : Nat) : tryU64 (n : Int) = tryU64OfNat n := by
  unfold tryU64 tryU64OfNat
  by_cases h : n < 2^64
  · rw [if_pos h, if_pos (by omega), Int.toNat_natCast]
  · rw [if_neg h, if_neg (by omega)]

theorem tryU32_natCast {v : UInt32} {n : Nat} (h : n = v.toNat) : tryU32 (n : Int) = some v := by
  have hv := v.toNat_lt
  unfold tryU32
  rw [if_pos (by omega), Int.toNat_natCast, h, UInt32.ofNat_toNat]

end Machine
