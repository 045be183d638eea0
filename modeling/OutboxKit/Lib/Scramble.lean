import Mathlib

/-! Invertible scrambles of fixed-width words: the steps a mixing function is made
of, each a bijection, so that any composition of them is one. -/
namespace Scramble
variable {w : ℕ}

theorem bijective_of_injective {f : BitVec w → BitVec w} (h : Function.Injective f) :
    Function.Bijective f := by
  have hfinite : Finite (BitVec w) :=
    Finite.of_injective BitVec.toFin fun _ _ => BitVec.eq_of_toFin_eq
  exact Finite.injective_iff_bijective.mp h

theorem add_bijective (c : BitVec w) : Function.Bijective fun x => x+c :=
  (Equiv.addRight c).bijective

theorem xor_bijective (c : BitVec w) : Function.Bijective fun x => x^^^c := by
  apply Function.Involutive.bijective
  intro x
  change x^^^c^^^c = x
  rw [BitVec.xor_assoc, BitVec.xor_self, BitVec.xor_zero]

theorem eq_zero_of_shift_eq {k : ℕ} (hk : 0 < k) {z : BitVec w} (h : z >>> k = z) : z = 0#w := by
  apply BitVec.eq_of_toNat_eq
  have hnat := congrArg BitVec.toNat h
  rw [BitVec.toNat_ushiftRight, Nat.shiftRight_eq_div_pow] at hnat
  by_contra hne
  have hpos : 0 < z.toNat := Nat.pos_of_ne_zero (by simpa using hne)
  have hlt := Nat.div_lt_self hpos (Nat.one_lt_two_pow hk.ne')
  omega

theorem xor_shift_bijective {k : ℕ} (hk : 0 < k) :
    Function.Bijective fun x : BitVec w => x^^^(x >>> k) := by
  apply bijective_of_injective
  intro x y h
  -- the difference of two words with one image is its own shift
  have hdiff : (x^^^y) >>> k = x^^^y := by
    calc (x^^^y) >>> k = (x >>> k)^^^(y >>> k) := BitVec.ushiftRight_xor_distrib x y k
      _ = (x >>> k)^^^(y^^^(y^^^(y >>> k))) := by
        rw [← BitVec.xor_assoc y y, BitVec.xor_self, BitVec.zero_xor]
      _ = (x >>> k)^^^(y^^^(x^^^(x >>> k))) := congrArg (fun z => (x >>> k)^^^(y^^^z)) h.symm
      _ = x^^^y := by
        rw [← BitVec.xor_assoc y, ← BitVec.xor_assoc, BitVec.xor_comm (x >>> k),
          BitVec.xor_assoc, BitVec.xor_self, BitVec.xor_zero, BitVec.xor_comm]
  have hzero := eq_zero_of_shift_eq hk hdiff
  exact BitVec.xor_eq_zero_iff.mp hzero

theorem mul_odd_bijective {c : BitVec w} (hc : c.toNat%2 = 1) :
    Function.Bijective fun x => x*c := by
  apply bijective_of_injective
  intro x y h
  have hcop : Nat.gcd (2^w) c.toNat = 1 :=
    Nat.Coprime.pow_left w (Nat.coprime_two_left.mpr (Nat.odd_iff.mpr hc))
  have hmod : x.toNat*c.toNat ≡ y.toNat*c.toNat [MOD 2^w] := by
    have hnat := congrArg BitVec.toNat h
    rwa [BitVec.toNat_mul, BitVec.toNat_mul] at hnat
  apply BitVec.eq_of_toNat_eq
  exact (Nat.ModEq.cancel_right_of_coprime hcop hmod).eq_of_lt_of_lt x.isLt y.isLt

/-- Turning a word by half its width twice gives it back. -/
theorem rotate_half_bijective {n : ℕ} (h : w = n+n) :
    Function.Bijective fun x : BitVec w => x.rotateLeft n := by
  apply Function.Involutive.bijective
  intro x
  apply BitVec.eq_of_getLsbD_eq
  intro i hi
  have hmod : n%w = n := Nat.mod_eq_of_lt (by omega)
  change ((x.rotateLeft n).rotateLeft n).getLsbD i = x.getLsbD i
  rw [BitVec.getLsbD_rotateLeft, hmod]
  by_cases hlow : i < n
  · have hhigh : ¬w-n+i < n := by omega
    have hback : w-n+i-n = i := by omega
    have hin : w-n+i < w := by omega
    simp [BitVec.getLsbD_rotateLeft, hmod, hlow, hhigh, hback, hin, hi]
  · have hnext : i-n < n := by omega
    have hback : w-n+(i-n) = i := by omega
    simp [BitVec.getLsbD_rotateLeft, hmod, hlow, hnext, hback, hi]

theorem bijective_of_toBitVec {f : UInt64 → UInt64} {g : BitVec 64 → BitVec 64}
    (h : ∀ x, (f x).toBitVec = g x.toBitVec) (hg : Function.Bijective g) :
    Function.Bijective f := by
  constructor
  · intro x y heq
    apply UInt64.eq_of_toBitVec_eq
    apply hg.injective
    rw [← h, ← h, heq]
  · intro y
    obtain ⟨z, hz⟩ := hg.surjective y.toBitVec
    refine ⟨⟨z⟩, ?_⟩
    apply UInt64.eq_of_toBitVec_eq
    rw [h]
    exact hz

end Scramble
