import OutboxKit.Lib.Binary64

/-! What rounding to binary64 keeps: it is monotone, exact on the values the
format holds, and moves no value by more than half a unit in the last place. -/
namespace Binary64

theorem halfEven_intCast (n : ℤ) : halfEven n = n := by
  simp [halfEven]

theorem halfEven_le (x : ℚ) : (halfEven x : ℚ) ≤ x+1/2 := by
  have hlo := Int.floor_le x
  unfold halfEven
  split
  · linarith
  · split
    · push_cast
      linarith
    · split
      · linarith
      · push_cast
        linarith

theorem le_halfEven {n : ℤ} {x : ℚ} (h : (n : ℚ)-1/2 < x) : n ≤ halfEven x := by
  have hhi := Int.lt_floor_add_one x
  have hn : n ≤ ⌊x⌋+1 := by
    have hlt : (n : ℚ) < ((⌊x⌋+2 : ℤ) : ℚ) := by
      push_cast
      linarith
    have := Int.cast_lt.mp hlt
    omega
  by_cases hle : n ≤ ⌊x⌋
  · exact hle.trans (halfEven_bounds x).1
  · have he : n = ⌊x⌋+1 := by omega
    have hfrac : 1/2 < x-⌊x⌋ := by
      rw [he] at h
      push_cast at h
      linarith
    rw [halfEven, if_neg (by linarith), if_pos hfrac, he]

theorem halfEven_mono {x y : ℚ} (h : x ≤ y) : halfEven x ≤ halfEven y := by
  by_cases heq : ⌊x⌋ = ⌊y⌋
  · have hf : x-⌊y⌋ ≤ y-⌊y⌋ := by linarith
    unfold halfEven
    rw [heq]
    split_ifs <;> first | omega | (exfalso; linarith)
  · have hfloor := Int.floor_le_floor h
    have hx := (halfEven_bounds x).2
    have hy := (halfEven_bounds y).1
    omega

/-- A value below `2^(53+e)` has its last place at `2^e` or finer. -/
theorem exponent_le {x : ℚ} {e : ℤ} (he : -1074 ≤ e) (hx : x ≠ 0) (h : |x| < 2^(53+e)) :
    exponent x ≤ e := by
  have hlog : Int.log 2 |x| < 53+e :=
    (Int.lt_zpow_iff_log_lt (by norm_num) (abs_pos.mpr hx)).mp (by exact_mod_cast h)
  unfold exponent
  omega

theorem exponent_mono {x y : ℚ} (hx : 0 < x) (h : x ≤ y) : exponent x ≤ exponent y := by
  have hlog : Int.log 2 |x| ≤ Int.log 2 |y| :=
    Int.log_mono_right (abs_pos.mpr hx.ne') (by rwa [abs_of_pos hx, abs_of_pos (hx.trans_le h)])
  unfold exponent
  omega

theorem Representable.exists_lt {q : ℚ} (h : Representable q) :
    ∃ m e : ℤ, |m| < 2^53 ∧ -1074 ≤ e ∧ q = m*(2 : ℚ)^e := by
  obtain ⟨-, m, e, hm, he, rfl⟩ := h
  by_cases hlt : |m| < 2^53
  · exact ⟨m, e, hlt, he, rfl⟩
  · have hsplit : ∀ c : ℚ, c*2^53*(2 : ℚ)^e = c*2^52*(2 : ℚ)^(e+1) := by
      intro c
      rw [zpow_add₀ (by norm_num)]
      ring
    have hside : m = 2^53 ∨ m = -2^53 := by
      cases abs_cases m with
      | inl h => omega
      | inr h => omega
    cases hside with
    | inl h =>
      have hone := hsplit 1
      exact ⟨2^52, e+1, by norm_num, by omega, by rw [h]; push_cast; linarith⟩
    | inr h =>
      have hneg := hsplit (-1)
      exact ⟨-2^52, e+1, by norm_num, by omega, by rw [h]; push_cast; linarith⟩

theorem representable_natCast {n : ℕ} (h : n ≤ 2^53) : Representable n := by
  have hn : (n : ℚ) ≤ 2^53 := by exact_mod_cast h
  refine ⟨?_, n, 0, ?_, by norm_num, by simp⟩
  · rw [abs_of_nonneg (Nat.cast_nonneg n)]
    exact hn.trans_lt (pow_lt_pow_right₀ (by norm_num) (by norm_num))
  · rw [abs_of_nonneg (by omega)]
    exact_mod_cast h

theorem nearest_eq_self {q : ℚ} {m e : ℤ} (hq : q = m*(2 : ℚ)^e) (he : exponent q ≤ e) :
    nearest q = q := by
  have hdiv : q/2^exponent q = ((m*2^(e-exponent q).toNat : ℤ) : ℚ) := by
    have hshift : (2 : ℚ)^e = 2^(e-exponent q).toNat*(2 : ℚ)^exponent q := by
      rw [← zpow_natCast, ← zpow_add₀ (by norm_num)]
      congr 1
      omega
    rw [div_eq_iff (by positivity)]
    push_cast
    rw [mul_assoc, ← hshift]
    exact hq
  rw [nearest, hdiv, halfEven_intCast, ← hdiv, div_mul_cancel₀ _ (by positivity)]

theorem nearest_of_representable {q : ℚ} (h : Representable q) : nearest q = q := by
  by_cases hq : q = 0
  · rw [hq]
    simp [nearest, halfEven]
  · obtain ⟨m, e, hm, he, heq⟩ := h.exists_lt
    apply nearest_eq_self heq
    apply exponent_le he hq
    have hpow : (0 : ℚ) < 2^e := by positivity
    have hmq : |(m : ℚ)| < 2^53 := by exact_mod_cast hm
    rw [heq, abs_mul, abs_of_pos hpow, zpow_add₀ (by norm_num)]
    exact mul_lt_mul_of_pos_right hmq hpow

theorem nearest_natCast {n : ℕ} (h : n ≤ 2^53) : nearest n = n :=
  nearest_of_representable (representable_natCast h)

theorem round_of_representable {q : ℚ} (h : Representable q) : round q = .finite q h := by
  have hnear := nearest_of_representable h
  have habs : |nearest q| < 2^1024 := by
    rw [hnear]
    exact h.1
  rw [round, dif_pos habs, F64.finite.injEq]
  exact hnear

theorem ofNat_eq {n : ℕ} (h : n ≤ 2^53) : ofNat n = .finite n (representable_natCast h) :=
  round_of_representable (representable_natCast h)

theorem toU64_finite {x : ℚ} (h : Representable x) (hlt : ⌊x⌋.toNat < 2^64) :
    (toU64 (.finite x h)).toNat = ⌊x⌋.toNat := by
  have hmin : min ⌊x⌋.toNat 18446744073709551615 = ⌊x⌋.toNat := min_eq_left (by omega)
  rw [toU64, hmin]
  exact UInt64.toNat_ofNat_of_lt' hlt

theorem nearest_mono {x y : ℚ} (hx : 0 < x) (h : x ≤ y) : nearest x ≤ nearest y := by
  have hy : 0 < y := hx.trans_le h
  by_cases heq : exponent x = exponent y
  · unfold nearest
    rw [heq]
    apply mul_le_mul_of_nonneg_right _ (by positivity)
    exact Int.cast_le.mpr (halfEven_mono (div_le_div_of_nonneg_right h (by positivity)))
  · have hlt : exponent x+1 ≤ exponent y := by
      have := exponent_mono hx h
      omega
    -- the higher exponent is a normal one, so the significand there is full
    have hlog : exponent y = Int.log 2 |y|-52 := by
      unfold exponent at hlt ⊢
      omega
    have hbelow : (halfEven (x/2^exponent x) : ℚ) ≤ 2^53 := by
      have habs := abs_le.mp (abs_halfEven_le (abs_div_exponent_lt x))
      exact_mod_cast habs.2
    have habove : (2^52 : ℤ) ≤ halfEven (y/2^exponent y) := by
      have hself : ((2 : ℕ) : ℚ)^Int.log 2 |y| ≤ |y| :=
        Int.zpow_log_le_self (by norm_num) (abs_pos.mpr hy.ne')
      have hle : ((2^52 : ℤ) : ℚ) ≤ y/2^exponent y := by
        rw [le_div_iff₀ (by positivity), hlog]
        rw [abs_of_pos hy] at hself ⊢
        push_cast
        calc (2 : ℚ)^52*2^(Int.log 2 y-52) = 2^Int.log 2 y := by
              rw [zpow_sub₀ (by norm_num)]
              norm_num
              field_simp
          _ ≤ y := by exact_mod_cast hself
      apply le_halfEven
      linarith
    calc nearest x ≤ 2^53*(2 : ℚ)^exponent x :=
          mul_le_mul_of_nonneg_right hbelow (by positivity)
      _ = 2^52*(2 : ℚ)^(exponent x+1) := by
          rw [zpow_add₀ (by norm_num)]
          ring
      _ ≤ 2^52*(2 : ℚ)^exponent y := by
          apply mul_le_mul_of_nonneg_left _ (by positivity)
          exact zpow_le_zpow_right₀ (by norm_num) hlt
      _ ≤ nearest y := by
          apply mul_le_mul_of_nonneg_right _ (by positivity)
          exact_mod_cast habove

theorem nearest_nonneg {x : ℚ} (hx : 0 ≤ x) : 0 ≤ nearest x := by
  have hdiv : 0 ≤ x/2^exponent x := div_nonneg hx (by positivity)
  have hhalf : 0 ≤ halfEven (x/2^exponent x) := by
    apply le_halfEven
    push_cast
    linarith
  exact mul_nonneg (by exact_mod_cast hhalf) (by positivity)

theorem natCast_le_nearest {n : ℕ} {x : ℚ} (hn : n ≤ 2^53) (h : n ≤ x) : n ≤ nearest x := by
  cases n.eq_zero_or_pos with
  | inl hzero =>
    rw [hzero] at h ⊢
    exact_mod_cast nearest_nonneg (by exact_mod_cast h)
  | inr hpos =>
    have hmono := nearest_mono (Nat.cast_pos.mpr hpos) h
    rwa [nearest_natCast hn] at hmono

theorem nearest_le_add (x : ℚ) : nearest x ≤ x+2^exponent x/2 := by
  have hpos : (0 : ℚ) < 2^exponent x := by positivity
  calc nearest x ≤ (x/2^exponent x+1/2)*2^exponent x :=
        mul_le_mul_of_nonneg_right (halfEven_le _) hpos.le
    _ = x+2^exponent x/2 := by
        field_simp

/-- Less than half a unit below an integer, rounding reaches it. -/
theorem natCast_le_nearest_of_near {n : ℕ} {x : ℚ} (hn : n ≤ 2^53) (hx : 0 < x)
    (h : (n : ℚ)-2^exponent x/2 < x) : n ≤ nearest x := by
  have hpos : (0 : ℚ) < 2^exponent x := by positivity
  by_cases hle : (n : ℚ) ≤ x
  · exact natCast_le_nearest hn hle
  · have hlt : |x| < 2^(53+(0 : ℤ)) := by
      have hcast : (n : ℚ) ≤ 2^53 := by exact_mod_cast hn
      rw [abs_of_pos hx]
      norm_num
      linarith
    have hexp : exponent x ≤ 0 := exponent_le (by norm_num) hx.ne' hlt
    -- below `2^53` the last place is a fraction, so `n` is a multiple of it
    have hmul : (n : ℚ) = ((n*2^(-exponent x).toNat : ℤ) : ℚ)*2^exponent x := by
      push_cast
      rw [mul_assoc, ← zpow_natCast, ← zpow_add₀ (by norm_num),
        show ((-exponent x).toNat : ℤ)+exponent x = 0 by omega, zpow_zero, mul_one]
    have hround : (n*2^(-exponent x).toNat : ℤ) ≤ halfEven (x/2^exponent x) := by
      apply le_halfEven
      rw [lt_div_iff₀ hpos, sub_mul, ← hmul]
      linarith
    rw [hmul]
    exact mul_le_mul_of_nonneg_right (Int.cast_le.mpr hround) hpos.le

/-- A factor that lifts an integer by one lifts the next one too, rounding included. -/
theorem succ_le_nearest_mul {b : ℕ} {q : ℚ} (hq : 1 < q) (hb : b+2 ≤ 2^53)
    (h : (b : ℚ)+1 ≤ nearest (b*q)) : ((b+1 : ℕ) : ℚ)+1 ≤ nearest ((b+1 : ℕ)*q) := by
  have hup := nearest_le_add (b*q)
  by_cases hzero : b = 0
  · rw [hzero] at h
    norm_num [nearest, halfEven] at h
  · have hbpos : (0 : ℚ) < b := by exact_mod_cast Nat.pos_of_ne_zero hzero
    have hprod : (0 : ℚ) < b*q := by positivity
    have hstep : (b : ℚ)*q ≤ ((b+1 : ℕ) : ℚ)*q := by
      push_cast
      linarith
    have hunit : (2 : ℚ)^exponent (b*q) ≤ 2^exponent (((b+1 : ℕ) : ℚ)*q) :=
      zpow_le_zpow_right₀ (by norm_num) (exponent_mono hprod hstep)
    have hnear := natCast_le_nearest_of_near (n := b+2) hb (hprod.trans_le hstep)
    push_cast at hnear hunit ⊢
    have hlt := hnear (by linarith)
    linarith

end Binary64
