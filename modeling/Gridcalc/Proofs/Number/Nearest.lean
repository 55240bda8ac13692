import Mathlib.Data.Int.Log
import Mathlib.Tactic
import Gridcalc.Number.Binary

/-! # Rounding to the nearest double

What `nearestBits` makes of a quotient depends on its value alone, not on how it is written. A
quotient that is a double already is rounded to that double, one below half the least double to
zero, and one from `2 ^ 1024` on to infinity.
-/

namespace Gridcalc.Number

variable {num den num' den' : Nat}

theorem snd_scaled_pos (hden : 0 < den) (shift : Int) : 0 < (scaled num den shift).2 := by
  rw [scaled]
  split
  · exact hden
  · exact Nat.mul_pos hden (Nat.pow_pos (by decide))

theorem scaled_ratio (num den : Nat) (shift : Int) :
    ((scaled num den shift).1 : ℚ) / (scaled num den shift).2 = num / den * 2 ^ shift := by
  rw [scaled]
  split
  · rename_i h
    obtain ⟨k, rfl⟩ := Int.eq_ofNat_of_zero_le h
    simp only [Int.toNat_natCast, Nat.pow_eq]
    push_cast
    rw [zpow_natCast]
    ring
  · rename_i h
    obtain ⟨k, hk⟩ := Int.eq_ofNat_of_zero_le (show 0 ≤ -shift by omega)
    obtain rfl : shift = -(k : Int) := by omega
    simp only [neg_neg, Int.toNat_natCast, Nat.pow_eq]
    push_cast
    rw [zpow_neg, zpow_natCast]
    field_simp

theorem two_zpow_pos (e : Int) : (0 : ℚ) < 2 ^ e := zpow_pos (by norm_num) e

theorem zpow_log2_le (hnum : 0 < num) : (2 : ℚ) ^ (num.log2 : Int) ≤ num := by
  exact_mod_cast Nat.log2_self_le (by omega)

theorem lt_zpow_log2 (num : Nat) : (num : ℚ) < 2 ^ ((num.log2 : Int) + 1) := by
  exact_mod_cast Nat.lt_log2_self

theorem le_log_iff (hnum : 0 < num) (hden : 0 < den) (e : Int) :
    e ≤ Int.log 2 ((num : ℚ) / den) ↔ (scaled num den (-e)).2 ≤ (scaled num den (-e)).1 := by
  have hpos : (0 : ℚ) < (num : ℚ) / den := by positivity
  have hscaled : (0 : ℚ) < (scaled num den (-e)).2 := by exact_mod_cast snd_scaled_pos hden _
  have htwo : ((2 : Nat) : ℚ) ^ e * 2 ^ (-e) = 1 := by
    rw [Nat.cast_ofNat, ← zpow_add₀ (by norm_num)]
    simp
  rw [← Int.zpow_le_iff_le_log (by decide) hpos, ← Nat.cast_le (α := ℚ),
    ← one_le_div hscaled, scaled_ratio, ← htwo, mul_le_mul_iff_left₀ (two_zpow_pos _)]

theorem floorLog2_eq (hnum : 0 < num) (hden : 0 < den) :
    floorLog2 num den = Int.log 2 ((num : ℚ) / den) := by
  have hpos : (0 : ℚ) < (num : ℚ) / den := by positivity
  have hlower : (2 : ℚ) ^ ((num.log2 : Int) - den.log2 - 1) ≤ num / den := by
    rw [le_div_iff₀ (by positivity)]
    calc (2 : ℚ) ^ ((num.log2 : Int) - den.log2 - 1) * den
        ≤ 2 ^ ((num.log2 : Int) - den.log2 - 1) * 2 ^ ((den.log2 : Int) + 1) := by
          gcongr
          exact (lt_zpow_log2 den).le
      _ = 2 ^ (num.log2 : Int) := by
          rw [← zpow_add₀ (by norm_num)]
          congr 1
          ring
      _ ≤ num := zpow_log2_le hnum
  have hupper : (num : ℚ) / den < 2 ^ ((num.log2 : Int) - den.log2 + 1) := by
    rw [div_lt_iff₀ (by positivity)]
    calc (num : ℚ) < 2 ^ ((num.log2 : Int) + 1) := lt_zpow_log2 num
      _ = 2 ^ ((num.log2 : Int) - den.log2 + 1) * 2 ^ (den.log2 : Int) := by
          rw [← zpow_add₀ (by norm_num)]
          congr 1
          ring
      _ ≤ 2 ^ ((num.log2 : Int) - den.log2 + 1) * den := by
          gcongr
          exact zpow_log2_le hden
  have hle : (num.log2 : Int) - den.log2 - 1 ≤ Int.log 2 ((num : ℚ) / den) :=
    (Int.zpow_le_iff_le_log (by decide) hpos).mp (by exact_mod_cast hlower)
  have hlt : Int.log 2 ((num : ℚ) / den) < (num.log2 : Int) - den.log2 + 1 :=
    (Int.lt_zpow_iff_log_lt (by decide) hpos).mp (by exact_mod_cast hupper)
  -- The two candidates left are told apart by the comparison that `floorLog2` makes.
  have htest := le_log_iff hnum hden ((num.log2 : Int) - den.log2)
  change (if (scaled num den (-((num.log2 : Int) - den.log2))).2 ≤
      (scaled num den (-((num.log2 : Int) - den.log2))).1
    then (num.log2 : Int) - den.log2 else (num.log2 : Int) - den.log2 - 1) = _
  split <;> omega

theorem roundEven_mul {k : Nat} (hk : 0 < k) (num den : Nat) :
    roundEven (num * k) (den * k) = roundEven num den := by
  simp only [roundEven, Nat.mul_div_mul_right num den hk, Nat.mul_mod_mul_right,
    ← Nat.mul_assoc, Nat.mul_lt_mul_right hk]

theorem roundEven_congr (hden : 0 < den) (hden' : 0 < den')
    (h : (num : ℚ) / den = num' / den') : roundEven num den = roundEven num' den' := by
  rw [div_eq_div_iff (by positivity) (by positivity)] at h
  have hcross : num * den' = num' * den := by exact_mod_cast h
  rw [← roundEven_mul hden' num den, ← roundEven_mul hden num' den', hcross, Nat.mul_comm den]

theorem roundEven_one (n : Nat) : roundEven n 1 = n := by
  simp [roundEven, Nat.mod_one]

theorem div_le_roundEven (num den : Nat) : num / den ≤ roundEven num den := by
  rw [roundEven]
  split
  · exact Nat.le_refl _
  · split
    · exact Nat.le_succ _
    · exact Nat.le_add_right _ _

theorem roundEven_eq_zero (h : 2 * num < den) : roundEven num den = 0 := by
  rw [roundEven, Nat.mod_eq_of_lt (by omega), if_pos h]
  exact Nat.div_eq_of_lt (by omega)

/-- The exponent of the grid on which a quotient is rounded. -/
def gridExponent (x : ℚ) : Int := max (Int.log 2 x - 52) (-1074)

theorem nearestBits_eq_min (hnum : 0 < num) (hden : 0 < den) :
    nearestBits num den = min ((gridExponent ((num : ℚ) / den) + 1074).toNat * 2 ^ 52 +
      roundEven (scaled num den (-gridExponent ((num : ℚ) / den))).1
        (scaled num den (-gridExponent ((num : ℚ) / den))).2) infinityBits := by
  rw [nearestBits, if_neg (by omega), floorLog2_eq hnum hden]
  rfl

theorem nearestBits_congr (hden : 0 < den) (hden' : 0 < den')
    (h : (num : ℚ) / den = num' / den') : nearestBits num den = nearestBits num' den' := by
  rcases Nat.eq_zero_or_pos num with rfl | hnum
  · have hzero : num' = 0 := by
      rw [Nat.cast_zero, zero_div, eq_comm, div_eq_zero_iff] at h
      rcases h with h | h <;> norm_cast at h
      omega
    simp [nearestBits, hzero]
  · have hnum' : 0 < num' := by
      rw [Nat.pos_iff_ne_zero]
      rintro rfl
      rw [Nat.cast_zero, zero_div, div_eq_zero_iff] at h
      rcases h with h | h <;> norm_cast at h <;> omega
    rw [nearestBits_eq_min hnum hden, nearestBits_eq_min hnum' hden', ← h]
    congr 2
    apply roundEven_congr (snd_scaled_pos hden _) (snd_scaled_pos hden' _)
    rw [scaled_ratio, scaled_ratio, h]

/-- The magnitude that a pattern stands for. -/
def patternValue (bits : Nat) : ℚ := significand bits * 2 ^ exponent bits

theorem log_eq {x : ℚ} {e : Int} (hle : 2 ^ e ≤ x) (hlt : x < 2 ^ (e + 1)) : Int.log 2 x = e := by
  have hpos : 0 < x := lt_of_lt_of_le (two_zpow_pos e) hle
  have h₁ : e ≤ Int.log 2 x := (Int.zpow_le_iff_le_log (by decide) hpos).mp (by exact_mod_cast hle)
  have h₂ : Int.log 2 x < e + 1 :=
    (Int.lt_zpow_iff_log_lt (by decide) hpos).mp (by exact_mod_cast hlt)
  omega

theorem gridExponent_patternValue {bits : Nat} (h : 0 < bits) :
    gridExponent (patternValue bits) = exponent bits := by
  rw [gridExponent, patternValue, significand, exponent]
  simp only [show Nat.pow 2 52 = 2 ^ 52 from rfl]
  split
  · rename_i hlt
    have hpos : (0 : ℚ) < bits * 2 ^ (-1074 : Int) := by
      have := two_zpow_pos (-1074)
      positivity
    have hsmall : (bits : ℚ) * 2 ^ (-1074 : Int) < 2 ^ (-1022 : Int) := by
      rw [show (-1022 : Int) = 52 + -1074 by rfl, zpow_add₀ (by norm_num)]
      gcongr
      exact_mod_cast hlt
    have hlog := (Int.lt_zpow_iff_log_lt (b := 2) (by decide) hpos).mp (by exact_mod_cast hsmall)
    omega
  · rename_i hle
    generalize he : ((bits / 2 ^ 52 : Nat) - 1075 : Int) = e
    have hlog : Int.log 2 (((2 ^ 52 + bits % 2 ^ 52 : Nat) : ℚ) * 2 ^ e) = 52 + e := by
      apply log_eq
      · rw [zpow_add₀ (by norm_num)]
        gcongr
        exact_mod_cast Nat.le_add_right _ _
      · rw [show 52 + e + 1 = 53 + e by ring, zpow_add₀ (by norm_num)]
        gcongr
        have hlt : 2 ^ 52 + bits % 2 ^ 52 < 2 ^ 53 := by omega
        exact_mod_cast hlt
    rw [hlog]
    omega

theorem grid_add_significand (bits : Nat) :
    (exponent bits + 1074).toNat * 2 ^ 52 + significand bits = bits := by
  rw [significand, exponent]
  simp only [show Nat.pow 2 52 = 2 ^ 52 from rfl]
  split <;> omega

/-- A quotient that is a double is rounded to it. -/
theorem nearestBits_of_eq_patternValue {bits : Nat} (hbits : bits < infinityBits) (hden : 0 < den)
    (h : (num : ℚ) / den = patternValue bits) : nearestBits num den = bits := by
  rcases Nat.eq_zero_or_pos bits with rfl | hpos
  · have hzero : num = 0 := by
      simp only [patternValue, significand, Nat.pow_eq] at h
      norm_num at h
      omega
    simp [nearestBits, hzero]
  · have hsig : 0 < significand bits := by
      rw [significand]
      split
      · exact hpos
      · exact Nat.add_pos_left (Nat.pow_pos (by decide)) _
    have hvalue : 0 < patternValue bits :=
      mul_pos (by exact_mod_cast hsig) (two_zpow_pos _)
    have hnum : 0 < num := by
      rw [Nat.pos_iff_ne_zero]
      rintro rfl
      simp [← h] at hvalue
    rw [nearestBits_eq_min hnum hden, h, gridExponent_patternValue hpos]
    have hround : roundEven (scaled num den (-exponent bits)).1
        (scaled num den (-exponent bits)).2 = significand bits := by
      rw [← roundEven_one (significand bits)]
      apply roundEven_congr (snd_scaled_pos hden _) Nat.one_pos
      rw [scaled_ratio, h, patternValue, mul_assoc, ← zpow_add₀ (by norm_num)]
      simp
    rw [hround, grid_add_significand]
    exact Nat.min_eq_left hbits.le

theorem nearestBits_eq_zero (hden : 0 < den) (h : (num : ℚ) / den < 2 ^ (-1075 : Int)) :
    nearestBits num den = 0 := by
  rcases Nat.eq_zero_or_pos num with rfl | hnum
  · simp [nearestBits]
  · have hpos : (0 : ℚ) < (num : ℚ) / den := by positivity
    have hlog : Int.log 2 ((num : ℚ) / den) < -1075 :=
      (Int.lt_zpow_iff_log_lt (by decide) hpos).mp (by exact_mod_cast h)
    have hgrid : gridExponent ((num : ℚ) / den) = -1074 := by
      rw [gridExponent]
      omega
    have hscaled : (0 : ℚ) < (scaled num den 1074).2 := by exact_mod_cast snd_scaled_pos hden _
    have hhalf : 2 * (scaled num den 1074).1 < (scaled num den 1074).2 := by
      have hlt : 2 * (((scaled num den 1074).1 : ℚ) / (scaled num den 1074).2) < 1 := by
        rw [scaled_ratio]
        calc 2 * ((num : ℚ) / den * 2 ^ (1074 : Int))
            < 2 * (2 ^ (-1075 : Int) * 2 ^ (1074 : Int)) := by
              have := two_zpow_pos 1074
              gcongr
          _ = 1 := by rw [← zpow_add₀ (by norm_num)]; norm_num
      rw [← mul_div_assoc, div_lt_one hscaled] at hlt
      exact_mod_cast hlt
    rw [nearestBits_eq_min hnum hden, hgrid, neg_neg, roundEven_eq_zero hhalf]
    rfl

theorem nearestBits_eq_infinityBits (hden : 0 < den) (h : 2 ^ (1024 : Int) ≤ (num : ℚ) / den) :
    nearestBits num den = infinityBits := by
  have hpos : (0 : ℚ) < (num : ℚ) / den := lt_of_lt_of_le (two_zpow_pos 1024) h
  have hnum : 0 < num := by
    rw [Nat.pos_iff_ne_zero]
    rintro rfl
    simp at hpos
  have hlog : 1024 ≤ Int.log 2 ((num : ℚ) / den) :=
    (Int.zpow_le_iff_le_log (by decide) hpos).mp (by exact_mod_cast h)
  have hgrid : gridExponent ((num : ℚ) / den) = Int.log 2 ((num : ℚ) / den) - 52 := by
    rw [gridExponent]
    omega
  rw [nearestBits_eq_min hnum hden, hgrid]
  generalize hk : Int.log 2 ((num : ℚ) / den) = k at *
  have hscaled : (0 : ℚ) < (scaled num den (-(k - 52))).2 := by
    exact_mod_cast snd_scaled_pos hden _
  have hround : 2 ^ 52 ≤ roundEven (scaled num den (-(k - 52))).1 (scaled num den (-(k - 52))).2 := by
    refine Nat.le_trans ?_ (div_le_roundEven _ _)
    rw [Nat.le_div_iff_mul_le (snd_scaled_pos hden _), ← Nat.cast_le (α := ℚ), Nat.cast_mul,
      ← le_div_iff₀ hscaled, scaled_ratio]
    have hle : (2 : ℚ) ^ k ≤ num / den := by
      rw [← hk]
      exact_mod_cast Int.zpow_log_le_self (by decide) hpos
    calc ((2 ^ 52 : Nat) : ℚ) = 2 ^ k * 2 ^ (-(k - 52)) := by
          rw [← zpow_add₀ (by norm_num), show k + -(k - 52) = ((52 : Nat) : Int) by ring,
            zpow_natCast]
          norm_cast
      _ ≤ num / den * 2 ^ (-(k - 52)) := by
          have := two_zpow_pos (-(k - 52))
          gcongr
  apply Nat.min_eq_right
  have hinfinity : infinityBits = 2047 * 2 ^ 52 := by decide
  omega

end Gridcalc.Number
