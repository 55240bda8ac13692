import Gridcalc.Number.Decimal
import Gridcalc.Proofs.Number.Nearest

/-! # The shortest digits read back

Reading a decimal fraction as a double depends on its value alone: the bounds at which
`Decimal.nearestBits` stops computing are shortcuts. The digits chosen for a double therefore
read back as that double, trailing zeros taken off or not.
-/

namespace Gridcalc.Number.Decimal

def value (d : Decimal) : ℚ := d.digits * 10 ^ d.exponent

theorem ten_zpow_pos (e : Int) : (0 : ℚ) < 10 ^ e := zpow_pos (by norm_num) e

theorem snd_ratio_pos (d : Decimal) : 0 < d.ratio.2 := by
  rw [ratio]
  split
  · exact Nat.one_pos
  · exact Nat.pow_pos (by decide)

theorem ratio_eq_value (d : Decimal) : (d.ratio.1 : ℚ) / d.ratio.2 = d.value := by
  obtain ⟨digits, e⟩ := d
  rw [ratio, value]
  dsimp only
  split
  · rename_i h
    obtain ⟨k, rfl⟩ := Int.eq_ofNat_of_zero_le h
    simp only [Int.toNat_natCast, Nat.pow_eq]
    push_cast
    rw [zpow_natCast]
    ring
  · rename_i h
    obtain ⟨k, hk⟩ := Int.eq_ofNat_of_zero_le (show 0 ≤ -e by omega)
    obtain rfl : e = -(k : Int) := by omega
    simp only [neg_neg, Int.toNat_natCast, Nat.pow_eq]
    push_cast
    rw [zpow_neg, zpow_natCast]
    field_simp

theorem le_value_of_exponent {d : Decimal} (hdigits : d.digits ≠ 0) (h : 310 ≤ d.exponent) :
    2 ^ (1024 : Int) ≤ d.value := by
  have hone : (1 : ℚ) ≤ d.digits := by exact_mod_cast Nat.pos_of_ne_zero hdigits
  calc (2 : ℚ) ^ (1024 : Int) ≤ 10 ^ (310 : Int) := by
        have hpow : 2 ^ 1024 ≤ 10 ^ 310 := by decide +kernel
        exact_mod_cast hpow
    _ ≤ 10 ^ d.exponent := zpow_le_zpow_right₀ (by norm_num) h
    _ ≤ d.digits * 10 ^ d.exponent := le_mul_of_one_le_left (ten_zpow_pos _).le hone

theorem value_lt_of_exponent {d : Decimal} (h : d.exponent + (d.digits.log2 : Int) < -400) :
    d.value < 2 ^ (-1075 : Int) := by
  have hexponent : d.exponent ≤ -401 - (d.digits.log2 : Int) := by omega
  have htens : (10 : ℚ) ^ (-(d.digits.log2 : Int)) ≤ 2 ^ (-(d.digits.log2 : Int)) := by
    rw [zpow_neg, zpow_neg, zpow_natCast, zpow_natCast]
    have hpow : (2 : ℚ) ^ d.digits.log2 ≤ 10 ^ d.digits.log2 := by gcongr; norm_num
    gcongr
  calc d.value ≤ 2 ^ ((d.digits.log2 : Int) + 1) * 10 ^ (-401 - (d.digits.log2 : Int)) := by
        rw [value]
        gcongr
        · exact (lt_zpow_log2 d.digits).le
        · norm_num
    _ ≤ 2 ^ ((d.digits.log2 : Int) + 1) * (10 ^ (-401 : Int) * 2 ^ (-(d.digits.log2 : Int))) := by
        rw [sub_eq_add_neg, zpow_add₀ (by norm_num) (-401)]
        have := ten_zpow_pos (-401)
        gcongr
    _ = 2 * 10 ^ (-401 : Int) := by
        rw [zpow_add₀ (by norm_num), zpow_neg (2 : ℚ)]
        field_simp
    _ < 2 ^ (-1075 : Int) := by
        have hpow : 2 * 2 ^ 1075 < 10 ^ 401 := by decide +kernel
        rw [zpow_neg, zpow_neg, ← div_eq_mul_inv, div_lt_iff₀ (ten_zpow_pos 401),
          ← div_eq_inv_mul, lt_div_iff₀ (two_zpow_pos 1075)]
        exact_mod_cast hpow

/-- The bounds in `Decimal.nearestBits` only save work. -/
theorem nearestBits_eq (d : Decimal) :
    d.nearestBits = Number.nearestBits d.ratio.1 d.ratio.2 := by
  rw [nearestBits]
  split
  · rename_i h
    have hzero : d.ratio.1 = 0 := by
      rw [ratio, h]
      split <;> simp
    simp [Number.nearestBits, hzero]
  · rename_i hdigits
    split
    · rename_i h
      rw [nearestBits_eq_infinityBits (snd_ratio_pos d)]
      rw [ratio_eq_value]
      exact le_value_of_exponent hdigits h
    · split
      · rename_i h
        rw [nearestBits_eq_zero (snd_ratio_pos d)]
        rw [ratio_eq_value]
        exact value_lt_of_exponent h
      · rfl

theorem nearestBits_congr {d d' : Decimal} (h : d.value = d'.value) :
    d.nearestBits = d'.nearestBits := by
  rw [nearestBits_eq, nearestBits_eq]
  apply Number.nearestBits_congr (snd_ratio_pos d) (snd_ratio_pos d')
  rw [ratio_eq_value, ratio_eq_value, h]

theorem value_stripZeros (d : Decimal) : d.stripZeros.value = d.value := by
  fun_induction stripZeros d with
  | case1 d h => simp [value, h]
  | case2 d h hzero ih =>
    rw [ih, value, value, zpow_add₀ (by norm_num)]
    have hten : (d.digits : ℚ) = (d.digits / 10 : Nat) * 10 := by
      exact_mod_cast (Nat.div_mul_cancel (Nat.dvd_of_mod_eq_zero hzero)).symm
    rw [hten]
    ring
  | case3 d h hdigit => rfl

theorem value_exact (bits : Nat) : (exact bits).value = patternValue bits := by
  rw [exact, patternValue]
  split
  · rename_i h
    obtain ⟨k, hk⟩ := Int.eq_ofNat_of_zero_le h
    simp only [value, hk, Int.toNat_natCast, Nat.pow_eq, zpow_zero, mul_one, zpow_natCast]
    push_cast
    rfl
  · rename_i h
    obtain ⟨k, hk⟩ := Int.eq_ofNat_of_zero_le (show 0 ≤ -Number.exponent bits by omega)
    have he : Number.exponent bits = -(k : Int) := by omega
    simp only [value, he, neg_neg, Int.toNat_natCast, Nat.pow_eq, zpow_neg, zpow_natCast]
    push_cast
    rw [show (10 : ℚ) = 2 * 5 by norm_num, mul_pow]
    field_simp

theorem nearestBits_exact {bits : Nat} (h : bits < infinityBits) :
    (exact bits).nearestBits = bits := by
  rw [nearestBits_eq]
  apply nearestBits_of_eq_patternValue h (snd_ratio_pos _)
  rw [ratio_eq_value, value_exact]

theorem nearestBits_of_onGrid? {bits : Nat} {e : Int} {d : Decimal}
    (h : onGrid? bits e = some d) : d.nearestBits = bits := by
  have hchoice : ∀ near far : Decimal, (if near.nearestBits = bits then some near
      else if far.nearestBits = bits then some far else none) = some d →
      d.nearestBits = bits := by
    intro near far hsome
    split at hsome
    · rename_i hnear
      exact Option.some.inj hsome ▸ hnear
    · split at hsome
      · rename_i hfar
        exact Option.some.inj hsome ▸ hfar
      · cases hsome
  rw [onGrid?] at h
  split at h
  split at h
  · exact hchoice _ _ h
  · exact hchoice _ _ h

theorem nearestBits_shortest {bits : Nat} (h : bits < infinityBits) :
    (shortest bits).nearestBits = bits := by
  rw [shortest, nearestBits_congr (value_stripZeros _)]
  cases hfound : (List.range 17).findSome? fun n =>
      onGrid? bits (magnitude bits - (n + 1 : Nat)) with
  | none => exact nearestBits_exact h
  | some d =>
    obtain ⟨n, -, hd⟩ := List.exists_of_findSome?_eq_some hfound
    exact nearestBits_of_onGrid? hd

end Gridcalc.Number.Decimal
