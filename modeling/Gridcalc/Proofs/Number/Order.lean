import Gridcalc.Proofs.Number.Shortest

/-! # The order of the doubles

Rounding keeps the order of the quotients, so patterns are ordered as their magnitudes are. It
follows where the leading digit of the shortest digits stands: at a power of ten or above exactly
when the double is, for the powers that are rounded up to a double whose only digit is a one.
-/

namespace Gridcalc.Number

variable {num den num' den' bits bits' : Nat}

theorem roundEven_le_of_num_le (h : num ≤ num') : roundEven num den ≤ roundEven num' den := by
  have hfloor : num / den ≤ num' / den := Nat.div_le_div_right h
  have hup : roundEven num den ≤ num / den + 1 := by
    rw [roundEven]
    split_ifs <;> omega
  rcases Nat.lt_or_eq_of_le hfloor with hlt | heq
  · exact (hup.trans hlt).trans (div_le_roundEven num' den)
  · have hrest : num % den ≤ num' % den := by
      have hnum := Nat.div_add_mod num den
      have hnum' := Nat.div_add_mod num' den
      rw [heq] at hnum
      omega
    simp only [roundEven, heq]
    split_ifs <;> omega

theorem roundEven_mono (hden : 0 < den) (hden' : 0 < den')
    (h : (num : ℚ) / den ≤ num' / den') : roundEven num den ≤ roundEven num' den' := by
  rw [div_le_div_iff₀ (by positivity) (by positivity)] at h
  have hcross : num * den' ≤ num' * den := by exact_mod_cast h
  rw [← roundEven_mul hden' num den, ← roundEven_mul hden num' den', Nat.mul_comm den']
  exact roundEven_le_of_num_le hcross

theorem roundEven_le {m : Nat} (hden : 0 < den) (h : (num : ℚ) / den ≤ m) :
    roundEven num den ≤ m := by
  rw [← roundEven_one m]
  exact roundEven_mono hden Nat.one_pos (by simpa using h)

theorem le_roundEven {m : Nat} (hden : 0 < den) (h : (m : ℚ) ≤ num / den) :
    m ≤ roundEven num den := by
  rw [← roundEven_one m]
  exact roundEven_mono Nat.one_pos hden (by simpa using h)

theorem gridExponent_mono {x y : ℚ} (hx : 0 < x) (h : x ≤ y) : gridExponent x ≤ gridExponent y :=
  max_le_max (Int.sub_le_sub_right (Int.log_mono_right hx h) 52) le_rfl

theorem lt_zpow_gridExponent {x : ℚ} (hx : 0 < x) : x < 2 ^ (gridExponent x + 53) := by
  have hlog : Int.log 2 x < gridExponent x + 53 := by
    rw [gridExponent]
    omega
  exact_mod_cast (Int.lt_zpow_iff_log_lt (by decide) hx).mpr hlog

theorem zpow_gridExponent_le {x : ℚ} (hx : 0 < x) (h : -1074 < gridExponent x) :
    2 ^ (gridExponent x + 52) ≤ x := by
  have hlog : gridExponent x + 52 ≤ Int.log 2 x := by
    rw [gridExponent] at h ⊢
    omega
  exact_mod_cast (Int.zpow_le_iff_le_log (by decide) hx).mpr hlog

/-- The significand to which a quotient is rounded. -/
def roundedSignificand (num den : Nat) : Nat :=
  roundEven (scaled num den (-gridExponent ((num : ℚ) / den))).1
    (scaled num den (-gridExponent ((num : ℚ) / den))).2

theorem nearestBits_eq_grid (hnum : 0 < num) (hden : 0 < den) :
    nearestBits num den = min ((gridExponent ((num : ℚ) / den) + 1074).toNat * 2 ^ 52 +
      roundedSignificand num den) infinityBits :=
  nearestBits_eq_min hnum hden

theorem roundedSignificand_le (hnum : 0 < num) (hden : 0 < den) :
    roundedSignificand num den ≤ 2 ^ 53 := by
  have hx : (0 : ℚ) < num / den := by positivity
  have hlt := lt_zpow_gridExponent hx
  rw [roundedSignificand]
  generalize gridExponent ((num : ℚ) / den) = q at *
  refine roundEven_le (snd_scaled_pos hden _) ?_
  rw [scaled_ratio, zpow_neg, ← div_eq_mul_inv, div_le_iff₀ (two_zpow_pos q)]
  refine hlt.le.trans_eq ?_
  rw [Int.add_comm, zpow_add₀ (by norm_num)]
  norm_cast

theorem le_roundedSignificand (hnum : 0 < num) (hden : 0 < den)
    (h : -1074 < gridExponent ((num : ℚ) / den)) : 2 ^ 52 ≤ roundedSignificand num den := by
  have hx : (0 : ℚ) < num / den := by positivity
  have hle := zpow_gridExponent_le hx h
  rw [roundedSignificand]
  generalize gridExponent ((num : ℚ) / den) = q at *
  refine le_roundEven (snd_scaled_pos hden _) ?_
  rw [scaled_ratio, zpow_neg, ← div_eq_mul_inv, le_div_iff₀ (two_zpow_pos q)]
  refine le_of_eq_of_le ?_ hle
  rw [Int.add_comm, zpow_add₀ (by norm_num)]
  norm_cast

theorem nearestBits_mono (hden : 0 < den) (hden' : 0 < den')
    (h : (num : ℚ) / den ≤ num' / den') : nearestBits num den ≤ nearestBits num' den' := by
  rcases Nat.eq_zero_or_pos num with rfl | hnum
  · simp [nearestBits]
  · have hx : (0 : ℚ) < num / den := by positivity
    have hnum' : 0 < num' := by
      rw [Nat.pos_iff_ne_zero]
      rintro rfl
      rw [Nat.cast_zero, zero_div] at h
      exact absurd hx h.not_gt
    rw [nearestBits_eq_grid hnum hden, nearestBits_eq_grid hnum' hden']
    refine min_le_min_right _ ?_
    have hleast : -1074 ≤ gridExponent ((num : ℚ) / den) := le_max_right _ _
    rcases (gridExponent_mono hx h).eq_or_lt with heq | hlt
    · rw [← heq, roundedSignificand, roundedSignificand, ← heq]
      apply Nat.add_le_add_left
      apply roundEven_mono (snd_scaled_pos hden _) (snd_scaled_pos hden' _)
      rw [scaled_ratio, scaled_ratio]
      exact mul_le_mul_of_nonneg_right h (two_zpow_pos _).le
    · -- On the coarser grid there is room for all the significands of the finer one.
      have hfine := roundedSignificand_le hnum hden
      have hcoarse := le_roundedSignificand hnum' hden' (hleast.trans_lt hlt)
      omega

theorem Decimal.nearestBits_mono {d d' : Decimal} (h : d.value ≤ d'.value) :
    d.nearestBits ≤ d'.nearestBits := by
  rw [nearestBits_eq, nearestBits_eq]
  apply Number.nearestBits_mono (snd_ratio_pos d) (snd_ratio_pos d')
  rwa [ratio_eq_value, ratio_eq_value]

theorem patternValue_le_iff (h : bits < infinityBits) (h' : bits' < infinityBits) :
    patternValue bits ≤ patternValue bits' ↔ bits ≤ bits' := by
  have hmono : ∀ {b b' : Nat}, b < infinityBits → b' < infinityBits →
      patternValue b ≤ patternValue b' → b ≤ b' := by
    intro b b' hb hb' hle
    rw [← Decimal.nearestBits_exact hb, ← Decimal.nearestBits_exact hb']
    apply Decimal.nearestBits_mono
    rwa [Decimal.value_exact, Decimal.value_exact]
  refine ⟨hmono h h', fun hle => ?_⟩
  by_contra hlt
  rw [not_le] at hlt
  obtain rfl := Nat.le_antisymm hle (hmono h' h hlt.le)
  exact lt_irrefl _ hlt

namespace Decimal

/-- The power of ten of the first digit. -/
def leading (d : Decimal) : Int := d.exponent + (Nat.toDigits 10 d.digits).length - 1

theorem value_le_iff {d d' : Decimal} :
    d.value ≤ d'.value ↔ d.ratio.1 * d'.ratio.2 ≤ d'.ratio.1 * d.ratio.2 := by
  have hd : (0 : ℚ) < d.ratio.2 := by exact_mod_cast snd_ratio_pos d
  have hd' : (0 : ℚ) < d'.ratio.2 := by exact_mod_cast snd_ratio_pos d'
  rw [← ratio_eq_value, ← ratio_eq_value, div_le_div_iff₀ hd hd']
  norm_cast

theorem value_power (k : Int) : (⟨1, k⟩ : Decimal).value = 10 ^ k := by
  rw [value, Nat.cast_one, one_mul]

theorem le_leading_iff_value {d : Decimal} (h : d.digits ≠ 0) (k : Int) :
    k ≤ d.leading ↔ 10 ^ k ≤ d.value := by
  have hpos := Nat.length_toDigits_pos (b := 10) (n := d.digits)
  -- The digits are below a power of ten exactly if there are no more of them than its exponent.
  have hlength : ∀ m : Nat, (Nat.toDigits 10 d.digits).length ≤ m ↔ d.digits < 10 ^ m := by
    intro m
    rcases Nat.eq_zero_or_pos m with rfl | hm
    · omega
    · exact Nat.length_toDigits_le_iff (by decide) hm
  rw [leading, value, ← div_le_iff₀ (ten_zpow_pos d.exponent), ← zpow_sub₀ (by norm_num)]
  by_cases hk : k ≤ d.exponent
  · have hone : (1 : ℚ) ≤ d.digits := by exact_mod_cast Nat.one_le_iff_ne_zero.mpr h
    have hpower : (10 : ℚ) ^ (k - d.exponent) ≤ 1 := zpow_le_one_of_nonpos₀ (by norm_num) (by omega)
    exact iff_of_true (by omega) (hpower.trans hone)
  · obtain ⟨m, hm⟩ := Int.eq_ofNat_of_zero_le (show 0 ≤ k - d.exponent by omega)
    have hcast : (10 : ℚ) ^ m ≤ d.digits ↔ 10 ^ m ≤ d.digits := by norm_cast
    rw [hm, zpow_natCast, hcast, ← Nat.not_lt, ← hlength m]
    omega

theorem digits_shortest_ne_zero (hbits : bits < infinityBits) (hpos : bits ≠ 0) :
    (shortest bits).digits ≠ 0 := by
  intro hzero
  have hread := nearestBits_shortest hbits
  rw [nearestBits, if_pos hzero] at hread
  exact hpos hread.symm

/-- The power of ten is rounded upwards, if at all, to a double whose only digit is a one. -/
structure Decade (k : Int) : Prop where
  finite : (⟨1, k⟩ : Decimal).nearestBits < infinityBits
  shortest : shortest (⟨1, k⟩ : Decimal).nearestBits = ⟨1, k⟩
  upwards : (⟨1, k⟩ : Decimal).value ≤ (exact (⟨1, k⟩ : Decimal).nearestBits).value

/-- The shortest digits of a double begin at such a power or above exactly when the double is not
below it. -/
theorem le_leading_shortest_iff {k : Int} (hk : Decade k) (hbits : bits < infinityBits)
    (hpos : bits ≠ 0) : k ≤ (Decimal.shortest bits).leading ↔ 10 ^ k ≤ patternValue bits := by
  have hread := nearestBits_shortest hbits
  rw [le_leading_iff_value (digits_shortest_ne_zero hbits hpos), ← value_power]
  constructor
  · intro hvalue
    have hle := nearestBits_mono hvalue
    rw [hread] at hle
    calc (⟨1, k⟩ : Decimal).value ≤ (exact (⟨1, k⟩ : Decimal).nearestBits).value := hk.upwards
      _ = patternValue (⟨1, k⟩ : Decimal).nearestBits := value_exact _
      _ ≤ patternValue bits := (patternValue_le_iff hk.finite hbits).mpr hle
  · intro hvalue
    by_contra hlt
    rw [not_le] at hlt
    rw [← value_exact] at hvalue
    have hle := nearestBits_mono hlt.le
    have hge := nearestBits_mono hvalue
    rw [hread] at hle
    rw [nearestBits_exact hbits] at hge
    rw [Nat.le_antisymm hle hge, hk.shortest] at hlt
    exact lt_irrefl _ hlt

end Decimal

theorem isWhole_of_exponent (h : 0 ≤ exponent bits) : isWhole bits = true := by
  simp [isWhole, h]

theorem exponent_of_grid {g m : Nat} (hle : 2 ^ 52 ≤ m) (hlt : m < 2 ^ 53) :
    exponent (g * 2 ^ 52 + m) = g - 1074 ∧ significand (g * 2 ^ 52 + m) = m := by
  rw [exponent, significand]
  simp only [show Nat.pow 2 52 = 2 ^ 52 from rfl]
  rw [if_neg (by omega), if_neg (by omega)]
  omega

theorem isWhole_nearestBits {n : Nat} (h : nearestBits n 1 < infinityBits) :
    isWhole (nearestBits n 1) = true := by
  rcases Nat.eq_zero_or_pos n with rfl | hn
  · decide +kernel
  · have hlow : -52 ≤ gridExponent ((n : ℚ) / (1 : Nat)) := by
      have hone : (1 : ℚ) ≤ (n : ℚ) / (1 : Nat) := by
        rw [Nat.cast_one, div_one]
        exact_mod_cast hn
      have hlog := Int.log_mono_right (b := 2) one_pos hone
      rw [Int.log_one_right] at hlog
      rw [gridExponent]
      omega
    have hlt := lt_zpow_gridExponent (show (0 : ℚ) < (n : ℚ) / (1 : Nat) by positivity)
    have hsignificand := le_roundedSignificand hn Nat.one_pos (by omega)
    rw [nearestBits_eq_grid hn Nat.one_pos] at h ⊢
    rw [min_eq_left (by omega)]
    rw [roundedSignificand] at *
    generalize gridExponent ((n : ℚ) / (1 : Nat)) = q at *
    by_cases hq : 0 ≤ q
    · apply isWhole_of_exponent
      rw [exponent]
      simp only [show Nat.pow 2 52 = 2 ^ 52 from rfl]
      rw [if_neg (by omega)]
      omega
    · -- Below `2 ^ 52` the grid is so fine that the number itself lies on it.
      obtain ⟨k, hk⟩ := Int.eq_ofNat_of_zero_le (show 0 ≤ -q by omega)
      have hscaled : scaled n 1 (-q) = (n * 2 ^ k, 1) := by
        rw [scaled, if_pos (by omega), hk, Int.toNat_natCast, Nat.pow_eq]
      have hbound : n * 2 ^ k < 2 ^ 53 := by
        rw [Nat.cast_one, div_one, Int.add_comm, zpow_add₀ (by norm_num), ← neg_neg q, hk, zpow_neg,
          ← div_eq_mul_inv, lt_div_iff₀ (two_zpow_pos _)] at hlt
        exact_mod_cast hlt
      rw [hscaled, roundEven_one] at hsignificand ⊢
      dsimp only at hsignificand ⊢
      obtain ⟨hexponent, hvalue⟩ := exponent_of_grid (g := (q + 1074).toNat) hsignificand hbound
      have hgrid : exponent ((q + 1074).toNat * 2 ^ 52 + n * 2 ^ k) = q := by omega
      simp only [isWhole, hgrid, hvalue, hk, Int.toNat_natCast, Nat.pow_eq, Nat.mul_mod_left,
        beq_self_eq_true, Bool.or_true]

end Gridcalc.Number
