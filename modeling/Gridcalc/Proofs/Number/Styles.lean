import Gridcalc.Document.SheetFile
import Gridcalc.Formula.Display
import Gridcalc.Proofs.Number.Legible
import Gridcalc.Proofs.Number.Order

/-! # The two styles of writing a number

The grid shows a number in one style, a sheet file hands it over in another. They write the same
text for small whole numbers and wherever both are positional, and for the smallest numbers, where
both write a power of ten with two digits or more.
-/

namespace Gridcalc.Number

open Text (isAsciiDigit)

variable {d : Decimal} {v : Float} {negative : Bool} {bits : Nat}

theorem signed_inj {cs cs' : List Char} :
    Layout.signed negative cs = Layout.signed negative cs' ↔ cs = cs' := by
  cases negative <;> simp [Layout.signed]

theorem positional_congr {e : Int} (h : e < 0) (b b' : Bool) (ds : List Char) :
    Layout.positional b ds e = Layout.positional b' ds e := by
  rw [Layout.positional, Layout.positional, if_neg (by omega), if_neg (by omega)]

theorem not_mem_positional (n : Nat) (e : Int) :
    'e' ∉ Layout.positional false (Nat.toDigits 10 n) e := by
  obtain ⟨d, hd, -⟩ := numeral_positional n e
  intro hmem
  exact absurd (hd.isNumeralChar_of_mem hmem) (by decide)

theorem mem_scientific (width : Nat) (ds : List Char) (e : Int) :
    'e' ∈ Layout.scientific width ds e := by
  simp [Layout.scientific]

theorem scientific_one_eq_two_iff (ds : List Char) (e : Int) :
    Layout.scientific 1 ds e = Layout.scientific 2 ds e ↔ 10 ≤ e.natAbs := by
  have hpos := Nat.length_toDigits_pos (b := 10) (n := e.natAbs)
  have hlength := Nat.length_toDigits_le_iff (b := 10) (n := e.natAbs) (k := 1) (by decide)
    (by decide)
  rw [Nat.pow_one] at hlength
  constructor
  · intro h
    have hcount := congrArg List.length h
    simp only [Layout.scientific, List.length_append, List.length_cons, List.length_replicate]
      at hcount
    omega
  · intro h
    rw [Layout.scientific, Layout.scientific, Nat.sub_eq_zero_of_le hpos,
      Nat.sub_eq_zero_of_le (show 2 ≤ (Nat.toDigits 10 e.natAbs).length by omega)]

theorem magnitudeChars_displayLayout (d : Decimal) :
    displayLayout.magnitudeChars d =
      if -6 ≤ d.leading ∧ d.leading ≤ 20 then
        Layout.positional false (Nat.toDigits 10 d.digits) d.exponent
      else Layout.scientific 1 (Nat.toDigits 10 d.digits) d.leading := by
  simp [Layout.magnitudeChars, displayLayout, Decimal.leading]

theorem magnitudeChars_floatLayout (d : Decimal) :
    Datum.floatLayout.magnitudeChars d =
      if -4 ≤ d.leading ∧ d.leading ≤ 15 then
        Layout.positional true (Nat.toDigits 10 d.digits) d.exponent
      else Layout.scientific 2 (Nat.toDigits 10 d.digits) d.leading := by
  simp [Layout.magnitudeChars, Datum.floatLayout, Decimal.leading]

/-- The digits of a fraction are laid out alike when they begin at the fourth place behind the
point or before it, or behind the ninth. -/
theorem magnitudeChars_eq_iff (hexponent : d.exponent < 0) (hleading : d.leading ≤ 15) :
    displayLayout.magnitudeChars d = Datum.floatLayout.magnitudeChars d ↔
      d.leading < -9 ∨ -4 ≤ d.leading := by
  rw [magnitudeChars_displayLayout, magnitudeChars_floatLayout]
  by_cases hfloat : -4 ≤ d.leading
  · rw [if_pos (by omega), if_pos ⟨hfloat, hleading⟩]
    exact iff_of_true (positional_congr hexponent false true _) (.inr hfloat)
  · rw [if_neg (show ¬(-4 ≤ d.leading ∧ d.leading ≤ 15) by omega)]
    by_cases hdisplay : -6 ≤ d.leading
    · rw [if_pos (by omega)]
      refine iff_of_false (fun h => ?_) (by omega)
      have hletter := not_mem_positional d.digits d.exponent
      rw [h] at hletter
      exact hletter (mem_scientific 2 _ _)
    · rw [if_neg (by omega), scientific_one_eq_two_iff]
      omega

def turningPoints : List Int := [-9, -4, 16, 21]

theorem decade_of_mem {k : Int} (h : k ∈ turningPoints) : Decimal.Decade k := by
  have hfinite : ∀ k ∈ turningPoints, (⟨1, k⟩ : Decimal).nearestBits < infinityBits := by
    decide +kernel
  have hshortest : ∀ k ∈ turningPoints,
      Decimal.shortest (⟨1, k⟩ : Decimal).nearestBits = ⟨1, k⟩ := by
    decide +kernel
  have hupwards : ∀ k ∈ turningPoints, (⟨1, k⟩ : Decimal).ratio.1 *
      (Decimal.exact (⟨1, k⟩ : Decimal).nearestBits).ratio.2 ≤
        (Decimal.exact (⟨1, k⟩ : Decimal).nearestBits).ratio.1 * (⟨1, k⟩ : Decimal).ratio.2 := by
    decide +kernel
  exact ⟨hfinite k h, hshortest k h, Decimal.value_le_iff.mpr (hupwards k h)⟩

theorem exponent_shortest_neg (hbits : bits < infinityBits) (h : isWhole bits = false) :
    (Decimal.shortest bits).exponent < 0 := by
  by_contra hexponent
  rw [not_lt] at hexponent
  have hread := Decimal.nearestBits_shortest hbits
  rw [Decimal.nearestBits_eq, Decimal.ratio, if_pos hexponent] at hread
  have hwhole := isWhole_nearestBits (hread.trans_lt hbits)
  rw [hread, h] at hwhole
  cases hwhole

theorem patternValue_lt_of_fraction (h : isWhole bits = false) : patternValue bits < 2 ^ 52 := by
  have hexponent : exponent bits ≤ -1 := by
    by_contra hlt
    rw [isWhole_of_exponent (by omega)] at h
    cases h
  have hsignificand : significand bits < 2 ^ 53 := by
    rw [significand]
    simp only [show Nat.pow 2 52 = 2 ^ 52 from rfl]
    split <;> omega
  calc patternValue bits ≤ significand bits * 2 ^ (-1 : Int) :=
        mul_le_mul_of_nonneg_left (zpow_le_zpow_right₀ (by norm_num) hexponent) (Nat.cast_nonneg _)
    _ < ((2 ^ 53 : Nat) : ℚ) * 2 ^ (-1 : Int) := by
        have hcast : (significand bits : ℚ) < ((2 ^ 53 : Nat) : ℚ) := by exact_mod_cast hsignificand
        exact mul_lt_mul_of_pos_right hcast (two_zpow_pos _)
    _ = 2 ^ 52 := by norm_num

theorem ne_zero_of_fraction (h : isWhole bits = false) : bits ≠ 0 := by
  rintro rfl
  exact absurd h (by decide +kernel)

theorem leading_le_of_fraction (hbits : bits < infinityBits) (h : isWhole bits = false) :
    (Decimal.shortest bits).leading ≤ 15 := by
  by_contra hlt
  have hdecade : Decimal.Decade 16 := decade_of_mem (by decide)
  have hle := (Decimal.le_leading_shortest_iff hdecade hbits (ne_zero_of_fraction h)).mp (by omega)
  exact absurd (hle.trans_lt (patternValue_lt_of_fraction h)) (by norm_num)

theorem alike_iff_of_whole (h : isWhole bits = true) :
    (patternValue bits < 10 ^ (-9 : Int) ∨
        10 ^ (-4 : Int) ≤ patternValue bits ∧ patternValue bits < 10 ^ (21 : Int)) ↔
      wholePart bits < 10 ^ 21 := by
  rw [patternValue_eq_wholePart h]
  rcases Nat.eq_zero_or_pos (wholePart bits) with hzero | hpos
  · rw [hzero]
    exact iff_of_true (.inl (by norm_num)) (by norm_num)
  · have hone : (1 : ℚ) ≤ wholePart bits := by exact_mod_cast hpos
    have hnine : ¬(wholePart bits : ℚ) < 10 ^ (-9 : Int) := (le_trans (by norm_num) hone).not_gt
    have hfour : 10 ^ (-4 : Int) ≤ (wholePart bits : ℚ) := le_trans (by norm_num) hone
    rw [or_iff_right hnine, and_iff_right hfour]
    norm_cast

section Texts

variable (h : shape v = .finite negative bits)

include h

theorem typedText_of_whole (hwhole : isWhole bits = true) :
    SheetFile.typedText (.float v) = String.ofList
      (Layout.signed (negative && wholePart bits != 0) (Nat.toDigits 10 (wholePart bits))) := by
  have hinteger : (Datum.float v).integer? =
      some (if negative then -(wholePart bits : Int) else wholePart bits) := by
    simp only [Datum.integer?, h, hwhole, if_true]
  simp only [SheetFile.typedText, hinteger]
  cases negative with
  | false => rfl
  | true =>
    cases wholePart bits with
    | zero => rfl
    | succ n =>
      apply String.toList_injective
      change ("-" ++ Nat.repr (n + 1)).toList = _
      simp [Layout.signed]

theorem typedText_of_fraction (hwhole : isWhole bits = false) :
    SheetFile.typedText (.float v) = String.ofList
      (Layout.signed negative (Datum.floatLayout.magnitudeChars (Decimal.shortest bits))) := by
  have hinteger : (Datum.float v).integer? = none := by
    simp only [Datum.integer?, h, hwhole, Bool.false_eq_true, if_false]
  have hchars : Datum.floatLayout.chars v =
      Layout.signed negative (Datum.floatLayout.magnitudeChars (Decimal.shortest bits)) := by
    simp only [Layout.chars, h, hwhole, Bool.false_and, Bool.false_eq_true, if_false]
  simp only [SheetFile.typedText, hinteger]
  rw [← hchars]
  rfl

theorem exists_typedText (hzero : v ≠ -0.0) :
    ∃ cs d, Legible cs d ∧ d.toFloat negative = v ∧
      SheetFile.typedText (.float v) = String.ofList (Layout.signed negative cs) := by
  have hbits := lt_infinityBits_of_shape h
  cases hwhole : isWhole bits with
  | true =>
    obtain ⟨d, hd, hnearest⟩ := exists_legible_wholePart hbits hwhole
    refine ⟨_, d, hd, toFloat_of_nearestBits h hnearest, ?_⟩
    rw [typedText_of_whole h hwhole, sign_eq h hzero hwhole]
  | false =>
    obtain ⟨d, hd, hnearest⟩ := exists_legible_shortest Datum.floatLayout hbits
    exact ⟨_, d, hd, toFloat_of_nearestBits h hnearest, typedText_of_fraction h hwhole⟩

theorem displayNumber_ne_typedText (hwhole : isWhole bits = true)
    (hlarge : 10 ^ 21 ≤ wholePart bits) : displayNumber v ≠ SheetFile.typedText (.float v) := by
  have hbits := lt_infinityBits_of_shape h
  have hnonzero : wholePart bits ≠ 0 := by omega
  have hvalue : (10 : ℚ) ^ (21 : Int) ≤ patternValue bits := by
    rw [patternValue_eq_wholePart hwhole]
    exact_mod_cast hlarge
  have hleading := (Decimal.le_leading_shortest_iff (decade_of_mem (by decide)) hbits
    (mt (wholePart_eq_zero_iff hbits hwhole).mpr hnonzero)).mpr hvalue
  rw [typedText_of_whole h hwhole, displayNumber_of_not_small h fun _ => hlarge,
    magnitudeChars_displayLayout, if_neg (by omega), bne_iff_ne.mpr hnonzero, Bool.and_true,
    ne_eq, String.ofList_inj, signed_inj]
  intro hsame
  have hletter := mem_scientific 1 (Nat.toDigits 10 (Decimal.shortest bits).digits)
    (Decimal.shortest bits).leading
  rw [hsame] at hletter
  exact absurd (Text.isAsciiDigit_of_mem_toDigits hletter) (by decide)

/-- A double is handed over as the grid shows it when it is below `10 ^ (-9)`, or is at least
`10 ^ (-4)` and below `10 ^ 21`, and at no other time. -/
theorem displayNumber_eq_typedText_iff :
    displayNumber v = SheetFile.typedText (.float v) ↔
      patternValue bits < 10 ^ (-9 : Int) ∨
        10 ^ (-4 : Int) ≤ patternValue bits ∧ patternValue bits < 10 ^ (21 : Int) := by
  have hbits := lt_infinityBits_of_shape h
  cases hwhole : isWhole bits with
  | true =>
    rw [alike_iff_of_whole hwhole]
    constructor
    · intro hsame
      by_contra hlarge
      exact displayNumber_ne_typedText h hwhole (Nat.not_lt.mp hlarge) hsame
    · intro hsmall
      rw [typedText_of_whole h hwhole, displayNumber_of_small h hwhole hsmall]
  | false =>
    have hpos := ne_zero_of_fraction hwhole
    have hupper := patternValue_lt_of_fraction hwhole
    have hexponent := exponent_shortest_neg hbits hwhole
    have hleading := leading_le_of_fraction hbits hwhole
    rw [typedText_of_fraction h hwhole, displayNumber_of_not_small h (by simp [hwhole]),
      String.ofList_inj, signed_inj, magnitudeChars_eq_iff hexponent hleading,
      Decimal.le_leading_shortest_iff (decade_of_mem (by decide)) hbits hpos, ← not_le,
      Decimal.le_leading_shortest_iff (decade_of_mem (by decide)) hbits hpos, not_le,
      and_iff_left (hupper.trans (by norm_num))]

end Texts

end Gridcalc.Number
