import Gridcalc.Formula.Display
import Gridcalc.Proofs.Json.Number
import Gridcalc.Proofs.Text.Blank

/-! # Numbers that are read to their end

The reader of numbers takes a text whole when it is a numeral with perhaps a power of ten. Both
layouts write numbers so, with digits from which the same double is read again.
-/

namespace Gridcalc.Number

open Text (Stops isBlank isDigit isAsciiDigit stops_cons)

/-- The text begins with a digit, has no blanks, and is read to its end as the decimal fraction. -/
structure Legible (cs : List Char) (d : Decimal) : Prop where
  head : ∃ c tail, cs = c :: tail ∧ isAsciiDigit c = true
  plain : ∀ c ∈ cs, isBlank c = false
  read : takeDecimal? cs = some (d, [])

variable {cs : List Char} {d : Decimal} {v : Float} {negative : Bool} {bits : Nat}

theorem legible_of_spelled (hhead : ∃ c tail, cs = c :: tail ∧ isAsciiDigit c = true)
    (h : DecimalSpelled cs d) : Legible cs d where
  head := hhead
  plain c hc := ((h.signed false).isBlank_of_mem c hc).1
  read := h.takeDecimal?_self

theorem Numeral.legible (h : Numeral cs d) : Legible cs d :=
  legible_of_spelled h.exists_head h.spelled

theorem spelled_of_double (h : Json.Double cs d) : DecimalSpelled cs d := by
  cases h with
  | fraction hds hne hfs => exact (Numeral.fraction hds.ne_nil hds.digits hfs).spelled
  | @power ds fs es mark hds hfs hmark hne hes =>
    have hwide : ∀ {cs : List Char}, (∀ c ∈ cs, isAsciiDigit c = true) →
        ∀ c ∈ cs, isDigit c = true :=
      fun h c hc => Text.isDigit_of_isAsciiDigit (h c hc)
    have hsign : SignSpelled [mark] (mark == '-') := by
      rcases hmark with rfl | rfl
      · exact .minus
      · exact .plus
    have hpower := PowerSpelled.power (.inl rfl : 'e' = 'e' ∨ 'e' = 'E') hsign hne (hwide hes)
    split
    · rename_i hnone
      subst hnone
      exact .mk (.whole hds.ne_nil (hwide hds.digits)) hpower
    · have hpoint := MantissaSpelled.point (.inl hds.ne_nil) (hwide hds.digits) (hwide hfs)
      have hdecimal := DecimalSpelled.mk hpoint hpower
      rwa [List.append_assoc] at hdecimal

theorem legible_of_double (h : Json.Double cs d) : Legible cs d := by
  refine legible_of_spelled ?_ (spelled_of_double h)
  cases h with
  | fraction hds hne hfs => exact (Numeral.fraction hds.ne_nil hds.digits hfs).exists_head
  | power hds hfs hsign hne hes =>
    obtain ⟨c, tail, rfl⟩ := List.exists_cons_of_ne_nil hds.ne_nil
    exact ⟨c, _, List.cons_append, hds.digits c List.mem_cons_self⟩

namespace Legible

theorem isBlank_of_mem_signed (h : Legible cs d) {c : Char} (hc : c ∈ Layout.signed negative cs) :
    isBlank c = false := by
  cases negative with
  | false => exact h.plain c hc
  | true =>
    rcases List.mem_cons.mp hc with rfl | hc
    · decide
    · exact h.plain c hc

theorem takeNumber?_signed (h : Legible cs d) (negative : Bool) :
    takeNumber? (Layout.signed negative cs) = some (d.toFloat negative, []) := by
  obtain ⟨c, tail, rfl, hc⟩ := h.head
  have hstop : Stops isBlank (Layout.signed negative (c :: tail)) :=
    fun c hc => h.isBlank_of_mem_signed (List.mem_of_mem_head? hc)
  have hsign : takeSign (Layout.signed negative (c :: tail)) = (negative, c :: tail) := by
    cases negative with
    | true => rfl
    | false =>
      exact SignSpelled.none.takeSign_append
        (stops_cons (isSign_of_isDigit (Text.isDigit_of_isAsciiDigit hc)))
  have hword : infinityWord.isPrefixOf (c :: tail) = false := by
    have hall : ∀ c ∈ Text.asciiDigits, ('I' == c) = false := by decide
    have hcons : infinityWord = 'I' :: infinityWord.tail := by decide
    rw [hcons, List.isPrefixOf_cons_cons, hall c (Text.mem_asciiDigits hc), Bool.false_and]
  simp only [takeNumber?, Text.dropWhile_of_stops hstop, hsign, hword, h.read]
  rfl

theorem numericPrefix?_signed (h : Legible cs d) (negative : Bool) :
    numericPrefix? (String.ofList (Layout.signed negative cs)) = some (d.toFloat negative) := by
  rw [numericPrefix?, String.toList_ofList, h.takeNumber?_signed]
  rfl

theorem trim_signed (h : Legible cs d) (negative : Bool) :
    Text.trim (String.ofList (Layout.signed negative cs)) =
      String.ofList (Layout.signed negative cs) := by
  rw [Text.trim, String.toList_ofList, Text.trimChars_eq_self]
  · exact fun c hc => h.isBlank_of_mem_signed (List.mem_of_mem_head? hc)
  · exact fun c hc => h.isBlank_of_mem_signed (List.mem_reverse.mp (List.mem_of_mem_head? hc))

end Legible

theorem exists_legible_magnitudeChars (l : Layout) (h : d.digits = 0 → d.exponent = 0) :
    ∃ d' : Decimal, Legible (l.magnitudeChars d) d' ∧ d'.value = d.value := by
  rw [Layout.magnitudeChars]
  split
  · cases l.pointZero with
    | true =>
      obtain ⟨d', hd', hvalue⟩ := Json.double_positional h
      exact ⟨d', legible_of_double hd', hvalue⟩
    | false =>
      obtain ⟨d', hd', hvalue⟩ := numeral_positional d.digits d.exponent
      exact ⟨d', hd'.legible, hvalue⟩
  · obtain ⟨d', hd', hvalue⟩ := Json.double_scientific l.exponentWidth d.digits d.exponent
    exact ⟨d', legible_of_double hd', hvalue⟩

/-- The shortest digits of a double are read as that double again, however they are laid out. -/
theorem exists_legible_shortest (l : Layout) (h : bits < infinityBits) :
    ∃ d, Legible (l.magnitudeChars (Decimal.shortest bits)) d ∧ d.nearestBits = bits := by
  obtain ⟨d, hd, hvalue⟩ := exists_legible_magnitudeChars l (Json.shortest_exponent bits)
  exact ⟨d, hd, (Decimal.nearestBits_congr hvalue).trans (Decimal.nearestBits_shortest h)⟩

theorem patternValue_eq_wholePart (h : isWhole bits = true) :
    patternValue bits = wholePart bits := by
  rw [patternValue, wholePart]
  simp only [isWhole, Bool.or_eq_true, decide_eq_true_eq, beq_iff_eq, Nat.pow_eq] at h ⊢
  split
  · rename_i he
    obtain ⟨k, hk⟩ := Int.eq_ofNat_of_zero_le he
    rw [hk, Int.toNat_natCast, zpow_natCast]
    push_cast
    rfl
  · rename_i he
    obtain ⟨k, hk⟩ := Int.eq_ofNat_of_zero_le (show 0 ≤ -exponent bits by omega)
    have hexponent : exponent bits = -(k : Int) := by omega
    have hzero := h.resolve_left he
    rw [hk, Int.toNat_natCast] at hzero ⊢
    have hdvd := Nat.div_mul_cancel (Nat.dvd_of_mod_eq_zero hzero)
    rw [hexponent, zpow_neg, zpow_natCast, ← div_eq_mul_inv, div_eq_iff (by positivity)]
    exact_mod_cast hdvd.symm

theorem exists_legible_wholePart (hbits : bits < infinityBits) (hwhole : isWhole bits = true) :
    ∃ d, Legible (Nat.toDigits 10 (wholePart bits)) d ∧ d.nearestBits = bits := by
  have hnumeral := Numeral.whole (Nat.toDigits_ne_nil (b := 10) (n := wholePart bits))
    fun c hc => Text.isAsciiDigit_of_mem_toDigits hc
  refine ⟨_, hnumeral.legible, ?_⟩
  rw [Decimal.nearestBits_eq]
  apply nearestBits_of_eq_patternValue hbits (Decimal.snd_ratio_pos _)
  rw [Decimal.ratio_eq_value, Decimal.value, Text.digitsValue_toDigits, zpow_zero, mul_one,
    patternValue_eq_wholePart hwhole]

theorem wholePart_eq_zero_iff (hbits : bits < infinityBits) (h : isWhole bits = true) :
    wholePart bits = 0 ↔ bits = 0 := by
  constructor
  · intro hzero
    have hvalue := patternValue_eq_wholePart h
    rw [hzero, Nat.cast_zero] at hvalue
    have hnearest : nearestBits 0 1 = bits :=
      nearestBits_of_eq_patternValue hbits Nat.one_pos (by simp [hvalue])
    rw [← hnearest, nearestBits, if_pos rfl]
  · rintro rfl
    decide +kernel

section Shown

variable (h : shape v = .finite negative bits)

include h

theorem sign_eq (hzero : v ≠ -0.0) (hwhole : isWhole bits = true) :
    (negative && wholePart bits != 0) = negative := by
  cases negative with
  | false => rfl
  | true =>
    rw [Bool.true_and, bne_iff_ne, ne_eq, wholePart_eq_zero_iff (lt_infinityBits_of_shape h) hwhole]
    rintro rfl
    exact hzero ((ofBits_of_shape h).symm.trans (by decide +kernel))

theorem toFloat_of_nearestBits (hd : d.nearestBits = bits) : d.toFloat negative = v := by
  rw [Decimal.toFloat, hd, ofBits_of_shape h]

theorem displayNumber_of_small (hwhole : isWhole bits = true) (hsmall : wholePart bits < 10 ^ 21) :
    displayNumber v = String.ofList
      (Layout.signed (negative && wholePart bits != 0) (Nat.toDigits 10 (wholePart bits))) := by
  have hbelow : decide (wholePart bits < displayLayout.exactBelow) = true := decide_eq_true hsmall
  simp only [displayNumber, Layout.write, Layout.chars, h, hwhole, hbelow, Bool.and_self, if_true]

theorem displayNumber_of_not_small (hlarge : isWhole bits = true → 10 ^ 21 ≤ wholePart bits) :
    displayNumber v = String.ofList
      (Layout.signed negative (displayLayout.magnitudeChars (Decimal.shortest bits))) := by
  have hexact : (isWhole bits && decide (wholePart bits < displayLayout.exactBelow)) = false := by
    cases hwhole : isWhole bits with
    | false => rfl
    | true => exact decide_eq_false (Nat.not_lt.mpr (hlarge hwhole))
  simp only [displayNumber, Layout.write, Layout.chars, h, hexact, Bool.false_eq_true, if_false]

/-- A shown number is the signed text of a numeral, from which the number is read again. -/
theorem exists_displayNumber (hzero : v ≠ -0.0) :
    ∃ cs d, Legible cs d ∧ d.toFloat negative = v ∧
      displayNumber v = String.ofList (Layout.signed negative cs) := by
  have hbits := lt_infinityBits_of_shape h
  by_cases hsmall : isWhole bits = true ∧ wholePart bits < 10 ^ 21
  · obtain ⟨d, hd, hnearest⟩ := exists_legible_wholePart hbits hsmall.1
    refine ⟨_, d, hd, toFloat_of_nearestBits h hnearest, ?_⟩
    rw [displayNumber_of_small h hsmall.1 hsmall.2, sign_eq h hzero hsmall.1]
  · obtain ⟨d, hd, hnearest⟩ := exists_legible_shortest displayLayout hbits
    refine ⟨_, d, hd, toFloat_of_nearestBits h hnearest, ?_⟩
    exact displayNumber_of_not_small h fun hwhole => Nat.not_lt.mp fun hlt => hsmall ⟨hwhole, hlt⟩

end Shown

end Gridcalc.Number
