import Gridcalc.Number.Layout
import Gridcalc.Number.Numeral
import Gridcalc.Proofs.Number.Pattern
import Gridcalc.Proofs.Number.Shortest
import Gridcalc.Proofs.Number.Spelled

/-! # Positional numerals read back

A numeral without exponent is a run of digits, perhaps with a point and more digits after it.
The digits of a double written so read back as that double.
-/

namespace Gridcalc.Number

open Gridcalc.Text

/-- Digits, and perhaps a point and more digits. -/
inductive Numeral : List Char → Decimal → Prop
  | whole {ds : List Char} (hne : ds ≠ []) (h : ∀ c ∈ ds, isAsciiDigit c = true) :
    Numeral ds ⟨digitsValue ds, 0⟩
  | fraction {ds fs : List Char} (hne : ds ≠ []) (h : ∀ c ∈ ds, isAsciiDigit c = true)
    (hf : ∀ c ∈ fs, isAsciiDigit c = true) :
    Numeral (ds ++ '.' :: fs) ⟨digitsValue (ds ++ fs), -(fs.length : Int)⟩

namespace Numeral

variable {cs : List Char} {d : Decimal}

def isNumeralChar (c : Char) : Bool := isAsciiDigit c || c == '.'

theorem exists_head (h : Numeral cs d) : ∃ c tail, cs = c :: tail ∧ isAsciiDigit c = true := by
  cases h with
  | whole hne h =>
    obtain ⟨c, tail, rfl⟩ := List.exists_cons_of_ne_nil hne
    exact ⟨c, tail, rfl, h c List.mem_cons_self⟩
  | fraction hne h hf =>
    obtain ⟨c, tail, rfl⟩ := List.exists_cons_of_ne_nil hne
    exact ⟨c, _, List.cons_append, h c List.mem_cons_self⟩

theorem isNumeralChar_of_mem (h : Numeral cs d) {c : Char} (hc : c ∈ cs) :
    isNumeralChar c = true := by
  cases h with
  | whole hne h => simp [isNumeralChar, h c hc]
  | fraction hne h hf =>
    rcases List.mem_append.mp hc with hc | hc
    · simp [isNumeralChar, h c hc]
    · rcases List.mem_cons.mp hc with rfl | hc
      · rfl
      · simp [isNumeralChar, hf c hc]

theorem spelled (h : Numeral cs d) : DecimalSpelled cs d := by
  cases h with
  | whole hne h =>
    have hdigits : ∀ c ∈ cs, isDigit c = true := fun c hc => isDigit_of_isAsciiDigit (h c hc)
    simpa using DecimalSpelled.mk (.whole hne hdigits) .none
  | fraction hne h hf =>
    have hpoint := MantissaSpelled.point (.inl hne) (fun c hc => isDigit_of_isAsciiDigit (h c hc))
      fun c hc => isDigit_of_isAsciiDigit (hf c hc)
    simpa using DecimalSpelled.mk hpoint .none

end Numeral

theorem DecimalSpelled.signed {cs : List Char} {d : Decimal} (h : DecimalSpelled cs d)
    (negative : Bool) : NumberSpelled (Layout.signed negative cs) (d.toFloat negative) := by
  cases negative with
  | false => exact .decimal .none h
  | true => exact .decimal .minus h

theorem float?_signed {cs : List Char} {d : Decimal} (h : Numeral cs d) (negative : Bool) :
    float? (String.ofList (Layout.signed negative cs)) = some (d.toFloat negative) :=
  (h.spelled.signed negative).float?_eq

theorem digitsValue_append_zeros (n k : Nat) :
    digitsValue (Nat.toDigits 10 n ++ List.replicate k '0') = n * 10 ^ k := by
  rw [digitsValue_append, digitsValue_toDigits, digitsValue_replicate_zero, List.length_replicate,
    Nat.add_zero]

theorem digitsValue_zeros_append (n k : Nat) :
    digitsValue (List.replicate k '0' ++ Nat.toDigits 10 n) = n := by
  rw [digitsValue_append, digitsValue_toDigits, digitsValue_replicate_zero, Nat.zero_mul,
    Nat.zero_add]

theorem isAsciiDigit_of_mem_replicate {k : Nat} {c : Char} (h : c ∈ List.replicate k '0') :
    isAsciiDigit c = true := by
  rw [(List.mem_replicate.mp h).2]
  decide

theorem numeral_positional (n : Nat) (e : Int) :
    ∃ d, Numeral (Layout.positional false (Nat.toDigits 10 n) e) d ∧ d.value = n * 10 ^ e := by
  rw [Layout.positional]
  split
  · rename_i h
    obtain ⟨k, rfl⟩ := Int.eq_ofNat_of_zero_le h
    simp only [Bool.false_eq_true, if_false, List.append_nil, Int.toNat_natCast]
    refine ⟨_, .whole ?_ ?_, ?_⟩
    · simp [Nat.toDigits_ne_nil]
    · intro c hc
      rcases List.mem_append.mp hc with hc | hc
      · exact isAsciiDigit_of_mem_toDigits hc
      · exact isAsciiDigit_of_mem_replicate hc
    · rw [Decimal.value, digitsValue_append_zeros]
      push_cast
      simp
  · rename_i h
    obtain ⟨k, hk⟩ := Int.eq_ofNat_of_zero_le (show 0 ≤ -e by omega)
    obtain rfl : e = -(k : Int) := by omega
    simp only [neg_neg, Int.toNat_natCast]
    -- At least one digit stands before the point, for zeros are put in front as needed.
    generalize hpadded : List.replicate (k + 1 - (Nat.toDigits 10 n).length) '0' ++
      Nat.toDigits 10 n = padded
    have hlength : k + 1 ≤ padded.length := by
      rw [← hpadded, List.length_append, List.length_replicate]
      omega
    have hdigits : ∀ c ∈ padded, isAsciiDigit c = true := by
      intro c hc
      rw [← hpadded] at hc
      rcases List.mem_append.mp hc with hc | hc
      · exact isAsciiDigit_of_mem_replicate hc
      · exact isAsciiDigit_of_mem_toDigits hc
    refine ⟨_, .fraction ?_ ?_ ?_, ?_⟩
    · rw [ne_eq, List.take_eq_nil_iff, not_or]
      constructor
      · omega
      · rintro rfl
        simp at hlength
    · exact fun c hc => hdigits c (List.mem_of_mem_take hc)
    · exact fun c hc => hdigits c (List.mem_of_mem_drop hc)
    · rw [Decimal.value, List.take_append_drop, List.length_drop, ← hpadded,
        digitsValue_zeros_append, hpadded,
        show padded.length - (padded.length - k) = k by omega]

theorem float?_positional {v : Float} {negative : Bool} {bits : Nat}
    (h : shape v = .finite negative bits) :
    float? (String.ofList (Layout.signed negative (Layout.positional false
      (Nat.toDigits 10 (Decimal.shortest bits).digits) (Decimal.shortest bits).exponent))) =
      some v := by
  obtain ⟨d, hd, hvalue⟩ :=
    numeral_positional (Decimal.shortest bits).digits (Decimal.shortest bits).exponent
  rw [float?_signed hd, Decimal.toFloat, Decimal.nearestBits_congr hvalue,
    Decimal.nearestBits_shortest (lt_infinityBits_of_shape h), ofBits_of_shape h]

end Gridcalc.Number
