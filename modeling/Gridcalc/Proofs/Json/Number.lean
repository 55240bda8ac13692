import Gridcalc.Json.Read
import Gridcalc.Json.Write
import Gridcalc.Proofs.Number.Numeral

/-! # Numbers in JSON

An integer is written without a point and without an exponent, a double always with one of them;
so each is read back as what it was. Neither begins with a zero that could be left out.
-/

namespace Gridcalc.Json

open Text (Stops isAsciiDigit takeWhile_run dropWhile_run stops_cons stops_nil)
open Number (Decimal signedInt takeExponent?)

def continuesNumber (c : Char) : Bool := isAsciiDigit c || c == '.' || c == 'e' || c == 'E'

section Ends

variable {rest : List Char}

theorem stops_isAsciiDigit (h : Stops continuesNumber rest) : Stops isAsciiDigit rest := by
  intro c hc
  have hnot := h c hc
  simp only [continuesNumber, Bool.or_eq_false_iff] at hnot
  exact hnot.1.1.1

theorem takePlaces_of_stops (h : Stops continuesNumber rest) : takePlaces rest = [] := by
  rw [takePlaces]
  rintro cs rfl
  exact absurd (h '.' rfl) (by decide)

theorem takeExponent?_of_stops (h : Stops continuesNumber rest) :
    takeExponent? isAsciiDigit rest = none := by
  cases rest with
  | nil => rfl
  | cons c rest =>
    have hnot := h c rfl
    simp only [continuesNumber, Bool.or_eq_false_iff, beq_eq_false_iff_ne] at hnot
    rw [takeExponent?]
    simp [hnot.1.2, hnot.2]

end Ends

/-- Digits, with no zero in front of others. -/
structure Whole (cs : List Char) : Prop where
  ne_nil : cs ≠ []
  digits : ∀ c ∈ cs, isAsciiDigit c = true
  zero : cs.head? = some '0' → cs = ['0']

theorem Whole.takeWhole {cs rest : List Char} (h : Whole cs) (hrest : Stops isAsciiDigit rest) :
    takeWhole (cs ++ rest) = cs := by
  obtain ⟨c, tail, rfl⟩ := List.exists_cons_of_ne_nil h.ne_nil
  by_cases hzero : c = '0'
  · have hcs := h.zero (by rw [hzero]; rfl)
    rw [hcs]
    rfl
  · rw [Json.takeWhole]
    · exact takeWhile_run h.digits hrest
    · rintro _ ⟨⟩
      exact absurd rfl hzero

theorem whole_singleton {c : Char} (h : isAsciiDigit c = true) : Whole [c] where
  ne_nil := List.cons_ne_nil c []
  digits := by simpa using h
  zero hhead := by rw [Option.some.inj hhead]

theorem head?_toDigits_ne_zero {n : Nat} (h : 0 < n) : (Nat.toDigits 10 n).head? ≠ some '0' := by
  induction n using Nat.strongRecOn with
  | ind n ih =>
    by_cases hsmall : n < 10
    · have hall : ∀ n < 10, 0 < n → n.digitChar ≠ '0' := by decide
      rw [Nat.toDigits_of_lt_base hsmall]
      simpa using hall n hsmall h
    · have hsplit : Nat.toDigits 10 (n / 10) ++ Nat.toDigits 10 (n % 10) = Nat.toDigits 10 n := by
        rw [Nat.toDigits_append_toDigits (by decide) (by omega) (Nat.mod_lt n (by decide)),
          Nat.div_add_mod]
      rw [← hsplit, List.head?_append_of_ne_nil _ Nat.toDigits_ne_nil]
      exact ih (n / 10) (by omega) (by omega)

theorem whole_toDigits (n : Nat) : Whole (Nat.toDigits 10 n) where
  ne_nil := Nat.toDigits_ne_nil
  digits _ hc := Text.isAsciiDigit_of_mem_toDigits hc
  zero hhead := by
    cases n with
    | zero => rfl
    | succ n => exact absurd hhead (head?_toDigits_ne_zero (Nat.succ_pos n))

theorem readNumber?_whole {cs rest : List Char} (h : Whole cs) (hrest : Stops continuesNumber rest)
    (negative : Bool) :
    readNumber? negative (cs ++ rest) =
      some (.int (signedInt negative (Text.digitsValue cs)), rest) := by
  simp only [readNumber?, h.takeWhole (stops_isAsciiDigit hrest), if_neg h.ne_nil,
    List.drop_left, takePlaces_of_stops hrest, if_true, takeExponent?_of_stops hrest]

/-- A number that has a fraction or an exponent, and the decimal fraction that it denotes. -/
inductive Double : List Char → Decimal → Prop
  | fraction {ds fs : List Char} (hds : Whole ds) (hne : fs ≠ [])
    (hfs : ∀ c ∈ fs, isAsciiDigit c = true) :
    Double (ds ++ '.' :: fs) ⟨Text.digitsValue (ds ++ fs), -(fs.length : Int)⟩
  | power {ds fs es : List Char} {sign : Char} (hds : Whole ds)
    (hfs : ∀ c ∈ fs, isAsciiDigit c = true) (hsign : sign = '-' ∨ sign = '+') (hne : es ≠ [])
    (hes : ∀ c ∈ es, isAsciiDigit c = true) :
    Double (ds ++ ((if fs = [] then [] else '.' :: fs) ++ 'e' :: sign :: es))
      ⟨Text.digitsValue (ds ++ fs),
        signedInt (sign == '-') (Text.digitsValue es) - (fs.length : Int)⟩

theorem takeExponent?_power {p : Char → Bool} {es rest : List Char} {sign : Char}
    (hsign : sign = '-' ∨ sign = '+') (hne : es ≠ []) (hes : ∀ c ∈ es, p c = true)
    (hrest : Stops p rest) :
    takeExponent? p ('e' :: sign :: (es ++ rest)) =
      some (signedInt (sign == '-') (Text.digitsValue es), rest) := by
  have hdigits : (es ++ rest).takeWhile p = es := takeWhile_run hes hrest
  have hdrop : (es ++ rest).dropWhile p = rest := dropWhile_run hes hrest
  rcases hsign with rfl | rfl
  · simp [takeExponent?, Number.takeSign, hdigits, hdrop, hne]
  · simp [takeExponent?, Number.takeSign, hdigits, hdrop, hne]

theorem readNumber?_double {cs rest : List Char} {d : Decimal} (h : Double cs d)
    (hrest : Stops continuesNumber rest) (negative : Bool) :
    readNumber? negative (cs ++ rest) = some (.float (d.toFloat negative), rest) := by
  cases h with
  | fraction hds hne hfs =>
    rename_i ds fs
    have hplaces : takePlaces ('.' :: (fs ++ rest)) = fs := by
      rw [takePlaces, takeWhile_run hfs (stops_isAsciiDigit hrest)]
    have hpoint : Stops isAsciiDigit ('.' :: (fs ++ rest)) := stops_cons (by decide)
    rw [List.append_assoc, List.cons_append]
    simp only [readNumber?, hds.takeWhole hpoint, if_neg hds.ne_nil, List.drop_left, hplaces,
      if_neg hne, List.drop_succ_cons, takeExponent?_of_stops hrest]
    obtain ⟨f, fs, rfl⟩ := List.exists_cons_of_ne_nil hne
    simp only [Option.getD_none, zero_sub]
  | power hds hfs hsign hne hes =>
    rename_i ds fs es sign
    have hpower := takeExponent?_power hsign hne hes (stops_isAsciiDigit hrest)
    have hletter : Stops isAsciiDigit ('e' :: sign :: (es ++ rest)) := stops_cons (by decide)
    by_cases hnone : fs = []
    · subst hnone
      have hplaces : takePlaces ('e' :: sign :: (es ++ rest)) = [] := rfl
      rw [if_pos rfl, List.nil_append, List.append_assoc, List.cons_append, List.cons_append]
      simp only [readNumber?, hds.takeWhole hletter, if_neg hds.ne_nil, List.drop_left, hplaces,
        if_true, hpower, Option.getD_some]
    · have hplaces : takePlaces ('.' :: (fs ++ 'e' :: sign :: (es ++ rest))) = fs := by
        rw [takePlaces, takeWhile_run hfs hletter]
      have hpoint : Stops isAsciiDigit ('.' :: (fs ++ 'e' :: sign :: (es ++ rest))) :=
        stops_cons (by decide)
      rw [if_neg hnone, List.append_assoc, List.cons_append, List.cons_append, List.append_assoc,
        List.cons_append, List.cons_append]
      simp only [readNumber?, hds.takeWhole hpoint, if_neg hds.ne_nil, List.drop_left, hplaces,
        if_neg hnone, List.drop_succ_cons, hpower, Option.getD_some]

theorem stripZeros_exponent (d : Decimal) : d.stripZeros.digits = 0 → d.stripZeros.exponent = 0 := by
  fun_induction Decimal.stripZeros d with
  | case1 d h => exact fun _ => rfl
  | case2 d h hzero ih => exact ih
  | case3 d h hdigit => exact fun hzero => absurd hzero h

theorem shortest_exponent (bits : Nat) :
    (Decimal.shortest bits).digits = 0 → (Decimal.shortest bits).exponent = 0 := by
  rw [Decimal.shortest]
  exact stripZeros_exponent _

theorem double_positional {n : Nat} {e : Int} (h : n = 0 → e = 0) :
    ∃ d, Double (Number.Layout.positional true (Nat.toDigits 10 n) e) d ∧
      d.value = n * 10 ^ e := by
  rw [Number.Layout.positional]
  split
  · rename_i he
    obtain ⟨k, rfl⟩ := Int.eq_ofNat_of_zero_le he
    have hwhole : Whole (Nat.toDigits 10 n ++ List.replicate k '0') := by
      refine ⟨by simp [Nat.toDigits_ne_nil], fun c hc => ?_, fun hhead => ?_⟩
      · rcases List.mem_append.mp hc with hc | hc
        · exact Text.isAsciiDigit_of_mem_toDigits hc
        · exact Number.isAsciiDigit_of_mem_replicate hc
      · rw [List.head?_append_of_ne_nil _ Nat.toDigits_ne_nil] at hhead
        rcases Nat.eq_zero_or_pos n with rfl | hn
        · obtain rfl : k = 0 := by exact_mod_cast h rfl
          rfl
        · exact absurd hhead (head?_toDigits_ne_zero hn)
    refine ⟨_, .fraction hwhole (List.cons_ne_nil '0' []) (by decide), ?_⟩
    rw [Decimal.value, Text.digitsValue_append, Number.digitsValue_append_zeros]
    have hzero : Text.digitsValue ['0'] = 0 := by decide
    simp [hzero]
  · rename_i he
    obtain ⟨k, hk⟩ := Int.eq_ofNat_of_zero_le (show 0 ≤ -e by omega)
    obtain rfl : e = -(k : Int) := by omega
    have hn : 0 < n := Nat.pos_of_ne_zero fun hn => by
      have := h hn
      omega
    simp only [neg_neg, Int.toNat_natCast]
    have hhead := head?_toDigits_ne_zero hn
    generalize hpadded : List.replicate (k + 1 - (Nat.toDigits 10 n).length) '0' ++
      Nat.toDigits 10 n = padded
    have hdigits : ∀ c ∈ padded, isAsciiDigit c = true := by
      intro c hc
      rw [← hpadded] at hc
      rcases List.mem_append.mp hc with hc | hc
      · exact Number.isAsciiDigit_of_mem_replicate hc
      · exact Text.isAsciiDigit_of_mem_toDigits hc
    have hlength : padded.length = (k + 1 - (Nat.toDigits 10 n).length) +
        (Nat.toDigits 10 n).length := by
      rw [← hpadded, List.length_append, List.length_replicate]
    have hwhole : Whole (padded.take (padded.length - k)) := by
      refine ⟨?_, fun c hc => hdigits c (List.mem_of_mem_take hc), fun hzero => ?_⟩
      · rw [ne_eq, List.take_eq_nil_iff, not_or]
        refine ⟨by omega, ?_⟩
        rintro rfl
        simp at hlength
        omega
      · -- A zero in front has been put there, and then it is the only digit before the point.
        rw [List.head?_take, if_neg (by omega), ← hpadded] at hzero
        by_cases hlong : k + 1 ≤ (Nat.toDigits 10 n).length
        · rw [Nat.sub_eq_zero_of_le hlong, List.replicate_zero, List.nil_append] at hzero
          exact absurd hzero hhead
        · rw [show padded.length - k = 1 by omega, ← hpadded]
          obtain ⟨m, hm⟩ : ∃ m, k + 1 - (Nat.toDigits 10 n).length = m + 1 :=
            ⟨k - (Nat.toDigits 10 n).length, by omega⟩
          rw [hm, List.replicate_succ, List.cons_append, List.take_succ_cons, List.take_zero]
    refine ⟨_, .fraction hwhole ?_ fun c hc => hdigits c (List.mem_of_mem_drop hc), ?_⟩
    · rw [ne_eq, List.drop_eq_nil_iff, not_le]
      omega
    · rw [Decimal.value, List.take_append_drop, List.length_drop, ← hpadded,
        Number.digitsValue_zeros_append, hpadded,
        show padded.length - (padded.length - k) = k by omega]

theorem double_scientific (width n : Nat) (e : Int) :
    ∃ d, Double (Number.Layout.scientific width (Nat.toDigits 10 n)
        (e + (Nat.toDigits 10 n).length - 1)) d ∧ d.value = n * 10 ^ e := by
  obtain ⟨c, fs, hdigits⟩ := List.exists_cons_of_ne_nil (Nat.toDigits_ne_nil (n := n) (b := 10))
  have hall : ∀ c ∈ Nat.toDigits 10 n, isAsciiDigit c = true :=
    fun c hc => Text.isAsciiDigit_of_mem_toDigits hc
  rw [hdigits] at hall
  have hlength : e + (Nat.toDigits 10 n).length - 1 = e + fs.length := by
    rw [hdigits, List.length_cons]
    push_cast
    ring
  rw [hlength]
  generalize hp : e + (fs.length : Int) = p
  let power := List.replicate (width - (Nat.toDigits 10 p.natAbs).length) '0' ++
    Nat.toDigits 10 p.natAbs
  have hpower : ∀ c ∈ power, isAsciiDigit c = true := by
    intro c hc
    rcases List.mem_append.mp hc with hc | hc
    · exact Number.isAsciiDigit_of_mem_replicate hc
    · exact Text.isAsciiDigit_of_mem_toDigits hc
  have hne : power ≠ [] := by simp [power, Nat.toDigits_ne_nil]
  have hsign : (if p < 0 then '-' else '+') = '-' ∨ (if p < 0 then '-' else '+') = '+' := by
    split <;> simp
  have hform : Number.Layout.scientific width (Nat.toDigits 10 n) p =
      [c] ++ ((if fs = [] then [] else '.' :: fs) ++
        'e' :: (if p < 0 then '-' else '+') :: power) := by
    simp [Number.Layout.scientific, hdigits, power]
  rw [hform]
  refine ⟨_, .power (whole_singleton (hall c List.mem_cons_self))
    (fun d hd => hall d (List.mem_cons_of_mem c hd)) hsign hne hpower, ?_⟩
  have hvalue : signedInt ((if p < 0 then '-' else '+') == '-') (Text.digitsValue power) = p := by
    rw [show Text.digitsValue power = p.natAbs from Number.digitsValue_zeros_append _ _]
    split
    · rw [signedInt, if_pos (by decide)]
      omega
    · rw [signedInt, if_neg (by decide)]
      omega
  rw [Decimal.value, hvalue, ← hp, List.singleton_append, ← hdigits, Text.digitsValue_toDigits]
  simp

theorem double_magnitudeChars {d : Decimal} (h : d.digits = 0 → d.exponent = 0) :
    ∃ d' : Decimal, Double (floatLayout.magnitudeChars d) d' ∧ d'.value = d.value := by
  rw [Number.Layout.magnitudeChars]
  split
  · exact double_positional h
  · exact double_scientific 2 d.digits d.exponent

end Gridcalc.Json
